/-!
# UTF-8

`encode` writes a text as bytes and `decode` reads it back.  Bytes that no text is
written as are refused with the first sequence at fault: its position, its length
and what is wrong with it.  A sequence ends before the first byte that cannot
continue it.
-/

namespace InfixCalculator.Utf8

/-! ## Writing -/

/-- A byte that continues a character with its six lowest bits. -/
def continuation (bits : Nat) : UInt8 :=
  UInt8.ofNat (0x80 + bits % 64)

/-- The bytes of a character. -/
def encodeChar (c : Char) : List UInt8 :=
  let n := c.toNat
  if n < 0x80 then [UInt8.ofNat n]
  else if n < 0x800 then [UInt8.ofNat (0xC0 + n / 64), continuation n]
  else if n < 0x10000 then
    [UInt8.ofNat (0xE0 + n / 4096), continuation (n / 64), continuation n]
  else
    [UInt8.ofNat (0xF0 + n / 262144), continuation (n / 4096), continuation (n / 64),
      continuation n]

/-- The bytes of a text. -/
def encode (text : List Char) : List UInt8 :=
  text.flatMap encodeChar

/-! ## Reading -/

/-- What is wrong with a sequence of bytes. -/
inductive Reason where
  | invalidStart
  | invalidContinuation
  | unexpectedEnd
deriving DecidableEq

/-- A sequence of bytes that is no character. -/
structure Malformed where
  position : Nat
  length : Nat
  /-- The first byte. -/
  first : UInt8
  reason : Reason
deriving DecidableEq

/-- What the first byte of a character says: how many bytes follow, the range of the next one, and
the bits of the character in this one. -/
structure Lead where
  more : Nat
  least : Nat
  greatest : Nat
  bits : Nat

/-- Reads a first byte.  The range of the next byte leaves out what a shorter sequence can write,
the surrogates, and what lies beyond the last code point. -/
def lead? (byte : UInt8) : Option Lead :=
  let b := byte.toNat
  if b < 0x80 then some ⟨0, 0x80, 0xBF, b⟩
  else if b < 0xC2 then none
  else if b < 0xE0 then some ⟨1, 0x80, 0xBF, b - 0xC0⟩
  else if b < 0xF0 then
    some ⟨2, if b = 0xE0 then 0xA0 else 0x80, if b = 0xED then 0x9F else 0xBF, b - 0xE0⟩
  else if b < 0xF5 then
    some ⟨3, if b = 0xF0 then 0x90 else 0x80, if b = 0xF4 then 0x8F else 0xBF, b - 0xF0⟩
  else none

/-- Adds the bits of following bytes; where one is wrong, tells how many are left to read. -/
def readMore (least greatest : Nat) : (more bits : Nat) → List UInt8 → Except (Reason × Nat) Nat
  | 0, bits, _ => .ok bits
  | more + 1, _, [] => .error (.unexpectedEnd, more + 1)
  | more + 1, bits, byte :: rest =>
    if least ≤ byte.toNat && byte.toNat ≤ greatest then
      readMore 0x80 0xBF more (bits * 64 + (byte.toNat - 0x80)) rest
    else .error (.invalidContinuation, more + 1)

/-- Reads bytes, the first of which has the position given. -/
def decodeFrom (position : Nat) : List UInt8 → Except Malformed (List Char)
  | [] => .ok []
  | first :: rest =>
    match lead? first with
    | none => .error ⟨position, 1, first, .invalidStart⟩
    | some lead =>
      match readMore lead.least lead.greatest lead.more lead.bits rest with
      | .error (reason, left) => .error ⟨position, lead.more + 1 - left, first, reason⟩
      | .ok code =>
        (decodeFrom (position + lead.more + 1) (rest.drop lead.more)).map (Char.ofNat code :: ·)
termination_by bytes => bytes.length
decreasing_by
  simp only [List.length_drop, List.length_cons]
  omega

/-- Reads bytes as text. -/
def decode (bytes : List UInt8) : Except Malformed (List Char) :=
  decodeFrom 0 bytes

end InfixCalculator.Utf8
