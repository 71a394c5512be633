import InfixCalculator.Proofs.Results
import InfixCalculator.Text.Utf8
import Mathlib.Tactic.SplitIfs

/-!
# Reading what was written

Bytes are read as a text if and only if the text is written as these bytes (`decode_eq_ok_iff`), so
that every text has one written form and what is refused is the written form of no text.

A character is followed through its code point.  A first byte tells how many bytes follow and holds
the highest bits, and every byte that follows holds six more (`readMore_continuation`).  Read the
other way round, bytes that pass all range tests are those of a character: the ranges of the second
byte leave out the code points that fewer bytes can write, the surrogates and all that is too large.
-/

namespace InfixCalculator.Utf8

variable {n bits code more least greatest position : Nat} {byte first : UInt8}
  {bytes rest : List UInt8} {text : List Char}

/-! ## Bytes that follow -/

theorem toNat_byte (h : n < 256) : (UInt8.ofNat n).toNat = n :=
  UInt8.toNat_ofNat_of_lt h

theorem byte_eq (byte : UInt8) (h : byte.toNat = n) : UInt8.ofNat n = byte := by
  rw [← h, UInt8.ofNat_toNat]

theorem toNat_continuation (bits : Nat) : (continuation bits).toNat = 0x80 + bits % 64 :=
  toNat_byte (by omega)

theorem continuation_eq (byte : UInt8) (hleast : 0x80 ≤ byte.toNat)
    (hbits : bits % 64 = byte.toNat - 0x80) : continuation bits = byte := by
  apply UInt8.toNat_inj.1
  rw [toNat_continuation]
  omega

/-- A byte that follows adds six bits. -/
theorem readMore_continuation (hleast : least ≤ 0x80 + n % 64) (hgreatest : 0x80 + n % 64 ≤ greatest)
    (rest : List UInt8) :
    readMore least greatest (more + 1) bits (continuation n :: rest) =
      readMore 0x80 0xBF more (bits * 64 + n % 64) rest := by
  have htest : (least ≤ (continuation n).toNat && (continuation n).toNat ≤ greatest) = true := by
    rw [toNat_continuation]
    simp [hleast, hgreatest]
  rw [readMore, if_pos htest, toNat_continuation, Nat.add_sub_cancel_left]

theorem readMore_zero (bits : Nat) (bytes : List UInt8) :
    readMore least greatest 0 bits bytes = .ok bits := by
  cases bytes <;> rfl

theorem readMore_succ_eq_ok (h : readMore least greatest (more + 1) bits bytes = .ok code) :
    ∃ byte rest, bytes = byte :: rest ∧ (least ≤ byte.toNat ∧ byte.toNat ≤ greatest) ∧
      readMore 0x80 0xBF more (bits * 64 + (byte.toNat - 0x80)) rest = .ok code := by
  cases bytes with
  | nil => cases h
  | cons byte rest =>
      rw [readMore] at h
      split_ifs at h with htest
      rw [Bool.and_eq_true, decide_eq_true_eq, decide_eq_true_eq] at htest
      exact ⟨byte, rest, rfl, htest, h⟩

/-! ## First bytes -/

/-- What the first bytes of characters say. -/
theorem lead?_eq_some {more least greatest bits : Nat}
    (h : lead? first = some ⟨more, least, greatest, bits⟩) :
    (first.toNat < 0x80 ∧ more = 0 ∧ bits = first.toNat) ∨
      ((0xC2 ≤ first.toNat ∧ first.toNat < 0xE0) ∧ more = 1 ∧ bits = first.toNat - 0xC0 ∧
        least = 0x80 ∧ greatest = 0xBF) ∨
      ((0xE0 ≤ first.toNat ∧ first.toNat < 0xF0) ∧ more = 2 ∧ bits = first.toNat - 0xE0 ∧
        0x80 ≤ least ∧ greatest ≤ 0xBF ∧ (first.toNat = 0xE0 → 0xA0 ≤ least) ∧
          (first.toNat = 0xED → greatest ≤ 0x9F)) ∨
      (0xF0 ≤ first.toNat ∧ first.toNat < 0xF5) ∧ more = 3 ∧ bits = first.toNat - 0xF0 ∧
        0x80 ≤ least ∧ greatest ≤ 0xBF ∧ (first.toNat = 0xF0 → 0x90 ≤ least) ∧
          (first.toNat = 0xF4 → greatest ≤ 0x8F) := by
  simp only [lead?] at h
  split_ifs at h <;> cases h <;> omega

theorem lead?_of_toNat (h : first.toNat = n) :
    lead? first =
      if n < 0x80 then some ⟨0, 0x80, 0xBF, n⟩
      else if n < 0xC2 then none
      else if n < 0xE0 then some ⟨1, 0x80, 0xBF, n - 0xC0⟩
      else if n < 0xF0 then
        some ⟨2, if n = 0xE0 then 0xA0 else 0x80, if n = 0xED then 0x9F else 0xBF, n - 0xE0⟩
      else if n < 0xF5 then
        some ⟨3, if n = 0xF0 then 0x90 else 0x80, if n = 0xF4 then 0x8F else 0xBF, n - 0xF0⟩
      else none := by
  rw [lead?, h]

theorem decodeFrom_cons {lead : Lead} (hlead : lead? first = some lead)
    (hread : readMore lead.least lead.greatest lead.more lead.bits rest = .ok code) :
    decodeFrom position (first :: rest) =
      (decodeFrom (position + lead.more + 1) (rest.drop lead.more)).map (Char.ofNat code :: ·) := by
  rw [decodeFrom, hlead]
  simp only [hread]

/-! ## Characters -/

theorem encodeChar_ofNat (hvalid : n < 0xD800 ∨ 0xDFFF < n ∧ n < 0x110000) :
    encodeChar (Char.ofNat n) =
      if n < 0x80 then [UInt8.ofNat n]
      else if n < 0x800 then [UInt8.ofNat (0xC0 + n / 64), continuation n]
      else if n < 0x10000 then
        [UInt8.ofNat (0xE0 + n / 4096), continuation (n / 64), continuation n]
      else
        [UInt8.ofNat (0xF0 + n / 262144), continuation (n / 4096), continuation (n / 64),
          continuation n] := by
  have htoNat : (Char.ofNat n).toNat = n := by
    have hchar : n.isValidChar := hvalid
    rw [Char.ofNat, dif_pos hchar]
    rfl
  rw [encodeChar, htoNat]

/-- The bytes of a character: what the first one says is true of the others. -/
theorem encodeChar_reads (c : Char) :
    ∃ first tail lead, encodeChar c = first :: tail ∧ lead? first = some lead ∧
      lead.more = tail.length ∧
      ∀ rest, readMore lead.least lead.greatest lead.more lead.bits (tail ++ rest) =
        .ok c.toNat := by
  have hvalid : c.toNat < 0xD800 ∨ 0xDFFF < c.toNat ∧ c.toNat < 0x110000 := c.valid
  generalize hn : c.toNat = n at hvalid
  simp only [encodeChar, hn]
  split_ifs with hone htwo hthree
  · have hfirst : (UInt8.ofNat n).toNat = n := toNat_byte (by omega)
    refine ⟨_, _, ⟨0, 0x80, 0xBF, n⟩, rfl, ?_, rfl, fun rest => readMore_zero _ _⟩
    rw [lead?_of_toNat hfirst, if_pos hone]
  · have hfirst : (UInt8.ofNat (0xC0 + n / 64)).toNat = 0xC0 + n / 64 :=
      toNat_byte (by omega)
    refine ⟨_, _, ⟨1, 0x80, 0xBF, n / 64⟩, rfl, ?_, rfl, fun rest => ?_⟩
    · rw [lead?_of_toNat hfirst, if_neg (by omega), if_neg (by omega), if_pos (by omega),
        Nat.add_sub_cancel_left]
    · simp only [List.cons_append, List.nil_append]
      rw [readMore_continuation (by omega) (by omega), readMore_zero]
      congr 1
      omega
  · have hfirst : (UInt8.ofNat (0xE0 + n / 4096)).toNat = 0xE0 + n / 4096 :=
      toNat_byte (by omega)
    refine ⟨_, _, ⟨2, if 0xE0 + n / 4096 = 0xE0 then 0xA0 else 0x80,
      if 0xE0 + n / 4096 = 0xED then 0x9F else 0xBF, n / 4096⟩, rfl, ?_, rfl, fun rest => ?_⟩
    · rw [lead?_of_toNat hfirst, if_neg (by omega), if_neg (by omega), if_neg (by omega),
        if_pos (by omega), Nat.add_sub_cancel_left]
    · simp only [List.cons_append, List.nil_append]
      rw [readMore_continuation (by split_ifs <;> omega) (by split_ifs <;> omega),
        readMore_continuation (by omega) (by omega), readMore_zero]
      congr 1
      omega
  · have hfirst : (UInt8.ofNat (0xF0 + n / 262144)).toNat = 0xF0 + n / 262144 :=
      toNat_byte (by omega)
    refine ⟨_, _, ⟨3, if 0xF0 + n / 262144 = 0xF0 then 0x90 else 0x80,
      if 0xF0 + n / 262144 = 0xF4 then 0x8F else 0xBF, n / 262144⟩, rfl, ?_, rfl, fun rest => ?_⟩
    · rw [lead?_of_toNat hfirst, if_neg (by omega), if_neg (by omega), if_neg (by omega),
        if_neg (by omega), if_pos (by omega), Nat.add_sub_cancel_left]
    · simp only [List.cons_append, List.nil_append]
      rw [readMore_continuation (by split_ifs <;> omega) (by split_ifs <;> omega),
        readMore_continuation (by omega) (by omega), readMore_continuation (by omega) (by omega),
        readMore_zero]
      congr 1
      omega

/-- Bytes that are read as a character are the bytes of this character. -/
theorem encodeChar_of_reads (hlead : lead? first = some ⟨more, least, greatest, bits⟩)
    (hread : readMore least greatest more bits rest = .ok code) :
    ∃ tail later, rest = tail ++ later ∧ tail.length = more ∧
      encodeChar (Char.ofNat code) = first :: tail := by
  rcases lead?_eq_some hlead with ⟨hfirst, rfl, hbits⟩ | ⟨hfirst, rfl, hbits, hrange⟩ |
    ⟨hfirst, rfl, hbits, hrange⟩ | ⟨hfirst, rfl, hbits, hrange⟩
  · rw [readMore_zero] at hread
    have hcode := Except.ok.inj hread
    refine ⟨[], rest, rfl, rfl, ?_⟩
    rw [encodeChar_ofNat (by omega), if_pos (by omega), byte_eq first (by omega)]
  · obtain ⟨second, rest, rfl, hsecond, hread⟩ := readMore_succ_eq_ok hread
    rw [readMore_zero] at hread
    have hcode := Except.ok.inj hread
    refine ⟨[second], rest, rfl, rfl, ?_⟩
    rw [encodeChar_ofNat (by omega), if_neg (by omega), if_pos (by omega),
      byte_eq first (by omega), continuation_eq second (by omega) (by omega)]
  · obtain ⟨second, rest, rfl, hsecond, hread⟩ := readMore_succ_eq_ok hread
    obtain ⟨third, rest, rfl, hthird, hread⟩ := readMore_succ_eq_ok hread
    rw [readMore_zero] at hread
    have hcode := Except.ok.inj hread
    refine ⟨[second, third], rest, rfl, rfl, ?_⟩
    rw [encodeChar_ofNat (by omega), if_neg (by omega), if_neg (by omega), if_pos (by omega),
      byte_eq first (by omega), continuation_eq second (by omega) (by omega),
      continuation_eq third (by omega) (by omega)]
  · obtain ⟨second, rest, rfl, hsecond, hread⟩ := readMore_succ_eq_ok hread
    obtain ⟨third, rest, rfl, hthird, hread⟩ := readMore_succ_eq_ok hread
    obtain ⟨fourth, rest, rfl, hfourth, hread⟩ := readMore_succ_eq_ok hread
    rw [readMore_zero] at hread
    have hcode := Except.ok.inj hread
    refine ⟨[second, third, fourth], rest, rfl, rfl, ?_⟩
    rw [encodeChar_ofNat (by omega), if_neg (by omega), if_neg (by omega), if_neg (by omega),
      byte_eq first (by omega), continuation_eq second (by omega) (by omega),
      continuation_eq third (by omega) (by omega),
      continuation_eq fourth (by omega) (by omega)]

/-! ## Texts -/

/-- A written character is read back. -/
theorem decodeFrom_encodeChar (position : Nat) (c : Char) (rest : List UInt8) :
    decodeFrom position (encodeChar c ++ rest) =
      (decodeFrom (position + (encodeChar c).length) rest).map (c :: ·) := by
  obtain ⟨first, tail, lead, hchar, hlead, hmore, hread⟩ := encodeChar_reads c
  rw [hchar, List.cons_append, decodeFrom_cons hlead (hread rest), hmore, List.drop_left,
    Char.ofNat_toNat, List.length_cons, Nat.add_assoc]

theorem decodeFrom_encode (position : Nat) (text : List Char) :
    decodeFrom position (encode text) = .ok text := by
  induction text generalizing position with
  | nil => simp [encode, decodeFrom]
  | cons c text ih =>
      have hcons : encode (c :: text) = encodeChar c ++ encode text := rfl
      rw [hcons, decodeFrom_encodeChar, ih]
      rfl

theorem encode_of_decodeFrom (h : decodeFrom position bytes = .ok text) : bytes = encode text := by
  fun_induction decodeFrom position bytes generalizing text with
  | case1 =>
      rw [← Except.ok.inj h]
      rfl
  | case2 => cases h
  | case3 => cases h
  | case4 position first rest lead hlead code hread ih =>
      obtain ⟨later, hlater, rfl⟩ := map_eq_ok.1 h
      obtain ⟨tail, behind, rfl, hlength, hchar⟩ := encodeChar_of_reads hlead hread
      rw [← hlength, List.drop_left] at ih
      rw [← hlength, List.drop_left] at hlater
      have hcons : encode (Char.ofNat code :: later) =
        encodeChar (Char.ofNat code) ++ encode later := rfl
      rw [hcons, hchar, ← ih hlater]
      rfl

/-- Bytes are read as a text exactly if they are its written form. -/
theorem decode_eq_ok_iff : decode bytes = .ok text ↔ bytes = encode text := by
  constructor
  · exact encode_of_decodeFrom
  · rintro rfl
    exact decodeFrom_encode 0 text

end InfixCalculator.Utf8
