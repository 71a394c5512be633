import InfixCalculator.File.Unpacking
import Mathlib.Data.List.Basic

/-!
# What is unpacked is found again

Where the names of members lead apart, every file among them is unpacked and found under its own name
(`exists_unpacked`).  A name leads to the same place when a member is unpacked and when it is looked
up, as long as no `..` is in it: the directories on its way are there because the file is.  The
members are unpacked one after another, and each leaves those before it where they are
(`Tree.Unpacked.add`), since no place of theirs is on the way to another.
-/

namespace InfixCalculator

theorem Path.ne_nil_of_mem_names {text name : List Char} (h : name ∈ (ofChars text).names) :
    name ≠ [] := by
  have hkept := (List.mem_filter.1 h).2
  rw [Bool.and_eq_true_iff, decide_eq_true_eq] at hkept
  exact hkept.1

namespace File

/-- Names that can be unpacked: they lead into the folder without a way back, are not too long, and
none but those of directories leads to another member or on the way to it. -/
structure Unpackable (members : List Member) : Prop where
  names : (members.map (·.name)).Nodup
  inside : ∀ member ∈ members, member.path.root = 0 ∧ "..".toList ∉ member.path.names
  short : ∀ member ∈ members, (∀ name ∈ member.path.names, Tree.isLong name = false) ∧
    (Utf8.encode member.path.toChars).length ≤ Tree.pathLimit
  apart : ∀ member ∈ members, ∀ other ∈ members, member.name ≠ other.name →
    member.path.names <+: other.path.names → member.content = none

/-- The place of the file that a member is unpacked as. -/
def Member.place (member : Member) : Place :=
  if member.content.isSome then member.path.names else member.path.names ++ [[]]

variable {tree : Tree} {here place other : Place} {names : List (List Char)} {member : Member}
  {members done : List Member} {content : Content} {bytes : List UInt8}

theorem Member.place_of_content (h : member.content = some bytes) :
    member.place = member.path.names := by
  rw [place, h]
  rfl

theorem Member.nil_not_mem_names (member : Member) : [] ∉ member.path.names := by
  intro hmem
  exact Path.ne_nil_of_mem_names hmem rfl

/-- Places of members lead through one another only where their names do. -/
theorem Member.prefix_of_place {first second : Member} (h : first.place <+: second.place) :
    first.place = second.place ∨ first.path.names <+: second.path.names ∧ first.content.isSome := by
  unfold place at h ⊢
  split_ifs at h ⊢ with hfirst hsecond
  · exact .inr ⟨h, hfirst⟩
  · rcases List.prefix_concat_iff.1 h with heq | hway
    · exact .inl heq
    · exact .inr ⟨hway, hfirst⟩
  · have hmem : [] ∈ second.path.names := h.subset (by simp)
    exact absurd hmem second.nil_not_mem_names
  · rcases List.prefix_concat_iff.1 h with heq | hway
    · exact .inl heq
    · have hmem : [] ∈ second.path.names := hway.subset (by simp)
      exact absurd hmem second.nil_not_mem_names

theorem Member.names_of_place_eq {first second : Member} (h : first.place = second.place) :
    first.path.names = second.path.names := by
  unfold place at h
  split_ifs at h
  · exact h
  · have hmem : [] ∈ first.path.names := by rw [h]; simp
    exact absurd hmem first.nil_not_mem_names
  · have hmem : [] ∈ second.path.names := by rw [← h]; simp
    exact absurd hmem second.nil_not_mem_names
  · exact List.append_cancel_right h

/-- The place of a member is not on the way to that of another one. -/
theorem Unpackable.place_eq_of_prefix {first second : Member} (h : Unpackable members)
    (hfirst : first ∈ members) (hsecond : second ∈ members) (hne : first.name ≠ second.name)
    (hway : first.place <+: second.place) : first.place = second.place := by
  refine (Member.prefix_of_place hway).resolve_right fun ⟨hnames, hsome⟩ => ?_
  rw [h.apart first hfirst second hsecond hne hnames] at hsome
  cases hsome

/-- A file has its place for itself. -/
theorem Unpackable.place_ne_of_content {first second : Member} (h : Unpackable members)
    (hfirst : first ∈ members) (hsecond : second ∈ members) (hne : first.name ≠ second.name)
    (hbytes : first.content = some bytes) : first.place ≠ second.place := by
  intro heq
  have hway : first.path.names <+: second.path.names :=
    (Member.names_of_place_eq heq).symm ▸ List.prefix_rfl
  rw [h.apart first hfirst second hsecond hne hway] at hbytes
  cases hbytes

namespace Tree

/-! ## Trees that a file is put into -/

theorem hasRoom_iff : tree.hasRoom place = true ↔
    ∀ entry ∈ tree, entry.1 = place ∨ ¬ entry.1 <+: place ∧ ¬ place <+: entry.1 := by
  simp [hasRoom, List.isPrefixOf_iff_prefix, ← Bool.not_eq_true]

theorem lookup_put_self (tree : Tree) (place : Place) (content : Content) :
    (tree.put place content).lookup place = some content := by
  rw [put, List.lookup_cons_self]

theorem lookup_put_of_ne (h : other ≠ place) :
    (tree.put place content).lookup other = tree.lookup other := by
  have hkept : (tree.filter fun entry => entry.1 ≠ place).lookup other = tree.lookup other := by
    induction tree with
    | nil => rfl
    | cons entry tree ih =>
        by_cases hentry : entry.1 = place
        · have hother : (other == entry.1) = false := by
            rw [hentry, beq_eq_false_iff_ne]
            exact h
          rw [List.filter_cons_of_neg (by simpa using hentry), ih, List.lookup_cons, hother]
        · rw [List.filter_cons_of_pos (by simpa using hentry), List.lookup_cons, List.lookup_cons,
            ih]
  rw [put, List.lookup_cons, beq_eq_false_iff_ne.2 h]
  exact hkept

theorem target?_eq (hinside : "..".toList ∉ names) (hshort : ∀ name ∈ names, isLong name = false) :
    target? here names = some (here ++ names) := by
  induction names generalizing here with
  | nil => rw [target?, List.append_nil]
  | cons name names ih =>
      obtain ⟨hname, hnames⟩ := List.forall_mem_cons.1 hshort
      rw [List.mem_cons, not_or] at hinside
      rw [target?, if_neg (Ne.symm hinside.1), if_neg (by rw [hname]; exact Bool.false_ne_true),
        ih hinside.2 hnames, List.append_assoc, List.singleton_append]

/-- A file is found where the names on the way to it lead. -/
theorem follow_eq (hmem : (here ++ names, content) ∈ tree) (hinside : "..".toList ∉ names)
    (hshort : ∀ name ∈ names, isLong name = false) :
    tree.follow here names = .ok (here ++ names) := by
  induction names generalizing here with
  | nil => rw [follow, List.append_nil]
  | cons name names ih =>
      obtain ⟨hname, hnames⟩ := List.forall_mem_cons.1 hshort
      rw [List.mem_cons, not_or] at hinside
      have hdirectory : tree.isDirectory here = true := by
        rw [isDirectory, Bool.or_eq_true, List.any_eq_true]
        exact .inr ⟨_, hmem, by simp [List.isPrefixOf_iff_prefix]⟩
      have hnext : (here ++ [name] ++ names, content) ∈ tree := by
        rwa [List.append_assoc, List.singleton_append]
      rw [follow, hdirectory, if_neg (by decide), if_neg (Ne.symm hinside.1),
        if_neg (by rw [hname]; exact Bool.false_ne_true), ih hnext hinside.2 hnames,
        List.append_assoc, List.singleton_append]

/-! ## Trees that members are unpacked into -/

/-- A tree into which members have been unpacked. -/
structure Unpacked (tree : Tree) (done : List Member) : Prop where
  places : ∀ entry ∈ tree, ∃ member ∈ done, entry.1 = member.place
  files : ∀ member ∈ done, ∀ bytes, member.content = some bytes →
    tree.lookup member.place = some ⟨bytes, none⟩

theorem add?_eq (hinside : member.path.root = 0 ∧ "..".toList ∉ member.path.names)
    (hshort : ∀ name ∈ member.path.names, isLong name = false) :
    tree.add? member = tree.putIn? member.place (member.content.getD []) := by
  rw [add?, if_pos hinside.1, target?_eq hinside.2 hshort, Option.bind_some, List.nil_append,
    Member.place]
  cases member.content <;> rfl

/-- One more member leaves those that were unpacked before where they are. -/
theorem Unpacked.add (h : tree.Unpacked done) (hall : Unpackable (member :: done)) :
    ∃ next, tree.add? member = some next ∧ next.Unpacked (member :: done) := by
  have hmember : member ∈ member :: done := List.mem_cons_self
  have hkept : ∀ other ∈ done, other ∈ member :: done ∧ other.name ≠ member.name := by
    refine fun other hother => ⟨List.mem_cons_of_mem _ hother, fun heq => ?_⟩
    exact (List.nodup_cons.1 hall.names).1 (List.mem_map.2 ⟨other, hother, heq⟩)
  have hroom : tree.hasRoom member.place = true := by
    refine hasRoom_iff.2 fun entry hentry => ?_
    obtain ⟨other, hother, hplace⟩ := h.places entry hentry
    obtain ⟨hother, hne⟩ := hkept other hother
    rw [hplace, or_iff_not_imp_left]
    intro hdiffer
    -- two directories may share a place, and of a file and another member neither is on the way
    exact ⟨fun hway => hdiffer (hall.place_eq_of_prefix hother hmember hne hway),
      fun hway => hdiffer (hall.place_eq_of_prefix hmember hother hne.symm hway).symm⟩
  refine ⟨tree.put member.place ⟨member.content.getD [], none⟩, ?_, ?_, ?_⟩
  · rw [add?_eq (hall.inside member hmember) (hall.short member hmember).1, putIn?, if_pos hroom]
  · intro entry hentry
    rcases List.mem_cons.1 hentry with rfl | hentry
    · exact ⟨member, hmember, rfl⟩
    · obtain ⟨other, hother, hplace⟩ := h.places entry (List.mem_filter.1 hentry).1
      exact ⟨other, List.mem_cons_of_mem _ hother, hplace⟩
  · intro other hother bytes hbytes
    rcases List.mem_cons.1 hother with rfl | hother
    · rw [lookup_put_self, hbytes]
      rfl
    · obtain ⟨hin, hne⟩ := hkept other hother
      rw [lookup_put_of_ne (hall.place_ne_of_content hin hmember hne hbytes)]
      exact h.files other hother bytes hbytes

theorem Unpacked.find (h : tree.Unpacked done) (hall : Unpackable done) (hmember : member ∈ done)
    (hbytes : member.content = some bytes) : tree.find member.path = .file ⟨bytes, none⟩ := by
  obtain ⟨hroot, hinside⟩ := hall.inside member hmember
  obtain ⟨hshort, hlength⟩ := hall.short member hmember
  have hlookup := h.files member hmember bytes hbytes
  rw [Member.place_of_content hbytes] at hlookup
  have hmem : (member.path.names, ⟨bytes, none⟩) ∈ tree := by
    obtain ⟨front, back, rfl, -⟩ := List.lookup_eq_some_iff.1 hlookup
    exact List.mem_append_right front List.mem_cons_self
  have hplace : tree.place member.path = .ok member.path.names := by
    rw [place, if_neg (Nat.not_lt.2 hlength), if_pos hroot]
    exact follow_eq hmem hinside hshort
  rw [Tree.find, hplace]
  simp only [hlookup]

end Tree

end File

end InfixCalculator
