import InfixCalculator.File.Tree
import InfixCalculator.Proofs.Path.Report

/-!
# Places in a folder

The last name of a path is looked up where the names before it lead (`exists_of_follow_concat`), so
that two paths in one folder lead to different places if they end with different names (`place_ne`).
Only `..` has to be excluded, which leads out of the folder.
-/

namespace InfixCalculator

/-- A name that stands for something in the folder where it is looked up. -/
def Path.EndsInside (path : Path) : Prop :=
  path.name ≠ [] ∧ path.name ≠ "..".toList

theorem Path.EndsInside.names_eq {path : Path} (h : path.EndsInside) :
    path.names = path.folder.names ++ [path.name] := by
  have hne : path.names ≠ [] := by
    intro hnil
    refine h.1 ?_
    rw [name, hnil]
    rfl
  rw [folder, name, List.getLast?_eq_some_getLast hne]
  exact (List.dropLast_concat_getLast hne).symm

/-- A path is told by its folder and its last name. -/
theorem Path.EndsInside.eq_iff {path other : Path} (h : path.EndsInside) (hother : other.EndsInside) :
    path = other ↔ path.folder = other.folder ∧ path.name = other.name := by
  refine ⟨fun heq => heq ▸ ⟨rfl, rfl⟩, ?_⟩
  rintro ⟨hfolder, hname⟩
  have hnames : path.names = other.names := by
    rw [h.names_eq, hother.names_eq, hfolder, hname]
  have hroot : path.folder.root = other.folder.root := by rw [hfolder]
  calc path
      = ⟨path.folder.root, path.names⟩ := rfl
    _ = ⟨other.folder.root, other.names⟩ := by rw [hroot, hnames]
    _ = other := rfl

namespace File.Tree

variable {tree : Tree} {here place other : Place} {names : List (List Char)} {name : List Char}
  {first second : Path}

/-- The last of some names is looked up where the others lead. -/
theorem exists_of_follow_concat (hname : name ≠ "..".toList)
    (h : tree.follow here (names ++ [name]) = .ok place) :
    ∃ folder, tree.follow here names = .ok folder ∧ place = folder ++ [name] := by
  induction names generalizing here with
  | nil =>
      rw [List.nil_append, follow] at h
      split_ifs at h
      exact ⟨here, rfl, (Except.ok.inj h).symm⟩
  | cons next names ih =>
      rw [List.cons_append, follow] at h
      rw [follow]
      split_ifs at h ⊢
      · exact ih h
      · exact ih h

theorem follow_of_place (h : tree.place first = .ok place) :
    tree.follow [] first.names = .ok place := by
  unfold Tree.place at h
  split_ifs at h
  exact h

/-- Paths in one folder that end with different names lead to different places. -/
theorem place_ne (hfolder : first.folder = second.folder) (hname : first.name ≠ second.name)
    (hfirst : first.EndsInside) (hsecond : second.EndsInside)
    (hplace : tree.place first = .ok place) (hother : tree.place second = .ok other) :
    place ≠ other := by
  have hfollow := follow_of_place hplace
  rw [hfirst.names_eq, hfolder] at hfollow
  have hfollow' := follow_of_place hother
  rw [hsecond.names_eq] at hfollow'
  obtain ⟨here, hhere, rfl⟩ := exists_of_follow_concat hfirst.2 hfollow
  obtain ⟨there, hthere, rfl⟩ := exists_of_follow_concat hsecond.2 hfollow'
  obtain rfl : here = there := Except.ok.inj (hhere.symm.trans hthere)
  intro heq
  exact hname (List.singleton_inj.1 (List.append_cancel_left heq))

end File.Tree

end InfixCalculator
