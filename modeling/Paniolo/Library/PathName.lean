import Mathlib.Tactic

/-!
# Components of a path

`Path::components` of a Unix path: the root, if the path begins there, and the
names between the slashes. Repeated slashes count once, and `.` counts only at
the beginning. Two paths are equal if their components are.
-/

namespace Paniolo

namespace PathName

inductive Component where
  | rootDir
  | curDir
  | parentDir
  | normal (name : List Char)
deriving DecidableEq, Repr

/-- The component of what stands between two slashes, if it is one. -/
def ofSegment (segment : List Char) : Option Component :=
  if segment = [] ∨ segment = ['.'] then none
  else if segment = ['.', '.'] then some .parentDir
  else some (.normal segment)

/-- The component that only the beginning of a path has. -/
def prefixOf (path : List Char) : List Component :=
  if path.head? = some '/' then [.rootDir]
  else if (path.splitOn '/').head? = some ['.'] then [.curDir]
  else []

/-- `Path::components`. -/
def components (path : List Char) : List Component :=
  prefixOf path ++ (path.splitOn '/').filterMap ofSegment

/-- `Path::parent`, on the components. -/
def parent (path : List Component) : Option (List Component) :=
  match path.getLast? with
  | none => none
  | some last => if last = .rootDir then none else some path.dropLast

/-- A file is directly in the directory that is its parent. -/
theorem parent_eq_some_iff {path dir : List Component} :
    parent path = some dir ↔ ∃ file, file ≠ .rootDir ∧ path = dir ++ [file] := by
  constructor
  · intro h
    rw [parent] at h
    split at h
    · cases h
    · rename_i last hlast
      split at h
      · cases h
      · rename_i hroot
        refine ⟨last, hroot, ?_⟩
        rw [← Option.some.inj h]
        exact (List.dropLast_append_getLast? last hlast).symm
  · rintro ⟨file, hroot, rfl⟩
    rw [parent, List.getLast?_concat]
    dsimp only
    rw [if_neg hroot, List.dropLast_concat]

end PathName

end Paniolo
