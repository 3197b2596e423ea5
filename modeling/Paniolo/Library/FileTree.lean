import Mathlib.Algebra.GroupWithZero.Nat
import Mathlib.Algebra.Order.BigOperators.Group.List
import Mathlib.Algebra.Order.Group.Nat

/-!
# File trees and canonical paths

A tree of directories, regular files and symbolic links, addressed by absolute
paths (lists of names). `canonicalize` walks a path from the root the way
`realpath` does: `.` and empty components stay where they are, `..` goes up,
a link is replaced by its target, and every component but the last has to be a
directory. A path that does not exist, or follows too many links, has no
canonical form.
-/

namespace Paniolo

abbrev Name := List Char

/-- What stands at a path. -/
inductive Node where
  | file
  | dir
  | link (target : List Char)
deriving DecidableEq, Repr

/-- A file tree: what stands at each absolute path. Only directories have
entries, and the root is one. -/
structure FileTree where
  node : List Name → Option Node
  root : node [] = some .dir
  parent : ∀ p n, node (p ++ [n]) ≠ none → node p = some .dir

/-- The components of a path text, empty ones included. -/
def components (path : List Char) : List Name := path.splitOn '/'

namespace FileTree

variable (t : FileTree)

def isFile (p : List Name) : Bool := t.node p == some .file

def isDir (p : List Name) : Bool := t.node p == some .dir

/-- Walks `todo` from the canonical path `done`; `follow` continues past a link. -/
def walkWith (follow : List Name → List Name → Option (List Name)) :
    List Name → List Name → Option (List Name)
  | done, [] => some done
  | done, name :: todo =>
      if name = [] ∨ name = ['.'] then
        if t.isDir done then walkWith follow done todo else none
      else if name = ['.', '.'] then
        if t.isDir done then walkWith follow done.dropLast todo else none
      else
        match t.node (done ++ [name]) with
        | none => none
        | some (.link target) =>
            follow (if target.head? = some '/' then [] else done) (components target ++ todo)
        | some _ => walkWith follow (done ++ [name]) todo

/-- The walk with at most `links` links followed. -/
def walk : Nat → List Name → List Name → Option (List Name)
  | 0 => t.walkWith fun _ _ => none
  | links + 1 => t.walkWith (walk links)

/-- The number of links `realpath` follows before it gives up. -/
def maxLinks : Nat := 40

/-- `canonicalize` of an absolute path, given by its components. -/
def canonicalize (path : List Name) : Option (List Name) := t.walk maxLinks [] path

/-- A component that names an entry, and not the directory it stands in. -/
def Named (name : Name) : Prop := name ≠ [] ∧ name ≠ ['.']

instance (name : Name) : Decidable (Named name) := inferInstanceAs (Decidable (_ ∧ _))

/-- A path that leads to a regular file ends with the name of an entry. -/
theorem named_of_walkWith {follow : List Name → List Name → Option (List Name)}
    {p : List Name} (hp : t.isFile p = true)
    (hfollow : ∀ done todo name, follow done (todo ++ [name]) = some p → Named name)
    (todo : List Name) (name : Name) {done : List Name}
    (h : t.walkWith follow done (todo ++ [name]) = some p) : Named name := by
  induction todo generalizing done with
  | nil =>
      by_contra hn
      rw [Named, not_and_or, not_not, not_not] at hn
      rw [List.nil_append, walkWith, if_pos hn] at h
      split_ifs at h with hdir
      rw [walkWith, Option.some.injEq] at h
      subst h
      rw [isFile, beq_iff_eq] at hp
      rw [isDir, beq_iff_eq, hp] at hdir
      cases hdir
  | cons n todo ih =>
      rw [List.cons_append, walkWith] at h
      split_ifs at h
      · exact ih h
      · exact ih h
      · cases hnode : t.node (done ++ [n]) with
        | none =>
            rw [hnode] at h
            cases h
        | some node =>
            rw [hnode] at h
            cases node with
            | link target =>
                dsimp only at h
                rw [← List.append_assoc] at h
                exact hfollow _ _ _ h
            | file | dir => exact ih h

theorem named_of_walk {links : Nat} {p : List Name} (hp : t.isFile p = true)
    {todo : List Name} {name : Name} {done : List Name}
    (h : t.walk links done (todo ++ [name]) = some p) : Named name := by
  induction links generalizing done todo name with
  | zero => exact t.named_of_walkWith hp (fun _ _ _ h => by cases h) todo name h
  | succ links ih => exact t.named_of_walkWith hp (fun _ _ _ h => ih h) todo name h

section Only

/-- The tree with one regular file, at `p`, and the directories above it. -/
def only (p : List Name) (hp : p ≠ []) : FileTree where
  node q := if q = p then some .file else if q <+: p then some .dir else none
  root := by
    rw [if_neg (fun h => hp h.symm), if_pos List.nil_prefix]
  parent q n h := by
    have hpre : q ++ [n] <+: p := by
      by_contra hpre
      have hne : q ++ [n] ≠ p := fun h => hpre (h ▸ List.prefix_rfl)
      rw [if_neg hne, if_neg hpre] at h
      exact h rfl
    have hlt : q.length < p.length := by
      have := hpre.length_le
      rw [List.length_append] at this
      exact this
    have hne : q ≠ p := fun h => absurd (congrArg List.length h) (Nat.ne_of_lt hlt)
    rw [if_neg hne, if_pos ((List.prefix_append q [n]).trans hpre)]

variable {p : List Name} (hp : p ≠ [])

theorem node_only_ne_link (q : List Name) (target : List Char) :
    (only p hp).node q ≠ some (.link target) := by
  dsimp only [only]
  split_ifs <;> simp

theorem isFile_only : (only p hp).isFile p = true := by
  rw [isFile, beq_iff_eq]
  exact if_pos rfl

theorem isDir_only {q : List Name} (hq : q <+: p) (hne : q ≠ p) :
    (only p hp).isDir q = true := by
  rw [isDir, beq_iff_eq]
  exact (if_neg hne).trans (if_pos hq)

/-- The entries that a path without `..` goes through. -/
def entries (path : List Name) : List Name := path.filter fun n => decide (Named n)

theorem entries_cons_of_named {name : Name} (h : Named name) (path : List Name) :
    entries (name :: path) = name :: entries path := List.filter_cons_of_pos (decide_eq_true h)

theorem entries_cons_of_not_named {name : Name} (h : ¬Named name) (path : List Name) :
    entries (name :: path) = entries path :=
  List.filter_cons_of_neg (by rw [decide_eq_true_eq]; exact h)

theorem walkWith_only_cons_named (follow : List Name → List Name → Option (List Name))
    {name : Name} {todo done : List Name} (hne : name ≠ ['.', '.']) (hn : Named name)
    (h : done ++ name :: entries todo = p) :
    (only p hp).walkWith follow done (name :: todo) =
      (only p hp).walkWith follow (done ++ [name]) todo := by
  have hn' : ¬(name = [] ∨ name = ['.']) := not_or.mpr hn
  rw [walkWith, if_neg hn', if_neg hne]
  have hpre : done ++ [name] <+: p := ⟨entries todo, by rw [← h, List.append_assoc]; rfl⟩
  cases hnode : (only p hp).node (done ++ [name]) with
  | none =>
      dsimp only [only] at hnode
      split_ifs at hnode
  | some node =>
      cases node with
      | link target => exact absurd hnode (node_only_ne_link hp _ _)
      | file | dir => rfl

/-- A path with the right entries, the last component one of them, leads to the file. -/
theorem walkWith_only (follow : List Name → List Name → Option (List Name)) {todo : List Name}
    {last : Name} (hup : ['.', '.'] ∉ todo ++ [last]) (hlast : Named last) {done : List Name}
    (h : done ++ entries (todo ++ [last]) = p) :
    (only p hp).walkWith follow done (todo ++ [last]) = some p := by
  induction todo generalizing done with
  | nil =>
      have hne : last ≠ ['.', '.'] := fun hm => hup (hm ▸ List.mem_singleton_self _)
      rw [List.nil_append, entries_cons_of_named hlast] at h
      rw [List.nil_append, walkWith_only_cons_named hp follow hne hlast h, walkWith, ← h]
      rfl
  | cons name todo ih =>
      rw [List.cons_append] at h hup ⊢
      have hup' : ['.', '.'] ∉ todo ++ [last] := fun hm => hup (List.mem_cons_of_mem _ hm)
      have hne : name ≠ ['.', '.'] := fun hm => hup (hm ▸ List.mem_cons_self)
      by_cases hn : Named name
      · rw [entries_cons_of_named hn] at h
        rw [walkWith_only_cons_named hp follow hne hn h]
        apply ih hup'
        rw [List.append_assoc]
        exact h
      · rw [entries_cons_of_not_named hn] at h
        have hmem : last ∈ entries (todo ++ [last]) :=
          List.mem_filter.mpr ⟨List.mem_append_right _ List.mem_cons_self, decide_eq_true hlast⟩
        have hdone : done ≠ p := by
          intro hd
          have hnil := List.append_right_eq_self.mp (h.trans hd.symm)
          rw [hnil] at hmem
          cases hmem
        have hdir := isDir_only hp ⟨_, h⟩ hdone
        rw [Named, not_and_or, not_not, not_not] at hn
        rw [walkWith, if_pos hn, if_pos hdir]
        exact ih hup' h

theorem walk_only (links : Nat) {todo : List Name} {last : Name}
    (hup : ['.', '.'] ∉ todo ++ [last]) (hlast : Named last)
    (h : entries (todo ++ [last]) = p) :
    (only p hp).walk links [] (todo ++ [last]) = some p := by
  cases links with
  | zero => exact walkWith_only hp _ hup hlast h
  | succ links => exact walkWith_only hp _ hup hlast h

end Only

section Weight

/-! A weight on characters that the separator and the dot do not carry. -/

variable (w : Char → Nat)

def weight (path : List Name) : Nat := (path.map fun name => (name.map w).sum).sum

theorem weight_append (p q : List Name) : weight w (p ++ q) = weight w p + weight w q := by
  rw [weight, List.map_append, List.sum_append]
  rfl

theorem weight_cons (name : Name) (p : List Name) :
    weight w (name :: p) = (name.map w).sum + weight w p := by
  rw [weight, List.map_cons, List.sum_cons]
  rfl

theorem weight_dropLast_le (p : List Name) : weight w p.dropLast ≤ weight w p :=
  ((List.dropLast_sublist p).map _).sum_le_sum fun _ _ => Nat.zero_le _

variable {w}

theorem weight_components (hslash : w '/' = 0) (path : List Char) :
    weight w (components path) = (path.map w).sum := by
  induction path with
  | nil => rfl
  | cons c path ih =>
      rw [components, List.splitOn] at ih ⊢
      rw [List.splitOnP_cons_eq_if_modifyHead, List.map_cons, List.sum_cons]
      split_ifs with hc
      · rw [eq_of_beq hc, hslash, Nat.zero_add, weight_cons, ih]
        exact Nat.zero_add _
      · obtain ⟨n, ns, hns⟩ := List.exists_cons_of_ne_nil (List.splitOnP_ne_nil (· == '/') path)
        rw [hns, weight_cons] at ih
        rw [hns, List.modifyHead_cons, weight_cons, List.map_cons, List.sum_cons, Nat.add_assoc, ih]

theorem weight_entries (hdot : w '.' = 0) (path : List Name) :
    weight w (entries path) = weight w path := by
  induction path with
  | nil => rfl
  | cons name path ih =>
      by_cases hn : Named name
      · rw [entries_cons_of_named hn, weight_cons, weight_cons, ih]
      · rw [entries_cons_of_not_named hn, weight_cons, ih]
        rw [Named, not_and_or, not_not, not_not] at hn
        rcases hn with rfl | rfl
        · exact (Nat.zero_add _).symm
        · rw [List.map_singleton, List.sum_singleton, hdot, Nat.zero_add]

/-- Without links a walk ends no heavier than where it started and what it walked. -/
theorem weight_walkWith_le (hlink : ∀ p target, t.node p ≠ some (.link target))
    (follow : List Name → List Name → Option (List Name)) {todo done q : List Name}
    (h : t.walkWith follow done todo = some q) : weight w q ≤ weight w done + weight w todo := by
  induction todo generalizing done with
  | nil =>
      rw [walkWith, Option.some.injEq] at h
      rw [← h]
      exact Nat.le_add_right _ _
  | cons name todo ih =>
      rw [weight_cons]
      rw [walkWith] at h
      split_ifs at h
      · have := ih h
        omega
      · have := ih h
        have := weight_dropLast_le w done
        omega
      · cases hnode : t.node (done ++ [name]) with
        | none =>
            rw [hnode] at h
            cases h
        | some node =>
            rw [hnode] at h
            cases node with
            | link target => exact absurd hnode (hlink _ _)
            | file | dir =>
                have := ih h
                rw [weight_append, weight_cons] at this
                rw [← Nat.add_assoc]
                exact this

theorem weight_walk_le (hlink : ∀ p target, t.node p ≠ some (.link target)) {links : Nat}
    {todo q : List Name} (h : t.walk links [] todo = some q) : weight w q ≤ weight w todo := by
  rw [← Nat.zero_add (weight w todo)]
  cases links with
  | zero => exact t.weight_walkWith_le hlink _ h
  | succ links => exact t.weight_walkWith_le hlink _ h

end Weight

end FileTree

end Paniolo
