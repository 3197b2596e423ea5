import Mathlib.Data.List.Sort
import Mathlib.Data.String.Basic

/-!
# Maps with their entries in the order of the keys

A `BTreeMap`: a list of entries whose keys increase strictly, so that a key
stands there once and two maps with the same entries are equal. Iteration is
the list itself.
-/

namespace Paniolo

/-- A finite map whose entries are listed in the order of their keys. -/
@[ext]
structure OrderedMap (K α : Type*) [LinearOrder K] where
  entries : List (K × α)
  sorted : (entries.map Prod.fst).Pairwise (· < ·)

namespace OrderedMap

variable {K α : Type*} [LinearOrder K]

instance [DecidableEq α] : DecidableEq (OrderedMap K α) := fun m n =>
  decidable_of_iff (m.entries = n.entries) ⟨OrderedMap.ext, fun h => h ▸ rfl⟩

def empty : OrderedMap K α := ⟨[], List.Pairwise.nil⟩

instance : Inhabited (OrderedMap K α) := ⟨empty⟩

def keys (m : OrderedMap K α) : List K := m.entries.map Prod.fst

def isEmpty (m : OrderedMap K α) : Bool := m.entries.isEmpty

/-- The value at a key of a list of entries. -/
def lookup (k : K) : List (K × α) → Option α
  | [] => none
  | e :: l => if e.1 = k then some e.2 else lookup k l

def get? (m : OrderedMap K α) (k : K) : Option α := lookup k m.entries

def contains (m : OrderedMap K α) (k : K) : Bool := (m.get? k).isSome

/-- Put an entry at its place, over the one with the same key. -/
def insertEntry (k : K) (v : α) : List (K × α) → List (K × α)
  | [] => [(k, v)]
  | e :: l =>
      if k < e.1 then (k, v) :: e :: l
      else if k = e.1 then (k, v) :: l
      else e :: insertEntry k v l

theorem mem_keys_insertEntry {k x : K} {v : α} {l : List (K × α)} :
    x ∈ (insertEntry k v l).map Prod.fst ↔ x = k ∨ x ∈ l.map Prod.fst := by
  induction l with
  | nil => exact List.mem_cons
  | cons e l ih =>
      rw [insertEntry]
      split
      · exact List.mem_cons
      · split
        · rename_i h
          simp only [List.map_cons, List.mem_cons, ← h]
          tauto
        · simp only [List.map_cons, List.mem_cons] at ih ⊢
          rw [ih]
          tauto

theorem sorted_insertEntry (k : K) (v : α) {l : List (K × α)}
    (h : (l.map Prod.fst).Pairwise (· < ·)) :
    ((insertEntry k v l).map Prod.fst).Pairwise (· < ·) := by
  induction l with
  | nil => exact List.pairwise_singleton _ _
  | cons e l ih =>
      rw [List.map_cons, List.pairwise_cons] at h
      rw [insertEntry]
      split
      · rename_i hlt
        rw [List.map_cons, List.map_cons, List.pairwise_cons, List.pairwise_cons]
        refine ⟨fun x hx => ?_, h⟩
        rcases List.mem_cons.mp hx with rfl | hx
        · exact hlt
        · exact hlt.trans (h.1 x hx)
      · split
        · rename_i heq
          rw [List.map_cons, List.pairwise_cons]
          exact ⟨fun x hx => by rw [heq]; exact h.1 x hx, h.2⟩
        · rename_i hlt hne
          rw [List.map_cons, List.pairwise_cons]
          refine ⟨fun x hx => ?_, ih h.2⟩
          rcases mem_keys_insertEntry.mp hx with rfl | hx
          · exact lt_of_le_of_ne (not_lt.mp hlt) (Ne.symm hne)
          · exact h.1 x hx

/-- `BTreeMap::insert`. -/
def insert (m : OrderedMap K α) (k : K) (v : α) : OrderedMap K α :=
  ⟨insertEntry k v m.entries, sorted_insertEntry k v m.sorted⟩

/-- `BTreeMap::remove`. -/
def erase (m : OrderedMap K α) (k : K) : OrderedMap K α :=
  ⟨m.entries.filter fun e => e.1 ≠ k,
    m.sorted.sublist (List.filter_sublist.map Prod.fst)⟩

theorem lookup_insertEntry (k x : K) (v : α) {l : List (K × α)}
    (h : (l.map Prod.fst).Pairwise (· < ·)) :
    lookup x (insertEntry k v l) = if k = x then some v else lookup x l := by
  induction l with
  | nil => rfl
  | cons e l ih =>
      rw [List.map_cons, List.pairwise_cons] at h
      rw [insertEntry]
      split
      · rfl
      · split
        · rename_i heq
          rw [lookup, lookup, ← heq]
          split <;> rfl
        · rename_i hlt hne
          rw [lookup, ih h.2, lookup]
          by_cases hx : e.1 = x
          · rw [if_pos hx, if_pos hx, if_neg fun hk => hne (hk.trans hx.symm)]
          · rw [if_neg hx, if_neg hx]

theorem get?_insert (m : OrderedMap K α) (k x : K) (v : α) :
    (m.insert k v).get? x = if k = x then some v else m.get? x :=
  lookup_insertEntry k x v m.sorted

@[simp]
theorem get?_insert_self (m : OrderedMap K α) (k : K) (v : α) :
    (m.insert k v).get? k = some v := by
  rw [get?_insert, if_pos rfl]

theorem lookup_eq_some_iff {k : K} {v : α} {l : List (K × α)}
    (h : (l.map Prod.fst).Pairwise (· < ·)) : lookup k l = some v ↔ (k, v) ∈ l := by
  induction l with
  | nil =>
      constructor
      · intro hv
        cases hv
      · intro hv
        cases hv
  | cons e l ih =>
      rw [List.map_cons, List.pairwise_cons] at h
      rw [lookup, List.mem_cons]
      split
      · rename_i heq
        constructor
        · intro hv
          exact Or.inl (Prod.ext heq.symm (Option.some.inj hv).symm)
        · rintro (rfl | hmem)
          · rfl
          · have := h.1 k (List.mem_map_of_mem hmem)
            rw [heq] at this
            exact absurd this (lt_irrefl k)
      · rename_i hne
        rw [ih h.2]
        constructor
        · exact Or.inr
        · rintro (rfl | hmem)
          · exact absurd rfl hne
          · exact hmem

/-- What stands at a key is what the entry of it says. -/
theorem get?_eq_some_iff {m : OrderedMap K α} {k : K} {v : α} :
    m.get? k = some v ↔ (k, v) ∈ m.entries :=
  lookup_eq_some_iff m.sorted

theorem get?_eq_none_of_notMem {m : OrderedMap K α} {k : K} (h : k ∉ m.keys) :
    m.get? k = none := by
  cases hv : m.get? k with
  | none => rfl
  | some v => exact absurd (List.mem_map_of_mem (get?_eq_some_iff.mp hv)) h

theorem insertEntry_of_lt {k : K} {v : α} {l : List (K × α)} (h : ∀ x ∈ l.map Prod.fst, x < k) :
    insertEntry k v l = l ++ [(k, v)] := by
  induction l with
  | nil => rfl
  | cons e l ih =>
      have he : e.1 < k := h e.1 List.mem_cons_self
      rw [insertEntry, if_neg (lt_asymm he), if_neg (ne_of_gt he),
        ih fun x hx => h x (List.mem_cons_of_mem _ hx), List.cons_append]

/-- An entry with a larger key than all others is added at the end. -/
theorem entries_insert_of_lt {m : OrderedMap K α} {k : K} {v : α} (h : ∀ x ∈ m.keys, x < k) :
    (m.insert k v).entries = m.entries ++ [(k, v)] :=
  insertEntry_of_lt h

/-- In a list of increasing keys, the keys before an entry are smaller. -/
theorem lt_of_mem_keys {m : OrderedMap K α} {e : K × α} {l : List (K × α)}
    (h : ((m.entries ++ e :: l).map Prod.fst).Pairwise (· < ·)) : ∀ x ∈ m.keys, x < e.1 := by
  intro x hx
  rw [List.map_append, List.pairwise_append] at h
  exact h.2.2 x hx e.1 (List.mem_map_of_mem List.mem_cons_self)

theorem lookup_filter (k x : K) (l : List (K × α)) :
    lookup x (l.filter fun e => e.1 ≠ k) = if k = x then none else lookup x l := by
  induction l with
  | nil => exact (ite_self _).symm
  | cons e l ih =>
      by_cases he : e.1 = k
      · rw [List.filter_cons_of_neg (by rw [decide_eq_true_eq]; exact not_not.mpr he), ih]
        split
        · rfl
        · next hx => rw [lookup, if_neg fun h => hx (he.symm.trans h)]
      · rw [List.filter_cons_of_pos (by rw [decide_eq_true_eq]; exact he), lookup, ih, lookup]
        by_cases hx : e.1 = x
        · rw [if_pos hx, if_pos hx, if_neg fun h => he (hx.trans h.symm)]
        · rw [if_neg hx, if_neg hx]

theorem get?_erase (m : OrderedMap K α) (k x : K) :
    (m.erase k).get? x = if k = x then none else m.get? x :=
  lookup_filter k x m.entries

/-- A key has one value. -/
theorem eq_of_mem {m : OrderedMap K α} {k : K} {v w : α} (hv : (k, v) ∈ m.entries)
    (hw : (k, w) ∈ m.entries) : v = w :=
  Option.some.inj ((get?_eq_some_iff.mpr hv).symm.trans (get?_eq_some_iff.mpr hw))

theorem perm_insertEntry {k : K} {v : α} {l : List (K × α)} (h : lookup k l = none) :
    (insertEntry k v l).Perm ((k, v) :: l) := by
  induction l with
  | nil => exact List.Perm.refl _
  | cons e l ih =>
      rw [lookup] at h
      split at h
      · cases h
      · next hne =>
          rw [insertEntry]
          split
          · exact List.Perm.refl _
          · rw [if_neg fun heq => hne heq.symm]
            exact ((ih h).cons e).trans (List.Perm.swap (k, v) e l)

/-- A new key adds its entry. -/
theorem perm_insert {m : OrderedMap K α} {k : K} {v : α} (h : m.get? k = none) :
    (m.insert k v).entries.Perm ((k, v) :: m.entries) :=
  perm_insertEntry h

/-- An entry, and the others. -/
theorem perm_erase {m : OrderedMap K α} {k : K} {v : α} (h : m.get? k = some v) :
    m.entries.Perm ((k, v) :: (m.erase k).entries) := by
  obtain ⟨entries, sorted⟩ := m
  change lookup k entries = some v at h
  change entries.Perm ((k, v) :: entries.filter fun e => e.1 ≠ k)
  induction entries with
  | nil => cases h
  | cons e l ih =>
      rw [List.map_cons, List.pairwise_cons] at sorted
      rw [lookup] at h
      split at h
      · next heq =>
          have he : e = (k, v) := Prod.ext heq (Option.some.inj h)
          have hrest : l.filter (fun e => e.1 ≠ k) = l := by
            apply List.filter_eq_self.mpr
            intro x hx
            have hlt := sorted.1 x.1 (List.mem_map_of_mem hx)
            rw [heq] at hlt
            exact decide_eq_true (ne_of_gt hlt)
          rw [List.filter_cons_of_neg (by rw [decide_eq_true_eq]; exact not_not.mpr heq), hrest, he]
      · next hne =>
          rw [List.filter_cons_of_pos (by rw [decide_eq_true_eq]; exact hne)]
          exact ((ih sorted.2 h).cons e).trans (List.Perm.swap (k, v) e _)

end OrderedMap

end Paniolo
