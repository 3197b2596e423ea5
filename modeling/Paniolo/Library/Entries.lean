import Mathlib.Data.List.Basic

/-!
# Numbered entries

A list of entries that are known by their numbers, of which one is changed at a
time and new ones are put at the end: what holds of every entry, and how many
there are of a kind.
-/

namespace Paniolo

namespace Entries

variable {α : Type*} {l : List α} {P : Nat → α → Prop} {i : Nat} {a : α}

theorem forall_set (hi : P i a) (hne : ∀ j b, j ≠ i → l[j]? = some b → P j b) :
    ∀ j b, (l.set i a)[j]? = some b → P j b := by
  intro j b h
  by_cases hij : i = j
  · subst hij
    obtain ⟨hlt, -⟩ := List.getElem?_eq_some_iff.mp h
    rw [List.length_set] at hlt
    rw [List.getElem?_set_self hlt] at h
    cases h
    exact hi
  · rw [List.getElem?_set_ne hij] at h
    exact hne j b (Ne.symm hij) h

theorem forall_modify {f : α → α} (hi : ∀ b, l[i]? = some b → P i (f b))
    (hne : ∀ j b, j ≠ i → l[j]? = some b → P j b) :
    ∀ j b, (l.modify i f)[j]? = some b → P j b := by
  intro j b h
  by_cases hij : i = j
  · subst hij
    rw [List.getElem?_modify_eq] at h
    obtain ⟨c, hc, rfl⟩ := Option.map_eq_some_iff.mp h
    exact hi c hc
  · rw [List.getElem?_modify_ne f l hij] at h
    exact hne j b (Ne.symm hij) h

theorem forall_concat (ha : P l.length a) (h : ∀ j b, l[j]? = some b → P j b) :
    ∀ j b, (l ++ [a])[j]? = some b → P j b := by
  intro j b hj
  by_cases hlt : j < l.length
  · rw [List.getElem?_append_left hlt] at hj
    exact h j b hj
  · obtain ⟨hle, -⟩ := List.getElem?_eq_some_iff.mp hj
    rw [List.length_append, List.length_singleton] at hle
    obtain rfl : j = l.length := by omega
    rw [List.getElem?_concat_length] at hj
    cases hj
    exact ha

theorem countP_set (h : l[i]? = some a) (b : α) (p : α → Bool) :
    (l.set i b).countP p + (if p a then 1 else 0) = l.countP p + if p b then 1 else 0 := by
  obtain ⟨hi, rfl⟩ := List.getElem?_eq_some_iff.mp h
  have hpos : (if p l[i] then 1 else 0) ≤ l.countP p := by
    split
    next hp => exact List.countP_pos_iff.mpr ⟨_, List.getElem_mem hi, hp⟩
    next => exact Nat.zero_le _
  rw [List.countP_set hi]
  omega

theorem countP_modify {f : α → α} {p : α → Bool} (h : ∀ b, p (f b) = p b) (i : Nat) :
    (l.modify i f).countP p = l.countP p := by
  induction l generalizing i with
  | nil => cases i <;> rfl
  | cons b l ih =>
      cases i with
      | zero => rw [List.modify_zero_cons, List.countP_cons, List.countP_cons, h]
      | succ i => rw [List.modify_succ_cons, List.countP_cons, List.countP_cons, ih]

end Entries

end Paniolo
