import Mathlib.Data.Finset.Card
import Mathlib.Data.List.Basic
import Mathlib.Logic.Relation

/-!
# A set closed by repeated sweeps

The links are pairs of a child and its parent, in any order. A sweep adds the
children of what the set has when the sweep comes to them, and sweeps are made
until one adds nothing. What is reached is all that descends from the set.
-/

namespace Paniolo

namespace Sweeps

variable {α : Type*} [DecidableEq α]

/-- One sweep over the links. -/
def sweep (links : List (α × α)) (s : Finset α) : Finset α :=
  links.foldl (fun s link => if link.2 ∈ s then insert link.1 s else s) s

/-- Sweeps until one leaves the size as it is; none when there are more of them than allowed. -/
def close (links : List (α × α)) : Nat → Finset α → Option (Finset α)
  | 0, _ => none
  | fuel + 1, s =>
      if (sweep links s).card = s.card then some (sweep links s)
      else close links fuel (sweep links s)

/-- The second is a child of the first. -/
def Linked (links : List (α × α)) (parent child : α) : Prop := (child, parent) ∈ links

/-- What descends from a set, the set included. -/
def Descends (links : List (α × α)) (s : Finset α) (x : α) : Prop :=
  ∃ y ∈ s, Relation.ReflTransGen (Linked links) y x

theorem sweep_cons (link : α × α) (links : List (α × α)) (s : Finset α) :
    sweep (link :: links) s =
      sweep links (if link.2 ∈ s then insert link.1 s else s) := rfl

theorem subset_sweep (links : List (α × α)) (s : Finset α) : s ⊆ sweep links s := by
  induction links generalizing s with
  | nil => exact Finset.Subset.refl s
  | cons link links ih =>
      rw [sweep_cons]
      refine Finset.Subset.trans ?_ (ih _)
      split
      · exact Finset.subset_insert _ _
      · exact Finset.Subset.refl s

/-- After a sweep the children of the set are in. -/
theorem mem_sweep_of_linked {links : List (α × α)} {s : Finset α} {parent child : α}
    (h : Linked links parent child) (hparent : parent ∈ s) : child ∈ sweep links s := by
  induction links generalizing s with
  | nil => cases h
  | cons link links ih =>
      rw [sweep_cons]
      rcases List.mem_cons.mp h with rfl | h
      · rw [if_pos hparent]
        exact subset_sweep links _ (Finset.mem_insert_self _ _)
      · refine ih h ?_
        split
        · exact Finset.mem_insert_of_mem hparent
        · exact hparent

/-- A sweep adds nothing but descendants. -/
theorem descends_of_mem_sweep {links all : List (α × α)} (hall : ∀ link ∈ links, link ∈ all)
    {start s : Finset α} (hs : ∀ x ∈ s, Descends all start x) :
    ∀ x ∈ sweep links s, Descends all start x := by
  induction links generalizing s with
  | nil => exact hs
  | cons link links ih =>
      rw [sweep_cons]
      refine ih (fun l hl => hall l (List.mem_cons_of_mem _ hl)) ?_
      split
      · rename_i hparent
        intro x hx
        rcases Finset.mem_insert.mp hx with rfl | hx
        · obtain ⟨y, hy, hpath⟩ := hs link.2 hparent
          exact ⟨y, hy, hpath.tail (hall link List.mem_cons_self)⟩
        · exact hs x hx
      · exact hs

/-- A sweep adds no more than the children of the links. -/
theorem sweep_subset (links : List (α × α)) (s : Finset α) :
    sweep links s ⊆ s ∪ (links.map Prod.fst).toFinset := by
  induction links generalizing s with
  | nil => exact Finset.subset_union_left
  | cons link links ih =>
      rw [sweep_cons, List.map_cons, List.toFinset_cons]
      refine (ih _).trans ?_
      intro x hx
      rw [Finset.mem_union, Finset.mem_insert]
      rcases Finset.mem_union.mp hx with hx | hx
      · split at hx
        · rcases Finset.mem_insert.mp hx with rfl | hx
          · exact .inr (.inl rfl)
          · exact .inl hx
        · exact .inl hx
      · exact .inr (.inr hx)

/-- The links whose children are still missing become fewer with every sweep but the last. -/
theorem exists_close_of_missing {links : List (α × α)} {fuel : Nat} {s : Finset α}
    (hfuel : ((links.map Prod.fst).toFinset \ s).card < fuel) :
    ∃ t, close links fuel s = some t ∧ s ⊆ t ∧ sweep links t = t ∧
      ∀ start, (∀ x ∈ s, Descends links start x) → ∀ x ∈ t, Descends links start x := by
  induction fuel generalizing s with
  | zero => exact absurd hfuel (Nat.not_lt_zero _)
  | succ fuel ih =>
      have hsub := subset_sweep links s
      have hsound : ∀ start, (∀ x ∈ s, Descends links start x) →
          ∀ x ∈ sweep links s, Descends links start x :=
        fun start hs => descends_of_mem_sweep (fun _ h => h) hs
      by_cases hcard : (sweep links s).card = s.card
      · have heq : s = sweep links s := Finset.eq_of_subset_of_card_le hsub hcard.le
        refine ⟨sweep links s, if_pos hcard, hsub, ?_, hsound⟩
        rw [← heq, ← heq]
      · have hlt : ((links.map Prod.fst).toFinset \ sweep links s).card <
            ((links.map Prod.fst).toFinset \ s).card := by
          have hne : s ≠ sweep links s := fun h => hcard (congrArg Finset.card h.symm)
          obtain ⟨x, hx, hnot⟩ := Finset.exists_of_ssubset (hsub.ssubset_of_ne hne)
          have hchild : x ∈ (links.map Prod.fst).toFinset :=
            (Finset.mem_union.mp (sweep_subset links s hx)).resolve_left hnot
          refine Finset.card_lt_card ⟨Finset.sdiff_subset_sdiff (Finset.Subset.refl _) hsub, ?_⟩
          exact fun h => (Finset.mem_sdiff.mp (h (Finset.mem_sdiff.mpr ⟨hchild, hnot⟩))).2 hx
        obtain ⟨t, ht, hst, hfix, hdesc⟩ := ih (s := sweep links s) (by omega)
        refine ⟨t, ?_, hsub.trans hst, hfix, fun start hs => hdesc start (hsound start hs)⟩
        rw [close, if_neg hcard, ht]

/-- The sweeps come to an end, with all that descends from the set and nothing else. -/
theorem exists_close (links : List (α × α)) (s : Finset α) :
    ∃ t, close links (links.length + 1) s = some t ∧ ∀ x, x ∈ t ↔ Descends links s x := by
  have hfuel : ((links.map Prod.fst).toFinset \ s).card < links.length + 1 := by
    have hle := (Finset.card_le_card (Finset.sdiff_subset (s := (links.map Prod.fst).toFinset)
      (t := s))).trans (List.toFinset_card_le (links.map Prod.fst))
    rw [List.length_map] at hle
    exact Nat.lt_succ_of_le hle
  obtain ⟨t, ht, hst, hfix, hdesc⟩ := exists_close_of_missing hfuel
  refine ⟨t, ht, fun x => ⟨hdesc s (fun y hy => ⟨y, hy, .refl⟩) x, ?_⟩⟩
  rintro ⟨y, hy, hpath⟩
  induction hpath with
  | refl => exact hst hy
  | tail _ hlink ih =>
      rw [← hfix]
      exact mem_sweep_of_linked hlink ih

end Sweeps

end Paniolo
