import Mathlib.Data.List.Basic

/-!
# Chunks of a slice

`slice::chunks` and `slice::as_chunks`, and what is found block by block in two
buffers of different strides: the same as item by item.
-/

namespace Paniolo

variable {α β γ : Type*}

/-- The loop of `chunks`; each round takes at least one item. -/
def chunksLoop (n : Nat) : Nat → List α → List (List α)
  | 0, _ => []
  | fuel + 1, l => if l.isEmpty then [] else l.take n :: chunksLoop n fuel (l.drop n)

/-- `slice::chunks(n)`, for a positive `n`. -/
def chunks (n : Nat) (l : List α) : List (List α) := chunksLoop n l.length l

theorem flatten_chunksLoop {n : Nat} (hn : 0 < n) {fuel : Nat} {l : List α}
    (h : l.length ≤ fuel) : (chunksLoop n fuel l).flatten = l := by
  induction fuel generalizing l with
  | zero =>
      rw [List.length_eq_zero_iff.mp (Nat.le_zero.mp h)]
      rfl
  | succ fuel ih =>
      rw [chunksLoop]
      split
      · next hempty => exact (List.isEmpty_iff.mp hempty).symm
      · have hrest : (l.drop n).length ≤ fuel := by
          rw [List.length_drop]
          omega
        rw [List.flatten_cons, ih hrest, List.take_append_drop]

/-- The chunks of a slice are all of it. -/
theorem flatten_chunks {n : Nat} (hn : 0 < n) (l : List α) : (chunks n l).flatten = l :=
  flatten_chunksLoop hn (Nat.le_refl _)

theorem length_le_of_mem_chunksLoop {n fuel : Nat} {l c : List α} (h : c ∈ chunksLoop n fuel l) :
    c.length ≤ n := by
  induction fuel generalizing l with
  | zero => cases h
  | succ fuel ih =>
      rw [chunksLoop] at h
      split at h
      · cases h
      · rcases List.mem_cons.mp h with rfl | h
        · exact List.length_take_le _ _
        · exact ih h

theorem length_le_of_mem_chunks {n : Nat} {l c : List α} (h : c ∈ chunks n l) : c.length ≤ n :=
  length_le_of_mem_chunksLoop h

/-- `slice::as_chunks`: the chunks of `n` items, and the items behind them. -/
def asChunks (n : Nat) (l : List α) : List (List α) × List α :=
  ((List.range (l.length / n)).map fun k => (l.drop (n * k)).take n, l.drop (n * (l.length / n)))

/-- A part of a slice is told by its items. -/
theorem part_congr {lo n : Nat} {l l' : List α}
    (h : ∀ i, lo ≤ i → i < lo + n → l[i]? = l'[i]?) :
    (l.drop lo).take n = (l'.drop lo).take n := by
  refine List.ext_getElem? fun i => ?_
  rw [List.getElem?_take, List.getElem?_take, List.getElem?_drop, List.getElem?_drop]
  split
  · next hi => exact h _ (Nat.le_add_right ..) (Nat.add_lt_add_left hi lo)
  · rfl

theorem getElem?_part {lo n i : Nat} (l : List α) (hi : lo ≤ i ∧ i < lo + n) :
    ((l.drop lo).take n)[i - lo]? = l[i]? := by
  rw [List.getElem?_take_of_lt (by omega), List.getElem?_drop, Nat.add_sub_cancel' hi.1]

/-- `slice::as_chunks::<3>().0`. -/
def asChunks3 : List α → List (α × α × α)
  | a :: b :: c :: l => (a, b, c) :: asChunks3 l
  | _ => []

/-- A reading of a buffer that takes `k` items for one. -/
structure Strided (k : Nat) (f : List α → List β) : Prop where
  nil : f [] = []
  take : ∀ n l, f (l.take (k * n)) = (f l).take n
  drop : ∀ n l, f (l.drop (k * n)) = (f l).drop n

theorem strided_id : Strided 1 (id : List α → List α) where
  nil := rfl
  take n l := by rw [Nat.one_mul, id, id]
  drop n l := by rw [Nat.one_mul, id, id]

theorem take_asChunks3 (n : Nat) (l : List α) :
    asChunks3 (l.take (3 * n)) = (asChunks3 l).take n := by
  induction n generalizing l with
  | zero => rfl
  | succ n ih =>
      rw [Nat.mul_succ]
      rcases l with _ | ⟨a, _ | ⟨b, _ | ⟨c, l⟩⟩⟩
      · rfl
      · rfl
      · rfl
      · exact congrArg ((a, b, c) :: ·) (ih l)

theorem drop_asChunks3 (n : Nat) (l : List α) :
    asChunks3 (l.drop (3 * n)) = (asChunks3 l).drop n := by
  induction n generalizing l with
  | zero => rfl
  | succ n ih =>
      rw [Nat.mul_succ]
      rcases l with _ | ⟨a, _ | ⟨b, _ | ⟨c, l⟩⟩⟩
      · rfl
      · rfl
      · rfl
      · exact ih l

theorem strided_asChunks3 : Strided 3 (asChunks3 : List α → List (α × α × α)) :=
  ⟨rfl, take_asChunks3, drop_asChunks3⟩

theorem length_asChunks3 (l : List α) : (asChunks3 l).length = l.length / 3 := by
  fun_induction asChunks3 l with
  | case1 a b c l ih =>
      simp only [List.length_cons, ih]
      omega
  | case2 l h =>
      rcases l with _ | ⟨a, _ | ⟨b, _ | ⟨c, l⟩⟩⟩
      · exact (by decide : 0 = 0 / 3)
      · exact (by decide : 0 = 1 / 3)
      · exact (by decide : 0 = 2 / 3)
      · exact absurd rfl (h a b c l)

variable {k n : Nat} {f : List α → List β} {p : β × γ → Bool}

theorem any_chunksLoop (hf : Strided k f) (hk : 0 < k) (hn : 0 < n) (i : Nat) :
    ∀ (j : Nat) (l : List α) (r : List γ), l.length ≤ i → r.length ≤ j →
      ((chunksLoop (k * n) i l).zip (chunksLoop n j r)).any
        (fun c => ((f c.1).zip c.2).any p) = ((f l).zip r).any p := by
  induction i with
  | zero =>
      intro j l r hl _
      rw [List.length_eq_zero_iff.mp (Nat.le_zero.mp hl), hf.nil]
      rfl
  | succ i ih =>
      intro j l r hl hr
      rw [chunksLoop]
      cases l with
      | nil =>
          rw [hf.nil]
          rfl
      | cons a l =>
          rw [List.isEmpty_cons, if_neg Bool.false_ne_true]
          cases j with
          | zero =>
              rw [List.length_eq_zero_iff.mp (Nat.le_zero.mp hr), List.zip_nil_right]
              rfl
          | succ j =>
              rw [chunksLoop]
              cases r with
              | nil =>
                  rw [List.zip_nil_right]
                  rfl
              | cons b r =>
                  have hkn : 0 < k * n := Nat.mul_pos hk hn
                  have hl' : ((a :: l).drop (k * n)).length ≤ i := by
                    rw [List.length_drop]
                    omega
                  have hr' : ((b :: r).drop n).length ≤ j := by
                    rw [List.length_drop]
                    omega
                  rw [List.isEmpty_cons, if_neg Bool.false_ne_true, List.zip_cons_cons,
                    List.any_cons, ih j _ _ hl' hr', hf.take, hf.drop]
                  simp only [List.zip_eq_zipWith]
                  rw [← List.take_zipWith, ← List.drop_zipWith, ← List.any_append,
                    List.take_append_drop]

/-- What is found in the blocks of two buffers is found in the buffers. -/
theorem any_chunks (hf : Strided k f) (hk : 0 < k) (hn : 0 < n) (l : List α) (r : List γ) :
    ((chunks (k * n) l).zip (chunks n r)).any (fun c => ((f c.1).zip c.2).any p) =
      ((f l).zip r).any p :=
  any_chunksLoop hf hk hn l.length r.length l r (Nat.le_refl _) (Nat.le_refl _)

end Paniolo
