import Mathlib.Data.List.Basic
import Mathlib.Order.Basic

/-!
# An order-preserving lossy queue

A queue of messages in flight that may lose any message and repeat any message
next to itself, but never reorders. A loss is `List.eraseIdx`; a repetition is
`repeatAt`. Both keep every property of single messages and every reflexive
order between earlier and later ones, which is all a protocol proof needs of
the network.
-/

namespace Paniolo

namespace Fifo

variable {α β : Type*}

/-- Copy the `i`-th message of the queue, next to itself. -/
def repeatAt : List α → Nat → List α
  | [], _ => []
  | a :: l, 0 => a :: a :: l
  | a :: l, i + 1 => a :: repeatAt l i

theorem map_repeatAt (f : α → β) (l : List α) (i : Nat) :
    (repeatAt l i).map f = repeatAt (l.map f) i := by
  induction l generalizing i with
  | nil => rfl
  | cons a l ih =>
      cases i with
      | zero => rfl
      | succ i => simp [repeatAt, ih i]

theorem map_eraseIdx (f : α → β) (l : List α) (i : Nat) :
    (l.eraseIdx i).map f = (l.map f).eraseIdx i := by
  induction l generalizing i with
  | nil => rfl
  | cons a l ih =>
      cases i with
      | zero => rfl
      | succ i => simp [ih i]

theorem mem_of_mem_repeatAt {l : List α} {i : Nat} {x : α}
    (h : x ∈ repeatAt l i) : x ∈ l := by
  induction l generalizing i with
  | nil => exact h
  | cons a l ih =>
      cases i with
      | zero =>
          simp only [repeatAt, List.mem_cons] at h ⊢
          tauto
      | succ i =>
          simp only [repeatAt, List.mem_cons] at h ⊢
          exact h.imp_right ih

theorem pairwise_repeatAt {R : α → α → Prop} (hrefl : ∀ a, R a a)
    {l : List α} {i : Nat} (h : l.Pairwise R) : (repeatAt l i).Pairwise R := by
  induction l generalizing i with
  | nil => exact h
  | cons a l ih =>
      rw [List.pairwise_cons] at h
      cases i with
      | zero =>
          refine List.pairwise_cons.mpr ⟨?_, List.pairwise_cons.mpr h⟩
          intro b hb
          rcases List.mem_cons.mp hb with rfl | hb
          · exact hrefl b
          · exact h.1 b hb
      | succ i =>
          exact List.pairwise_cons.mpr
            ⟨fun b hb => h.1 b (mem_of_mem_repeatAt hb), ih h.2⟩

theorem pairwise_eraseIdx {R : α → α → Prop} {l : List α} {i : Nat}
    (h : l.Pairwise R) : (l.eraseIdx i).Pairwise R :=
  h.sublist (List.eraseIdx_sublist l i)

/-- A message sent last keeps the order when it is above all messages in
flight. -/
theorem pairwise_concat {R : α → α → Prop} {l : List α} {a : α}
    (h : l.Pairwise R) (ha : ∀ b ∈ l, R b a) : (l ++ [a]).Pairwise R := by
  rw [List.pairwise_append]
  refine ⟨h, List.pairwise_singleton R a, fun b hb c hc => ?_⟩
  rw [List.mem_singleton.mp hc]
  exact ha b hb

end Fifo

end Paniolo
