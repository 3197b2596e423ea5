import Mathlib.Data.List.TakeWhile

/-!
# Streaks

How often in a row, counted back from now, the entries of a log satisfy a
predicate. Logs are read backwards: the newest entry comes first.
-/

namespace Paniolo

namespace Streak

variable {α : Type*}

/-- The number of entries in a row, from the newest on. -/
def streak (p : α → Bool) (log : List α) : Nat :=
  (log.takeWhile p).length

variable {p : α → Bool} {a : α} {log : List α}

@[simp] theorem streak_nil (p : α → Bool) : streak p [] = 0 := rfl

theorem streak_cons_pos (h : p a = true) : streak p (a :: log) = streak p log + 1 := by
  rw [streak, List.takeWhile_cons_of_pos h, List.length_cons, streak]

theorem streak_cons_neg (h : p a = false) : streak p (a :: log) = 0 := by
  rw [streak, List.takeWhile_cons_of_neg (by rw [h]; exact Bool.false_ne_true), List.length_nil]

/-- A streak of at least `n` is a run of `n` entries at the front of the log. -/
theorem le_streak_iff {n : Nat} :
    n ≤ streak p log ↔
      ∃ run older, log = run ++ older ∧ run.length = n ∧ ∀ b ∈ run, p b = true := by
  constructor
  · intro h
    refine ⟨(log.takeWhile p).take n, (log.takeWhile p).drop n ++ log.dropWhile p, ?_, ?_, ?_⟩
    · rw [← List.append_assoc, List.take_append_drop, List.takeWhile_append_dropWhile]
    · exact List.length_take_of_le h
    · exact fun b hb => List.mem_takeWhile_imp (List.mem_of_mem_take hb)
  · rintro ⟨run, older, rfl, rfl, hrun⟩
    rw [streak, List.takeWhile_append_of_pos hrun, List.length_append]
    exact Nat.le_add_right _ _

end Streak

end Paniolo
