import Mathlib.Logic.Basic

/-!
# How a step ends

A step on a state ends with a result or an error; what it did to the state stays
either way. Each step has one ending, and the ending of a sequence follows from
those of its steps.
-/

namespace Paniolo

section

variable {σ ε α β : Type}

/-- The step ends so: its outcome, and the state it leaves. -/
def Ends (x : ExceptT ε (StateM σ) α) (s : σ) (r : Except ε α) (s' : σ) : Prop :=
  ExceptT.run x s = (r, s')

variable {x : ExceptT ε (StateM σ) α} {f : α → ExceptT ε (StateM σ) β} {s s' s'' : σ}

theorem exists_ends (x : ExceptT ε (StateM σ) α) (s : σ) : ∃ r s', Ends x s r s' :=
  ⟨(ExceptT.run x s).1, (ExceptT.run x s).2, rfl⟩

namespace Ends

theorem unique {r r' : Except ε α} (h : Ends x s r s') (h' : Ends x s r' s'') :
    r = r' ∧ s' = s'' := by
  have heq : (r, s') = (r', s'') := h.symm.trans h'
  exact Prod.mk.inj heq

theorem pure (a : α) (s : σ) : Ends (Pure.pure a : ExceptT ε (StateM σ) α) s (.ok a) s := rfl

theorem throw (e : ε) (s : σ) : Ends (MonadExcept.throw e : ExceptT ε (StateM σ) α) s (.error e) s :=
  rfl

theorem bind {a : α} {r : Except ε β} (hx : Ends x s (.ok a) s') (hf : Ends (f a) s' r s'') :
    Ends (x >>= f) s r s'' := by
  change ExceptT.bindCont f (ExceptT.run x s).1 (ExceptT.run x s).2 = _
  rw [hx]
  exact hf

/-- An error ends the sequence. -/
theorem bind_error {e : ε} (hx : Ends x s (.error e) s') : Ends (x >>= f) s (.error e) s' := by
  change ExceptT.bindCont f (ExceptT.run x s).1 (ExceptT.run x s).2 = _
  rw [hx]
  rfl

end Ends

end

end Paniolo
