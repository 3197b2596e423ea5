import Mathlib.Logic.Basic

/-!
# Programs that make calls

A program over some questions either is done, with a result, or asks a question
and goes on with the answer. Nothing else happens between two questions, so a
system can interleave other steps there; with something that answers, a program
runs to its end at once.
-/

namespace Paniolo

/-- A program that asks questions of type `Q`, answered in `R`. -/
inductive Dialogue (Q R α : Type) where
  | done (a : α)
  | call (q : Q) (k : R → Dialogue Q R α)

namespace Dialogue

variable {Q R α β : Type}

def bind : Dialogue Q R α → (α → Dialogue Q R β) → Dialogue Q R β
  | .done a, f => f a
  | .call q k, f => .call q fun r => (k r).bind f

instance : Monad (Dialogue Q R) where
  pure := .done
  bind := bind

/-- One question. -/
def ask (q : Q) : Dialogue Q R R := .call q .done

/-- The result and all questions asked, when the answer to a question may depend
on those before it. -/
def run (answer : List Q → R) : Dialogue Q R α → List Q → α × List Q
  | .done a, asked => (a, asked)
  | .call q k, asked => (k (answer (asked ++ [q]))).run answer (asked ++ [q])

theorem run_bind (answer : List Q → R) (x : Dialogue Q R α) (f : α → Dialogue Q R β)
    (asked : List Q) :
    (x >>= f).run answer asked = (f (x.run answer asked).1).run answer (x.run answer asked).2 := by
  induction x generalizing asked with
  | done a => rfl
  | call q k ih => exact ih (answer (asked ++ [q])) (asked ++ [q])

/-- A run adds to what was asked. -/
theorem exists_run_append (answer : List Q → R) (x : Dialogue Q R α) (asked : List Q) :
    ∃ more, (x.run answer asked).2 = asked ++ more := by
  induction x generalizing asked with
  | done a => exact ⟨[], (List.append_nil asked).symm⟩
  | call q k ih =>
      obtain ⟨more, hmore⟩ := ih (answer (asked ++ [q])) (asked ++ [q])
      refine ⟨q :: more, ?_⟩
      rw [run, hmore, List.append_assoc, List.singleton_append]

/-! ### What a run ensures -/

/-- From every history with `pre`, the program comes to a result and a history with `post`. -/
def Ensures (answer : List Q → R) (pre : List Q → Prop) (x : Dialogue Q R α)
    (post : α → List Q → Prop) : Prop :=
  ∀ asked, pre asked → post (x.run answer asked).1 (x.run answer asked).2

namespace Ensures

variable {answer : List Q → R} {pre : List Q → Prop}

theorem pure {post : α → List Q → Prop} {a : α} (h : ∀ asked, pre asked → post a asked) :
    Ensures answer pre (Pure.pure a) post := h

theorem ask {post : R → List Q → Prop} {q : Q}
    (h : ∀ asked, pre asked → post (answer (asked ++ [q])) (asked ++ [q])) :
    Ensures answer pre (Dialogue.ask q) post := h

theorem bind {mid : α → List Q → Prop} {post : β → List Q → Prop} {x : Dialogue Q R α}
    {f : α → Dialogue Q R β} (hx : Ensures answer pre x mid)
    (hf : ∀ a, Ensures answer (mid a) (f a) post) : Ensures answer pre (x >>= f) post := by
  intro asked h
  rw [run_bind]
  exact hf _ _ (hx asked h)

theorem mono {pre' : List Q → Prop} {post post' : α → List Q → Prop} {x : Dialogue Q R α}
    (h : Ensures answer pre x post) (hpre : ∀ asked, pre' asked → pre asked)
    (hpost : ∀ a asked, post a asked → post' a asked) : Ensures answer pre' x post' :=
  fun asked hasked => hpost _ _ (h asked (hpre asked hasked))

/-- What no further question can undo is kept. -/
theorem frame {post : α → List Q → Prop} {x : Dialogue Q R α} (h : Ensures answer pre x post)
    {kept : List Q → Prop} (hkept : ∀ asked more, kept asked → kept (asked ++ more)) :
    Ensures answer (fun asked => pre asked ∧ kept asked) x
      fun a asked => post a asked ∧ kept asked := by
  intro asked hasked
  obtain ⟨more, hmore⟩ := exists_run_append answer x asked
  refine ⟨h asked hasked.1, ?_⟩
  rw [hmore]
  exact hkept asked more hasked.2

theorem ite {post : α → List Q → Prop} {c : Prop} [Decidable c] {x y : Dialogue Q R α}
    (hx : c → Ensures answer pre x post) (hy : ¬c → Ensures answer pre y post) :
    Ensures answer pre (if c then x else y) post := by
  by_cases h : c
  · rw [if_pos h]
    exact hx h
  · rw [if_neg h]
    exact hy h

end Ensures

/-! ### Steps that may fail -/

section Steps

variable {ε σ : Type} {answer : List Q → R} {x : ExceptT ε (StateT σ (Dialogue Q R)) α}
  {f : α → ExceptT ε (StateT σ (Dialogue Q R)) β} {s s' s'' : σ} {asked asked' asked'' : List Q}

/-- A step comes to this: its outcome, the state it leaves, and all that was asked. -/
def ComesTo (answer : List Q → R) (x : ExceptT ε (StateT σ (Dialogue Q R)) α) (s : σ)
    (asked : List Q) (r : Except ε α) (s' : σ) (asked' : List Q) : Prop :=
  run answer (ExceptT.run x s) asked = ((r, s'), asked')

namespace ComesTo

theorem unique {r r' : Except ε α} (h : ComesTo answer x s asked r s' asked')
    (h' : ComesTo answer x s asked r' s'' asked'') : r = r' ∧ s' = s'' ∧ asked' = asked'' := by
  obtain ⟨houtcome, hasked⟩ := Prod.mk.inj (Eq.trans (Eq.symm h) h')
  obtain ⟨hr, hs⟩ := Prod.mk.inj houtcome
  exact ⟨hr, hs, hasked⟩

theorem pure (a : α) (s : σ) (asked : List Q) :
    ComesTo answer (Pure.pure a : ExceptT ε (StateT σ (Dialogue Q R)) α) s asked (.ok a) s
      asked := rfl

theorem throw (e : ε) (s : σ) (asked : List Q) :
    ComesTo answer (MonadExcept.throw e : ExceptT ε (StateT σ (Dialogue Q R)) α) s asked
      (.error e) s asked := rfl

theorem bind {a : α} {r : Except ε β} (hx : ComesTo answer x s asked (.ok a) s' asked')
    (hf : ComesTo answer (f a) s' asked' r s'' asked'') :
    ComesTo answer (x >>= f) s asked r s'' asked'' := by
  have hbind : ExceptT.run (x >>= f) s =
      (ExceptT.run x s >>= fun r => ExceptT.bindCont f r.1 r.2) := rfl
  rw [ComesTo, hbind, run_bind, hx]
  exact hf

theorem bind_error {e : ε} (hx : ComesTo answer x s asked (.error e) s' asked') :
    ComesTo answer (x >>= f) s asked (.error e) s' asked' := by
  have hbind : ExceptT.run (x >>= f) s =
      (ExceptT.run x s >>= fun r => ExceptT.bindCont f r.1 r.2) := rfl
  rw [ComesTo, hbind, run_bind, hx]
  rfl

end ComesTo

end Steps

end Dialogue

end Paniolo
