import Mathlib.Data.List.Induction

/-!
# Runs of a guarded machine

A machine is a partial step function `step : σ → α → Option σ`: `none` means
that the action is not enabled in the state. `run step s as` performs the
actions `as` in order, so a run is an explicit list of actions and can be
evaluated. Properties of every reachable state are proved once here, by
induction on the run: `run_induct` for an invariant of the state alone,
`run_history` for an invariant that also reads the actions performed so far,
and the `meets` forms for runs whose steps all satisfy a condition.
-/

namespace Paniolo

namespace Machine

variable {σ α : Type*}

/-- Perform the actions in order, or fail at the first one that is not
enabled. -/
def run (step : σ → α → Option σ) : σ → List α → Option σ
  | s, [] => some s
  | s, a :: as => (step s a).bind fun s' => run step s' as

@[simp] theorem run_nil (step : σ → α → Option σ) (s : σ) :
    run step s [] = some s := rfl

theorem run_cons (step : σ → α → Option σ) (s : σ) (a : α) (as : List α) :
    run step s (a :: as) = (step s a).bind fun s' => run step s' as := rfl

/-- A run splits at any point of its list of actions. -/
theorem run_append (step : σ → α → Option σ) (s : σ) (as bs : List α) :
    run step s (as ++ bs) = (run step s as).bind fun s' => run step s' bs := by
  induction as generalizing s with
  | nil => rfl
  | cons a as ih =>
      rw [List.cons_append, run_cons, run_cons]
      cases h : step s a with
      | none => rfl
      | some t => simpa using ih t

theorem run_concat_eq_some {step : σ → α → Option σ} {s t : σ}
    {as : List α} {a : α} :
    run step s (as ++ [a]) = some t ↔
      ∃ m, run step s as = some m ∧ step m a = some t := by
  rw [run_append, Option.bind_eq_some_iff]
  refine exists_congr fun m => and_congr_right fun _ => ?_
  rw [run_cons]
  cases step m a <;> simp

/-- An invariant that also reads the actions performed so far. -/
theorem run_history {step : σ → α → Option σ} {s : σ}
    {P : List α → σ → Prop} (init : P [] s)
    (next : ∀ as m a t, run step s as = some m → P as m → step m a = some t →
      P (as ++ [a]) t) :
    ∀ as t, run step s as = some t → P as t := by
  intro as
  induction as using List.reverseRecOn with
  | nil =>
      intro t h
      cases h
      exact init
  | append_singleton as a ih =>
      intro t h
      obtain ⟨m, hm, hstep⟩ := run_concat_eq_some.mp h
      exact next as m a t hm (ih m hm) hstep

/-- An invariant of the state alone holds in every state reached. -/
theorem run_induct {step : σ → α → Option σ} {P : σ → Prop} {s t : σ}
    {as : List α} (init : P s)
    (next : ∀ m a m', P m → step m a = some m' → P m')
    (h : run step s as = some t) : P t :=
  run_history (P := fun _ m => P m) init
    (fun _ m a m' _ hm hstep => next m a m' hm hstep) as t h

/-- Every step of the run is taken in a state where `C` allows the action. -/
def meets (step : σ → α → Option σ) (C : σ → α → Prop) : σ → List α → Prop
  | _, [] => True
  | s, a :: as => C s a ∧ ∀ s', step s a = some s' → meets step C s' as

@[simp] theorem meets_nil (step : σ → α → Option σ) (C : σ → α → Prop) (s : σ) :
    meets step C s [] := trivial

theorem meets_append_left {step : σ → α → Option σ} {C : σ → α → Prop} {s : σ}
    {as bs : List α} (h : meets step C s (as ++ bs)) : meets step C s as := by
  induction as generalizing s with
  | nil => trivial
  | cons a as ih => exact ⟨h.1, fun s' hs' => ih (h.2 s' hs')⟩

theorem meets_concat {step : σ → α → Option σ} {C : σ → α → Prop} {s m : σ}
    {as : List α} {a : α} (h : meets step C s (as ++ [a]))
    (hm : run step s as = some m) : meets step C s as ∧ C m a := by
  induction as generalizing s with
  | nil =>
      cases hm
      exact ⟨trivial, h.1⟩
  | cons b as ih =>
      rw [run_cons, Option.bind_eq_some_iff] at hm
      obtain ⟨s', hs, hm⟩ := hm
      have hrest := ih (h.2 s' hs) hm
      refine ⟨⟨h.1, fun t ht => ?_⟩, hrest.2⟩
      rw [hs] at ht
      cases ht
      exact hrest.1

/-- `meets` for a condition that can be evaluated. -/
def check (step : σ → α → Option σ) (C : σ → α → Bool) : σ → List α → Bool
  | _, [] => true
  | s, a :: as => C s a && (step s a).all fun s' => check step C s' as

theorem meets_of_check {step : σ → α → Option σ} {B : σ → α → Bool} {C : σ → α → Prop}
    (hBC : ∀ s a, B s a = true → C s a) {s : σ} {as : List α} (h : check step B s as = true) :
    meets step C s as := by
  induction as generalizing s with
  | nil => trivial
  | cons a as ih =>
      rw [check, Bool.and_eq_true] at h
      refine ⟨hBC s a h.1, fun s' hs' => ih ?_⟩
      have hrest := h.2
      rw [hs'] at hrest
      exact hrest

/-- A condition on the actions alone is met when each of them satisfies it. -/
theorem meets_of_forall {step : σ → α → Option σ} {C : α → Prop} {as : List α}
    (h : ∀ a ∈ as, C a) (s : σ) : meets step (fun _ a => C a) s as := by
  induction as generalizing s with
  | nil => trivial
  | cons a as ih => exact ⟨h a (by simp), fun s' _ => ih (fun b hb => h b (by simp [hb])) s'⟩

/-- A run goes through when every step that meets its condition is possible and keeps `P`. -/
theorem exists_run_of_meets {step : σ → α → Option σ} {C : σ → α → Prop} {P : σ → Prop}
    (next : ∀ m a, P m → C m a → ∃ t, step m a = some t ∧ P t) :
    ∀ {s : σ} {as : List α}, P s → meets step C s as → ∃ t, run step s as = some t ∧ P t := by
  intro s as
  induction as generalizing s with
  | nil => exact fun hs _ => ⟨s, rfl, hs⟩
  | cons a as ih =>
      intro hs hmeets
      obtain ⟨hC, hrest⟩ := hmeets
      obtain ⟨m, hstep, hm⟩ := next s a hs hC
      obtain ⟨t, hrun, ht⟩ := ih hm (hrest m hstep)
      exact ⟨t, by rw [run_cons, hstep, Option.bind_some, hrun], ht⟩

/-- When a step keeps `P` exactly if it meets `C`, a run keeps `P` all along exactly if it meets `C`
all along. -/
theorem forall_run_iff_meets {step : σ → α → Option σ} {C : σ → α → Prop} {I P : σ → Prop}
    (next : ∀ m a, I m → P m → ∃ t, step m a = some t ∧ I t ∧ (P t ↔ C m a)) :
    ∀ {s : σ} {as : List α}, I s → P s →
      ((∀ bs, bs <+: as → ∀ t, run step s bs = some t → P t) ↔ meets step C s as) := by
  intro s as
  induction as generalizing s with
  | nil =>
      intro _ hs
      refine ⟨fun _ => trivial, fun _ bs hbs t ht => ?_⟩
      rw [List.prefix_nil.mp hbs] at ht
      cases ht
      exact hs
  | cons a as ih =>
      intro hI hs
      obtain ⟨m, hstep, hm, hiff⟩ := next s a hI hs
      constructor
      · intro h
        have hone := h [a] (List.prefix_cons_inj a |>.mpr (List.nil_prefix)) m
          (by rw [run_cons, hstep]; rfl)
        refine ⟨hiff.mp hone, fun m' hm' => ?_⟩
        cases hstep.symm.trans hm'
        refine (ih hm hone).mp fun bs hbs t ht => h (a :: bs) ?_ t ?_
        · exact (List.prefix_cons_inj a).mpr hbs
        · rw [run_cons, hstep, Option.bind_some, ht]
      · rintro ⟨hC, hrest⟩ bs hbs t ht
        cases bs with
        | nil =>
            cases ht
            exact hs
        | cons b bs =>
            obtain ⟨rfl, htail⟩ := List.cons_prefix_cons.mp hbs
            rw [run_cons, hstep, Option.bind_some] at ht
            exact (ih hm (hiff.mpr hC)).mpr (hrest m hstep) bs htail t ht

/-- The history form for runs whose steps all satisfy `C`. -/
theorem run_history_of_meets {step : σ → α → Option σ} {C : σ → α → Prop}
    {s : σ} {P : List α → σ → Prop} (init : P [] s)
    (next : ∀ as m a t, run step s as = some m → P as m → C m a →
      step m a = some t → P (as ++ [a]) t) :
    ∀ as t, meets step C s as → run step s as = some t → P as t := by
  intro as
  induction as using List.reverseRecOn with
  | nil =>
      intro t _ h
      cases h
      exact init
  | append_singleton as a ih =>
      intro t hc h
      obtain ⟨m, hm, hstep⟩ := run_concat_eq_some.mp h
      obtain ⟨has, ha⟩ := meets_concat hc hm
      exact next as m a t hm (ih m has hm) ha hstep

end Machine

end Paniolo
