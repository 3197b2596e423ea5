import Mathlib.Data.List.Basic
import Mathlib.Tactic.Common
import Paniolo.Library.Entries
import Paniolo.Library.Machine

/-!
# The hook lock

Power hooks and action hooks of one target share a lock file, since they often
drive one exclusive device. A hook may call paniolo itself; the holder exports
`PANIOLO_HOOK_LOCK` to its hook, and a call that finds its own target there
skips the lock. The model is the tree of processes this makes: calls of
paniolo, and the hooks they run, each hook with the calls it starts.

`hooks_excluded` says what the lock is worth while no call is killed before its
hook has ended and no hook ends before the calls it started: the hooks that run
for a target are all below the one call that holds its lock file. A call whose
variable names another target, because a hook for that one lies in between, is
not let past the hook of its own target that it is below: it waits until it
times out.
-/

namespace Paniolo

namespace Cli

namespace HookLock

/-- `LOCK_WAIT`, in seconds. -/
def lockWait : Nat := 120

/-- `lock_inherited`. -/
def lockInherited (held : Option String) (target : String) : Bool :=
  held == some target

/-- The text of the timeout. -/
def timeoutText (target : String) : String :=
  let wait := lockWait
  s!"another power or action hook for '{target}' is still running after {wait} s"

/-- What a call is at: `file` tells a lock that was taken from an inherited one. -/
inductive Stage where
  | idle
  | waiting (target : String)
  | locked (target : String) (file : Bool)
  | running (target : String) (file : Bool) (hook : Nat)
  | failed (message : String)
  | exited
deriving DecidableEq

namespace Stage

/-- The call has the lock file of the target. -/
def holds (t : String) : Stage → Bool
  | .locked target file => file && target == t
  | .running target file _ => file && target == t
  | _ => false

def live : Stage → Bool
  | .failed _ => false
  | .exited => false
  | _ => true

end Stage

/-- A paniolo process: the hook that started it, `PANIOLO_HOOK_LOCK` in its environment, and what it
is at. -/
structure Call where
  under : Option Nat
  held : Option String
  stage : Stage
deriving DecidableEq

/-- A hook process: the call that runs it, and the target in its `PANIOLO_HOOK_LOCK`. -/
structure Hook where
  call : Nat
  target : String
  alive : Bool
deriving DecidableEq

structure State where
  calls : List Call
  hooks : List Hook

inductive Action where
  | start
  | nested (hook : Nat)
  | want (call : Nat) (target : String)
  | tryLock (call : Nat)
  | timeout (call : Nat)
  | spawn (call : Nat)
  | hookEnds (hook : Nat)
  | reap (call : Nat)
  | exit (call : Nat)
  | kill (call : Nat)

namespace State

def new : State := ⟨[], []⟩

/-- Some call has the lock file of the target. -/
def isLocked (s : State) (t : String) : Bool :=
  s.calls.any fun c => c.stage.holds t

def setCall (s : State) (i : Nat) (c : Call) : State :=
  { s with calls := s.calls.set i c }

/-- One attempt of `hook_lock`. -/
def tryLock (s : State) (i : Nat) (c : Call) (target : String) : Option State :=
  if lockInherited c.held target then some (s.setCall i { c with stage := .locked target false })
  else if s.isLocked target then none
  else some (s.setCall i { c with stage := .locked target true })

/-- One step. A call outside every hook is started without the variable. -/
def step (s : State) : Action → Option State
  | .start => some { s with calls := s.calls ++ [⟨none, none, .idle⟩] }
  | .nested h => (s.hooks[h]?).bind fun k =>
      if k.alive = true then
        some { s with calls := s.calls ++ [⟨some h, some k.target, .idle⟩] }
      else none
  | .want i target => (s.calls[i]?).bind fun c =>
      if c.stage = .idle then some (s.setCall i { c with stage := .waiting target }) else none
  | .tryLock i => (s.calls[i]?).bind fun c =>
      match c.stage with
      | .waiting target => s.tryLock i c target
      | _ => none
  | .timeout i => (s.calls[i]?).bind fun c =>
      match c.stage with
      | .waiting target =>
          if lockInherited c.held target = false ∧ s.isLocked target = true then
            some (s.setCall i { c with stage := .failed (timeoutText target) })
          else none
      | _ => none
  | .spawn i => (s.calls[i]?).bind fun c =>
      match c.stage with
      | .locked target file =>
          some { s.setCall i { c with stage := .running target file s.hooks.length } with
            hooks := s.hooks ++ [⟨i, target, true⟩] }
      | _ => none
  | .hookEnds h => (s.hooks[h]?).bind fun k =>
      if k.alive = true then some { s with hooks := s.hooks.set h { k with alive := false } }
      else none
  | .reap i => (s.calls[i]?).bind fun c =>
      match c.stage with
      | .running _ _ h => (s.hooks[h]?).bind fun k =>
          if k.alive = false then some (s.setCall i { c with stage := .idle }) else none
      | _ => none
  | .exit i => (s.calls[i]?).bind fun c =>
      if c.stage = .idle then some (s.setCall i { c with stage := .exited }) else none
  | .kill i => (s.calls[i]?).bind fun c =>
      if c.stage.live = true then some (s.setCall i { c with stage := .exited }) else none

/-- Nothing ends before what it waits for: no call is killed while its hook runs, and no hook ends
before the calls it started. -/
def Orderly (s : State) : Action → Prop
  | .kill i => ∀ c target file h k, s.calls[i]? = some c → c.stage = .running target file h →
      s.hooks[h]? = some k → k.alive = false
  | .hookEnds h => ∀ (i : Nat) (c : Call), s.calls[i]? = some c → c.under = some h →
      c.stage.live = false
  | _ => True

end State

/-- The hook lies below the call: it is the call's own, or that of a call below which the lock was
inherited all the way. -/
inductive Inherits (s : State) (i : Nat) : Nat → Prop
  | own {h : Nat} {k : Hook} {c : Call} : s.hooks[h]? = some k → k.call = i →
      s.calls[i]? = some c → c.stage = .running k.target true h → Inherits s i h
  | nested {h h' j : Nat} {k k' : Hook} {c : Call} : s.hooks[h]? = some k → k.call = j →
      s.calls[j]? = some c → c.stage = .running k.target false h → c.under = some h' →
      s.hooks[h']? = some k' → k'.target = k.target → Inherits s i h' → Inherits s i h

/-- The call was started below the hook, whatever is in between. -/
inductive Below (s : State) (h : Nat) : Nat → Prop
  | child {i : Nat} {c : Call} : s.calls[i]? = some c → c.under = some h → Below s h i
  | further {i h' : Nat} {c : Call} {k : Hook} : s.calls[i]? = some c → c.under = some h' →
      s.hooks[h']? = some k → Below s h k.call → Below s h i

/-- What the lock is worth. -/
structure Excluded (s : State) : Prop where
  /-- One call at most has a lock file. -/
  unique : ∀ (t : String) (i j : Nat) (c d : Call), s.calls[i]? = some c → s.calls[j]? = some d →
    c.stage.holds t = true → d.stage.holds t = true → i = j
  /-- The hooks that run for a target are all below the call that has its file. -/
  below : ∀ (h : Nat) (k : Hook), s.hooks[h]? = some k → k.alive = true →
    ∃ i c, s.calls[i]? = some c ∧ c.stage.holds k.target = true ∧ Inherits s i h
  /-- A call with another target in its variable does not get past a hook of its own target that it
  is below. -/
  stuck : ∀ (h : Nat) (k : Hook) (i : Nat) (c : Call), s.hooks[h]? = some k → Below s h i →
    s.calls[i]? = some c → c.stage = .waiting k.target → c.held ≠ some k.target →
      s.step (.tryLock i) = none

/-- The call skips the lock only for the target of its variable. -/
def Call.Skips (c : Call) : Prop :=
  ∀ t, c.stage = .locked t false ∨ (∃ h, c.stage = .running t false h) → c.held = some t

/-- What every orderly run keeps. -/
structure State.Inv (s : State) : Prop where
  unique : ∀ (t : String) (i j : Nat) (c d : Call), s.calls[i]? = some c → s.calls[j]? = some d →
    c.stage.holds t = true → d.stage.holds t = true → i = j
  running : ∀ (i : Nat) (c : Call), s.calls[i]? = some c → ∀ t file h,
    c.stage = .running t file h → ∃ k, s.hooks[h]? = some k ∧ k.call = i ∧ k.target = t
  alive : ∀ (h : Nat) (k : Hook), s.hooks[h]? = some k → k.alive = true →
    ∃ c file, s.calls[k.call]? = some c ∧ c.stage = .running k.target file h
  skips : ∀ (i : Nat) (c : Call), s.calls[i]? = some c → c.Skips
  under : ∀ (i : Nat) (c : Call), s.calls[i]? = some c → ∀ h, c.under = some h →
    ∃ k, s.hooks[h]? = some k ∧ c.held = some k.target ∧ k.call < i ∧
      (c.stage.live = true → k.alive = true)
  outside : ∀ (i : Nat) (c : Call), s.calls[i]? = some c → c.under = none → c.held = none

namespace State

variable {s : State}

theorem isLocked_iff {t : String} :
    s.isLocked t = true ↔ ∃ (i : Nat) (c : Call), s.calls[i]? = some c ∧ c.stage.holds t = true := by
  rw [isLocked, List.any_eq_true]
  constructor
  · rintro ⟨c, hc, hholds⟩
    obtain ⟨i, hi⟩ := List.mem_iff_getElem?.mp hc
    exact ⟨i, c, hi, hholds⟩
  · rintro ⟨i, c, hi, hholds⟩
    exact ⟨c, List.mem_iff_getElem?.mpr ⟨i, hi⟩, hholds⟩

theorem inv_new : new.Inv where
  unique t i j c d hc := by cases hc
  running i c hc := by cases hc
  alive h k hk := by cases hk
  skips i c hc := by cases hc
  under i c hc := by cases hc
  outside i c hc := by cases hc

namespace Inv

/-- A new call, which does nothing yet. -/
theorem addCall (h : s.Inv) {c : Call} (hstage : c.stage = .idle)
    (hunder : ∀ h, c.under = some h → ∃ k, s.hooks[h]? = some k ∧ c.held = some k.target ∧
      k.call < s.calls.length ∧ (c.stage.live = true → k.alive = true))
    (houtside : c.under = none → c.held = none) :
    State.Inv { s with calls := s.calls ++ [c] } where
  unique t i j d e hd he hdt het := by
    have hidle : ∀ (i : Nat) (d : Call), (s.calls ++ [c])[i]? = some d →
        d.stage.holds t = true → s.calls[i]? = some d := by
      refine Entries.forall_concat (fun hholds => ?_) (fun i d hd _ => hd)
      rw [hstage] at hholds
      cases hholds
    exact h.unique t i j d e (hidle i d hd hdt) (hidle j e he het) hdt het
  running := by
    refine Entries.forall_concat (fun t file h hrun => ?_) h.running
    rw [hstage] at hrun
    cases hrun
  alive g k hk halive := by
    obtain ⟨d, file, hd, hrun⟩ := h.alive g k hk halive
    obtain ⟨hlt, -⟩ := List.getElem?_eq_some_iff.mp hd
    exact ⟨d, file, (List.getElem?_append_left hlt).trans hd, hrun⟩
  skips := by
    refine Entries.forall_concat (fun t hat => ?_) h.skips
    rw [hstage] at hat
    rcases hat with hat | ⟨g, hat⟩
    · cases hat
    · cases hat
  under := Entries.forall_concat hunder h.under
  outside := Entries.forall_concat houtside h.outside

/-- A call goes on, without running a new hook or leaving one that runs. -/
theorem setCall (h : s.Inv) {i : Nat} {c : Call} {stage : Stage} (hc : s.calls[i]? = some c)
    (hlive : stage.live = true → c.stage.live = true)
    (hholds : ∀ t, stage.holds t = true → c.stage.holds t = true ∨ s.isLocked t = false)
    (hrunning : ∀ t file g, stage ≠ .running t file g)
    (hended : ∀ t file g k, c.stage = .running t file g → s.hooks[g]? = some k → k.alive = false)
    (hskips : ∀ t, stage = .locked t false → c.held = some t) :
    (s.setCall i { c with stage := stage }).Inv where
  unique t := by
    have hold : ∀ (j : Nat) (d : Call), (s.calls.set i { c with stage := stage })[j]? = some d →
        d.stage.holds t = true →
          j = i ∧ (c.stage.holds t = true ∨ s.isLocked t = false) ∨ j ≠ i ∧ s.calls[j]? = some d := by
      refine Entries.forall_set (fun hnew => .inl ⟨rfl, hholds t hnew⟩) ?_
      exact fun j d hne hd _ => .inr ⟨hne, hd⟩
    have hother : ∀ (j : Nat) (d : Call), s.calls[j]? = some d → d.stage.holds t = true →
        c.stage.holds t = true ∨ s.isLocked t = false → j = i := by
      intro j d hd hdt hcase
      rcases hcase with hct | hfree
      · exact h.unique t j i d c hd hc hdt hct
      · rw [isLocked_iff.mpr ⟨j, d, hd, hdt⟩] at hfree
        cases hfree
    intro j k d e hd he hdt het
    rcases hold j d hd hdt with ⟨rfl, hcase⟩ | ⟨hne, hd'⟩
    · rcases hold k e he het with ⟨rfl, -⟩ | ⟨hne', he'⟩
      · rfl
      · exact absurd (hother k e he' het hcase) hne'
    · rcases hold k e he het with ⟨rfl, hcase⟩ | ⟨-, he'⟩
      · exact absurd (hother j d hd' hdt hcase) hne
      · exact h.unique t j k d e hd' he' hdt het
  running := by
    refine Entries.forall_set (fun t file g hrun => ?_) fun j d _ hd => h.running j d hd
    exact absurd hrun (hrunning t file g)
  alive g k hk halive := by
    obtain ⟨d, file, hd, hrun⟩ := h.alive g k hk halive
    by_cases heq : i = k.call
    · subst heq
      cases hc.symm.trans hd
      rw [hended _ _ _ _ hrun hk] at halive
      cases halive
    · exact ⟨d, file, (List.getElem?_set_ne heq).trans hd, hrun⟩
  skips := by
    refine Entries.forall_set (fun t hat => ?_) fun j d _ hd => h.skips j d hd
    rcases hat with hat | ⟨g, hat⟩
    · exact hskips t hat
    · exact absurd hat (hrunning t false g)
  under := by
    refine Entries.forall_set (fun g hg => ?_) fun j d _ hd => h.under j d hd
    obtain ⟨k, hk, hheld, hlt, halive⟩ := h.under i c hc g hg
    exact ⟨k, hk, hheld, hlt, fun hnew => halive (hlive hnew)⟩
  outside :=
    Entries.forall_set (fun hnone => h.outside i c hc hnone) fun j d _ hd => h.outside j d hd

theorem spawn (h : s.Inv) {i : Nat} {c : Call} {target : String} {file : Bool}
    (hc : s.calls[i]? = some c) (hstage : c.stage = .locked target file) :
    State.Inv { s.setCall i { c with stage := .running target file s.hooks.length } with
      hooks := s.hooks ++ [⟨i, target, true⟩] } := by
  have hkeep : ∀ {g : Nat} {k : Hook}, s.hooks[g]? = some k →
      (s.hooks ++ [(⟨i, target, true⟩ : Hook)])[g]? = some k := by
    intro g k hk
    obtain ⟨hlt, -⟩ := List.getElem?_eq_some_iff.mp hk
    exact (List.getElem?_append_left hlt).trans hk
  have hset : ∀ (j : Nat) (d : Call),
      (s.calls.set i { c with stage := .running target file s.hooks.length })[j]? = some d →
        ∃ e, s.calls[j]? = some e ∧ e.under = d.under ∧ e.held = d.held ∧
          (∀ t, d.stage.holds t = e.stage.holds t) ∧ (d.stage.live = true → e.stage.live = true) := by
    refine Entries.forall_set ⟨c, hc, rfl, rfl, fun t => ?_, fun _ => ?_⟩ fun j d _ hd =>
      ⟨d, hd, rfl, rfl, fun _ => rfl, id⟩
    · rw [hstage]
      rfl
    · rw [hstage]
      rfl
  exact
    { unique := fun t j k d e hd he hdt het => by
        obtain ⟨d', hd', -, -, hholds, -⟩ := hset j d hd
        obtain ⟨e', he', -, -, hholds', -⟩ := hset k e he
        exact h.unique t j k d' e' hd' he' (hholds t ▸ hdt) (hholds' t ▸ het)
      running := by
        refine Entries.forall_set (fun t file' g hrun => ?_) fun j d _ hd t file' g hrun => ?_
        · cases hrun
          exact ⟨⟨i, target, true⟩, List.getElem?_concat_length, rfl, rfl⟩
        · obtain ⟨k, hk, hcall, htarget⟩ := h.running j d hd t file' g hrun
          exact ⟨k, hkeep hk, hcall, htarget⟩
      alive := by
        refine Entries.forall_concat (fun _ => ?_) fun g k hk halive => ?_
        · obtain ⟨hlt, -⟩ := List.getElem?_eq_some_iff.mp hc
          exact ⟨_, file, List.getElem?_set_self hlt, rfl⟩
        · obtain ⟨d, file', hd, hrun⟩ := h.alive g k hk halive
          have hne : i ≠ k.call := by
            intro heq
            subst heq
            cases hc.symm.trans hd
            rw [hstage] at hrun
            cases hrun
          exact ⟨d, file', (List.getElem?_set_ne hne).trans hd, hrun⟩
      skips := by
        refine Entries.forall_set (fun t hat => ?_) fun j d _ hd => h.skips j d hd
        rcases hat with hat | ⟨g, hat⟩
        · cases hat
        · cases hat
          exact h.skips i c hc target (.inl hstage)
      under := fun j d hd g hg => by
        obtain ⟨e, he, hunder, hheld, -, hlive⟩ := hset j d hd
        obtain ⟨k, hk, hk', hlt, halive⟩ := h.under j e he g (hunder.trans hg)
        exact ⟨k, hkeep hk, hheld.symm.trans hk', hlt, fun hd => halive (hlive hd)⟩
      outside := fun j d hd hnone => by
        obtain ⟨e, he, hunder, hheld, -, -⟩ := hset j d hd
        exact hheld.symm.trans (h.outside j e he (hunder.trans hnone)) }

theorem hookEnds (h : s.Inv) {g : Nat} {k : Hook} (hk : s.hooks[g]? = some k)
    (horderly : ∀ (i : Nat) (c : Call), s.calls[i]? = some c → c.under = some g →
      c.stage.live = false) :
    State.Inv { s with hooks := s.hooks.set g { k with alive := false } } := by
  have hset : ∀ {g' : Nat} {k' : Hook}, s.hooks[g']? = some k' →
      ∃ k'', (s.hooks.set g { k with alive := false })[g']? = some k'' ∧ k''.call = k'.call ∧
        k''.target = k'.target ∧ (g' ≠ g → k'' = k') := by
    intro g' k' hk'
    by_cases heq : g = g'
    · subst heq
      cases hk.symm.trans hk'
      obtain ⟨hlt, -⟩ := List.getElem?_eq_some_iff.mp hk
      exact ⟨_, List.getElem?_set_self hlt, rfl, rfl, fun hne => absurd rfl hne⟩
    · exact ⟨k', (List.getElem?_set_ne heq).trans hk', rfl, rfl, fun _ => rfl⟩
  exact
    { unique := h.unique
      running := fun i c hc t file g' hrun => by
        obtain ⟨k', hk', hcall, htarget⟩ := h.running i c hc t file g' hrun
        obtain ⟨k'', hk'', hcall', htarget', -⟩ := hset hk'
        exact ⟨k'', hk'', hcall'.trans hcall, htarget'.trans htarget⟩
      alive := by
        refine Entries.forall_set (fun halive => ?_) fun g' k' _ hk' => h.alive g' k' hk'
        cases halive
      skips := h.skips
      under := fun i c hc g' hg' => by
        obtain ⟨k', hk', hheld, hlt, halive⟩ := h.under i c hc g' hg'
        obtain ⟨k'', hk'', hcall, htarget, hsame⟩ := hset hk'
        refine ⟨k'', hk'', hheld.trans (congrArg some htarget.symm), hcall ▸ hlt, fun hlive => ?_⟩
        have hne : g' ≠ g := by
          intro heq
          subst heq
          rw [horderly i c hc hg'] at hlive
          cases hlive
        rw [hsame hne]
        exact halive hlive
      outside := h.outside }

/-- One lemma for each step. -/
theorem step (h : s.Inv) {a : Action} {s' : State} (horderly : s.Orderly a)
    (hstep : s.step a = some s') : s'.Inv := by
  cases a with
  | start =>
      cases hstep
      exact h.addCall rfl (fun _ hg => by cases hg) fun _ => rfl
  | nested g =>
      obtain ⟨k, hk, hstep⟩ := Option.bind_eq_some_iff.mp hstep
      obtain ⟨halive, hstep⟩ := Option.ite_none_right_eq_some.mp hstep
      cases hstep
      refine h.addCall rfl (fun g' hg' => ?_) fun hnone => by cases hnone
      cases hg'
      obtain ⟨c, file, hc, -⟩ := h.alive g k hk halive
      obtain ⟨hlt, -⟩ := List.getElem?_eq_some_iff.mp hc
      exact ⟨k, hk, rfl, hlt, fun _ => halive⟩
  | want i target =>
      obtain ⟨c, hc, hstep⟩ := Option.bind_eq_some_iff.mp hstep
      obtain ⟨hidle, hstep⟩ := Option.ite_none_right_eq_some.mp hstep
      cases hstep
      refine h.setCall hc (fun _ => by rw [hidle]; rfl) (fun t ht => by cases ht)
        (fun t file g hrun => by cases hrun) (fun t file g k hrun => ?_) fun t hat => by cases hat
      rw [hidle] at hrun
      cases hrun
  | tryLock i =>
      obtain ⟨c, hc, hstep⟩ := Option.bind_eq_some_iff.mp hstep
      split at hstep
      next target hwaiting =>
        have hlive : c.stage.live = true := by rw [hwaiting]; rfl
        have hended : ∀ t file g k, c.stage = .running t file g → s.hooks[g]? = some k →
            k.alive = false := by
          intro t file g k hrun
          rw [hwaiting] at hrun
          cases hrun
        rw [State.tryLock] at hstep
        split_ifs at hstep with hinherited hlocked
        · cases hstep
          refine h.setCall hc (fun _ => hlive) (fun t ht => by cases ht)
            (fun t file g hrun => by cases hrun) hended fun t hat => ?_
          cases hat
          exact eq_of_beq hinherited
        · cases hstep
          refine h.setCall hc (fun _ => hlive) (fun t ht => ?_)
            (fun t file g hrun => by cases hrun) hended fun t hat => by cases hat
          have htarget : target = t := eq_of_beq ht
          subst htarget
          exact .inr (Bool.eq_false_iff.mpr hlocked)
      next => cases hstep
  | timeout i =>
      obtain ⟨c, hc, hstep⟩ := Option.bind_eq_some_iff.mp hstep
      split at hstep
      next target hwaiting =>
        obtain ⟨-, hstep⟩ := Option.ite_none_right_eq_some.mp hstep
        cases hstep
        refine h.setCall hc (fun hlive => by cases hlive) (fun t ht => by cases ht)
          (fun t file g hrun => by cases hrun) (fun t file g k hrun => ?_) fun t hat => by cases hat
        rw [hwaiting] at hrun
        cases hrun
      next => cases hstep
  | spawn i =>
      obtain ⟨c, hc, hstep⟩ := Option.bind_eq_some_iff.mp hstep
      split at hstep
      next target file hlocked =>
        cases hstep
        exact h.spawn hc hlocked
      next => cases hstep
  | hookEnds g =>
      obtain ⟨k, hk, hstep⟩ := Option.bind_eq_some_iff.mp hstep
      obtain ⟨-, hstep⟩ := Option.ite_none_right_eq_some.mp hstep
      cases hstep
      exact h.hookEnds hk horderly
  | reap i =>
      obtain ⟨c, hc, hstep⟩ := Option.bind_eq_some_iff.mp hstep
      split at hstep
      next t file g hrun =>
        obtain ⟨k, hk, hstep⟩ := Option.bind_eq_some_iff.mp hstep
        obtain ⟨hdead, hstep⟩ := Option.ite_none_right_eq_some.mp hstep
        cases hstep
        refine h.setCall hc (fun _ => by rw [hrun]; rfl) (fun t ht => by cases ht)
          (fun t file g hrun => by cases hrun) (fun t' file' g' k' hrun' hk' => ?_)
          fun t hat => by cases hat
        cases hrun.symm.trans hrun'
        cases hk.symm.trans hk'
        exact hdead
      next => cases hstep
  | exit i =>
      obtain ⟨c, hc, hstep⟩ := Option.bind_eq_some_iff.mp hstep
      obtain ⟨hidle, hstep⟩ := Option.ite_none_right_eq_some.mp hstep
      cases hstep
      refine h.setCall hc (fun hlive => by cases hlive) (fun t ht => by cases ht)
        (fun t file g hrun => by cases hrun) (fun t file g k hrun => ?_) fun t hat => by cases hat
      rw [hidle] at hrun
      cases hrun
  | kill i =>
      obtain ⟨c, hc, hstep⟩ := Option.bind_eq_some_iff.mp hstep
      obtain ⟨-, hstep⟩ := Option.ite_none_right_eq_some.mp hstep
      cases hstep
      exact h.setCall hc (fun hlive => by cases hlive) (fun t ht => by cases ht)
        (fun t file g hrun => by cases hrun) (fun t file g k hrun hk => horderly c t file g k hc hrun hk)
        fun t hat => by cases hat

/-- From a hook that runs, up through the calls that inherited its lock. -/
theorem inherits (h : s.Inv) : ∀ (n g : Nat) (k : Hook), k.call = n → s.hooks[g]? = some k →
    k.alive = true → ∃ i c, s.calls[i]? = some c ∧ c.stage.holds k.target = true ∧
      Inherits s i g := by
  intro n
  induction n using Nat.strongRecOn with
  | ind n ih =>
      intro g k hcall hk halive
      obtain ⟨c, file, hc, hrun⟩ := h.alive g k hk halive
      cases file with
      | true =>
          refine ⟨k.call, c, hc, ?_, .own hk rfl hc hrun⟩
          rw [hrun]
          exact beq_self_eq_true k.target
      | false =>
          have hheld := h.skips _ c hc k.target (.inr ⟨g, hrun⟩)
          cases hunder : c.under with
          | none =>
              rw [h.outside _ c hc hunder] at hheld
              cases hheld
          | some g' =>
              obtain ⟨k', hk', hheld', hlt, hlive⟩ := h.under _ c hc g' hunder
              have htarget : k'.target = k.target := Option.some.inj (hheld'.symm.trans hheld)
              have halive' : k'.alive = true := hlive (by rw [hrun]; rfl)
              obtain ⟨i, d, hd, hholds, hinherits⟩ :=
                ih k'.call (hcall ▸ hlt) g' k' rfl hk' halive'
              rw [htarget] at hholds
              exact ⟨i, d, hd, hholds, .nested hk rfl hc hrun hunder hk' htarget hinherits⟩

/-- A call that lives is below hooks that run. -/
theorem alive_of_below (h : s.Inv) {g i : Nat} (hbelow : Below s g i) :
    ∀ c, s.calls[i]? = some c → c.stage.live = true → ∃ k, s.hooks[g]? = some k ∧
      k.alive = true := by
  induction hbelow with
  | child hc hunder =>
      intro c' hc' hlive
      cases hc.symm.trans hc'
      obtain ⟨k, hk, -, -, halive⟩ := h.under _ _ hc _ hunder
      exact ⟨k, hk, halive hlive⟩
  | further hc hunder hk _ ih =>
      intro c' hc' hlive
      cases hc.symm.trans hc'
      obtain ⟨k', hk', -, -, halive⟩ := h.under _ _ hc _ hunder
      cases hk.symm.trans hk'
      obtain ⟨d, file, hd, hrun⟩ := h.alive _ _ hk (halive hlive)
      exact ih d hd (by rw [hrun]; rfl)

theorem excluded (h : s.Inv) : Excluded s where
  unique := h.unique
  below g k hk halive := h.inherits k.call g k rfl hk halive
  stuck g k i c hk hbelow hc hwaiting hheld := by
    have hlive : c.stage.live = true := by rw [hwaiting]; rfl
    obtain ⟨k', hk', halive⟩ := h.alive_of_below hbelow c hc hlive
    cases hk.symm.trans hk'
    obtain ⟨j, d, hd, hholds, -⟩ := h.inherits k.call g k rfl hk halive
    have hlocked := isLocked_iff.mpr ⟨j, d, hd, hholds⟩
    have hown : lockInherited c.held k.target = false := beq_eq_false_iff_ne.mpr hheld
    rw [State.step, hc, Option.bind_some, hwaiting]
    change s.tryLock i c k.target = none
    rw [State.tryLock, if_neg (Bool.eq_false_iff.mp hown), if_pos hlocked]

end Inv

end State

/-- In every orderly run the lock keeps unrelated hooks of a target apart. -/
theorem hooks_excluded {as : List Action} {s : State}
    (h : Machine.run State.step State.new as = some s)
    (horderly : Machine.meets State.step State.Orderly State.new as) : Excluded s := by
  have hall : ∀ (as : List Action) (s : State), Machine.meets State.step State.Orderly State.new as →
      Machine.run State.step State.new as = some s → s.Inv :=
    Machine.run_history_of_meets State.inv_new fun _ _ _ _ _ hm ha hstep => hm.step ha hstep
  exact (hall as s horderly h).excluded

/-- `Orderly`, evaluated. -/
def State.isOrderly (s : State) : Action → Bool
  | .kill i => s.calls[i]?.all fun c =>
      match c.stage with
      | .running _ _ h => s.hooks[h]?.all fun k => !k.alive
      | _ => true
  | .hookEnds h => s.calls.all fun c => c.under != some h || !c.stage.live
  | _ => true

theorem State.orderly_of_check (s : State) (a : Action) (h : s.isOrderly a = true) :
    s.Orderly a := by
  cases a with
  | kill i =>
      intro c target file g k hc hrun hk
      rw [isOrderly, hc, Option.all_some, hrun] at h
      change (s.hooks[g]?.all fun k => !k.alive) = true at h
      rw [hk, Option.all_some, Bool.not_eq_true'] at h
      exact h
  | hookEnds g =>
      intro i c hc hunder
      have hall := List.all_eq_true.mp h c (List.mem_of_getElem? hc)
      rw [hunder, bne_self_eq_false, Bool.false_or, Bool.not_eq_true'] at hall
      exact hall
  | _ => trivial

/-- A hook of `pi` reads its state by a call of its own and then switches `nuc`, whose hook asks for
`pi` again; a call from outside waits in vain. -/
def nestedCalls : List Action :=
  [.start, .want 0 "pi", .tryLock 0, .spawn 0, .nested 0, .want 1 "pi", .tryLock 1, .spawn 1,
    .start, .want 2 "pi", .timeout 2, .hookEnds 1, .reap 1, .want 1 "nuc", .tryLock 1, .spawn 1,
    .nested 2, .want 3 "pi"]

theorem hooks_excluded_nestedCalls :
    ∃ s, Machine.run State.step State.new nestedCalls = some s ∧
      s.hooks.map (·.alive) = [true, false, true] ∧ Excluded s := by
  have hsome : (Machine.run State.step State.new nestedCalls).map
      (fun s => s.hooks.map (·.alive)) = some [true, false, true] := by
    decide +kernel
  obtain ⟨s, hs, halive⟩ := Option.map_eq_some_iff.mp hsome
  have horderly : Machine.meets State.step State.Orderly State.new nestedCalls :=
    Machine.meets_of_check State.orderly_of_check (by decide +kernel)
  exact ⟨s, hs, halive, hooks_excluded hs horderly⟩

end HookLock

end Cli

end Paniolo
