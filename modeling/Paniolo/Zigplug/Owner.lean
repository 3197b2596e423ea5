import Paniolo.Zigplug.Daemon

/-!
# One owner of the coordinator

The daemon exists so that no two processes have the coordinator open. The
discovery file does not say enough for that: a daemon that is still starting
has no file yet, and one that is shutting down has removed it before it closes
the coordinator. Also `forget` compares the file and removes it in two steps.

`one_owner` is about the runs in which neither shows: no client goes on to
start a daemon while another is on its way up or down, and no record is
published between the two steps of a `forget`. `two_owners` gives a run of each
kind that the file does not prevent.
-/

namespace Paniolo

namespace Zigplug

namespace Stage

/-- The process may come to have the coordinator open, or has it open. -/
def isActive (stage : Stage) : Bool := stage.isPending || stage == .serving

/-- The process has published its record at some time. -/
def isPublished : Stage → Bool
  | serving | stopping | cleaned | closed | exited => true
  | _ => false

/-- Nothing listens any more. -/
def isGone : Stage → Bool
  | cleaned | closed | exited => true
  | _ => false

theorem isActive_of_isOpen {stage : Stage} (h : stage.isOpen = true) : stage.isActive = true := by
  revert h
  cases stage <;> decide

theorem isGone_of_isPublished {stage : Stage} (h : stage.isPublished = true)
    (hl : stage.isListening = false) : stage.isGone = true := by
  revert h hl
  cases stage <;> decide

end Stage

/-! ### The invariant -/

/-- What holds of a client at `pc`. -/
def Pc.Fits (s : State) : Pc → Prop
  | .starting => ∀ i, (s.process i).stage.isActive = false
  | .calling d _ => d = s.record d.token ∧ (s.process d.token).stage.isPublished = true
  | .comparing d _ | .dropping d _ => (s.process d.token).stage.isGone = true
  | _ => True

structure Inv (s : State) : Prop where
  born : ∀ i, (s.process i).stage ≠ .unborn → i < s.born
  single : ∀ i j, (s.process i).stage.isActive = true → (s.process j).stage.isActive = true → i = j
  /-- A daemon that serves is listed. -/
  listed : ∀ i, (s.process i).stage = .serving → s.file = some (s.record i)
  /-- What is listed serves, or has crashed. -/
  recorded : ∀ d, s.file = some d → d = s.record d.token ∧
    ((s.process d.token).stage = .serving ∨ (s.process d.token).stage = .exited)
  locked : ∀ c, (s.client c).pc.isLocked = true → s.lock = some c
  fits : ∀ c, (s.client c).pc.Fits s

theorem inv_initial : Inv initial where
  born := fun i h => absurd rfl h
  single := fun i j h => by cases h
  listed := fun i h => by cases h
  recorded := fun d h => by cases h
  locked := fun c h => by cases h
  fits := fun c => trivial

namespace Inv

variable {s : State} {c i : Nat}

/-! ### Steps of a client -/

theorem setClient (h : Inv s) {x : Client} (hfits : x.pc.Fits s)
    (hlock : x.pc.isLocked = true → (s.client c).pc.isLocked = true) :
    Inv { s with client := Function.update s.client c x } where
  born := h.born
  single := h.single
  listed := h.listed
  recorded := h.recorded
  locked := fun c' h' => by
    dsimp only at h' ⊢
    by_cases hc : c' = c
    · subst hc
      rw [Function.update_self] at h'
      exact h.locked c' (hlock h')
    · rw [Function.update_of_ne hc] at h'
      exact h.locked c' h'
  fits := fun c' => by
    dsimp only
    by_cases hc : c' = c
    · subst hc
      rw [Function.update_self]
      exact hfits
    · rw [Function.update_of_ne hc]
      exact h.fits c'

theorem goto (h : Inv s) {pc : Pc} (hfits : pc.Fits s)
    (hlock : pc.isLocked = true → (s.client c).pc.isLocked = true) : Inv (s.goto c pc) :=
  h.setClient hfits hlock

theorem unlock (h : Inv s) {pc : Pc} (hfits : pc.Fits s) (hpc : pc.isLocked = false)
    (hlock : (s.client c).pc.isLocked = true) : Inv (s.unlock c pc) := by
  have hgoto : Inv (s.goto c pc) := h.goto hfits fun hl => absurd hl (by rw [hpc]; decide)
  refine ⟨hgoto.born, hgoto.single, hgoto.listed, hgoto.recorded, fun c' h' => ?_, hgoto.fits⟩
  have hother := hgoto.locked c' h'
  have hself : s.lock = some c := h.locked c hlock
  have hsame : (s.goto c pc).lock = s.lock := rfl
  rw [hsame, hself] at hother
  obtain rfl := Option.some.inj hother
  -- The client itself is outside `spawn` now.
  have hout : ((s.goto c pc).client c).pc = pc := by
    change (Function.update s.client c _ c).pc = pc
    rw [Function.update_self]
  change ((s.goto c pc).client c).pc.isLocked = true at h'
  rw [hout, hpc] at h'
  cases h'

theorem fail (h : Inv s) : Inv (s.fail c) := by
  rw [State.fail]
  split
  · rename_i hlock
    exact h.unlock trivial rfl hlock
  · exact h.goto trivial fun hl => by cases hl

theorem gone (h : Inv s) {inSpawn : Bool}
    (hlock : inSpawn = true → (s.client c).pc.isLocked = true) : Inv (s.gone c inSpawn) := by
  rw [State.gone]
  split
  · rename_i hin
    exact h.goto trivial fun _ => hlock hin
  · split
    · exact h.goto trivial fun hl => by cases hl
    · exact h.setClient trivial fun hl => by cases hl

/-- What `read_discovery` returns was read from the file. -/
theorem file_of_readDiscovery {reused : Bool} {d : Daemon}
    (hd : s.readDiscovery reused = some d) : s.file = some d :=
  (Option.filter_eq_some_iff.mp hd).1

theorem fits_calling (h : Inv s) {d : Daemon} (hd : s.file = some d) (inSpawn : Bool) :
    (Pc.calling d inSpawn).Fits s := by
  obtain ⟨hrecord, hstage⟩ := h.recorded d hd
  refine ⟨hrecord, ?_⟩
  rcases hstage with hstage | hstage
  · rw [hstage]
    rfl
  · rw [hstage]
    rfl

/-- A daemon that serves is found. -/
theorem readDiscovery_of_serving (h : Inv s) (hi : (s.process i).stage = .serving)
    (reused : Bool) : s.readDiscovery reused = some (s.record i) := by
  rw [State.readDiscovery, h.listed i hi, Option.filter_some_eq_some.mpr]
  rw [State.pidAlive, Bool.or_eq_true, List.any_eq_true]
  right
  refine ⟨i, List.mem_range.mpr (h.born i (by rw [hi]; decide)), ?_⟩
  rw [hi, Bool.and_eq_true]
  exact ⟨beq_self_eq_true _, rfl⟩

/-- Nothing listens on the port of a record: that daemon is gone. -/
theorem isGone_of_isRefused (h : Inv s) {d : Daemon} {inSpawn : Bool}
    (hfits : (Pc.calling d inSpawn).Fits s) (hrefused : s.isRefused d.port = true) :
    (s.process d.token).stage.isGone = true := by
  obtain ⟨hrecord, hpublished⟩ := hfits
  apply Stage.isGone_of_isPublished hpublished
  have hborn : d.token < s.born := by
    apply h.born
    intro hstage
    rw [hstage] at hpublished
    cases hpublished
  rw [State.isRefused, List.all_eq_true] at hrefused
  have hnot := hrefused d.token (List.mem_range.mpr hborn)
  have hport : (s.process d.token).port = d.port := by
    rw [hrecord]
    rfl
  rw [hport, beq_self_eq_true, Bool.true_and] at hnot
  simpa using hnot

/-! ### Steps of a daemon -/

/-- What a step of a daemon does to it, whatever becomes of the file. -/
structure Moves (p q : Process) : Prop where
  born : p.stage ≠ .unborn
  active : q.stage.isActive = true → p.stage.isActive = true
  published : p.stage.isPublished = true → q = { p with stage := q.stage } ∧
    q.stage.isPublished = true
  gone : p.stage.isGone = true → q.stage.isGone = true

theorem setProcess (h : Inv s) {p : Process} (hp : Moves (s.process i) p) {f : Option Daemon}
    (hlisted : p.stage = .serving →
      f = some ⟨p.pid, p.port, p.device, i⟩)
    (hothers : ∀ j, j ≠ i → (s.process j).stage = .serving → f = s.file)
    (hfile : ∀ d, f = some d → (d.token ≠ i ∧ s.file = some d) ∨
      (d = ⟨p.pid, p.port, p.device, i⟩ ∧ (p.stage = .serving ∨ p.stage = .exited))) :
    Inv { s with process := Function.update s.process i p, file := f } := by
  have hactive : ∀ j, (Function.update s.process i p j).stage.isActive = true →
      (s.process j).stage.isActive = true := by
    intro j hj
    by_cases hji : j = i
    · subst hji
      rw [Function.update_self] at hj
      exact hp.active hj
    · rwa [Function.update_of_ne hji] at hj
  have hgone : ∀ j, (s.process j).stage.isGone = true →
      (Function.update s.process i p j).stage.isGone = true := by
    intro j hj
    by_cases hji : j = i
    · subst hji
      rw [Function.update_self]
      exact hp.gone hj
    · rwa [Function.update_of_ne hji]
  have hrecord : ∀ d : Daemon, d.token ≠ i → d = s.record d.token →
      d = State.record { s with process := Function.update s.process i p, file := f } d.token := by
    intro d hd hrec
    rw [State.record]
    dsimp only
    rw [Function.update_of_ne hd]
    exact hrec
  refine ⟨fun j hj => ?_, fun j k hj hk => ?_, fun j hj => ?_, fun d hd => ?_, h.locked,
    fun c => ?_⟩
  · dsimp only at hj ⊢
    by_cases hji : j = i
    · subst hji
      exact h.born j hp.born
    · rw [Function.update_of_ne hji] at hj
      exact h.born j hj
  · exact h.single j k (hactive j hj) (hactive k hk)
  · dsimp only at hj ⊢
    by_cases hji : j = i
    · subst hji
      rw [State.record]
      dsimp only
      rw [Function.update_self] at hj ⊢
      exact hlisted hj
    · rw [Function.update_of_ne hji] at hj
      rw [State.record]
      dsimp only
      rw [Function.update_of_ne hji, hothers j hji hj]
      exact h.listed j hj
  · dsimp only at hd ⊢
    rcases hfile d hd with ⟨hne, hold⟩ | ⟨rfl, hstage⟩
    · obtain ⟨hrec, hstage⟩ := h.recorded d hold
      rw [Function.update_of_ne hne]
      exact ⟨hrecord d hne hrec, hstage⟩
    · dsimp only
      rw [Function.update_self, State.record]
      dsimp only
      rw [Function.update_self]
      exact ⟨rfl, hstage⟩
  · have hc := h.fits c
    dsimp only
    cases hpc : (s.client c).pc with
    | starting =>
        rw [hpc] at hc
        intro j
        rw [← Bool.not_eq_true]
        intro hj
        have := hactive j hj
        rw [hc j] at this
        cases this
    | calling d inSpawn =>
        rw [hpc] at hc
        by_cases hdi : d.token = i
        · subst hdi
          obtain ⟨hsame, hpub⟩ := hp.published hc.2
          refine ⟨?_, ?_⟩
          · rw [State.record]
            dsimp only
            rw [Function.update_self, hsame]
            exact hc.1
          · dsimp only
            rw [Function.update_self]
            exact hpub
        · refine ⟨hrecord d hdi hc.1, ?_⟩
          dsimp only
          rw [Function.update_of_ne hdi]
          exact hc.2
    | comparing d inSpawn =>
        rw [hpc] at hc
        exact hgone d.token hc
    | dropping d inSpawn =>
        rw [hpc] at hc
        exact hgone d.token hc
    | idle => trivial
    | ensure => trivial
    | locking => trivial
    | checking => trivial
    | polling => trivial

/-- A step that leaves the file alone, of a daemon that is not listed or that dies. -/
theorem setProcess_file (h : Inv s) {p : Process} (hp : Moves (s.process i) p)
    (hserving : p.stage ≠ .serving)
    (hdies : (s.process i).stage = .serving ∨ (s.process i).stage = .exited → p.stage = .exited) :
    Inv { s with process := Function.update s.process i p } := by
  refine h.setProcess hp (fun hs => absurd hs hserving) (fun j _ _ => rfl) fun d hd => ?_
  obtain ⟨hrec, hstage⟩ := h.recorded d hd
  by_cases hdi : d.token = i
  · subst hdi
    right
    have hexited := hdies hstage
    have hpub : (s.process d.token).stage.isPublished = true := by
      rcases hstage with hstage | hstage
      · rw [hstage]
        rfl
      · rw [hstage]
        rfl
    obtain ⟨hsame, -⟩ := hp.published hpub
    refine ⟨?_, Or.inr hexited⟩
    rw [hsame]
    exact hrec
  · exact Or.inl ⟨hdi, hd⟩

/-- The next stage may follow without the file being touched. -/
def mayFollow (old new : Stage) : Bool :=
  old != .unborn && (!new.isActive || old.isActive) && (!old.isPublished || new.isPublished) &&
    (!old.isGone || new.isGone) && new != .serving &&
    (old != .serving && old != .exited || new == .exited)

theorem reach (h : Inv s) {new : Stage} (hfollow : mayFollow (s.process i).stage new = true) :
    Inv (s.reach i new) := by
  simp only [mayFollow, Bool.and_eq_true, Bool.or_eq_true, Bool.not_eq_true', bne_iff_ne,
    beq_iff_eq, ne_eq] at hfollow
  obtain ⟨⟨⟨⟨⟨hborn, hactive⟩, hpub⟩, hgone⟩, hserving⟩, hdies⟩ := hfollow
  refine h.setProcess_file ⟨hborn, fun ha => ?_, fun hp => ⟨rfl, ?_⟩, fun hg => ?_⟩ hserving
    fun hold => ?_
  · exact hactive.resolve_left (by rw [ha]; decide)
  · exact hpub.resolve_left (by rw [hp]; decide)
  · exact hgone.resolve_left (by rw [hg]; decide)
  · rcases hdies with ⟨hs, he⟩ | hdies
    · exact absurd hold (not_or.mpr ⟨hs, he⟩)
    · exact hdies

theorem advance (h : Inv s) {t : State} {old new : Stage} (hfollow : mayFollow old new = true)
    (hstep : Zigplug.advance s i old new = some t) : Inv t := by
  rw [Zigplug.advance] at hstep
  split at hstep
  · rename_i hold
    cases hstep
    apply h.reach
    rw [hold]
    exact hfollow
  · cases hstep

theorem publish (h : Inv s) {t : State} (hstep : step s (.publish i) = some t) : Inv t := by
  rw [step, Zigplug.advance, Option.map_eq_some_iff] at hstep
  obtain ⟨m, hm, rfl⟩ := hstep
  split at hm
  · rename_i hold
    cases hm
    refine h.setProcess ⟨?_, fun _ => ?_, fun hp => ?_, fun hg => ?_⟩ (fun _ => rfl)
      (fun j hji hj => ?_) fun d hd => ?_
    · rw [hold]
      decide
    · rw [hold]
      rfl
    · rw [hold] at hp
      cases hp
    · rw [hold] at hg
      cases hg
    · exact absurd (h.single j i (by rw [hj]; rfl) (by rw [hold]; rfl)) hji
    · right
      cases hd
      exact ⟨rfl, Or.inl rfl⟩
  · cases hm

theorem stop (h : Inv s) {t : State} (hstep : step s (.stop i) = some t) : Inv t := by
  rw [step, Zigplug.advance, Option.map_eq_some_iff] at hstep
  obtain ⟨m, hm, rfl⟩ := hstep
  split at hm
  · rename_i hold
    cases hm
    refine h.setProcess ⟨?_, fun _ => ?_, fun _ => ⟨rfl, rfl⟩, fun hg => ?_⟩
      (fun hs => by cases hs) (fun j hji hj => ?_) fun d hd => by cases hd
    · rw [hold]
      decide
    · rw [hold]
      rfl
    · rw [hold] at hg
      cases hg
    · exact absurd (h.single j i (by rw [hj]; rfl) (by rw [hold]; rfl)) hji
  · cases hm

end Inv

/-- No daemon is on its way up or down. -/
def State.isSettled (s : State) : Bool :=
  (List.range s.born).all fun i => !(s.process i).stage.isPending

/-- The steps that the discovery file leaves open: a client finds no daemon under
the lock, and `forget` removes the file. -/
def careful (s : State) : Action → Bool
  | .find c reused =>
      !((s.client c).pc == .checking && !(s.readDiscovery reused).isSome) || s.isSettled
  | .drop c =>
      match (s.client c).pc with
      | .dropping d _ => s.file == some d
      | _ => true
  | _ => true

namespace Inv

variable {s t : State} {c i : Nat}

/-- When a client finds no daemon and none is on its way up or down, there is none. -/
theorem inactive_of_isSettled (h : Inv s) {reused : Bool} (hread : s.readDiscovery reused = none)
    (hsettled : s.isSettled = true) (i : Nat) : (s.process i).stage.isActive = false := by
  rw [← Bool.not_eq_true]
  intro hactive
  rw [Stage.isActive, Bool.or_eq_true, beq_iff_eq] at hactive
  rcases hactive with hpending | hserving
  · have hborn : i < s.born := by
      apply h.born
      intro hstage
      rw [hstage] at hpending
      cases hpending
    rw [State.isSettled, List.all_eq_true] at hsettled
    have := hsettled i (List.mem_range.mpr hborn)
    rw [hpending] at this
    cases this
  · rw [h.readDiscovery_of_serving hserving] at hread
    cases hread

theorem find (h : Inv s) {reused : Bool} (hcareful : careful s (.find c reused) = true)
    (hstep : found s c reused = some t) : Inv t := by
  rw [found, State.findDaemon] at hstep
  cases hread : s.readDiscovery reused with
  | none =>
      rw [hread] at hstep
      cases hpc : (s.client c).pc with
      | ensure =>
          rw [hpc] at hstep
          cases hstep
          exact h.goto trivial fun hl => by cases hl
      | checking =>
          rw [hpc] at hstep
          cases hstep
          have hsettled : s.isSettled = true := by
            rw [careful, hpc, hread] at hcareful
            exact hcareful
          refine h.goto (h.inactive_of_isSettled hread hsettled) fun _ => ?_
          rw [hpc]
          rfl
      | polling =>
          rw [hpc] at hstep
          cases hstep
          exact h
      | idle | locking | starting | calling d b | comparing d b | dropping d b =>
          rw [hpc] at hstep
          cases hstep
  | some d =>
      have hfits := h.fits_calling (file_of_readDiscovery hread)
      rw [hread] at hstep
      dsimp only at hstep
      by_cases hdev : d.device = (s.client c).device
      · rw [if_pos hdev] at hstep
        cases hpc : (s.client c).pc with
        | ensure =>
            rw [hpc] at hstep
            cases hstep
            exact h.goto (hfits false) fun hl => by cases hl
        | checking =>
            rw [hpc] at hstep
            cases hstep
            exact h.unlock (hfits false) rfl (by rw [hpc]; rfl)
        | polling =>
            rw [hpc] at hstep
            cases hstep
            exact h.goto (hfits true) fun _ => by rw [hpc]; rfl
        | idle | locking | starting | calling d b | comparing d b | dropping d b =>
            rw [hpc] at hstep
            cases hstep
      · rw [if_neg hdev] at hstep
        cases hpc : (s.client c).pc with
        | ensure | checking | polling =>
            rw [hpc] at hstep
            cases hstep
            exact h.fail
        | idle | locking | starting | calling d b | comparing d b | dropping d b =>
            rw [hpc] at hstep
            cases hstep

theorem lock (h : Inv s) (hpc : (s.client c).pc = .locking) (hfree : s.lock = none) :
    Inv { s.goto c .checking with lock := some c } := by
  -- No client is inside `spawn` while the lock is free.
  have hout : ∀ c', (s.client c').pc.isLocked = false := by
    intro c'
    rw [← Bool.not_eq_true]
    intro hl
    have := h.locked c' hl
    rw [hfree] at this
    cases this
  refine ⟨h.born, h.single, h.listed, h.recorded, fun c' hl => ?_, fun c' => ?_⟩
  · change (Function.update s.client c _ c').pc.isLocked = true at hl
    by_cases hc : c' = c
    · rw [hc]
    · rw [Function.update_of_ne hc, hout c'] at hl
      cases hl
  · change Pc.Fits _ (Function.update s.client c _ c').pc
    by_cases hc : c' = c
    · subst hc
      rw [Function.update_self]
      trivial
    · rw [Function.update_of_ne hc]
      exact h.fits c'

theorem popen (h : Inv s) (hpc : (s.client c).pc = .starting) (pid : Nat) :
    Inv { s.goto c .polling with
      born := s.born + 1
      process := Function.update s.process s.born ⟨pid, 0, (s.client c).device, .started⟩ } := by
  have hclear : ∀ i, (s.process i).stage.isActive = false := by
    have := h.fits c
    rwa [hpc] at this
  have hunborn : (s.process s.born).stage = .unborn := by
    by_contra hne
    exact absurd (h.born s.born hne) (Nat.lt_irrefl _)
  have hnew : ∀ j, (Function.update s.process s.born
      ⟨pid, 0, (s.client c).device, .started⟩ j).stage.isActive = true → j = s.born := by
    intro j hj
    by_contra hne
    rw [Function.update_of_ne hne, hclear j] at hj
    cases hj
  have hlocked : s.lock = some c := h.locked c (by rw [hpc]; rfl)
  refine ⟨fun j hj => ?_, fun j k hj hk => ?_, fun j hj => ?_, fun d hd => ?_, fun c' hl => ?_,
    fun c' => ?_⟩
  · dsimp only at hj ⊢
    by_cases hjb : j = s.born
    · rw [hjb]
      exact Nat.lt_succ_self _
    · rw [Function.update_of_ne hjb] at hj
      exact Nat.lt_succ_of_lt (h.born j hj)
  · rw [hnew j hj, hnew k hk]
  · dsimp only at hj
    by_cases hjb : j = s.born
    · rw [hjb, Function.update_self] at hj
      cases hj
    · rw [Function.update_of_ne hjb] at hj
      have := hclear j
      rw [hj] at this
      cases this
  · obtain ⟨hrec, hstage⟩ := h.recorded d hd
    have hne : d.token ≠ s.born := by
      intro heq
      rw [heq, hunborn] at hstage
      rcases hstage with hstage | hstage <;> cases hstage
    dsimp only [State.record]
    rw [Function.update_of_ne hne]
    exact ⟨hrec, hstage⟩
  · change (Function.update s.client c _ c').pc.isLocked = true at hl
    by_cases hc : c' = c
    · rw [hc]
      exact hlocked
    · rw [Function.update_of_ne hc] at hl
      exact h.locked c' hl
  · change Pc.Fits _ (Function.update s.client c _ c').pc
    by_cases hc : c' = c
    · subst hc
      rw [Function.update_self]
      trivial
    · rw [Function.update_of_ne hc]
      have hfits := h.fits c'
      -- Every record that a client holds is of an older process.
      have hold : ∀ j, (s.process j).stage ≠ .unborn → j ≠ s.born := by
        intro j hj heq
        rw [heq] at hj
        exact hj hunborn
      cases hpc' : (s.client c').pc with
      | starting =>
          have hother := h.locked c' (by rw [hpc']; rfl)
          rw [hlocked] at hother
          exact absurd (Option.some.inj hother).symm hc
      | calling d b =>
          rw [hpc'] at hfits
          have hne := hold d.token fun heq => by
            have := hfits.2
            rw [heq] at this
            cases this
          dsimp only [Pc.Fits, State.record]
          rw [Function.update_of_ne hne]
          exact hfits
      | comparing d b | dropping d b =>
          rw [hpc'] at hfits
          have hne := hold d.token fun heq => by
            change (s.process d.token).stage.isGone = true at hfits
            rw [heq] at hfits
            cases hfits
          change (Function.update s.process s.born _ d.token).stage.isGone = true
          rw [Function.update_of_ne hne]
          exact hfits
      | idle | ensure | locking | checking | polling => trivial

/-- `forget` removes the record of a daemon that is gone. -/
theorem drop (h : Inv s) {d : Daemon} {inSpawn : Bool} (hpc : (s.client c).pc = .dropping d inSpawn)
    (hfile : s.file = some d) : Inv { s.gone c inSpawn with file := none } := by
  have hgone : (s.process d.token).stage.isGone = true := by
    have := h.fits c
    rwa [hpc] at this
  have hstep : Inv (s.gone c inSpawn) := h.gone fun hin => by
    rw [hpc]
    exact hin
  have hprocess : (s.gone c inSpawn).process = s.process := by
    rw [State.gone]
    split
    · rfl
    · split <;> rfl
  refine ⟨hstep.born, hstep.single, fun i hi => ?_, fun d hd => (by cases hd), hstep.locked,
    hstep.fits⟩
  change ((s.gone c inSpawn).process i).stage = .serving at hi
  rw [hprocess] at hi
  have hlisted := h.listed i hi
  rw [hfile] at hlisted
  have htoken : d.token = i := congrArg Daemon.token (Option.some.inj hlisted)
  rw [htoken, hi] at hgone
  cases hgone

theorem step (h : Inv s) {a : Action} (hcareful : careful s a = true)
    (hstep : Zigplug.step s a = some t) : Inv t := by
  cases a with
  | begin c device =>
      rw [Zigplug.step] at hstep
      split at hstep
      · cases hstep
        exact h.setClient trivial fun hl => by cases hl
      · cases hstep
  | find c reused => exact h.find hcareful hstep
  | lock c =>
      rw [Zigplug.step] at hstep
      split at hstep
      · rename_i hpc
        cases hstep
        exact h.lock hpc.1 hpc.2
      · cases hstep
  | popen c pid =>
      rw [Zigplug.step] at hstep
      split at hstep
      · rename_i hpc
        cases hstep
        exact h.popen hpc pid
      · cases hstep
  | answered c =>
      rw [Zigplug.step] at hstep
      have hfits := h.fits c
      split at hstep
      · rename_i d hpc
        rw [hpc] at hfits
        cases hstep
        exact h.unlock hfits rfl (by rw [hpc]; rfl)
      · cases hstep
        exact h.goto trivial fun hl => by cases hl
      · cases hstep
  | failed c =>
      rw [Zigplug.step] at hstep
      split at hstep
      · rename_i d hpc
        cases hstep
        exact h.goto trivial fun _ => by rw [hpc]; rfl
      · cases hstep
        exact h.goto trivial fun hl => by cases hl
      · cases hstep
  | refused c =>
      rw [Zigplug.step] at hstep
      have hfits := h.fits c
      split at hstep
      · rename_i d inSpawn hpc
        rw [hpc] at hfits
        split at hstep
        · rename_i hrefused
          cases hstep
          exact h.goto (h.isGone_of_isRefused hfits hrefused) fun hl => by
            rw [hpc]
            exact hl
        · cases hstep
      · cases hstep
  | compare c =>
      rw [Zigplug.step] at hstep
      have hfits := h.fits c
      split at hstep
      · rename_i d inSpawn hpc
        rw [hpc] at hfits
        split at hstep
        · cases hstep
          exact h.goto hfits fun hl => by
            rw [hpc]
            exact hl
        · cases hstep
          exact h.gone fun hin => by
            rw [hpc]
            exact hin
      · cases hstep
  | drop c =>
      rw [Zigplug.step] at hstep
      split at hstep
      · rename_i d inSpawn hpc
        cases hstep
        refine h.drop hpc ?_
        rw [careful, hpc] at hcareful
        exact beq_iff_eq.mp hcareful
      · cases hstep
  | timeout c =>
      rw [Zigplug.step] at hstep
      split at hstep
      · cases hstep
        exact h.fail
      · cases hstep
  | die c =>
      cases hstep
      exact h.fail
  | look i reused =>
      rw [Zigplug.step] at hstep
      split at hstep
      · exact h.advance (by decide) hstep
      · exact h.advance (by decide) hstep
  | connect i => exact h.advance (by decide) hstep
  | listen i port =>
      rw [Zigplug.step] at hstep
      split at hstep
      · rename_i hold
        cases hstep
        refine h.setProcess_file ⟨?_, fun _ => ?_, fun hp => ?_, fun hg => ?_⟩
          Stage.noConfusion ?_
        · rw [hold]
          decide
        · rw [hold]
          rfl
        · rw [hold] at hp
          cases hp
        · rw [hold] at hg
          cases hg
        · rw [hold]
          rintro (h | h) <;> cases h
      · cases hstep
  | publish i => exact h.publish hstep
  | stop i => exact h.stop hstep
  | cleanup i => exact h.advance (by decide) hstep
  | shutdown i => exact h.advance (by decide) hstep
  | exit i => exact h.advance (by decide) hstep
  | crash i =>
      rw [Zigplug.step] at hstep
      split at hstep
      · rename_i halive
        cases hstep
        apply h.reach
        revert halive
        cases (s.process i).stage <;> decide
      · cases hstep

end Inv

/-! ### Whole runs -/

/-- In every run whose steps are all careful, no two daemons have the coordinator open, and
a daemon that stops does not remove the file of another one that is alive. -/
theorem one_owner {as : List Action} {s : State}
    (hcareful : Machine.meets step (fun s a => careful s a = true) initial as)
    (hrun : Machine.run step initial as = some s) :
    (∀ i j, (s.process i).stage.isOpen = true → (s.process j).stage.isOpen = true → i = j) ∧
      ∀ i t, step s (.stop i) = some t → ∀ d, s.file = some d →
        (s.process d.token).stage.isAlive = true → d.token = i := by
  have hinv : Inv s := Machine.run_history_of_meets (P := fun _ s => Inv s) inv_initial
    (fun _ _ _ _ _ hm hc hstep => hm.step hc hstep) as s hcareful hrun
  constructor
  · intro i j hi hj
    exact hinv.single i j (Stage.isActive_of_isOpen hi) (Stage.isActive_of_isOpen hj)
  · intro i t hstop d hd halive
    rw [step, advance, Option.map_eq_some_iff] at hstop
    obtain ⟨m, hm, -⟩ := hstop
    split at hm
    · rename_i hserving
      have hlisted := hinv.listed i hserving
      rw [hd] at hlisted
      exact congrArg Daemon.token (Option.some.inj hlisted)
    · cases hm

/-- Client `c` starts daemon `i`, which comes up and answers. -/
def startRun (c pid i port : Nat) : List Action :=
  [.begin c "/dev/ttyUSB0", .find c false, .lock c, .find c false, .popen c pid, .look i false,
    .connect i, .listen i port, .publish i, .find c false, .answered c, .answered c]

/-- A daemon is stopped and gone before the next one is started. -/
def restartRun : List Action :=
  startRun 0 100 0 8000 ++ [.stop 0, .cleanup 0, .shutdown 0, .exit 0] ++ startRun 1 101 1 8001

theorem one_owner_restart :
    ∃ s, Machine.run step initial restartRun = some s ∧ (s.process 1).stage.isOpen = true ∧
      ∀ i, (s.process i).stage.isOpen = true → i = 1 := by
  have hrun : ((Machine.run step initial restartRun).any fun s => (s.process 1).stage.isOpen) =
      true := by decide +kernel
  have hcheck : Machine.check step careful initial restartRun = true := by decide +kernel
  obtain ⟨s, hs, hopen⟩ := (Option.any_eq_true _ _).mp hrun
  have hmeets := Machine.meets_of_check (fun _ _ h => h) hcheck
  exact ⟨s, hs, hopen, fun i hi => (one_owner hmeets hs).1 i 1 hi hopen⟩

/-- A client starts a daemon after another one has removed its file and before it has
closed the coordinator. -/
def overlapRun : List Action :=
  startRun 0 100 0 8000 ++ .stop 0 :: (startRun 1 101 1 8001).take 7

/-- The first client gives up while its daemon is still connecting; a second one starts
another, which publishes last. -/
def lateRun : List Action :=
  (startRun 0 100 0 8000).take 6 ++ .timeout 0 :: (startRun 1 101 1 8001).take 6 ++
    [.connect 0, .listen 0 8000, .publish 0, .connect 1, .listen 1 8001, .publish 1]

theorem two_owners :
    (∃ s, Machine.run step initial overlapRun = some s ∧ (s.process 0).stage.isOpen = true ∧
      (s.process 1).stage.isOpen = true) ∧
    ∃ s t d, Machine.run step initial lateRun = some s ∧ step s (.stop 0) = some t ∧
      s.file = some d ∧ d.token = 1 ∧ (s.process 1).stage.isAlive = true ∧ t.file = none := by
  have hoverlap : ((Machine.run step initial overlapRun).any fun s =>
      (s.process 0).stage.isOpen && (s.process 1).stage.isOpen) = true := by decide +kernel
  have hlate : ((Machine.run step initial lateRun).any fun s =>
      (s.process 1).stage.isAlive && s.file.any (fun d => d.token == 1) &&
        (step s (.stop 0)).any fun t => t.file.isNone) = true := by decide +kernel
  obtain ⟨s, hs, hopen⟩ := (Option.any_eq_true _ _).mp hoverlap
  obtain ⟨u, hu, hcond⟩ := (Option.any_eq_true _ _).mp hlate
  rw [Bool.and_eq_true] at hopen
  rw [Bool.and_eq_true, Bool.and_eq_true] at hcond
  obtain ⟨d, hd, htoken⟩ := (Option.any_eq_true _ _).mp hcond.1.2
  obtain ⟨t, ht, hnone⟩ := (Option.any_eq_true _ _).mp hcond.2
  exact ⟨⟨s, hs, hopen⟩, u, t, d, hu, ht, hd, beq_iff_eq.mp htoken, hcond.1.1,
    Option.isNone_iff_eq_none.mp hnone⟩

end Zigplug

end Paniolo
