import Paniolo.Jetkvm.Owner

/-!
# A session that was taken over

When a session ends because another client took it over, nothing but explicit
intent should make the owner dial again. It does not, as long as no goroutine
goes on to dial for something from before that end, or by a flag that it read
before `watch` had noted the end.
-/

namespace Paniolo

namespace Jetkvm

namespace Core

section Links

variable (c : Core) (l m : Nat)

theorem getElem?_drop : (c.drop l).links[m]? =
    c.links[m]?.map fun k => if l = m then { k with done := true } else k := by
  rw [drop, List.getElem?_modify]
  rfl

theorem isLive_of_isLive_drop (h : (c.drop l).isLive m = true) : c.isLive m = true := by
  rw [isLive, getElem?_drop] at h
  rw [isLive]
  cases hm : c.links[m]? with
  | none =>
      rw [hm] at h
      cases h
  | some k =>
      rw [hm] at h
      by_cases hl : l = m
      · simp [hl] at h
      · simpa [hl] using h

theorem endedKicked_drop (h : c.endedKicked m = true) : (c.drop l).endedKicked m = true := by
  rw [endedKicked] at h
  rw [endedKicked, getElem?_drop]
  cases hm : c.links[m]? with
  | none =>
      rw [hm] at h
      cases h
  | some k =>
      rw [hm] at h
      by_cases hl : l = m
      · simp_all
      · simpa [hl] using h

theorem isLive_eq_false_of_le (h : c.links.length ≤ l) : c.isLive l = false := by
  rw [isLive, List.getElem?_eq_none h]
  rfl

theorem lt_of_isLive (h : c.isLive l = true) : l < c.links.length := by
  by_contra hn
  rw [c.isLive_eq_false_of_le l (not_lt.mp hn)] at h
  cases h

theorem liveLink_eq_some {c : Core} {l : Nat} (h : c.liveLink = some l) :
    c.link = some l ∧ c.isLive l = true := Option.filter_eq_some_iff.mp h

theorem liveLink_eq_none {c : Core} {l : Nat} (h : c.liveLink = none) (hl : c.link = some l) :
    c.isLive l = false := by
  rw [liveLink, Option.filter_eq_none_iff] at h
  exact Bool.not_eq_true _ ▸ h l hl

end Links

/-- What holds while a dial would fight for the session: every goroutine that is
on its way to one acts on something stale, no session is up and none is being
dialed, and the end is noted, or some goroutine or the owner has the session
whose end is still to be noted. -/
structure Barred (c : Core) : Prop where
  stale : ∀ a, c.stage a ≠ .idle → c.stale a = true
  dead : ∀ l, c.isLive l = false
  notDialing : ∀ a, c.stage a ≠ .dialing
  noted : (∃ a l, c.stage a = .dialed l ∧ c.endedKicked l = true) ∨
    (∀ a l, c.stage a ≠ .dialed l) ∧
      (c.kicked = true ∨ ∃ l, c.link = some l ∧ c.endedKicked l = true)

/-- The invariant of what the goroutines share. -/
structure Inv (c : Core) : Prop where
  holder : ∀ a, (c.stage a).holds = true → c.connMu = some a
  linkBound : ∀ l, c.link = some l → l < c.links.length
  dialedBound : ∀ a l, c.stage a = .dialed l → l < c.links.length
  live : ∀ l, c.isLive l = true → c.link = some l ∨ ∃ a, c.stage a = .dialed l
  dialDead : ∀ a, (c.stage a = .dialing ∨ ∃ m, c.stage a = .dialed m) →
    ∀ l, c.link = some l → c.isLive l = false
  barred : c.barred = true → Barred c
  fought : c.fought = false

theorem inv_initial : Inv initial where
  holder := by
    intro a h
    cases h
  linkBound := by
    intro l h
    cases h
  dialedBound := by
    intro a l h
    cases h
  live := by
    intro l h
    cases h
  dialDead := by
    rintro a (h | ⟨m, h⟩)
    · cases h
    · cases h
  barred := by
    intro h
    cases h
  fought := rfl

variable {c : Core} {me : Actor}

theorem Inv.not_dialed (h : Inv c) {a : Actor} (ha : (c.stage a).holds = true) {b : Actor}
    (hb : b ≠ a) : (c.stage b).holds = false := by
  by_contra hn
  rw [Bool.not_eq_false] at hn
  have h1 := h.holder a ha
  rw [h.holder b hn] at h1
  exact hb (Option.some_inj.mp h1)

theorem ne_of_holds_false {s t : Stage} (hs : s.holds = false) (ht : t.holds = true) : s ≠ t := by
  rintro rfl
  rw [hs] at ht
  cases ht

section Update

variable {s : Stage}

theorem move_stage_self (c : Core) (me : Actor) (s : Stage) : (c.move me s).stage me = s := by
  simp only [move, Function.update_self]

theorem intend_stage_self (c : Core) (me : Actor) (s : Stage) : (c.intend me s).stage me = s := by
  simp only [intend, Function.update_self]

theorem resumeLive_stage_self (c : Core) (me : Actor) (s : Stage) :
    (c.resumeLive me s).stage me = s := by
  simp only [resumeLive, Function.update_self]

theorem decideByFlag_stage_self (c : Core) (me : Actor) : (c.decideByFlag me).stage me = .check := by
  simp only [decideByFlag, Function.update_self]

/-- A stage at which `connMu` is held is another goroutine's, when this one goes
to a stage at which it is not. -/
theorem stage_update_of_holds (hs : s.holds = false) {a : Actor} {t : Stage} (ht : t.holds = true)
    (h : Function.update c.stage me s a = t) : a ≠ me ∧ c.stage a = t := by
  by_cases ha : a = me
  · subst ha
    rw [Function.update_self] at h
    exact absurd h (ne_of_holds_false hs ht)
  · rw [Function.update_of_ne ha] at h
    exact ⟨ha, h⟩

theorem stage_update_of_ne (hme : (c.stage me).holds = false) {a : Actor} {t : Stage}
    (ht : t.holds = true) (h : c.stage a = t) : Function.update c.stage me s a = t := by
  have ha : a ≠ me := by
    rintro rfl
    rw [h] at hme
    exact absurd hme (by rw [ht]; simp)
  rw [Function.update_of_ne ha, h]

/-- A goroutine goes from one stage without `connMu` to another. -/
theorem Inv.walk (h : Inv c) (hme : (c.stage me).holds = false) (hs : s.holds = false) {b : Bool}
    {st : Actor → Bool}
    (hb : b = true → c.barred = true ∧ (∀ a, a ≠ me → st a = c.stale a) ∧
      (s ≠ .idle → st me = true)) :
    Inv { c with stage := Function.update c.stage me s, barred := b, stale := st } where
  holder := by
    intro a ha
    exact h.holder a (by rw [(stage_update_of_holds hs ha rfl).2]; exact ha)
  linkBound := h.linkBound
  dialedBound := by
    intro a l ha
    exact h.dialedBound a l (stage_update_of_holds hs rfl ha).2
  live := by
    intro l hl
    rcases h.live l hl with hlink | ⟨a, ha⟩
    · exact Or.inl hlink
    · exact Or.inr ⟨a, stage_update_of_ne hme rfl ha⟩
  dialDead := by
    rintro a (ha | ⟨m, ha⟩)
    · exact h.dialDead a (Or.inl (stage_update_of_holds hs rfl ha).2)
    · exact h.dialDead a (Or.inr ⟨m, (stage_update_of_holds hs rfl ha).2⟩)
  barred := by
    intro hbar
    obtain ⟨hc, hst, hstale⟩ := hb hbar
    have hbarred := h.barred hc
    refine ⟨?_, hbarred.dead, ?_, ?_⟩
    · intro a ha
      by_cases hame : a = me
      · subst hame
        apply hstale
        rintro rfl
        exact ha (Function.update_self _ _ _)
      · have hold : c.stage a ≠ .idle := fun hi => ha ((Function.update_of_ne hame _ _).trans hi)
        exact (hst a hame).trans (hbarred.stale a hold)
    · intro a ha
      exact hbarred.notDialing a (stage_update_of_holds hs rfl ha).2
    · rcases hbarred.noted with ⟨a, l, ha, hl⟩ | ⟨hnone, hnoted⟩
      · exact Or.inl ⟨a, l, stage_update_of_ne hme rfl ha, hl⟩
      · refine Or.inr ⟨?_, hnoted⟩
        intro a l ha
        exact hnone a l (stage_update_of_holds hs rfl ha).2
  fought := h.fought

theorem Inv.move (h : Inv c) (hme : (c.stage me).holds = false) (hs : s.holds = false)
    (hidle : c.stage me = .idle → s = .idle) : Inv (c.move me s) := by
  refine h.walk hme hs fun hb => ⟨hb, fun a _ => rfl, ?_⟩
  intro hne
  exact (h.barred hb).stale me fun hi => hne (hidle hi)

theorem Inv.intend (h : Inv c) (hme : (c.stage me).holds = false) (hs : s.holds = false) :
    Inv (c.intend me s) := by
  refine h.walk hme hs ?_
  intro hb
  cases hb

/-- No session is up while barred. -/
theorem Inv.resumeLive (h : Inv c) (hme : (c.stage me).holds = false) (hs : s.holds = false)
    {l : Nat} (hl : c.liveLink = some l) : Inv (c.resumeLive me s) := by
  refine h.walk hme hs fun hb => ?_
  have hdead := (h.barred hb).dead l
  rw [(liveLink_eq_some hl).2] at hdead
  cases hdead

/-- Who reads the flag after the end was noted does not decide to connect. -/
theorem Inv.decideByFlag (h : Inv c) (hme : (c.stage me).holds = false)
    (hk : c.kicked = false) : Inv (c.decideByFlag me) := by
  refine h.walk hme rfl fun hb => ⟨hb, fun a ha => Function.update_of_ne ha _ _, fun _ => ?_⟩
  rw [Function.update_self, unnoted, Bool.or_eq_true]
  rcases (h.barred hb).noted with ⟨a, l, ha, hl⟩ | ⟨-, hkicked | ⟨l, hlink, hl⟩⟩
  · have hmu := h.holder a (by rw [ha]; rfl)
    refine Or.inr ?_
    rw [hmu, Option.any_some, ha]
    exact hl
  · rw [hk] at hkicked
    cases hkicked
  · refine Or.inl ?_
    rw [hlink, Option.any_some]
    exact hl

end Update

section Ensure

/-- Taking `connMu`. -/
theorem Inv.lock (h : Inv c) (hme : c.stage me = .lock) (hmu : c.connMu = none) :
    Inv ({ c with connMu := some me }.move me .recheck) := by
  have hfree : ∀ a, (c.stage a).holds = false := by
    intro a
    by_contra hn
    rw [Bool.not_eq_false] at hn
    have hsome := h.holder a hn
    rw [hmu] at hsome
    cases hsome
  have hold : ∀ {a : Actor} {t : Stage}, t.holds = true → t ≠ .recheck →
      Function.update c.stage me .recheck a = t → False := by
    intro a t ht hne ha
    by_cases hame : a = me
    · subst hame
      rw [Function.update_self] at ha
      exact hne ha.symm
    · rw [Function.update_of_ne hame] at ha
      have hnot := hfree a
      rw [ha, ht] at hnot
      cases hnot
  constructor
  · intro a ha
    by_cases hame : a = me
    · rw [hame]
      rfl
    · change (Function.update c.stage me .recheck a).holds = true at ha
      rw [Function.update_of_ne hame, hfree a] at ha
      cases ha
  · exact h.linkBound
  · intro a l ha
    exact (hold rfl (by simp) ha).elim
  · intro l hl
    rcases h.live l hl with hlink | ⟨a, ha⟩
    · exact Or.inl hlink
    · have hnot := hfree a
      rw [ha] at hnot
      cases hnot
  · rintro a (ha | ⟨m, ha⟩)
    · exact (hold rfl (by simp) ha).elim
    · exact (hold rfl (by simp) ha).elim
  · intro hb
    have hbarred := h.barred hb
    refine ⟨?_, hbarred.dead, fun a ha => hold rfl (by simp) ha, ?_⟩
    · intro a ha
      by_cases hame : a = me
      · subst hame
        exact hbarred.stale a (by rw [hme]; simp)
      · change Function.update c.stage me .recheck a ≠ .idle at ha
        rw [Function.update_of_ne hame] at ha
        exact hbarred.stale a ha
    · rcases hbarred.noted with ⟨a, l, ha, -⟩ | ⟨-, hnoted⟩
      · have hnot := hfree a
        rw [ha] at hnot
        cases hnot
      · exact Or.inr ⟨fun a l ha => hold rfl (by simp) ha, hnoted⟩
  · exact h.fought

/-- Calling `dial`: whoever may is not stale, so nothing is fought for. -/
theorem Inv.dial (h : Inv c) (hme : c.stage me = .recheck) (hnone : c.liveLink = none)
    (hfresh : c.stale me = false) :
    Inv ({ c with fought := c.fought || c.barred }.move me .dialing) := by
  have hnot : c.barred = false := by
    by_contra hb
    rw [Bool.not_eq_false] at hb
    have hst := (h.barred hb).stale me (by rw [hme]; simp)
    rw [hfresh] at hst
    cases hst
  have hold : ∀ a l, Function.update c.stage me .dialing a = .dialed l → c.stage a = .dialed l := by
    intro a l ha
    by_cases hame : a = me
    · subst hame
      rw [Function.update_self] at ha
      cases ha
    · rwa [Function.update_of_ne hame] at ha
  constructor
  · intro a ha
    by_cases hame : a = me
    · rw [hame]
      exact h.holder me (by rw [hme]; rfl)
    · change (Function.update c.stage me .dialing a).holds = true at ha
      rw [Function.update_of_ne hame] at ha
      exact h.holder a ha
  · exact h.linkBound
  · intro a l ha
    exact h.dialedBound a l (hold a l ha)
  · intro l hl
    rcases h.live l hl with hlink | ⟨a, ha⟩
    · exact Or.inl hlink
    · refine Or.inr ⟨a, ?_⟩
      have hame : a ≠ me := by
        rintro rfl
        rw [hme] at ha
        cases ha
      exact (Function.update_of_ne hame _ _).trans ha
  · intro a _ l hl
    exact liveLink_eq_none hnone hl
  · intro hb
    change c.barred = true at hb
    rw [hnot] at hb
    cases hb
  · change (c.fought || c.barred) = false
    rw [h.fought, hnot]
    rfl

theorem isLive_append (c : Core) {l : Nat} (hl : l ≠ c.links.length) (k : Link) :
    { c with links := c.links ++ [k] }.isLive l = c.isLive l := by
  rw [isLive, isLive]
  rcases Nat.lt_or_gt_of_ne hl with hlt | hgt
  · rw [List.getElem?_append_left hlt]
  · rw [List.getElem?_eq_none hgt.le, List.getElem?_eq_none]
    rw [List.length_append]
    exact hgt

/-- `dial` returns a session. -/
theorem Inv.opened (h : Inv c) (hme : c.stage me = .dialing) :
    Inv ({ c with links := c.links ++ [(⟨false, false⟩ : Link)] }.move me
      (.dialed c.links.length)) := by
  have hholds : (c.stage me).holds = true := by
    rw [hme]
    rfl
  have hlen : c.links.length < (c.links ++ [(⟨false, false⟩ : Link)]).length := by
    rw [List.length_append]
    exact Nat.lt_succ_self _
  constructor
  · intro a ha
    by_cases hame : a = me
    · rw [hame]
      exact h.holder me hholds
    · change (Function.update c.stage me _ a).holds = true at ha
      rw [Function.update_of_ne hame] at ha
      exact h.holder a ha
  · intro l hl
    exact (h.linkBound l hl).trans hlen
  · intro a l ha
    by_cases hame : a = me
    · subst hame
      change Function.update c.stage a _ a = _ at ha
      rw [Function.update_self] at ha
      cases ha
      exact hlen
    · change Function.update c.stage me _ a = _ at ha
      rw [Function.update_of_ne hame] at ha
      exact (h.dialedBound a l ha).trans hlen
  · intro l hl
    by_cases hnew : l = c.links.length
    · subst hnew
      exact Or.inr ⟨me, Function.update_self _ _ _⟩
    · have hl' : c.isLive l = true := (isLive_append c hnew _).symm.trans hl
      rcases h.live l hl' with hlink | ⟨a, ha⟩
      · exact Or.inl hlink
      · refine Or.inr ⟨a, ?_⟩
        have hame : a ≠ me := by
          rintro rfl
          rw [hme] at ha
          cases ha
        exact (Function.update_of_ne hame _ _).trans ha
  · intro a _ l hl
    have hne : l ≠ c.links.length := Nat.ne_of_lt (h.linkBound l hl)
    exact (isLive_append c hne _).trans (h.dialDead me (Or.inl hme) l hl)
  · intro hb
    exact absurd hme ((h.barred hb).notDialing me)
  · exact h.fought

/-- Leaving the section of `connMu`, with what the owner holds then. -/
theorem Inv.leave (h : Inv c) (hme : (c.stage me).holds = true) {link : Option Nat} {kicked : Bool}
    (hbound : ∀ l, link = some l → l < c.links.length)
    (hlive : ∀ l, c.isLive l = true → link = some l)
    (hnoted : c.barred = true → kicked = true ∨ ∃ l, link = some l ∧ c.endedKicked l = true) :
    Inv ({ c with link := link, kicked := kicked, connMu := none }.move me .busy) := by
  have hnone : ∀ a, (Function.update c.stage me .busy a).holds = false := by
    intro a
    by_cases hame : a = me
    · rw [hame, Function.update_self]
      rfl
    · rw [Function.update_of_ne hame]
      exact h.not_dialed hme hame
  have hnot : ∀ a {t : Stage}, t.holds = true → Function.update c.stage me .busy a ≠ t :=
    fun a _ ht => ne_of_holds_false (hnone a) ht
  constructor
  · intro a ha
    have hfalse := hnone a
    change (Function.update c.stage me .busy a).holds = true at ha
    rw [ha] at hfalse
    cases hfalse
  · exact hbound
  · intro a l ha
    exact absurd ha (hnot a rfl)
  · intro l hl
    exact Or.inl (hlive l hl)
  · rintro a (ha | ⟨m, ha⟩)
    · exact absurd ha (hnot a rfl)
    · exact absurd ha (hnot a rfl)
  · intro hb
    have hbarred := h.barred hb
    refine ⟨?_, hbarred.dead, fun a => hnot a rfl, Or.inr ⟨fun a l => hnot a rfl, hnoted hb⟩⟩
    intro a ha
    by_cases hame : a = me
    · subst hame
      apply hbarred.stale
      rintro hi
      rw [hi] at hme
      cases hme
    · exact hbarred.stale a fun hi => ha ((Function.update_of_ne hame _ _).trans hi)
  · exact h.fought

/-- Leaving with what the owner had, when this goroutine opened nothing. -/
theorem Inv.leave_unchanged (h : Inv c) (hme : (c.stage me).holds = true)
    (hnot : ∀ l, c.stage me ≠ .dialed l) : Inv ({ c with connMu := none }.move me .busy) := by
  have hother : ∀ a l, c.stage a ≠ .dialed l := by
    intro a l ha
    by_cases hame : a = me
    · exact hnot l (hame ▸ ha)
    · have hfree := h.not_dialed hme hame
      rw [ha] at hfree
      cases hfree
  refine h.leave hme h.linkBound ?_ ?_
  · intro l hl
    rcases h.live l hl with hlink | ⟨a, ha⟩
    · exact hlink
    · exact absurd ha (hother a l)
  · intro hb
    rcases (h.barred hb).noted with ⟨a, l, ha, -⟩ | ⟨-, hnoted⟩
    · exact absurd ha (hother a l)
    · exact hnoted

/-- The owner gets the session that was opened. -/
theorem Inv.publish (h : Inv c) {l : Nat} (hme : c.stage me = .dialed l) :
    Inv ({ c with link := some l, kicked := false, connMu := none }.move me .busy) := by
  have hholds : (c.stage me).holds = true := by
    rw [hme]
    rfl
  have honly : ∀ a m, c.stage a = .dialed m → m = l := by
    intro a m ha
    by_cases hame : a = me
    · subst hame
      rw [hme] at ha
      cases ha
      rfl
    · have hfree := h.not_dialed hholds hame
      rw [ha] at hfree
      cases hfree
  refine h.leave hholds ?_ ?_ ?_
  · intro m hm
    cases hm
    exact h.dialedBound me l hme
  · intro m hm
    rcases h.live m hm with hlink | ⟨a, ha⟩
    · have hdead := h.dialDead me (Or.inr ⟨l, hme⟩) m hlink
      rw [hm] at hdead
      cases hdead
    · rw [honly a m ha]
  · intro hb
    rcases (h.barred hb).noted with ⟨a, m, ha, hm⟩ | ⟨hnone, -⟩
    · obtain rfl := honly a m ha
      exact Or.inr ⟨m, rfl, hm⟩
    · exact absurd hme (hnone me l)

/-- One step of `ensureLink` keeps the invariant, unless a stale goroutine dials. -/
theorem Inv.ensureStep (h : Inv c) {o : DialOutcome} {c' : Core} {out : Ensured}
    (hstep : c.ensureStep me o = some (c', out))
    (hfresh : c.stage me = .recheck → c.liveLink = none → c.stale me = false) :
    Inv c' ∧ (out ≠ .waiting → c'.stage me = .busy) := by
  unfold Core.ensureStep at hstep
  cases hme : c.stage me with
  | idle =>
      rw [hme] at hstep
      cases hstep
  | busy =>
      rw [hme] at hstep
      cases hstep
  | check =>
      rw [hme] at hstep
      dsimp only at hstep
      have hfree : (c.stage me).holds = false := by
        rw [hme]
        rfl
      cases hlive : c.liveLink with
      | some l =>
          rw [hlive] at hstep
          cases hstep
          exact ⟨h.move hfree rfl (by rw [hme]; simp), fun _ => Function.update_self _ _ _⟩
      | none =>
          rw [hlive] at hstep
          cases hstep
          exact ⟨h.move hfree rfl (by rw [hme]; simp), fun hout => absurd rfl hout⟩
  | lock =>
      rw [hme] at hstep
      dsimp only at hstep
      split_ifs at hstep with hmu
      cases hstep
      exact ⟨h.lock hme hmu, fun hout => absurd rfl hout⟩
  | recheck =>
      have hholds : (c.stage me).holds = true := by
        rw [hme]
        rfl
      rw [hme] at hstep
      dsimp only at hstep
      cases hlive : c.liveLink with
      | some l =>
          rw [hlive] at hstep
          cases hstep
          exact ⟨h.leave_unchanged hholds (by rw [hme]; simp), fun _ => Function.update_self _ _ _⟩
      | none =>
          rw [hlive] at hstep
          cases hstep
          exact ⟨h.dial hme hlive (hfresh hme hlive), fun hout => absurd rfl hout⟩
  | dialing =>
      have hholds : (c.stage me).holds = true := by
        rw [hme]
        rfl
      rw [hme] at hstep
      cases o with
      | ok =>
          cases hstep
          exact ⟨h.opened hme, fun hout => absurd rfl hout⟩
      | error e =>
          cases hstep
          exact ⟨h.leave_unchanged hholds (by rw [hme]; simp), fun _ => Function.update_self _ _ _⟩
  | dialed l =>
      rw [hme] at hstep
      cases hstep
      exact ⟨h.publish hme, fun _ => Function.update_self _ _ _⟩

theorem ensureStep_stage {o : DialOutcome} {c' : Core} {out : Ensured}
    (hstep : c.ensureStep me o = some (c', out)) {a : Actor} (ha : a ≠ me) :
    c'.stage a = c.stage a := by
  unfold Core.ensureStep at hstep
  split at hstep
  · split at hstep
    · cases hstep
      exact Function.update_of_ne ha _ _
    · cases hstep
      exact Function.update_of_ne ha _ _
  · split_ifs at hstep
    cases hstep
    exact Function.update_of_ne ha _ _
  · split at hstep
    · cases hstep
      exact Function.update_of_ne ha _ _
    · cases hstep
      exact Function.update_of_ne ha _ _
  · split at hstep
    · cases hstep
      exact Function.update_of_ne ha _ _
    · cases hstep
      exact Function.update_of_ne ha _ _
  · cases hstep
    exact Function.update_of_ne ha _ _
  · cases hstep
  · cases hstep

theorem ensureStep_ne_idle {o : DialOutcome} {c' : Core} {out : Ensured}
    (hstep : c.ensureStep me o = some (c', out)) : c'.stage me ≠ .idle := by
  have hmoved : ∀ (d : Core) {s : Stage}, s ≠ .idle → (d.move me s).stage me ≠ .idle := by
    intro d s hs
    rw [Core.move]
    change Function.update d.stage me s me ≠ .idle
    rwa [Function.update_self]
  unfold Core.ensureStep at hstep
  split at hstep
  · split at hstep
    · cases hstep
      exact hmoved _ (by simp)
    · cases hstep
      exact hmoved _ (by simp)
  · split_ifs at hstep
    cases hstep
    exact hmoved _ (by simp)
  · split at hstep
    · cases hstep
      exact hmoved _ (by simp)
    · cases hstep
      exact hmoved _ (by simp)
  · split at hstep
    · cases hstep
      exact hmoved _ (by simp)
    · cases hstep
      exact hmoved _ (by simp)
  · cases hstep
    exact hmoved _ (by simp)
  · cases hstep
  · cases hstep

end Ensure

section Sessions

/-- Sessions only end, and those that ended kicked stay so. -/
theorem Inv.links (h : Inv c) {links : List Link} (hlen : links.length = c.links.length)
    (hlive : ∀ l, { c with links := links }.isLive l = true → c.isLive l = true)
    (hended : ∀ l, c.endedKicked l = true → { c with links := links }.endedKicked l = true) :
    Inv { c with links := links } where
  holder := h.holder
  linkBound := by
    intro l hl
    exact (h.linkBound l hl).trans_eq hlen.symm
  dialedBound := by
    intro a l ha
    exact (h.dialedBound a l ha).trans_eq hlen.symm
  live := fun l hl => h.live l (hlive l hl)
  dialDead := by
    intro a ha l hl
    by_contra hn
    rw [Bool.not_eq_false] at hn
    have hdead := h.dialDead a ha l hl
    rw [hlive l hn] at hdead
    cases hdead
  barred := by
    intro hb
    have hbarred := h.barred hb
    refine ⟨hbarred.stale, ?_, hbarred.notDialing, ?_⟩
    · intro l
      by_contra hn
      rw [Bool.not_eq_false] at hn
      have hdead := hbarred.dead l
      rw [hlive l hn] at hdead
      cases hdead
    · rcases hbarred.noted with ⟨a, l, ha, hl⟩ | ⟨hnone, hk | ⟨l, hlink, hl⟩⟩
      · exact Or.inl ⟨a, l, ha, hended l hl⟩
      · exact Or.inr ⟨hnone, Or.inl hk⟩
      · exact Or.inr ⟨hnone, Or.inr ⟨l, hlink, hended l hl⟩⟩
  fought := h.fought

theorem Inv.drop (h : Inv c) (l : Nat) : Inv (c.drop l) :=
  h.links (List.length_modify _ _ _) (isLive_of_isLive_drop c l) (endedKicked_drop c l)

/-- At most one session is up. -/
theorem Inv.live_unique (h : Inv c) {l m : Nat} (hl : c.isLive l = true)
    (hm : c.isLive m = true) : m = l := by
  rcases h.live l hl with hlink | ⟨a, ha⟩
  · rcases h.live m hm with hlink' | ⟨b, hb⟩
    · rw [hlink] at hlink'
      exact (Option.some_inj.mp hlink').symm
    · have hdead := h.dialDead b (Or.inr ⟨m, hb⟩) l hlink
      rw [hl] at hdead
      cases hdead
  · rcases h.live m hm with hlink' | ⟨b, hb⟩
    · have hdead := h.dialDead a (Or.inr ⟨l, ha⟩) m hlink'
      rw [hm] at hdead
      cases hdead
    · have hmu := h.holder a (by rw [ha]; rfl)
      rw [h.holder b (by rw [hb]; rfl)] at hmu
      obtain rfl := Option.some_inj.mp hmu
      rw [ha] at hb
      cases hb
      rfl

/-- Nobody is dialing while a session is up. -/
theorem Inv.not_dialing_of_live (h : Inv c) {l : Nat} (hl : c.isLive l = true) (a : Actor) :
    c.stage a ≠ .dialing := by
  intro ha
  rcases h.live l hl with hlink | ⟨b, hb⟩
  · have hdead := h.dialDead a (Or.inl ha) l hlink
    rw [hl] at hdead
    cases hdead
  · have hmu := h.holder a (by rw [ha]; rfl)
    rw [h.holder b (by rw [hb]; rfl)] at hmu
    obtain rfl := Option.some_inj.mp hmu
    rw [ha] at hb
    cases hb

theorem getElem?_taken (c : Core) (l m : Nat) :
    (c.links.modify l fun _ => ⟨true, true⟩)[m]? =
      c.links[m]?.map fun k => if l = m then (⟨true, true⟩ : Link) else k := by
  rw [List.getElem?_modify]
  rfl

/-- The session that ends is the only one that was up, so it is the owner's or
about to be, and nobody is dialing. -/
theorem Inv.taken (h : Inv c) {l : Nat} (hlive : c.isLive l = true) :
    Inv { c with
      links := c.links.modify l fun _ => ⟨true, true⟩
      barred := true
      stale := fun _ => true } := by
  have hlt := c.lt_of_isLive l hlive
  have hended : (c.links.modify l fun _ => ⟨true, true⟩)[l]?.any
      (fun k : Link => k.done && k.kicked) = true := by
    rw [getElem?_taken, List.getElem?_eq_getElem hlt]
    simp
  have hdead : ∀ m : Nat, (c.links.modify l fun _ => ⟨true, true⟩)[m]?.any
      (fun k : Link => !k.done) = false := by
    intro m
    rw [getElem?_taken]
    by_cases hm : l = m
    · subst hm
      rw [List.getElem?_eq_getElem hlt]
      simp
    · have hnot : c.isLive m = false := by
        by_contra hn
        rw [Bool.not_eq_false] at hn
        exact hm (h.live_unique hlive hn).symm
      rw [isLive] at hnot
      simpa [hm] using hnot
  constructor
  · exact h.holder
  · intro m hm
    exact (h.linkBound m hm).trans_eq (List.length_modify _ _ _).symm
  · intro a m ha
    exact (h.dialedBound a m ha).trans_eq (List.length_modify _ _ _).symm
  · intro m hm
    exact absurd ((hdead m).symm.trans hm) Bool.false_ne_true
  · intro a _ m _
    exact hdead m
  · intro _
    refine ⟨fun _ _ => rfl, hdead, h.not_dialing_of_live hlive, ?_⟩
    rcases h.live l hlive with hlink | ⟨a, ha⟩
    · refine Or.inr ⟨?_, Or.inr ⟨l, hlink, hended⟩⟩
      intro a m ha
      have hnot := h.dialDead a (Or.inr ⟨m, ha⟩) l hlink
      rw [hlive] at hnot
      cases hnot
    · exact Or.inl ⟨a, l, ha, hended⟩
  · exact h.fought

theorem Inv.kick (h : Inv c) (l : Nat) : Inv (c.kick l) := by
  rw [Core.kick]
  split_ifs with hlive
  · exact h.taken hlive
  · refine h.links (List.length_modify _ _ _) ?_ ?_
    · intro m hm
      rw [isLive, List.getElem?_modify] at hm
      rw [isLive]
      cases hk : c.links[m]? with
      | none =>
          rw [hk] at hm
          cases hm
      | some k =>
          rw [hk] at hm
          by_cases hl : l = m
          · simpa [hl] using hm
          · simpa [hl] using hm
    · intro m hm
      rw [endedKicked] at hm
      rw [endedKicked, List.getElem?_modify]
      cases hk : c.links[m]? with
      | none =>
          rw [hk] at hm
          cases hm
      | some k =>
          rw [hk] at hm
          by_cases hl : l = m
          · simp_all
          · simpa [hl] using hm

/-- `watch` notes an end, and that it was a take-over. -/
theorem Inv.noteEnd (h : Inv c) {l : Nat} (hlink : c.link = some l) (hdead : c.isLive l = false) :
    Inv (c.noteEnd l) where
  holder := h.holder
  linkBound := by
    intro m hm
    cases hm
  dialedBound := h.dialedBound
  live := by
    intro m hm
    rcases h.live m hm with hlink' | hdialed
    · rw [hlink] at hlink'
      cases hlink'
      rw [show c.isLive l = true from hm] at hdead
      cases hdead
    · exact Or.inr hdialed
  dialDead := by
    intro a _ m hm
    cases hm
  barred := by
    intro hb
    have hbarred := h.barred hb
    refine ⟨hbarred.stale, hbarred.dead, hbarred.notDialing, ?_⟩
    rcases hbarred.noted with hdialed | ⟨hnone, hk | ⟨m, hm, hended⟩⟩
    · exact Or.inl hdialed
    · refine Or.inr ⟨hnone, Or.inl ?_⟩
      change (c.kicked || c.endedKicked l) = true
      rw [hk]
      rfl
    · refine Or.inr ⟨hnone, Or.inl ?_⟩
      rw [hlink] at hm
      cases hm
      change (c.kicked || c.endedKicked l) = true
      rw [hended, Bool.or_true]
  fought := h.fought

theorem kick_stage (c : Core) (l : Nat) : (c.kick l).stage = c.stage := by
  rw [Core.kick]
  split_ifs <;> rfl

end Sessions

end Core

def Worker.Fits : Worker → Stage → Prop
  | .idle, s => s = .idle
  | .releasing, s => s = .idle
  | .calling _ _ _, s => s ≠ .idle
  | .inFlight _ _ _ _, s => s = .busy

def Maintain.Fits : Maintain → Stage → Prop
  | .connecting, s => s ≠ .idle
  | _, s => s = .idle

def Keeper.Fits (k : Keeper) (s : Stage) : Prop :=
  match k.pc with
  | .connecting => s ≠ .idle
  | .looked _ => s = if k.first then .busy else .idle
  | _ => s = .idle

namespace World

/-- The invariant of the daemon: the shared part's, and where each goroutine is
agrees with its stage. -/
structure Inv (w : World) : Prop where
  core : w.core.Inv
  worker : w.worker.Fits (w.core.stage .worker)
  maintain : w.maintain.Fits (w.core.stage .maintain)
  keepers : ∀ i (k : Keeper), w.keepers[i]? = some k → k.Fits (w.core.stage (.keeper i))
  noKeeper : ∀ i, w.keepers[i]? = none → w.core.stage (.keeper i) = .idle

variable {w w' : World}

theorem inv_initial (ffmpeg : Bool) : Inv (initial ffmpeg) where
  core := Core.inv_initial
  worker := rfl
  maintain := rfl
  keepers := by
    intro i k h
    cases h
  noKeeper := fun _ _ => rfl

/-- A step that leaves the stages and where the goroutines are. -/
theorem Inv.frame (h : Inv w) (hcore : w'.core.Inv) (hstage : w'.core.stage = w.core.stage)
    (hworker : w'.worker = w.worker) (hmaintain : w'.maintain = w.maintain)
    (hkeepers : w'.keepers = w.keepers) : Inv w' := by
  refine ⟨hcore, ?_, ?_, ?_, ?_⟩
  · rw [hworker, hstage]
    exact h.worker
  · rw [hmaintain, hstage]
    exact h.maintain
  · rw [hkeepers, hstage]
    exact h.keepers
  · rw [hkeepers, hstage]
    exact h.noKeeper

/-- A step of the worker. -/
theorem Inv.byWorker (h : Inv w) (hcore : w'.core.Inv)
    (hstage : ∀ a, a ≠ .worker → w'.core.stage a = w.core.stage a)
    (hworker : w'.worker.Fits (w'.core.stage .worker)) (hmaintain : w'.maintain = w.maintain)
    (hkeepers : w'.keepers = w.keepers) : Inv w' := by
  refine ⟨hcore, hworker, ?_, ?_, ?_⟩
  · rw [hmaintain, hstage .maintain (by simp)]
    exact h.maintain
  · intro i k hk
    rw [hstage (.keeper i) (by simp)]
    exact h.keepers i k (hkeepers ▸ hk)
  · intro i hi
    rw [hstage (.keeper i) (by simp)]
    exact h.noKeeper i (hkeepers ▸ hi)

/-- A step of `maintain`. -/
theorem Inv.byMaintain (h : Inv w) (hcore : w'.core.Inv)
    (hstage : ∀ a, a ≠ .maintain → w'.core.stage a = w.core.stage a)
    (hmaintain : w'.maintain.Fits (w'.core.stage .maintain)) (hworker : w'.worker = w.worker)
    (hkeepers : w'.keepers = w.keepers) : Inv w' := by
  refine ⟨hcore, ?_, hmaintain, ?_, ?_⟩
  · rw [hworker, hstage .worker (by simp)]
    exact h.worker
  · intro i k hk
    rw [hstage (.keeper i) (by simp)]
    exact h.keepers i k (hkeepers ▸ hk)
  · intro i hi
    rw [hstage (.keeper i) (by simp)]
    exact h.noKeeper i (hkeepers ▸ hi)

/-- A step of a keeper. -/
theorem Inv.byKeeper (h : Inv w) {i : Nat} {k : Keeper} (hcore : w'.core.Inv)
    (hstage : ∀ a, a ≠ .keeper i → w'.core.stage a = w.core.stage a)
    (hkeeper : k.Fits (w'.core.stage (.keeper i))) (hworker : w'.worker = w.worker)
    (hmaintain : w'.maintain = w.maintain) (hi : i < w.keepers.length)
    (hkeepers : w'.keepers = w.keepers.set i k) : Inv w' := by
  refine ⟨hcore, ?_, ?_, ?_, ?_⟩
  · rw [hworker, hstage .worker (by simp)]
    exact h.worker
  · rw [hmaintain, hstage .maintain (by simp)]
    exact h.maintain
  · intro j k' hk'
    rw [hkeepers, List.getElem?_set] at hk'
    split_ifs at hk' with hij
    · subst hij
      cases hk'
      exact hkeeper
    · rw [hstage (.keeper j) fun hj => hij (Actor.keeper.inj hj).symm]
      exact h.keepers j k' hk'
  · intro j hj
    have hne : j ≠ i := by
      rintro rfl
      rw [hkeepers, List.getElem?_set_self hi] at hj
      cases hj
    rw [hstage (.keeper j) fun hj => hne (Actor.keeper.inj hj)]
    apply h.noKeeper
    rwa [hkeepers, List.getElem?_set_ne (Ne.symm hne)] at hj

theorem Worker.Fits.holds_eq_false {a : Worker} {s : Stage} (h : a.Fits s)
    (hcall : ∀ job rpc k, a ≠ .calling job rpc k) : s.holds = false := by
  cases a with
  | idle =>
      rw [show s = .idle from h]
      rfl
  | releasing =>
      rw [show s = .idle from h]
      rfl
  | calling job rpc k => exact absurd rfl (hcall job rpc k)
  | inFlight job l rpc k =>
      rw [show s = .busy from h]
      rfl

/-- The worker goes on with what it executes. -/
theorem Inv.resume (h : w.core.Inv) (hstage : w.core.stage .worker = .busy)
    (job : Option (List Char)) (p : Prog) :
    (w.resume job p).core.Inv ∧
      (w.resume job p).worker.Fits ((w.resume job p).core.stage .worker) ∧
      (∀ a, a ≠ .worker → (w.resume job p).core.stage a = w.core.stage a) ∧
      (w.resume job p).maintain = w.maintain ∧ (w.resume job p).keepers = w.keepers := by
  have hfree : (w.core.stage .worker).holds = false := by
    rw [hstage]
    rfl
  cases p with
  | done r =>
      obtain ⟨result, session⟩ := r
      refine ⟨h.move hfree rfl fun _ => rfl, ?_, ?_, rfl, rfl⟩
      · exact w.core.move_stage_self .worker .idle
      · exact fun a ha => Function.update_of_ne ha _ _
  | call rpc k =>
      refine ⟨h.move hfree rfl (by rw [hstage]; simp), ?_, ?_, rfl, rfl⟩
      · change (w.core.move .worker .check).stage .worker ≠ .idle
        rw [Core.move_stage_self]
        simp
      · exact fun a ha => Function.update_of_ne ha _ _

/-- The worker goes on after a change of the shared part. -/
theorem Inv.resumed (h : Inv w) (hcore : w'.core.Inv)
    (hstage : ∀ a, a ≠ .worker → w'.core.stage a = w.core.stage a)
    (hbusy : w'.core.stage .worker = .busy) (hmaintain : w'.maintain = w.maintain)
    (hkeepers : w'.keepers = w.keepers) (job : Option (List Char)) (p : Prog) :
    Inv (w'.resume job p) := by
  obtain ⟨hinv, hfits, hothers, hm, hk⟩ := Inv.resume hcore hbusy job p
  refine h.byWorker hinv ?_ hfits (hm.trans hmaintain) (hk.trans hkeepers)
  exact fun a ha => (hothers a ha).trans (hstage a ha)

/-- What `ensureLink` leaves of the daemon. -/
theorem ensureLink_eq_some {me : Actor} {o : DialOutcome} {out : Ensured}
    (h : w.ensureLink me o = some (w', out)) :
    ∃ out', w.core.ensureStep me o = some (w'.core, out') ∧ (out ≠ .waiting → out' ≠ .waiting) ∧
      w'.worker = w.worker ∧ w'.maintain = w.maintain ∧ w'.keepers = w.keepers := by
  rw [ensureLink, Option.bind_eq_bind, Option.bind_eq_some_iff] at h
  obtain ⟨⟨core, out'⟩, hstep, h⟩ := h
  refine ⟨out', ?_⟩
  cases out' with
  | waiting =>
      cases h
      exact ⟨hstep, fun hne => hne, rfl, rfl, rfl⟩
  | got l =>
      cases h
      exact ⟨hstep, fun hne => hne, rfl, rfl, rfl⟩
  | opened l =>
      cases h
      exact ⟨hstep, fun _ => by simp, rfl, rfl, rfl⟩
  | failed e =>
      cases h
      exact ⟨hstep, fun _ => by simp, rfl, rfl, rfl⟩

end World

/-- The goroutine that takes a step of `ensureLink`. -/
def Action.ensures : Action → Option Actor
  | .workerEnsure _ => some .worker
  | .maintainEnsure _ => some .maintain
  | .keeperEnsure i _ => some (.keeper i)
  | _ => none

/-- No stale goroutine goes on to dial: whoever finds no session up, at the check
before `dial`, serves a command or a release that began after the last session
that was taken over, or decided by a flag that it read after that end was noted. -/
def Fresh (w : World) (a : Action) : Prop :=
  ∀ me, a.ensures = some me → w.core.stage me = .recheck → w.core.liveLink = none →
    w.core.stale me = false

namespace World

variable {w w' : World}

theorem inv_handle (h : Inv w) (hw : w.worker = .idle) (r : Request) : Inv (w.handle r) := by
  have hidle : w.core.stage .worker = .idle := by
    have hfits := h.worker
    rw [hw] at hfits
    exact hfits
  have hfree : (w.core.stage .worker).holds = false := by
    rw [hidle]
    rfl
  cases r with
  | release => exact h.byWorker h.core (fun _ _ => rfl) hidle rfl rfl
  | command line gone =>
      cases gone with
      | true =>
          refine h.byWorker (h.core.intend hfree rfl) ?_ ?_ rfl rfl
          · exact fun a ha => Function.update_of_ne ha _ _
          · rw [handle, hw]
            exact w.core.intend_stage_self .worker .idle
      | false =>
          rw [handle]
          apply h.resumed
          · exact h.core.intend hfree rfl
          · exact fun a ha => Function.update_of_ne ha _ _
          · exact w.core.intend_stage_self .worker .busy
          · rfl
          · rfl

theorem inv_watch (h : Inv w) {l : Nat} (hdead : w.core.isLive l = false) : Inv (w.watch l) := by
  rw [watch]
  dsimp only
  split_ifs with hlink hkicked
  · exact h.frame (h.core.noteEnd hlink hdead) rfl rfl rfl rfl
  · exact h.frame (h.core.noteEnd hlink hdead) rfl rfl rfl rfl
  · exact h.frame h.core rfl rfl rfl rfl

theorem inv_rested (h : Inv w) {i : Nat} {k : Keeper} (hi : i < w.keepers.length)
    (hfree : (w.core.stage (.keeper i)).holds = false) (err : String) : Inv (w.rested i k err) := by
  refine h.byKeeper (h.core.move hfree rfl fun _ => rfl) ?_ ?_ rfl rfl hi rfl
  · exact fun a ha => Function.update_of_ne ha _ _
  · exact w.core.move_stage_self (.keeper i) .idle

theorem lt_length_of_getElem? {i : Nat} {k : Keeper} (h : w.keepers[i]? = some k) :
    i < w.keepers.length := (List.getElem?_eq_some_iff.mp h).1

/-- Where a keeper is not connecting, it does not hold `connMu`. -/
theorem Inv.keeper_free (h : Inv w) {i : Nat} {k : Keeper} (hk : w.keepers[i]? = some k)
    (hpc : k.pc ≠ .connecting) : (w.core.stage (.keeper i)).holds = false := by
  have hfits := h.keepers i k hk
  rw [Keeper.Fits] at hfits
  split at hfits
  · rename_i hconn
    exact absurd hconn hpc
  · rw [hfits]
    split_ifs <;> rfl
  · rw [hfits]
    rfl

theorem inv_readKicked (h : Inv w) {i : Nat} {k : Keeper} {connected : Bool}
    (hk : w.keepers[i]? = some k) (hpc : k.pc = .looked connected) :
    Inv (w.readKicked i k connected) := by
  have hi := lt_length_of_getElem? hk
  have hfree := h.keeper_free hk (by rw [hpc]; simp)
  have hfits := h.keepers i k hk
  rw [Keeper.Fits, hpc] at hfits
  rw [readKicked]
  split_ifs with hconnect hfirst htaken
  · have hbusy : w.core.stage (.keeper i) = .busy := by
      rw [hfits, if_pos hfirst]
    refine h.byKeeper (h.core.move hfree rfl (by rw [hbusy]; simp)) ?_ ?_ rfl rfl hi rfl
    · exact fun a ha => Function.update_of_ne ha _ _
    · change (w.core.move (.keeper i) .check).stage (.keeper i) ≠ .idle
      rw [Core.move_stage_self]
      simp
  · have hkicked : w.core.kicked = false := by
      rw [Bool.and_eq_true, Bool.or_eq_true, Bool.not_eq_true'] at hconnect
      rcases hconnect.2 with hf | hf
      · exact absurd hf hfirst
      · exact Bool.not_eq_true' _ ▸ hf
    refine h.byKeeper (h.core.decideByFlag hfree hkicked) ?_ ?_ rfl rfl hi rfl
    · exact fun a ha => Function.update_of_ne ha _ _
    · change (w.core.decideByFlag (.keeper i)).stage (.keeper i) ≠ .idle
      rw [Core.decideByFlag_stage_self]
      simp
  · exact inv_rested h hi hfree _
  · exact inv_rested h hi hfree _

theorem inv_look (h : Inv w) {i : Nat} {k : Keeper} (hk : w.keepers[i]? = some k)
    (hpc : k.pc = .ready) : Inv (w.look i k) := by
  have hi := lt_length_of_getElem? hk
  have hfree := h.keeper_free hk (by rw [hpc]; simp)
  have hfits : w.core.stage (.keeper i) = .idle := by
    have hk' := h.keepers i k hk
    rwa [Keeper.Fits, hpc] at hk'
  rw [look]
  by_cases hfirst : k.first = true
  · rw [if_pos hfirst]
    refine h.byKeeper (h.core.intend hfree rfl) ?_ ?_ rfl rfl hi rfl
    · exact fun a ha => Function.update_of_ne ha _ _
    · rw [Keeper.Fits]
      exact (w.core.intend_stage_self (.keeper i) .busy).trans (if_pos hfirst).symm
  · rw [if_neg hfirst]
    refine h.byKeeper h.core (fun _ _ => rfl) ?_ rfl rfl hi rfl
    rw [Keeper.Fits]
    exact hfits.trans (if_neg hfirst).symm

theorem Inv.maintain_idle (h : Inv w) (hm : w.maintain ≠ .connecting) :
    w.core.stage .maintain = .idle := by
  have hfits := h.maintain
  cases hw : w.maintain with
  | connecting => exact absurd hw hm
  | waiting | pinging | dead | failed =>
      rw [hw] at hfits
      exact hfits

theorem inv_tick (h : Inv w) (hm : w.maintain = .waiting) : Inv w.tick := by
  have hidle := h.maintain_idle (by rw [hm]; simp)
  rw [tick]
  split
  · split_ifs
    · exact h.byMaintain h.core (fun _ _ => rfl) hidle rfl rfl
    · exact h
  · exact h.byMaintain h.core (fun _ _ => rfl) hidle rfl rfl

theorem inv_readFlag (h : Inv w) (hm : w.maintain = .dead) : Inv w.readFlag := by
  have hidle := h.maintain_idle (by rw [hm]; simp)
  rw [readFlag]
  split_ifs with hskip
  · exact h.byMaintain h.core (fun _ _ => rfl) hidle rfl rfl
  · have hfree : (w.core.stage .maintain).holds = false := by
      rw [hidle]
      rfl
    have hkicked : w.core.kicked = false := by
      rw [Bool.or_eq_true, not_or, Bool.not_eq_true] at hskip
      exact hskip.1
    refine h.byMaintain (h.core.decideByFlag hfree hkicked) ?_ ?_ rfl rfl
    · exact fun a ha => Function.update_of_ne ha _ _
    · change (w.core.decideByFlag .maintain).stage .maintain ≠ .idle
      rw [Core.decideByFlag_stage_self]
      simp

/-- A keeper that is waiting stays off `ensureLink`. -/
theorem inv_setKeeper (h : Inv w) {i : Nat} {k k' : Keeper} (hk : w.keepers[i]? = some k)
    (hpc : k.pc = .waiting) (hpc' : k'.pc = .ready ∨ k'.pc = .stopped) :
    Inv (w.setKeeper i k') := by
  have hfits := h.keepers i k hk
  rw [Keeper.Fits, hpc] at hfits
  refine h.byKeeper h.core (fun _ _ => rfl) ?_ rfl rfl (lt_length_of_getElem? hk) rfl
  rw [Keeper.Fits]
  rcases hpc' with hpc' | hpc'
  · rw [hpc']
    exact hfits
  · rw [hpc']
    exact hfits

/-- Cancelling a keeper's context does not move it. -/
theorem inv_cancel (h : Inv w) : Inv w.cancel := by
  have hget : ∀ i, w.cancel.keepers[i]? = w.keepers[i]?.map fun k =>
      if w.keepers.length - 1 = i then { k with cancelled := true } else k := by
    intro i
    rw [cancel, List.getElem?_modify]
    rfl
  refine ⟨h.core, h.worker, h.maintain, ?_, ?_⟩
  · intro i k hk
    rw [hget, Option.map_eq_some_iff] at hk
    obtain ⟨k₀, hk₀, rfl⟩ := hk
    have hfits := h.keepers i k₀ hk₀
    split_ifs
    · exact hfits
    · exact hfits
  · intro i hi
    rw [hget, Option.map_eq_none_iff] at hi
    exact h.noKeeper i hi

theorem inv_newKeeper (h : Inv w) :
    Inv { w with keepers := w.keepers ++ [⟨true, .ready, false⟩] } := by
  refine ⟨h.core, h.worker, h.maintain, ?_, ?_⟩
  · intro i k hk
    rw [List.getElem?_append] at hk
    split_ifs at hk with hi
    · exact h.keepers i k hk
    · have hnone : w.keepers[i]? = none := List.getElem?_eq_none (not_lt.mp hi)
      obtain rfl := List.mem_singleton.mp (List.mem_of_getElem? hk)
      exact h.noKeeper i hnone
  · intro i hi
    rw [List.getElem?_eq_none_iff, List.length_append] at hi
    exact h.noKeeper i (List.getElem?_eq_none ((Nat.le_add_right _ _).trans hi))

theorem inv_acquire (h : Inv w) : Inv w.acquire := by
  rw [acquire]
  dsimp only
  split_ifs
  · exact h.frame h.core rfl rfl rfl rfl
  · exact (inv_newKeeper h).frame h.core rfl rfl rfl rfl

/-- The invariant is kept by every step at which no stale goroutine dials. -/
theorem inv_step (h : Inv w) {a : Action} (hfresh : Fresh w a) (hstep : step w a = some w') :
    Inv w' := by
  cases a with
  | submit line =>
      rw [step] at hstep
      split_ifs at hstep
      cases hstep
      exact h.frame h.core rfl rfl rfl rfl
  | submitRelease =>
      rw [step] at hstep
      split_ifs at hstep
      cases hstep
      exact h.frame h.core rfl rfl rfl rfl
  | giveUp i =>
      rw [step.eq_def] at hstep
      dsimp only at hstep
      split at hstep
      · cases hstep
        exact h.frame h.core rfl rfl rfl rfl
      · cases hstep
  | dequeue =>
      rw [step.eq_def] at hstep
      dsimp only at hstep
      split at hstep
      · rename_i r rest hw _
        cases hstep
        apply inv_handle
        · exact h.frame h.core rfl rfl rfl rfl
        · exact hw
      · cases hstep
  | connected =>
      rw [step.eq_def] at hstep
      dsimp only at hstep
      split at hstep
      · rename_i hw
        have hidle : w.core.stage .worker = .idle := by
          have hfits := h.worker
          rw [hw] at hfits
          exact hfits
        split at hstep
        · rename_i l hlive
          cases hstep
          have hfree : (w.core.stage .worker).holds = false := by
            rw [hidle]
            rfl
          apply h.resumed
          · exact h.core.resumeLive hfree rfl hlive
          · exact fun a ha => Function.update_of_ne ha _ _
          · exact w.core.resumeLive_stage_self .worker .busy
          · rfl
          · rfl
        · cases hstep
          exact h.byWorker h.core (fun _ _ => rfl) hidle rfl rfl
      · cases hstep
  | workerEnsure o =>
      rw [step.eq_def] at hstep
      dsimp only at hstep
      split at hstep
      · rename_i job rpc k hw
        rw [Option.bind_eq_bind, Option.bind_eq_some_iff] at hstep
        obtain ⟨⟨w₁, out⟩, hens, hstep⟩ := hstep
        obtain ⟨out', hcore, hout, hw₁, hm₁, hk₁⟩ := ensureLink_eq_some hens
        obtain ⟨hinv, hbusy⟩ := h.core.ensureStep hcore (hfresh .worker rfl)
        have hothers := fun a ha => Core.ensureStep_stage hcore (a := a) ha
        cases out with
        | got l =>
            cases hstep
            exact h.byWorker hinv hothers (hbusy (hout (by simp))) hm₁ hk₁
        | failed e =>
            cases hstep
            exact h.resumed hinv hothers (hbusy (hout (by simp))) hm₁ hk₁ _ _
        | waiting =>
            cases hstep
            refine h.byWorker hinv hothers ?_ hm₁ hk₁
            rw [hw₁, hw]
            exact Core.ensureStep_ne_idle hcore
        | opened l =>
            cases hstep
            refine h.byWorker hinv hothers ?_ hm₁ hk₁
            rw [hw₁, hw]
            exact Core.ensureStep_ne_idle hcore
      · cases hstep
  | workerReply o =>
      rw [step.eq_def] at hstep
      dsimp only at hstep
      split at hstep
      · rename_i job l rpc k hw
        have hbusy : w.core.stage .worker = .busy := by
          have hfits := h.worker
          rw [hw] at hfits
          exact hfits
        split at hstep
        · cases hstep
          apply h.resumed
          · exact h.core.drop l
          · exact fun _ _ => rfl
          · exact hbusy
          · rfl
          · rfl
        · cases hstep
          exact h.resumed h.core (fun _ _ => rfl) hbusy rfl rfl _ _
      · cases hstep
  | drop l =>
      cases hstep
      exact h.frame (h.core.drop l) rfl rfl rfl rfl
  | kick l =>
      cases hstep
      exact h.frame (h.core.kick l) (w.core.kick_stage l) rfl rfl rfl
  | watch l =>
      rw [step] at hstep
      split_ifs at hstep with hw
      cases hstep
      exact inv_watch h hw.2
  | tick =>
      rw [step] at hstep
      split_ifs at hstep with hm
      cases hstep
      exact inv_tick h hm
  | pingReply o =>
      rw [step.eq_def] at hstep
      dsimp only at hstep
      split at hstep
      · rename_i l e hm
        cases hstep
        have hidle := h.maintain_idle (by rw [hm]; simp)
        exact h.byMaintain (h.core.drop l) (fun _ _ => rfl) hidle rfl rfl
      · rename_i l hm _
        cases hstep
        have hidle := h.maintain_idle (by rw [hm]; simp)
        exact h.byMaintain h.core (fun _ _ => rfl) hidle rfl rfl
      · cases hstep
  | readFlag =>
      rw [step] at hstep
      split_ifs at hstep with hm
      cases hstep
      exact inv_readFlag h hm
  | maintainEnsure o =>
      rw [step] at hstep
      split_ifs at hstep with hw
      rw [Option.bind_eq_bind, Option.bind_eq_some_iff] at hstep
      obtain ⟨⟨w₁, out⟩, hens, hstep⟩ := hstep
      obtain ⟨out', hcore, hout, hw₁, hm₁, hk₁⟩ := ensureLink_eq_some hens
      obtain ⟨hinv, hbusy⟩ := h.core.ensureStep hcore (hfresh .maintain rfl)
      have hothers := fun a ha => Core.ensureStep_stage hcore (a := a) ha
      have hdone : out ≠ .waiting → (w₁.core.stage .maintain).holds = false := by
        intro hne
        rw [hbusy (hout hne)]
        rfl
      have hmoved : ∀ a, a ≠ Actor.maintain →
          (w₁.core.move .maintain .idle).stage a = w.core.stage a :=
        fun a ha => (Function.update_of_ne ha _ _).trans (hothers a ha)
      have hidle := w₁.core.move_stage_self .maintain .idle
      cases out with
      | got l =>
          cases hstep
          exact h.byMaintain (hinv.move (hdone (by simp)) rfl fun _ => rfl) hmoved hidle hw₁ hk₁
      | failed e =>
          cases hstep
          exact h.byMaintain (hinv.move (hdone (by simp)) rfl fun _ => rfl) hmoved hidle hw₁ hk₁
      | waiting =>
          cases hstep
          refine h.byMaintain hinv hothers ?_ hw₁ hk₁
          rw [hm₁, hw]
          exact Core.ensureStep_ne_idle hcore
      | opened l =>
          cases hstep
          refine h.byMaintain hinv hothers ?_ hw₁ hk₁
          rw [hm₁, hw]
          exact Core.ensureStep_ne_idle hcore
  | backOff =>
      rw [step] at hstep
      split_ifs at hstep with hm
      cases hstep
      have hidle := h.maintain_idle (by rw [hm]; simp)
      exact h.byMaintain h.core (fun _ _ => rfl) hidle rfl rfl
  | acquire =>
      rw [step] at hstep
      split_ifs at hstep
      cases hstep
      exact inv_acquire h
  | release =>
      cases hstep
      exact h.frame h.core rfl rfl rfl rfl
  | deactivate =>
      rw [step] at hstep
      split_ifs at hstep
      cases hstep
      exact (inv_cancel h).frame h.core rfl rfl rfl rfl
  | closeVideo =>
      cases hstep
      exact (inv_cancel h).frame h.core rfl rfl rfl rfl
  | look i =>
      rw [step.eq_def] at hstep
      dsimp only at hstep
      split at hstep
      · rename_i k hk
        split_ifs at hstep with hpc
        cases hstep
        exact inv_look h hk hpc
      · cases hstep
  | readKicked i =>
      rw [step.eq_def] at hstep
      dsimp only at hstep
      split at hstep
      · rename_i k hk
        split at hstep
        · rename_i connected hpc
          cases hstep
          exact inv_readKicked h hk hpc
        · cases hstep
      · cases hstep
  | keeperEnsure i o =>
      rw [step.eq_def] at hstep
      dsimp only at hstep
      split at hstep
      · rename_i k hk
        split_ifs at hstep with hpc
        rw [Option.bind_eq_bind, Option.bind_eq_some_iff] at hstep
        obtain ⟨⟨w₁, out⟩, hens, hstep⟩ := hstep
        obtain ⟨out', hcore, hout, hw₁, hm₁, hk₁⟩ := ensureLink_eq_some hens
        obtain ⟨hinv, hbusy⟩ := h.core.ensureStep hcore (hfresh (.keeper i) rfl)
        have hothers := fun a ha => Core.ensureStep_stage hcore (a := a) ha
        have hi := lt_length_of_getElem? hk
        have hself : w₁.keepers = w.keepers.set i k := by
          obtain ⟨hlt, rfl⟩ := List.getElem?_eq_some_iff.mp hk
          rw [hk₁, List.set_getElem_self hlt]
        have hmid : Inv w₁ := by
          refine h.byKeeper hinv hothers ?_ hw₁ hm₁ hi hself
          rw [Keeper.Fits, hpc]
          exact Core.ensureStep_ne_idle hcore
        have hdone : out ≠ .waiting → (w₁.core.stage (.keeper i)).holds = false := by
          intro hne
          rw [hbusy (hout hne)]
          rfl
        have hi₁ : i < w₁.keepers.length := by
          rw [hk₁]
          exact hi
        cases out with
        | got l =>
            cases hstep
            exact inv_rested hmid hi₁ (hdone (by simp)) _
        | failed e =>
            cases hstep
            exact inv_rested hmid hi₁ (hdone (by simp)) _
        | waiting =>
            cases hstep
            exact hmid
        | opened l =>
            cases hstep
            exact hmid
      · cases hstep
  | keeperTick i =>
      rw [step.eq_def] at hstep
      dsimp only at hstep
      split at hstep
      · rename_i k hk
        split_ifs at hstep with hpc
        cases hstep
        exact inv_setKeeper h hk hpc (Or.inl rfl)
      · cases hstep
  | keeperStop i =>
      rw [step.eq_def] at hstep
      dsimp only at hstep
      split at hstep
      · rename_i k hk
        split_ifs at hstep with hpc
        cases hstep
        exact inv_setKeeper h hk hpc.1 (Or.inr rfl)
      · cases hstep
  | pass d =>
      cases hstep
      exact h.frame h.core rfl rfl rfl rfl

end World

/-- In every run in which no stale goroutine goes on to dial, the owner never
fights for a session: after one has ended kicked, `dial` is not called before a
command line is dequeued or a keeper takes its first step. -/
theorem takeover_not_fought {ffmpeg : Bool} {as : List Action} {w : World}
    (hfresh : Machine.meets step Fresh (World.initial ffmpeg) as)
    (h : Machine.run step (World.initial ffmpeg) as = some w) : w.core.fought = false := by
  have hinv : w.Inv := Machine.run_history_of_meets (P := fun _ w => w.Inv)
    (World.inv_initial ffmpeg) (fun _ _ _ _ _ hm hC hstep => World.inv_step hm hC hstep)
    as w hfresh h
  exact hinv.core.fought

/-- `Fresh`, evaluated. -/
def isFresh (w : World) (a : Action) : Bool :=
  a.ensures.all fun me =>
    !(w.core.stage me == .recheck && w.core.liveLink == none && w.core.stale me)

theorem fresh_of_isFresh {w : World} {a : Action} (h : isFresh w a = true) : Fresh w a := by
  intro me hme hstage hlive
  rw [isFresh, hme, Option.all_some, hstage, hlive] at h
  simpa using h

/-- A `ping` that opens a session. -/
def connectRun : List Action :=
  .submit "ping".toList :: .dequeue :: List.replicate 5 (.workerEnsure .ok) ++
    [.workerReply (.ok "\"pong\"")]

/-- After a take-over `maintain` stays quiet, and the next command line dials again. -/
def reconnectRun : List Action :=
  connectRun ++ [.kick 0, .watch 0, .tick, .readFlag, .submit "key A".toList, .dequeue] ++
    List.replicate 5 (.workerEnsure .ok) ++ [.workerReply (.ok "null")]

theorem takeover_not_fought_reconnect :
    ∃ w, Machine.run step (World.initial true) reconnectRun = some w ∧ w.core.links.length = 2 ∧
      w.core.fought = false := by
  have hrun : ((Machine.run step (World.initial true) reconnectRun).any fun w =>
      w.core.links.length == 2) = true := by decide +kernel
  have hfresh : Machine.check step isFresh (World.initial true) reconnectRun = true := by
    decide +kernel
  obtain ⟨w, hw, hlinks⟩ := (Option.any_eq_true _ _).mp hrun
  have hmeets := Machine.meets_of_check (fun _ _ h => fresh_of_isFresh h) hfresh
  exact ⟨w, hw, beq_iff_eq.mp hlinks, takeover_not_fought hmeets hw⟩

/-- `maintain` ticks after a take-over and before `watch` has noted it. -/
def unnotedRun : List Action :=
  connectRun ++ [.kick 0, .tick, .readFlag] ++ List.replicate 3 (.maintainEnsure .ok)

theorem not_takeover_not_fought_unnoted :
    ¬∀ as w, Machine.run step (World.initial true) as = some w → w.core.fought = false := by
  intro h
  have hrun : ((Machine.run step (World.initial true) unnotedRun).any fun w => w.core.fought) =
      true := by decide +kernel
  obtain ⟨w, hw, hfought⟩ := (Option.any_eq_true _ _).mp hrun
  rw [h unnotedRun w hw] at hfought
  cases hfought

end Jetkvm

end Paniolo
