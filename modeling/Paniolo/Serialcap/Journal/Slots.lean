import Paniolo.Serialcap.Journal.Writer

/-!
# Rotation

A rotation moves every segment one name up, oldest first, and may stop anywhere
and be begun again. At every moment the names hold the newest files, in the
order in which they were created: only the oldest file is ever removed.
-/

namespace Paniolo

namespace Serialcap

namespace Journal

namespace Disk

/-- The files are numbered in the order of their creation: a higher name has an older file, and
every file that is newer than one with a name has a name. -/
structure Ordered (d : Disk) : Prop where
  low : ∀ {i f}, d.slot i = some f → i < SEGMENTS
  born : ∀ {i f}, d.slot i = some f → f < d.files
  unborn : ∀ {f}, d.files ≤ f → d.content f = []
  older : ∀ {i j f g}, d.slot i = some f → d.slot j = some g → i < j → g < f
  upward : ∀ {i f g}, d.slot i = some f → f < g → g < d.files → ∃ j, d.slot j = some g

variable {d : Disk}

/-- The active segment is the newest file. -/
theorem Ordered.active (h : d.Ordered) {f : Nat} (hf : d.slot 0 = some f) : f + 1 = d.files := by
  have hlt := h.born hf
  by_contra hne
  obtain ⟨j, hj⟩ := h.upward hf (Nat.lt_succ_self f) (by omega)
  have hpos : 0 < j := by
    rcases Nat.eq_zero_or_pos j with rfl | hpos
    · rw [hf] at hj
      cases hj
    · exact hpos
  have := h.older hf hj hpos
  omega

/-- Only names change, and no name is new. -/
theorem Ordered.of_subset {d' : Disk} (h : d.Ordered) (hfiles : d'.files = d.files)
    (hcontent : d'.content = d.content) (hslot : ∀ {i f}, d'.slot i = some f → d.slot i = some f)
    (hkept : ∀ {i f g}, d'.slot i = some f → f < g → (∃ j, d.slot j = some g) →
      ∃ j, d'.slot j = some g) : d'.Ordered where
  low := fun hi => h.low (hslot hi)
  born := fun hi => hfiles ▸ h.born (hslot hi)
  unborn := fun hf => by
    rw [hcontent]
    exact h.unborn (hfiles ▸ hf)
  older := fun hi hj hij => h.older (hslot hi) (hslot hj) hij
  upward := fun hi hfg hg => hkept hi hfg (h.upward (hslot hi) hfg (hfiles ▸ hg))

/-- Removing the highest name removes the oldest file. -/
theorem Ordered.remove_last (h : d.Ordered) : (d.remove 4).Ordered := by
  have hslot : ∀ {i f}, (d.remove 4).slot i = some f → i ≠ 4 ∧ d.slot i = some f := by
    intro i f hi
    by_cases hi4 : i = 4
    · rw [hi4, remove_slot_self] at hi
      cases hi
    · rw [remove_slot_of_ne d hi4] at hi
      exact ⟨hi4, hi⟩
  refine h.of_subset rfl rfl (fun hi => (hslot hi).2) fun {i f g} hi hfg hg => ?_
  obtain ⟨hi4, hi⟩ := hslot hi
  obtain ⟨j, hj⟩ := hg
  refine ⟨j, ?_⟩
  have hj4 : j ≠ 4 := by
    rintro rfl
    have hlow := h.low hi
    have := h.older hi hj (by rw [SEGMENTS] at hlow; omega)
    omega
  rw [remove_slot_of_ne d hj4]
  exact hj

theorem remove_of_none {i : Nat} (hi : d.slot i = none) : d.remove i = d := by
  rw [remove, ← hi, Function.update_eq_self]

theorem rename_slot {i f : Nat} (hf : d.slot (i - 1) = some f) (hi : 0 < i) :
    (d.rename i).slot i = some f ∧ (d.rename i).slot (i - 1) = none ∧
      ∀ j, j ≠ i → j ≠ i - 1 → (d.rename i).slot j = d.slot j := by
  have hne : i ≠ i - 1 := by omega
  rw [rename, hf]
  refine ⟨?_, Function.update_self .., fun j hji hji' => ?_⟩
  · dsimp only
    rw [Function.update_of_ne hne, Function.update_self]
  · dsimp only
    rw [Function.update_of_ne hji', Function.update_of_ne hji]

/-- A file moves to the free name above it. -/
theorem Ordered.rename (h : d.Ordered) {i : Nat} (hpos : 0 < i) (hlow : i < SEGMENTS)
    (hfree : d.slot i = none) : (d.rename i).Ordered := by
  cases hf : d.slot (i - 1) with
  | none =>
      rw [Disk.rename, hf]
      exact h
  | some f =>
      obtain ⟨hi, hi', hother⟩ := rename_slot hf hpos
      -- the old name of every file, and that moving keeps the order of names
      have hold : ∀ {j g}, (d.rename i).slot j = some g →
          ∃ j', d.slot j' = some g ∧ (j = i ∧ j' = i - 1 ∨ j' = j ∧ j ≠ i ∧ j ≠ i - 1) := by
        intro j g hj
        by_cases hji : j = i
        · rw [hji, hi] at hj
          exact ⟨i - 1, hf.trans hj, Or.inl ⟨hji, rfl⟩⟩
        · by_cases hji' : j = i - 1
          · rw [hji', hi'] at hj
            cases hj
          · rw [hother j hji hji'] at hj
            exact ⟨j, hj, Or.inr ⟨rfl, hji, hji'⟩⟩
      refine ⟨fun hj => ?_, fun hj => ?_, fun hg => ?_, fun hj hk hjk => ?_, fun hj hfg hg => ?_⟩
      · obtain ⟨j', hj', hcase⟩ := hold hj
        have := h.low hj'
        omega
      · obtain ⟨j', hj', -⟩ := hold hj
        rw [rename_files]
        exact h.born hj'
      · rw [rename_content]
        rw [rename_files] at hg
        exact h.unborn hg
      · obtain ⟨j', hj', hcase⟩ := hold hj
        obtain ⟨k', hk', hcase'⟩ := hold hk
        exact h.older hj' hk' (by omega)
      · obtain ⟨j', hj', -⟩ := hold hj
        rw [rename_files] at hg
        obtain ⟨k, hk⟩ := h.upward hj' hfg hg
        by_cases hki : k = i - 1
        · refine ⟨i, ?_⟩
          rw [hi, ← hf, ← hki]
          exact hk
        · refine ⟨k, ?_⟩
          rw [hother k (fun hki' => by rw [hki', hfree] at hk; cases hk) hki]
          exact hk

theorem Ordered.openActive (h : d.Ordered) : d.openActive.2.Ordered := by
  rw [Disk.openActive]
  cases hd : d.slot 0 with
  | some f => exact h
  | none =>
      have hslot : ∀ {i f}, Function.update d.slot 0 (some d.files) i = some f →
          i = 0 ∧ f = d.files ∨ i ≠ 0 ∧ d.slot i = some f := by
        intro i f hi
        by_cases hi0 : i = 0
        · rw [hi0, Function.update_self] at hi
          exact Or.inl ⟨hi0, (Option.some.inj hi).symm⟩
        · rw [Function.update_of_ne hi0] at hi
          exact Or.inr ⟨hi0, hi⟩
      refine ⟨fun hi => ?_, fun hi => ?_, fun hf => h.unborn (Nat.le_of_succ_le hf),
        fun hi hj hij => ?_, fun {i f g} hi hfg hg => ?_⟩
      · rcases hslot hi with ⟨rfl, -⟩ | ⟨-, hi⟩
        · decide
        · exact h.low hi
      · rcases hslot hi with ⟨-, rfl⟩ | ⟨-, hi⟩
        · exact Nat.lt_succ_self _
        · exact Nat.lt_succ_of_lt (h.born hi)
      · rcases hslot hj with ⟨rfl, -⟩ | ⟨-, hj⟩
        · omega
        · rcases hslot hi with ⟨-, rfl⟩ | ⟨-, hi⟩
          · exact h.born hj
          · exact h.older hi hj hij
      · rcases hslot hi with ⟨-, rfl⟩ | ⟨-, hi⟩
        · dsimp only at hg
          omega
        · dsimp only at hg ⊢
          by_cases hgf : g = d.files
          · exact ⟨0, by rw [Function.update_self, hgf]⟩
          · obtain ⟨j, hj⟩ := h.upward hi hfg (by omega)
            refine ⟨j, ?_⟩
            rw [Function.update_of_ne]
            · exact hj
            · rintro rfl
              rw [hd] at hj
              cases hj

theorem Ordered.append (h : d.Ordered) {f : Nat} (hf : f < d.files) (bytes : List UInt8) :
    (d.append f bytes).Ordered where
  low := h.low
  born := h.born
  unborn := fun {g} hg => by
    have hne : g ≠ f := by
      rintro rfl
      exact absurd hf (Nat.not_lt.mpr hg)
    rw [append_content_of_ne _ _ hne]
    exact h.unborn hg
  older := h.older
  upward := h.upward

end Disk

/-- What the rotation has done by now. -/
def Stage.Slots (d : Disk) : Stage → Prop
  | .remove _ i => 0 < i ∧ i < SEGMENTS ∧ (i = 4 ∨ d.slot i = none)
  | .rename _ i => 0 < i ∧ i < SEGMENTS ∧ d.slot i = none
  | .write _ f _ => d.slot 0 = some f
  | .persist _ f => d.slot 0 = some f
  | _ => True

structure Slots (s : World) : Prop where
  ordered : s.disk.Ordered
  stage : ∀ w, s.writer = some w → w.stage.Slots s.disk

variable {c : RecordCodec} {segmentBytes : Nat}

/-- A step that touches no segment. -/
theorem Slots.goto {s s' : World} {w' : Writer} {stage : Stage} (h : Slots s)
    (hslot : s'.disk.slot = s.disk.slot) (hcontent : s'.disk.content = s.disk.content)
    (hfiles : s'.disk.files = s.disk.files) (hstage : stage.Slots s.disk) :
    Slots (s'.goto w' stage) := by
  refine ⟨h.ordered.of_subset hfiles hcontent (fun hi => ?_) fun _ _ hg => ?_, fun v hv => ?_⟩
  · rw [← hslot]
    exact hi
  · rw [← hslot] at hg
    exact hg
  · cases hv
    cases stage with
    | remove r i =>
        rw [Stage.Slots] at hstage ⊢
        rw [← hslot] at hstage
        exact hstage
    | rename r i =>
        rw [Stage.Slots] at hstage ⊢
        rw [← hslot] at hstage
        exact hstage
    | write r f rest =>
        rw [Stage.Slots] at hstage ⊢
        rw [← hslot] at hstage
        exact hstage
    | persist r f =>
        rw [Stage.Slots] at hstage ⊢
        rw [← hslot] at hstage
        exact hstage
    | _ => trivial

theorem slots_perform {k : Nat} {s t : World} {w : Writer} (h : Slots s)
    (hw : s.writer = some w) (hstep : perform c segmentBytes k s w = some t) : Slots t := by
  have hok := h.stage w hw
  rw [perform] at hstep
  cases hstage : w.stage with
  | idle =>
      rw [hstage] at hstep
      cases hstep
  | startEpoch =>
      rw [hstage] at hstep
      cases hstep
      exact h.goto rfl rfl rfl trivial
  | publish r =>
      rw [hstage] at hstep
      cases hstep
      exact h.goto rfl rfl rfl trivial
  | checkSize r =>
      rw [hstage] at hstep
      dsimp only at hstep
      split at hstep
      · cases hstep
        exact h.goto rfl rfl rfl ⟨by decide, by decide, Or.inl rfl⟩
      · cases hstep
        exact h.goto rfl rfl rfl trivial
  | remove r i =>
      rw [hstage] at hstep hok
      cases hstep
      obtain ⟨hpos, hlow, hi⟩ := hok
      refine ⟨?_, fun v hv => ?_⟩
      · rcases hi with rfl | hi
        · exact h.ordered.remove_last
        · dsimp only [World.goto, World.withDisk]
          rw [Disk.remove_of_none hi]
          exact h.ordered
      · cases hv
        exact ⟨hpos, hlow, s.disk.remove_slot_self i⟩
  | rename r i =>
      rw [hstage] at hstep hok
      cases hstep
      obtain ⟨hpos, hlow, hfree⟩ := hok
      refine ⟨h.ordered.rename hpos hlow hfree, fun v hv => ?_⟩
      cases hv
      dsimp only
      split
      · trivial
      · refine ⟨by omega, by omega, Or.inr ?_⟩
        cases hf : s.disk.slot (i - 1) with
        | none =>
            dsimp only [World.goto, World.withDisk]
            rw [Disk.rename, hf]
            exact hf
        | some f => exact (Disk.rename_slot hf hpos).2.1
  | openActive r =>
      rw [hstage] at hstep
      cases hstep
      refine ⟨h.ordered.openActive, fun v hv => ?_⟩
      cases hv
      exact s.disk.openActive_slot_zero
  | write r f rest =>
      rw [hstage] at hstep hok
      cases hstep
      refine ⟨h.ordered.append (h.ordered.born hok) _, fun v hv => ?_⟩
      cases hv
      dsimp only
      split
      · exact hok
      · exact hok
  | persist r f =>
      rw [hstage] at hstep
      cases hstep
      exact h.goto rfl rfl rfl trivial
  | archiveRemove r i =>
      rw [hstage] at hstep
      cases hstep
      exact h.goto rfl rfl rfl trivial
  | archiveRename r i =>
      rw [hstage] at hstep
      cases hstep
      have hsame : (s.disk.renameFailure i).slot = s.disk.slot ∧
          (s.disk.renameFailure i).files = s.disk.files := by
        rw [Disk.renameFailure]
        split <;> exact ⟨rfl, rfl⟩
      refine h.goto hsame.1 (s.disk.renameFailure_content i) hsame.2 ?_
      split <;> trivial
  | archiveWrite r =>
      rw [hstage] at hstep
      cases hstep
      exact h.goto rfl rfl rfl trivial
  | publishFailure =>
      rw [hstage] at hstep
      cases hstep
      exact h.goto rfl rfl rfl trivial

theorem slots_noteFailure {s : World} {w : Writer} {state : WriterState} {r : ReceiveRecord}
    {message : String} (h : s.disk.Ordered) : Slots (noteFailure s w state r message) := by
  refine ⟨h, fun v hv => ?_⟩
  cases hv
  dsimp only
  split <;> trivial

theorem slots_failOp {k : Nat} {error : String} {s t : World} {w : Writer} (h : Slots s)
    (hw : s.writer = some w) (hstep : failOp c k error s w = some t) : Slots t := by
  have hok := h.stage w hw
  rw [failOp] at hstep
  cases hstage : w.stage with
  | idle =>
      rw [hstage] at hstep
      cases hstep
  | checkSize r =>
      rw [hstage] at hstep
      cases hstep
  | write r f rest =>
      rw [hstage] at hstep hok
      dsimp only at hstep
      split at hstep
      · cases hstep
        exact slots_noteFailure (h.ordered.append (h.ordered.born hok) _)
      · cases hstep
  | publish r =>
      rw [hstage] at hstep
      cases hstep
      exact slots_noteFailure h.ordered
  | remove r i =>
      rw [hstage] at hstep
      cases hstep
      exact slots_noteFailure h.ordered
  | rename r i =>
      rw [hstage] at hstep
      cases hstep
      exact slots_noteFailure h.ordered
  | openActive r =>
      rw [hstage] at hstep
      cases hstep
      exact slots_noteFailure h.ordered
  | persist r f =>
      rw [hstage] at hstep
      cases hstep
      exact slots_noteFailure h.ordered
  | _ =>
      rw [hstage] at hstep
      cases hstep
      exact h.goto rfl rfl rfl trivial

theorem slots_step {s t : World} {a : Action} (h : Slots s)
    (hstep : step c segmentBytes s a = some t) : Slots t := by
  cases a with
  | start epoch =>
      rw [step] at hstep
      split at hstep
      · cases hstep
        refine ⟨h.ordered, fun v hv => ?_⟩
        cases hv
        trivial
      · cases hstep
  | append r =>
      rw [step] at hstep
      split at hstep
      · split at hstep
        · cases hstep
          refine ⟨h.ordered, fun v hv => ?_⟩
          cases hv
          trivial
        · cases hstep
      · cases hstep
  | op k =>
      obtain ⟨w, hw, hstep⟩ := Option.bind_eq_some_iff.mp hstep
      exact slots_perform h hw hstep
  | fail k error =>
      obtain ⟨w, hw, hstep⟩ := Option.bind_eq_some_iff.mp hstep
      exact slots_failOp h hw hstep
  | crash =>
      rw [step] at hstep
      split at hstep
      · cases hstep
        exact ⟨h.ordered, fun v hv => by cases hv⟩
      · cases hstep

theorem slots_run {s : World} {as : List Action}
    (h : Machine.run (step c segmentBytes) {} as = some s) : Slots s := by
  refine Machine.run_induct ⟨⟨fun hi => ?_, fun hi => ?_, fun _ => rfl, fun hi => ?_, fun hi => ?_⟩,
    fun v hv => ?_⟩ (fun _ _ _ => slots_step) h
  all_goals first | cases hi | cases hv

end Journal

end Serialcap

end Paniolo
