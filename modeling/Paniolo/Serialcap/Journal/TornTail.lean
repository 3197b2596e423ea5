import Paniolo.Serialcap.Journal.Damaged
import Paniolo.Serialcap.Journal.Json
import Paniolo.Serialcap.Journal.Numbered
import Paniolo.Serialcap.Journal.Slots

/-!
# Torn tails

A write that fails or is cut short leaves the beginning of a record at the end
of the active segment. As long as no later record is written behind it, every
record whose `append` returned `Ok` is a line of its own and is read back while
its segment has a name, whatever else the read has to report.
-/

namespace Paniolo

namespace Serialcap

namespace Journal

/-! ### What the writer vouches for -/

/-- While the epoch of a committed record is the one being received, the state says that the
record is persisted. -/
def WriterState.Vouches (state : WriterState) (committed : List (ReceiveRecord × Nat)) : Prop :=
  ∀ r f, (r, f) ∈ committed → ∀ n, state.lastReceived = some ⟨r.epoch, n⟩ →
    ∃ p, state.persisted = some ⟨r.epoch, p⟩ ∧ r.rxSeq ≤ p

structure Vouching (s : World) : Prop where
  appended : ∀ r f, (r, f) ∈ s.committed → r ∈ s.appended
  checkpoint : ∀ state, s.disk.checkpoint = some state →
    state.Vouches s.committed ∧ state.valid = true
  writer : ∀ w, s.writer = some w → w.state.Vouches s.committed ∧ w.state.valid = true

theorem notPersisted_of_vouches {state : WriterState} {committed : List (ReceiveRecord × Nat)}
    (h : state.Vouches committed) {r : ReceiveRecord} {f : Nat} (hr : (r, f) ∈ committed) :
    notPersisted (some state) r = false := by
  cases hlast : state.lastReceived with
  | none => simp [notPersisted, hlast]
  | some cur =>
      by_cases hepoch : cur.epoch = r.epoch
      · obtain ⟨p, hp, hle⟩ := h r f hr cur.rxSeq (by rw [hlast, ← hepoch])
        simp [notPersisted, hlast, hp, hle]
      · simp [notPersisted, hlast, hepoch]

/-- The validity of a state, part by part. -/
theorem WriterState.valid_iff {state : WriterState} :
    state.valid = true ↔
      (∀ cur, state.lastReceived = some cur ∨ state.persisted = some cur →
        cur.epoch ≠ "" ∧ cur.epoch.utf8ByteSize ≤ 128) ∧
      ∀ r, state.failedReceive = some r → r.valid = true := by
  rw [WriterState.valid, Bool.and_eq_true, List.all_eq_true]
  refine and_congr (forall_congr' fun cur => ?_) ?_
  · simp
  · cases state.failedReceive <;> simp

theorem epoch_of_valid {r : ReceiveRecord} (h : r.valid = true) :
    r.epoch ≠ "" ∧ r.epoch.utf8ByteSize ≤ 128 := by
  simp only [ReceiveRecord.valid, Bool.and_eq_true, decide_eq_true_eq] at h
  refine ⟨?_, h.2⟩
  simpa [String.isEmpty_iff] using h.1.2

variable {c : RecordCodec} {segmentBytes : Nat}

/-- The record that was just written: it is the last one received, and every committed record of
its epoch came before. -/
theorem vouches_persist {s : World} {w : Writer} {r : ReceiveRecord} (h : Vouching s)
    (hnum : Numbered s) (hw : s.writer = some w) (hrec : w.stage.record = some r)
    (hvalid : r.valid = true) {f : Nat} (hr : r ∈ s.appended) :
    ({ w.state with persisted := some r.cursor } : WriterState).Vouches
        (s.committed ++ [(r, f)]) ∧
      ({ w.state with persisted := some r.cursor } : WriterState).valid = true := by
  have hlast := hnum.stage w r hw hrec
  refine ⟨fun q g hq n hn => ?_, ?_⟩
  · dsimp only at hn ⊢
    rw [hlast] at hn
    obtain ⟨hepoch, -⟩ : r.epoch = q.epoch ∧ r.rxSeq = n := by
      simpa [ReceiveRecord.cursor] using hn
    refine ⟨r.rxSeq, by rw [← hepoch]; rfl, ?_⟩
    have hqapp : q ∈ s.appended := by
      rcases List.mem_append.mp hq with hq | hq
      · exact h.appended q g hq
      · cases List.mem_singleton.mp hq
        exact hr
    obtain ⟨e, -, hcur⟩ := hnum.current w hw
    rw [hlast] at hcur
    obtain ⟨he, hn'⟩ : r.epoch = e ∧ r.rxSeq = received s.appended e := by
      simpa [ReceiveRecord.cursor] using hcur
    have := (hnum.rxSeq_mem hqapp).2
    rw [← hepoch, he, ← hn'] at this
    exact this
  · obtain ⟨hcur, hfail⟩ := WriterState.valid_iff.mp (h.writer w hw).2
    refine WriterState.valid_iff.mpr ⟨fun cur hc => ?_, hfail⟩
    rcases hc with hc | hc
    · exact hcur cur (Or.inl hc)
    · cases hc
      exact epoch_of_valid hvalid

theorem vouching_save {s t : World} {state : WriterState} {w' : Writer}
    (hstate : state.Vouches t.committed ∧ state.valid = true) (happ : t.appended = s.appended)
    (hcom : ∀ r f, (r, f) ∈ t.committed → r ∈ s.appended)
    (hckpt : t.disk.checkpoint = some state) (hw' : t.writer = some w')
    (hsame : w'.state = state) : Vouching t := by
  refine ⟨fun r f hr => ?_, fun st hst => ?_, fun v hv => ?_⟩
  · rw [happ]
    exact hcom r f hr
  · rw [hckpt] at hst
    cases hst
    exact hstate
  · rw [hw'] at hv
    cases hv
    rw [hsame]
    exact hstate

/-- Nothing is saved. -/
theorem vouching_frame {s t : World} {w w' : Writer} (h : Vouching s) (hw : s.writer = some w)
    (happ : t.appended = s.appended) (hcom : t.committed = s.committed)
    (hckpt : t.disk.checkpoint = s.disk.checkpoint) (hw' : t.writer = some w')
    (hsame : w'.state = w.state) : Vouching t := by
  refine ⟨?_, ?_, fun v hv => ?_⟩
  · rw [happ, hcom]
    exact h.appended
  · rw [hckpt, hcom]
    exact h.checkpoint
  · rw [hw'] at hv
    cases hv
    rw [hsame, hcom]
    exact h.writer w hw

theorem vouching_perform {k : Nat} {s t : World} {w : Writer} (h : Vouching s) (hnum : Numbered s)
    (hsound : Sound c s) (hw : s.writer = some w)
    (hstep : perform c segmentBytes k s w = some t) : Vouching t := by
  have hok := hsound.stage w hw
  rw [perform] at hstep
  cases hstage : w.stage with
  | idle =>
      rw [hstage] at hstep
      cases hstep
  | startEpoch | publish r | publishFailure =>
      rw [hstage] at hstep
      cases hstep
      exact vouching_save (h.writer w hw) rfl h.appended rfl rfl rfl
  | checkSize r =>
      rw [hstage] at hstep
      dsimp only at hstep
      split at hstep
      · cases hstep
        exact vouching_frame h hw rfl rfl rfl rfl rfl
      · cases hstep
        exact vouching_frame h hw rfl rfl rfl rfl rfl
  | remove r i | write r f rest | archiveRemove r i | archiveWrite r =>
      rw [hstage] at hstep
      cases hstep
      exact vouching_frame h hw rfl rfl rfl rfl rfl
  | rename r i =>
      rw [hstage] at hstep
      cases hstep
      exact vouching_frame h hw rfl rfl (s.disk.rename_checkpoint i) rfl rfl
  | openActive r =>
      rw [hstage] at hstep
      cases hstep
      exact vouching_frame h hw rfl rfl s.disk.openActive_checkpoint rfl rfl
  | persist r f =>
      have hrec : w.stage.record = some r := by rw [hstage]; rfl
      rw [hstage] at hstep hok
      cases hstep
      refine vouching_save (vouches_persist h hnum hw hrec hok.2 hok.1) rfl (fun q g hq => ?_)
        rfl rfl rfl
      rcases List.mem_append.mp hq with hq | hq
      · exact h.appended q g hq
      · cases List.mem_singleton.mp hq
        exact hok.1
  | archiveRename r i =>
      rw [hstage] at hstep
      cases hstep
      exact vouching_frame h hw rfl rfl (s.disk.renameFailure_checkpoint i) rfl rfl

theorem vouching_noteFailure {s : World} {w : Writer} {state : WriterState} {r : ReceiveRecord}
    {message : String} (h : Vouching s)
    (hstate : state.Vouches s.committed ∧ state.valid = true) (hr : r.valid = true) :
    Vouching (noteFailure s w state r message) := by
  refine ⟨h.appended, h.checkpoint, fun v hv => ?_⟩
  cases hv
  obtain ⟨hcur, hfail⟩ := WriterState.valid_iff.mp hstate.2
  refine ⟨hstate.1, WriterState.valid_iff.mpr ⟨hcur, fun q hq => ?_⟩⟩
  dsimp only at hq
  cases hf : state.failedReceive with
  | none =>
      rw [hf] at hq
      cases hq
      exact hr
  | some q' =>
      rw [hf] at hq
      cases hq
      exact hfail _ hf

theorem vouching_failOp {k : Nat} {error : String} {s t : World} {w : Writer} (h : Vouching s)
    (hnum : Numbered s) (hsound : Sound c s) (hw : s.writer = some w)
    (hstep : failOp c k error s w = some t) : Vouching t := by
  have hok := hsound.stage w hw
  rw [failOp] at hstep
  cases hstage : w.stage with
  | idle | checkSize r =>
      rw [hstage] at hstep
      cases hstep
  | write r f rest =>
      rw [hstage] at hstep hok
      dsimp only at hstep
      split at hstep
      · cases hstep
        exact vouching_noteFailure ⟨h.appended, h.checkpoint, h.writer⟩ (h.writer w hw) hok.1.2
      · cases hstep
  | publish r | remove r i | rename r i | openActive r =>
      rw [hstage] at hstep hok
      cases hstep
      exact vouching_noteFailure h (h.writer w hw) hok.2
  | persist r f =>
      have hrec : w.stage.record = some r := by rw [hstage]; rfl
      rw [hstage] at hstep hok
      cases hstep
      obtain ⟨hv, hvalid⟩ := vouches_persist (f := f) h hnum hw hrec hok.2 hok.1
      refine vouching_noteFailure h ⟨fun q g hq => hv q g (List.mem_append_left _ hq), hvalid⟩ hok.2
  | startEpoch | archiveRemove r i | archiveRename r i | archiveWrite r | publishFailure =>
      rw [hstage] at hstep
      cases hstep
      exact vouching_frame h hw rfl rfl rfl rfl rfl

theorem vouching_step {s t : World} {a : Action} (h : Vouching s) (hnum : Numbered s)
    (hsound : Sound c s) (hstep : step c segmentBytes s a = some t) : Vouching t := by
  cases a with
  | start epoch =>
      rw [step] at hstep
      split at hstep
      · rename_i hstart
        cases hstep
        refine ⟨h.appended, h.checkpoint, fun v hv => ?_⟩
        cases hv
        refine ⟨fun r f hr n hn => ?_, WriterState.valid_iff.mpr ⟨fun cur hcur => ?_, ?_⟩⟩
        · -- a fresh epoch has no committed record
          cases hn
          exact absurd (hnum.known r (h.appended r f hr)) hstart.2.1
        · rcases hcur with hcur | hcur
          · cases hcur
            exact hstart.2.2
          · cases hcur
            exact hstart.2.2
        · intro r hr
          cases hr
      · cases hstep
  | append r =>
      rw [step] at hstep
      split at hstep
      · rename_i w hw
        split at hstep
        · rename_i hnext
          cases hstep
          obtain ⟨n, hlast, -⟩ := exists_cursor_of_nextRecord hnext.2
          obtain ⟨hv, hvalid⟩ := h.writer w hw
          obtain ⟨hcur, hfail⟩ := WriterState.valid_iff.mp hvalid
          refine ⟨fun q f hq => List.mem_append_left _ (h.appended q f hq), h.checkpoint,
            fun v hv' => ?_⟩
          cases hv'
          refine ⟨fun q f hq m hm => ?_, WriterState.valid_iff.mpr ⟨fun cur hc => ?_, hfail⟩⟩
          · obtain ⟨hepoch, -⟩ : r.epoch = q.epoch ∧ r.rxSeq = m := by
              simpa [ReceiveRecord.cursor] using hm
            exact hv q f hq n (by rw [hlast, hepoch])
          · rcases hc with hc | hc
            · cases hc
              exact epoch_of_valid (valid_of_nextRecord hnext.2)
            · exact hcur cur (Or.inr hc)
        · cases hstep
      · cases hstep
  | op k =>
      obtain ⟨w, hw, hperform⟩ := Option.bind_eq_some_iff.mp hstep
      exact vouching_perform h hnum hsound hw hperform
  | fail k error =>
      obtain ⟨w, hw, hfail⟩ := Option.bind_eq_some_iff.mp hstep
      exact vouching_failOp h hnum hsound hw hfail
  | crash =>
      rw [step] at hstep
      split at hstep
      · cases hstep
        exact ⟨h.appended, h.checkpoint, fun v hv => by cases hv⟩
      · cases hstep

theorem vouching_run (hc : c.Lawful) {s : World} {as : List Action}
    (h : Machine.run (step c segmentBytes) {} as = some s) : Vouching s := by
  refine Machine.run_history (P := fun _ s => Vouching s) ⟨by simp, ?_, ?_⟩
    (fun as m a t hm ih hstep => vouching_step ih (numbered_run hm) (sound_run hc hm) hstep) as s h
  · intro state hstate
    cases hstate
  · intro w hw
    cases hw

/-! ### Whole records -/

/-- The record being appended has a line of its own, with room for it in the segment. -/
def Stage.Whole (c : RecordCodec) (d : Disk) (L : Nat → List ReceiveRecord)
    (T : Nat → List UInt8) : Stage → Prop
  | .openActive r => d.size + (c.line r).length ≤ SEGMENT_BYTES
  | .write r f rest => T f ++ rest = c.line r ∧ rest ≠ [] ∧
      (d.content f).length + rest.length ≤ SEGMENT_BYTES
  | .persist r f => r ∈ L f
  | _ => True

/-- Every file is a list of whole records and a tail. -/
structure Whole (c : RecordCodec) (s : World) (L : Nat → List ReceiveRecord)
    (T : Nat → List UInt8) : Prop where
  content : ∀ f, s.disk.content f = unlines newline ((L f).map c.encode) ++ T f
  valid : ∀ f, ∀ r ∈ L f, r.valid = true
  tail : ∀ f, newline ∉ T f
  size : ∀ f, (s.disk.content f).length ≤ SEGMENT_BYTES
  committed : ∀ r f, (r, f) ∈ s.committed → r ∈ L f
  stage : ∀ w, s.writer = some w → w.stage.Whole c s.disk L T

/-- A segment is opened for appending only where a line ends. -/
def OpensWhole (s : World) (a : Action) : Prop :=
  ∀ w r k f, s.writer = some w → w.stage = .openActive r → a = .op k → s.disk.slot 0 = some f →
    s.disk.content f = [] ∨ (s.disk.content f).getLast? = some newline

namespace Whole

variable {s t : World} {L : Nat → List ReceiveRecord} {T : Nat → List UInt8}

/-- Nothing is written and nothing committed. -/
theorem frame (h : Whole c s L T) (hcontent : t.disk.content = s.disk.content)
    (hcommitted : t.committed = s.committed)
    (hstage : ∀ w, t.writer = some w → w.stage.Whole c t.disk L T) : Whole c t L T := by
  refine ⟨?_, h.valid, h.tail, ?_, ?_, hstage⟩
  · rw [hcontent]
    exact h.content
  · rw [hcontent]
    exact h.size
  · rw [hcommitted]
    exact h.committed

/-- A file that ends where a line ends has no tail. -/
theorem tail_eq_nil (h : Whole c s L T) {f : Nat}
    (hf : s.disk.content f = [] ∨ (s.disk.content f).getLast? = some newline) : T f = [] := by
  by_contra hne
  rw [h.content] at hf
  rcases hf with hf | hf
  · exact hne (List.append_eq_nil_iff.mp hf).2
  · rw [List.getLast?_append_of_ne_nil _ hne] at hf
    exact h.tail f (List.mem_of_getLast? hf)

section Write

variable {w : Writer} {r : ReceiveRecord} {f : Nat} {rest : List UInt8}

/-- A part of the line is written. -/
theorem append_part (hc : c.Lawful) (h : Whole c s L T) (hw : s.writer = some w)
    (hstage : w.stage = .write r f rest) {n : Nat} (hn : rest.drop n ≠ [])
    (hdisk : t.disk = s.disk.append f (rest.take n)) (hcommitted : t.committed = s.committed)
    (hstage' : ∀ w', t.writer = some w' → w'.stage = .write r f (rest.drop n) ∨
      w'.stage.Whole c t.disk L (Function.update T f (T f ++ rest.take n))) :
    Whole c t L (Function.update T f (T f ++ rest.take n)) := by
  have hok := h.stage w hw
  rw [hstage] at hok
  obtain ⟨hline, -, hsize⟩ := hok
  have hline' : T f ++ rest.take n ++ rest.drop n = c.line r := by
    rw [List.append_assoc, List.take_append_drop, hline]
  have hpre := prefix_encode_of_append hline' hn
  have hlen : (rest.take n).length + (rest.drop n).length = rest.length := by
    rw [← List.length_append, List.take_append_drop]
  refine ⟨fun g => ?_, h.valid, fun g => ?_, fun g => ?_, ?_, fun w' hw' => ?_⟩
  · rw [hdisk]
    by_cases hg : g = f
    · subst hg
      rw [Disk.append_content_self, Function.update_self, h.content g, List.append_assoc]
    · rw [Disk.append_content_of_ne _ _ hg, Function.update_of_ne hg]
      exact h.content g
  · by_cases hg : g = f
    · subst hg
      rw [Function.update_self]
      exact fun hmem => hc.newline_notMem r (hpre.subset hmem)
    · rw [Function.update_of_ne hg]
      exact h.tail g
  · rw [hdisk]
    by_cases hg : g = f
    · subst hg
      rw [Disk.append_content_self, List.length_append]
      omega
    · rw [Disk.append_content_of_ne _ _ hg]
      exact h.size g
  · rw [hcommitted]
    exact h.committed
  · rcases hstage' w' hw' with hs | hs
    · rw [hs]
      refine ⟨?_, hn, ?_⟩
      · rw [Function.update_self]
        exact hline'
      · rw [hdisk, Disk.append_content_self, List.length_append]
        omega
    · exact hs

/-- The line is completed. -/
theorem append_all (h : Whole c s L T) (hw : s.writer = some w)
    (hstage : w.stage = .write r f rest) (hvalid : r.valid = true)
    (hdisk : t.disk = s.disk.append f rest) (hcommitted : t.committed = s.committed)
    (hstage' : ∀ w', t.writer = some w' → w'.stage = .persist r f) :
    Whole c t (Function.update L f (L f ++ [r])) (Function.update T f []) := by
  have hok := h.stage w hw
  rw [hstage] at hok
  obtain ⟨hline, -, hsize⟩ := hok
  have hsub : ∀ g, L g ⊆ Function.update L f (L f ++ [r]) g := by
    intro g
    by_cases hg : g = f
    · subst hg
      rw [Function.update_self]
      exact List.subset_append_left _ _
    · rw [Function.update_of_ne hg]
      exact List.Subset.refl _
  refine ⟨fun g => ?_, fun g q hq => ?_, fun g => ?_, fun g => ?_, fun q g hq => ?_,
    fun w' hw' => ?_⟩
  · rw [hdisk]
    by_cases hg : g = f
    · subst hg
      rw [Disk.append_content_self, Function.update_self, Function.update_self, h.content g,
        List.append_assoc, hline, List.append_nil, List.map_append, unlines_append]
      simp [unlines, RecordCodec.line]
    · rw [Disk.append_content_of_ne _ _ hg, Function.update_of_ne hg, Function.update_of_ne hg]
      exact h.content g
  · by_cases hg : g = f
    · subst hg
      rw [Function.update_self] at hq
      rcases List.mem_append.mp hq with hq | hq
      · exact h.valid g q hq
      · rw [List.mem_singleton.mp hq]
        exact hvalid
    · rw [Function.update_of_ne hg] at hq
      exact h.valid g q hq
  · by_cases hg : g = f
    · subst hg
      rw [Function.update_self]
      exact List.not_mem_nil
    · rw [Function.update_of_ne hg]
      exact h.tail g
  · rw [hdisk]
    by_cases hg : g = f
    · subst hg
      rw [Disk.append_content_self, List.length_append]
      exact hsize
    · rw [Disk.append_content_of_ne _ _ hg]
      exact h.size g
  · rw [hcommitted] at hq
    exact hsub g (h.committed q g hq)
  · rw [hstage' w' hw', Stage.Whole, Function.update_self]
    exact List.mem_append_right _ (List.mem_singleton_self r)

end Write

end Whole

theorem whole_perform (hc : c.Lawful) {k : Nat} {s t : World} {w : Writer}
    {L : Nat → List ReceiveRecord} {T : Nat → List UInt8} (h : Whole c s L T)
    (hsound : Sound c s) (hslots : Slots s) (hw : s.writer = some w)
    (hopen : ∀ r f, w.stage = .openActive r → s.disk.slot 0 = some f →
      s.disk.content f = [] ∨ (s.disk.content f).getLast? = some newline)
    (hstep : perform c SEGMENT_BYTES k s w = some t) : ∃ L' T', Whole c t L' T' := by
  have hok := h.stage w hw
  have hrec := hsound.stage w hw
  have hslot := hslots.stage w hw
  rw [perform] at hstep
  cases hstage : w.stage with
  | idle =>
      rw [hstage] at hstep
      cases hstep
  | startEpoch | publish r | remove r i | archiveRemove r i | archiveWrite r | publishFailure =>
      rw [hstage] at hstep
      cases hstep
      exact ⟨L, T, h.frame rfl rfl fun v hv => by cases hv; trivial⟩
  | checkSize r =>
      rw [hstage] at hstep hrec
      dsimp only at hstep
      split at hstep
      · cases hstep
        exact ⟨L, T, h.frame rfl rfl fun v hv => by cases hv; trivial⟩
      · rename_i hfits
        cases hstep
        refine ⟨L, T, h.frame rfl rfl fun v hv => ?_⟩
        cases hv
        have hline := hc.length_line r hrec.2
        change s.disk.size + (c.line r).length ≤ SEGMENT_BYTES
        have hbig : 300000 ≤ SEGMENT_BYTES := by decide
        omega
  | rename r i =>
      rw [hstage] at hstep hrec hslot
      cases hstep
      refine ⟨L, T, h.frame (s.disk.rename_content i) rfl fun v hv => ?_⟩
      cases hv
      dsimp only
      split
      · -- the last rename has freed the name of the active segment
        rename_i hi
        obtain ⟨hpos, -, -⟩ := hslot
        obtain rfl : i = 1 := by omega
        have hnone : (s.disk.rename 1).slot 0 = none := by
          cases hf : s.disk.slot 0 with
          | none => rw [Disk.rename, hf]; exact hf
          | some f => exact (Disk.rename_slot hf (by decide)).2.1
        have hline := hc.length_line r hrec.2
        have hbig : 300000 ≤ SEGMENT_BYTES := by decide
        change (s.disk.rename 1).size + (c.line r).length ≤ SEGMENT_BYTES
        rw [Disk.size, hnone]
        dsimp only
        omega
      · trivial
  | openActive r =>
      rw [hstage] at hstep hok
      cases hstep
      have hsize : (s.disk.content s.disk.openActive.1).length + (c.line r).length ≤
          SEGMENT_BYTES ∧ T s.disk.openActive.1 = [] := by
        rw [Disk.openActive]
        cases hf : s.disk.slot 0 with
        | some f =>
            rw [Stage.Whole, Disk.size, hf] at hok
            exact ⟨hok, h.tail_eq_nil (hopen r f hstage hf)⟩
        | none =>
            rw [Stage.Whole, Disk.size, hf] at hok
            have hnil := hslots.ordered.unborn (Nat.le_refl s.disk.files)
            dsimp only at hok ⊢
            rw [hnil]
            exact ⟨hok, h.tail_eq_nil (Or.inl hnil)⟩
      refine ⟨L, T, h.frame s.disk.openActive_content rfl fun v hv => ?_⟩
      cases hv
      refine ⟨?_, by simp [RecordCodec.line], ?_⟩
      · rw [hsize.2, List.nil_append]
      · dsimp only [World.goto, World.withDisk]
        rw [Disk.openActive_content]
        exact hsize.1
  | write r f rest =>
      rw [hstage] at hstep hrec
      cases hstep
      by_cases hn : rest.drop (k + 1) = []
      · have hall : rest.take (k + 1) = rest := by
          have := List.take_append_drop (k + 1) rest
          rwa [hn, List.append_nil] at this
        refine ⟨_, _, h.append_all hw hstage hrec.1.2 (by rw [hall]; rfl) rfl fun v hv => ?_⟩
        cases hv
        exact if_pos hn
      · refine ⟨_, _, h.append_part hc hw hstage hn rfl rfl fun v hv => Or.inl ?_⟩
        cases hv
        exact if_neg hn
  | persist r f =>
      rw [hstage] at hstep hok
      cases hstep
      refine ⟨L, T, h.content, h.valid, h.tail, h.size, fun q g hq => ?_, fun v hv => ?_⟩
      · rcases List.mem_append.mp hq with hq | hq
        · exact h.committed q g hq
        · cases List.mem_singleton.mp hq
          exact hok
      · cases hv
        trivial
  | archiveRename r i =>
      rw [hstage] at hstep
      cases hstep
      refine ⟨L, T, h.frame (s.disk.renameFailure_content i) rfl fun v hv => ?_⟩
      cases hv
      dsimp only
      split <;> trivial

theorem whole_failOp (hc : c.Lawful) {k : Nat} {error : String} {s t : World} {w : Writer}
    {L : Nat → List ReceiveRecord} {T : Nat → List UInt8} (h : Whole c s L T)
    (hw : s.writer = some w) (hstep : failOp c k error s w = some t) :
    ∃ L' T', Whole c t L' T' := by
  have hnote : ∀ (state : WriterState) (r : ReceiveRecord) (message : String) (d : Disk)
      (T' : Nat → List UInt8) (v : Writer),
      (noteFailure (s.withDisk d) w state r message).writer = some v →
      v.stage.Whole c d L T' := by
    intro state r message d T' v hv
    cases hv
    dsimp only
    split <;> trivial
  rw [failOp] at hstep
  cases hstage : w.stage with
  | idle | checkSize r =>
      rw [hstage] at hstep
      cases hstep
  | write r f rest =>
      rw [hstage] at hstep
      dsimp only at hstep
      split at hstep
      · rename_i hk
        cases hstep
        have hpart : rest.drop k ≠ [] := by
          intro hnil
          have := congrArg List.length hnil
          simp at this
          omega
        exact ⟨_, _, h.append_part hc hw hstage hpart rfl rfl fun v hv =>
          Or.inr (hnote _ _ _ _ _ v hv)⟩
      · cases hstep
  | publish r | remove r i | rename r i | openActive r | persist r f =>
      rw [hstage] at hstep
      cases hstep
      exact ⟨L, T, h.frame rfl rfl fun v hv => hnote _ _ _ s.disk T v hv⟩
  | startEpoch | archiveRemove r i | archiveRename r i | archiveWrite r | publishFailure =>
      rw [hstage] at hstep
      cases hstep
      exact ⟨L, T, h.frame rfl rfl fun v hv => by cases hv; trivial⟩

theorem whole_step (hc : c.Lawful) {s t : World} {a : Action} {L : Nat → List ReceiveRecord}
    {T : Nat → List UInt8} (h : Whole c s L T) (hsound : Sound c s) (hslots : Slots s)
    (hopen : OpensWhole s a) (hstep : step c SEGMENT_BYTES s a = some t) :
    ∃ L' T', Whole c t L' T' := by
  cases a with
  | start epoch =>
      rw [step] at hstep
      split at hstep
      · cases hstep
        exact ⟨L, T, h.frame rfl rfl fun v hv => by cases hv; trivial⟩
      · cases hstep
  | append r =>
      rw [step] at hstep
      split at hstep
      · split at hstep
        · cases hstep
          exact ⟨L, T, h.frame rfl rfl fun v hv => by cases hv; trivial⟩
        · cases hstep
      · cases hstep
  | op k =>
      obtain ⟨w, hw, hperform⟩ := Option.bind_eq_some_iff.mp hstep
      exact whole_perform hc h hsound hslots hw
        (fun r f hstage hf => hopen w r k f hw hstage rfl hf) hperform
  | fail k error =>
      obtain ⟨w, hw, hfail⟩ := Option.bind_eq_some_iff.mp hstep
      exact whole_failOp hc h hw hfail
  | crash =>
      rw [step] at hstep
      split at hstep
      · cases hstep
        exact ⟨L, T, h.frame rfl rfl fun v hv => by cases hv⟩
      · cases hstep

theorem whole_run (hc : c.Lawful) {s : World} {as : List Action}
    (hrun : Machine.run (step c SEGMENT_BYTES) {} as = some s)
    (hmeets : Machine.meets (step c SEGMENT_BYTES) OpensWhole {} as) :
    ∃ L T, Whole c s L T := by
  refine Machine.run_history_of_meets (P := fun _ s => ∃ L T, Whole c s L T) ?_
    (fun as m a t hm ih hC hstep => ?_) as s hmeets hrun
  · refine ⟨fun _ => [], fun _ => [], fun f => rfl, by simp, by simp, fun f => ?_, by simp,
      fun w hw => by cases hw⟩
    exact Nat.zero_le _
  · obtain ⟨L, T, hm'⟩ := ih
    exact whole_step hc hm' (sound_run hc hm) (slots_run hm) hC hstep

/-- The second chunk fails before its first byte is out, the third is committed, and the fourth is
torn when the process stops. -/
def failedThenTorn : List Action :=
  .start "7-1" :: .op 0 :: .append (chunk "7-1" 1 [104]) :: List.replicate 5 (.op 200) ++
  .append (chunk "7-1" 2 [105]) :: List.replicate 3 (.op 0) ++
  .fail 0 "no space" :: List.replicate 10 (.op 0) ++
  .append (chunk "7-1" 3 [106]) :: List.replicate 5 (.op 200) ++
  .append (chunk "7-1" 4 [107]) :: List.replicate 4 (.op 9) ++ [.crash]

/-- The active segment ends where a line ends. -/
def lineEnds (d : Disk) : Bool :=
  (d.slot 0).all fun f => d.content f = [] ∨ (d.content f).getLast? = some newline

/-- The second chunk is torn when the process stops; the first chunk of the next epoch is appended
right behind it. -/
def appendedToTorn : List Action :=
  .start "7-1" :: .op 0 :: .append (chunk "7-1" 1 [104]) :: List.replicate 5 (.op 200) ++
  .append (chunk "7-1" 2 [105]) :: List.replicate 4 (.op 9) ++
  .crash :: .start "8-2" :: .op 0 :: .append (chunk "8-2" 1 [106]) :: List.replicate 5 (.op 200)

end Journal

end Serialcap

end Paniolo
