import Paniolo.Serialcap.Journal.Legible
import Mathlib.Data.List.Nodup

/-!
# Cursors

Every epoch is fresh and its chunks are numbered from 1, so a cursor names at
most one of the records that were ever appended.
-/

namespace Paniolo

namespace Serialcap

namespace Journal

/-- The records of one epoch, in the order in which they were received. -/
def epochRecords (A : List ReceiveRecord) (e : String) : List ReceiveRecord :=
  A.filter fun r => r.epoch = e

theorem mem_epochRecords {A : List ReceiveRecord} {e : String} {r : ReceiveRecord} :
    r ∈ epochRecords A e ↔ r ∈ A ∧ r.epoch = e := by
  rw [epochRecords, List.mem_filter, decide_eq_true_iff]

theorem epochRecords_append (A B : List ReceiveRecord) (e : String) :
    epochRecords (A ++ B) e = epochRecords A e ++ epochRecords B e :=
  List.filter_append ..

/-- How many chunks of the epoch were received. -/
def received (A : List ReceiveRecord) (e : String) : Nat := (epochRecords A e).length

structure Numbered (s : World) : Prop where
  numbered : ∀ e, (epochRecords s.appended e).map ReceiveRecord.rxSeq =
    List.range' 1 (received s.appended e)
  known : ∀ r ∈ s.appended, r.epoch ∈ s.epochs
  current : ∀ w, s.writer = some w →
    ∃ e ∈ s.epochs, w.state.lastReceived = some ⟨e, received s.appended e⟩
  stage : ∀ w r, s.writer = some w → w.stage.record = some r →
    w.state.lastReceived = some r.cursor

namespace Numbered

variable {s : World}

theorem rxSeq_mem (h : Numbered s) {r : ReceiveRecord} (hr : r ∈ s.appended) :
    0 < r.rxSeq ∧ r.rxSeq ≤ received s.appended r.epoch := by
  have hmem : r.rxSeq ∈ (epochRecords s.appended r.epoch).map ReceiveRecord.rxSeq :=
    List.mem_map_of_mem (mem_epochRecords.mpr ⟨hr, rfl⟩)
  rw [h.numbered, List.mem_range'_1] at hmem
  omega

theorem pairwise_epochRecords (h : Numbered s) (e : String) :
    (epochRecords s.appended e).Pairwise fun a b => a.rxSeq < b.rxSeq := by
  have hlt : (List.range' 1 (received s.appended e)).Pairwise (· < ·) :=
    List.pairwise_lt_range'
  rw [← h.numbered, List.pairwise_map] at hlt
  exact hlt

theorem exists_rxSeq (h : Numbered s) {e : String} {n : Nat} (hpos : 0 < n)
    (hn : n ≤ received s.appended e) : ∃ r ∈ epochRecords s.appended e, r.rxSeq = n := by
  have hmem : n ∈ (epochRecords s.appended e).map ReceiveRecord.rxSeq := by
    rw [h.numbered, List.mem_range'_1]
    omega
  exact List.mem_map.mp hmem

/-- A cursor names one record. -/
theorem eq_of_cursor (h : Numbered s) {a b : ReceiveRecord} (ha : a ∈ s.appended)
    (hb : b ∈ s.appended) (hepoch : a.epoch = b.epoch) (hseq : a.rxSeq = b.rxSeq) : a = b := by
  have hnodup : ((epochRecords s.appended b.epoch).map ReceiveRecord.rxSeq).Nodup := by
    rw [h.numbered]
    exact List.nodup_range'
  exact List.inj_on_of_nodup_map hnodup (mem_epochRecords.mpr ⟨ha, hepoch⟩)
    (mem_epochRecords.mpr ⟨hb, rfl⟩) hseq

/-- What an operation leaves alone is all that the numbering depends on. -/
theorem frame {t : World} {w w' : Writer} (h : Numbered s) (hw : s.writer = some w)
    (happended : t.appended = s.appended) (hepochs : t.epochs = s.epochs)
    (hw' : t.writer = some w') (hlast : w'.state.lastReceived = w.state.lastReceived)
    (hrecord : ∀ r, w'.stage.record = some r → w.stage.record = some r) : Numbered t := by
  refine ⟨?_, ?_, ?_, ?_⟩
  · rw [happended]
    exact h.numbered
  · rw [happended, hepochs]
    exact h.known
  · intro v hv
    rw [hw'] at hv
    cases hv
    rw [happended, hepochs, hlast]
    exact h.current w hw
  · intro v r hv hr
    rw [hw'] at hv
    cases hv
    rw [hlast]
    exact h.stage w r hw (hrecord r hr)

theorem start (h : Numbered s) {e : String} (he : e ∉ s.epochs) :
    Numbered { s with
      writer := some ⟨startState e, false, .startEpoch⟩
      epochs := s.epochs ++ [e] } := by
  refine ⟨h.numbered, fun r hr => List.mem_append_left _ (h.known r hr), fun w hw => ?_,
    fun w r hw hr => by cases hw; cases hr⟩
  cases hw
  have hnone : received s.appended e = 0 := by
    rw [received, List.length_eq_zero_iff, List.eq_nil_iff_forall_not_mem]
    intro r hr
    obtain ⟨hmem, rfl⟩ := mem_epochRecords.mp hr
    exact he (h.known r hmem)
  refine ⟨e, by simp, ?_⟩
  dsimp only
  rw [hnone]
  rfl

theorem append (h : Numbered s) {w : Writer} (hw : s.writer = some w) {r : ReceiveRecord}
    (hnext : nextRecord w.state r = true) :
    Numbered { s with
      writer := some { w with
        state := { w.state with lastReceived := some r.cursor }
        stage := .publish r }
      appended := s.appended ++ [r] } := by
  obtain ⟨n, hlast, hrx⟩ := exists_cursor_of_nextRecord hnext
  obtain ⟨e, he, hcur⟩ := h.current w hw
  rw [hlast] at hcur
  obtain ⟨hre, hn⟩ : r.epoch = e ∧ n = received s.appended e := by
    simpa using hcur
  have hself : epochRecords (s.appended ++ [r]) e = epochRecords s.appended e ++ [r] := by
    rw [epochRecords_append]
    simp [epochRecords, hre]
  refine ⟨fun e' => ?_, fun q hq => ?_, fun w' hw' => ?_, fun w' q hw' hq => ?_⟩
  · dsimp only
    by_cases he' : e' = e
    · rw [he', received, hself, List.map_append, h.numbered, List.length_append,
        List.length_singleton, List.range'_concat]
      simp [hrx, hn, received, Nat.add_comm]
    · have hother : epochRecords (s.appended ++ [r]) e' = epochRecords s.appended e' := by
        rw [epochRecords_append]
        simp [epochRecords, hre, Ne.symm he']
      rw [received, hother]
      exact h.numbered e'
  · rcases List.mem_append.mp hq with hq | hq
    · exact h.known q hq
    · rw [List.mem_singleton.mp hq, hre]
      exact he
  · cases hw'
    refine ⟨e, he, ?_⟩
    dsimp only
    rw [received, hself, List.length_append, List.length_singleton, ReceiveRecord.cursor, hre, hrx,
      hn]
    rfl
  · cases hw'
    cases hq
    rfl

end Numbered

variable {c : RecordCodec} {segmentBytes : Nat}

theorem numbered_step {s t : World} {a : Action} (h : Numbered s)
    (hstep : step c segmentBytes s a = some t) : Numbered t := by
  cases a with
  | start epoch =>
      rw [step] at hstep
      split at hstep
      · rename_i hstart
        cases hstep
        exact h.start hstart.2.1
      · cases hstep
  | append r =>
      rw [step] at hstep
      split at hstep
      · rename_i w hw
        split at hstep
        · rename_i hnext
          cases hstep
          exact h.append hw hnext.2
        · cases hstep
      · cases hstep
  | op k =>
      obtain ⟨w, hw, hstep⟩ := Option.bind_eq_some_iff.mp hstep
      obtain ⟨happended, hepochs, w', hw', hlast, hrecord⟩ := perform_frame hstep
      exact h.frame hw happended hepochs hw' hlast hrecord
  | fail k error =>
      obtain ⟨w, hw, hstep⟩ := Option.bind_eq_some_iff.mp hstep
      obtain ⟨happended, hepochs, w', hw', hlast, hrecord⟩ := failOp_frame hstep
      exact h.frame hw happended hepochs hw' hlast hrecord
  | crash =>
      rw [step] at hstep
      split at hstep
      · cases hstep
        exact ⟨h.numbered, h.known, fun w hw => absurd hw (by simp),
          fun w r hw => absurd hw (by simp)⟩
      · cases hstep

theorem numbered_run {s : World} {as : List Action}
    (h : Machine.run (step c segmentBytes) {} as = some s) : Numbered s :=
  Machine.run_induct ⟨fun e => rfl, by simp, fun w hw => absurd hw (by simp),
    fun w r hw => absurd hw (by simp)⟩
    (fun _ _ _ => numbered_step) h

end Journal

end Serialcap

end Paniolo
