import Paniolo.Serialcap.Journal.Budget
import Paniolo.Serialcap.Journal.Json

/-!
# Reading while a record is appended

A read may find the beginning of a record at the end of the active segment. It
is reported with its raw bytes, and these come off the budget before the
records do: the answer is the one without the tail as long as both fit.
-/

namespace Paniolo

namespace Serialcap

namespace Journal

/-- The active segment: whole records, and behind them what there is of the next. -/
def activeSegment (c : RecordCodec) (rs : List ReceiveRecord) (t : List UInt8) : Segment where
  index := 0
  len := some (unlines newline (rs.map c.encode) ++ t).length
  content := unlines newline (rs.map c.encode) ++ t

variable {c : RecordCodec} {rs : List ReceiveRecord} {t : List UInt8}

theorem holds_activeSegment (hrs : ∀ r ∈ rs, r.valid = true)
    (hlen : (unlines newline (rs.map c.encode)).length ≤ SEGMENT_BYTES) (ht : newline ∉ t)
    (htlen : t.length ≤ 300000) : (activeSegment c rs t).Holds c rs t := by
  have hcontent : (activeSegment c rs t).content.length =
      (unlines newline (rs.map c.encode)).length + t.length := List.length_append
  have hscan : SCAN_SEGMENT_BYTES = SEGMENT_BYTES + 300000 := rfl
  exact ⟨rfl, hrs, ht, by omega, rfl, rfl⟩

/-- What the beginning of a record line is like. -/
theorem tail_of_prefix (hc : c.Lawful) {r : ReceiveRecord} (hr : r.valid = true)
    (ht : t <+: c.encode r) : newline ∉ t ∧ t.length ≤ 300000 := by
  refine ⟨fun h => hc.newline_notMem r (ht.subset h), ?_⟩
  have hline := hc.length_line r hr
  rw [RecordCodec.line, List.length_append] at hline
  have := ht.length_le
  omega

/-- A tail is reported as long as no write error is known. -/
theorem scanLine_inFlight (c : RecordCodec) (maxBytes offset : Nat) {state : Option WriterState}
    (hstate : ∀ w, state = some w → w.error = none) (ht : newline ∉ t) (s : Scan) :
    ∃ d, scanLine c maxBytes state 0 offset t s =
      (⟨{ s.out with capturePending := true }.warnRaw maxBytes t d, s.acquired⟩, .endFile) := by
  have hlast : t.getLast? ≠ some newline := fun h => ht (List.mem_of_getLast? h)
  have hall : (state.all fun w => w.error.isNone) = true := by
    cases state with
    | none => rfl
    | some w => simp [hstate w rfl]
  have hpending : (0 = 0 && t.getLast? != some newline &&
      state.all fun w => w.error.isNone) = true := by
    simp [hall, hlast]
  rw [scanLine, if_pos hpending]
  exact ⟨_, rfl⟩

/-- The two scans of the active segment part at the tail: its bytes come off the budget, and
nothing else changes for the selection. -/
theorem scanSegment_inFlight (hc : c.Lawful) {f g : Segment} (hf : f.Holds c rs [])
    (hg : g.Holds c rs t) (hfi : f.index = 0) (hgi : g.index = 0) {state : Option WriterState}
    (hstate : ∀ w, state = some w → w.error = none) (maxBytes : Nat) (s : Scan) :
    ∃ m s', scanSegment c maxBytes state f s = (m, false) ∧ Evidence.Alike s.out m.out ∧
      scanSegment c maxBytes state g s = (s', false) ∧ s'.acquired = m.acquired ∧
      s'.out.availableEpochs = m.out.availableEpochs ∧ s'.out.records = m.out.records ∧
      s'.out.nextRecordBytes = m.out.nextRecordBytes ∧
      s'.out.rawBytes = m.out.rawBytes + min (maxBytes - m.out.rawBytes) t.length := by
  obtain ⟨offset, m, hm, -, -, halike⟩ := scanLines_lines hc maxBytes state 0 rs hf.2.1 0 s
  have hfm : scanSegment c maxBytes state f s = (m, false) := by
    rw [scanSegment, hf.checkLen_eq, hf.pieces hc, hfi, hm, if_pos rfl, scanLines]
    dsimp only
    rw [hf.reportReadError_eq]
  by_cases hnil : t = []
  · subst hnil
    refine ⟨m, m, hfm, halike, ?_, rfl, rfl, rfl, rfl, by simp⟩
    rw [scanSegment, hg.checkLen_eq, hg.pieces hc, hgi, hm, if_pos rfl, scanLines]
    dsimp only
    rw [hg.reportReadError_eq]
  · obtain ⟨d, hd⟩ := scanLine_inFlight c maxBytes offset hstate hg.2.2.1 m
    refine ⟨m, ⟨{ m.out with capturePending := true }.warnRaw maxBytes t d, m.acquired⟩, hfm,
      halike, ?_, rfl, rfl, rfl, rfl, ?_⟩
    · rw [scanSegment, hg.checkLen_eq, hg.pieces hc, hgi, hm, if_neg hnil, scanLines, hd]
      dsimp only
      rw [hg.reportReadError_eq]
    · rw [Evidence.warnRaw]
      dsimp only
      rw [List.length_take]

theorem openedSegments_append (fs gs : List OpenedSegment) :
    openedSegments (fs ++ gs) = openedSegments fs ++ openedSegments gs :=
  List.filterMap_append

theorem opening_eq (now : Nat) (file : StateFile) (older : List OpenedSegment) (f g : Segment) :
    opening now file (older ++ [.opened f]) = opening now file (older ++ [.opened g]) := by
  have hopen : ∀ out, (openSegments (older ++ [.opened f]) out).2 =
      (openSegments (older ++ [.opened g]) out).2 := by
    induction older with
    | nil => exact fun _ => rfl
    | cons o older ih =>
        intro out
        cases o with
        | opened h => exact ih out
        | missing => exact ih out
        | failed e => exact ih _
  rw [opening, opening, hopen]

/-- A journal whose second record is being appended. -/
def appendingRead (maxBytes : Nat) (t : List UInt8) : Except String Evidence :=
  read jsonCodec 0 ⟨some "7-1", some 0, maxBytes⟩
    (.parsed { lastReceived := some ⟨"7-1", 2⟩, persisted := some ⟨"7-1", 1⟩ })
    [.missing, .opened (activeSegment jsonCodec [chunk "7-1" 1 [7, 8, 9]] t)] []

end Journal

end Serialcap

end Paniolo
