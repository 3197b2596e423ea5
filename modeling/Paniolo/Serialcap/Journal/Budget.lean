import Paniolo.Serialcap.Journal.Damaged

/-!
# The raw-byte budget of a read

`read` spends one budget of raw bytes on what it has to report and on the
records it returns. Here the loop over the records is put in closed form:
`fitting` is the part of the selection that the rest of the budget holds, and
`takeRecords_spec` says what the loop returns in its terms. The stages around
the loop leave the budget alone.
-/

namespace Paniolo

namespace Serialcap

namespace Journal

/-- The records, from the first on, that a budget of raw bytes holds. -/
def fitting : Nat → List ReceiveRecord → List ReceiveRecord
  | _, [] => []
  | budget, r :: rest =>
      if r.bytes.length > budget then [] else r :: fitting (budget - r.bytes.length) rest

/-- All raw bytes of some records. -/
def rawLength (rs : List ReceiveRecord) : Nat :=
  (rs.map fun r => r.bytes.length).sum

theorem rawLength_cons (r : ReceiveRecord) (rs : List ReceiveRecord) :
    rawLength (r :: rs) = r.bytes.length + rawLength rs := by
  simp [rawLength]

theorem fitting_prefix (budget : Nat) (l : List ReceiveRecord) : fitting budget l <+: l := by
  induction l generalizing budget with
  | nil => exact List.prefix_refl _
  | cons r rest ih =>
      rw [fitting]
      split
      · exact List.nil_prefix
      · exact List.prefix_cons_inj r |>.mpr (ih _)

theorem rawLength_fitting_le (budget : Nat) (l : List ReceiveRecord) :
    rawLength (fitting budget l) ≤ budget := by
  induction l generalizing budget with
  | nil => exact Nat.zero_le _
  | cons r rest ih =>
      rw [fitting]
      split
      · exact Nat.zero_le _
      · have := ih (budget - r.bytes.length)
        rw [rawLength_cons]
        omega

/-- A smaller budget holds a shorter part. -/
theorem fitting_mono {b budget : Nat} (h : b ≤ budget) (l : List ReceiveRecord) :
    fitting b l <+: fitting budget l := by
  induction l generalizing b budget with
  | nil => exact List.prefix_refl _
  | cons r rest ih =>
      rw [fitting, fitting]
      by_cases hr : r.bytes.length > b
      · rw [if_pos hr]
        exact List.nil_prefix
      · rw [if_neg hr, if_neg (by omega)]
        exact List.prefix_cons_inj r |>.mpr (ih (by omega))

/-- The smaller budget holds the same part exactly when it has room for its bytes. -/
theorem fitting_eq_iff {b budget : Nat} (h : b ≤ budget) (l : List ReceiveRecord) :
    fitting b l = fitting budget l ↔ rawLength (fitting budget l) ≤ b := by
  constructor
  · intro heq
    rw [← heq]
    exact rawLength_fitting_le b l
  · induction l generalizing b budget with
    | nil => exact fun _ => rfl
    | cons r rest ih =>
        intro hle
        rw [fitting] at hle
        rw [fitting, fitting]
        by_cases hr : r.bytes.length > budget
        · rw [if_pos hr, if_pos (by omega)]
        · rw [if_neg hr, rawLength_cons] at hle
          have hrest : fitting (b - r.bytes.length) rest = fitting (budget - r.bytes.length) rest :=
            ih (by omega) (by omega)
          rw [if_neg hr, if_neg (by omega), hrest]

/-- The size of the first record that does not fit. -/
def nextUnfit (budget : Nat) (l : List ReceiveRecord) : Option Nat :=
  (l.drop (fitting budget l).length).head?.map fun r => r.bytes.length

theorem nextUnfit_cons_of_gt {budget : Nat} {r : ReceiveRecord} (h : r.bytes.length > budget)
    (rest : List ReceiveRecord) : nextUnfit budget (r :: rest) = some r.bytes.length := by
  simp [nextUnfit, fitting, h]

theorem nextUnfit_cons_of_le {budget : Nat} {r : ReceiveRecord} (h : ¬r.bytes.length > budget)
    (rest : List ReceiveRecord) :
    nextUnfit budget (r :: rest) = nextUnfit (budget - r.bytes.length) rest := by
  simp only [nextUnfit, fitting, if_neg h, List.length_cons, List.drop_succ_cons]

/-- What the loop over the records made of `out`. -/
structure Taken (maxBytes : Nat) (l : List ReceiveRecord) (out out' : Evidence) : Prop where
  records : out'.records = out.records ++ fitting (maxBytes - out.rawBytes) l
  next : out'.nextRecordBytes = (nextUnfit (maxBytes - out.rawBytes) l <|> out.nextRecordBytes)
  continuation : out'.continuation =
    ((fitting (maxBytes - out.rawBytes) l).getLast?.map ReceiveRecord.cursor <|> out.continuation)
  rawBytes : out'.rawBytes = out.rawBytes + rawLength (fitting (maxBytes - out.rawBytes) l)
  capped : out'.capped = (out.capped || (nextUnfit (maxBytes - out.rawBytes) l).isSome)

theorem takeRecords_spec (maxBytes : Nat) (l : List ReceiveRecord) :
    ∀ (expected : Nat) (out : Evidence), out.rawBytes ≤ maxBytes →
      Taken maxBytes l out (takeRecords maxBytes expected l out) := by
  induction l with
  | nil =>
      intro expected out _
      exact ⟨by simp [takeRecords, fitting], by simp [takeRecords, nextUnfit],
        by simp [takeRecords, fitting], by simp [takeRecords, fitting, rawLength],
        by simp [takeRecords, nextUnfit]⟩
  | cons r rest ih =>
      intro expected out hle
      -- a gap noted for this record changes nothing else
      have hmain : ∀ a : Evidence, a.records = out.records → a.rawBytes = out.rawBytes →
          a.capped = out.capped → a.nextRecordBytes = out.nextRecordBytes →
          a.continuation = out.continuation →
          Taken maxBytes (r :: rest) out
            (if a.rawBytes + r.bytes.length > maxBytes then
              { a with
                capped := true
                nextRecordBytes := some r.bytes.length }
            else takeRecords maxBytes (saturatingSucc r.rxSeq) rest
              { a with
                rawBytes := a.rawBytes + r.bytes.length
                continuation := some r.cursor
                records := a.records ++ [r] }) := by
        intro a hrecords hraw hcapped hnext hcont
        by_cases hfull : a.rawBytes + r.bytes.length > maxBytes
        · have hgt : r.bytes.length > maxBytes - out.rawBytes := by omega
          rw [if_pos hfull]
          refine ⟨?_, ?_, ?_, ?_, ?_⟩
          · simp [fitting, hgt, hrecords]
          · simp [nextUnfit_cons_of_gt hgt]
          · simp [fitting, hgt, hcont]
          · simp [fitting, hgt, rawLength, hraw]
          · simp [nextUnfit_cons_of_gt hgt]
        · have hgt : ¬r.bytes.length > maxBytes - out.rawBytes := by omega
          have hbudget : maxBytes - (a.rawBytes + r.bytes.length) =
              maxBytes - out.rawBytes - r.bytes.length := by omega
          rw [if_neg hfull]
          have h := ih (saturatingSucc r.rxSeq)
            { a with
              rawBytes := a.rawBytes + r.bytes.length
              continuation := some r.cursor
              records := a.records ++ [r] } (by dsimp only; omega)
          generalize takeRecords maxBytes (saturatingSucc r.rxSeq) rest
            { a with
              rawBytes := a.rawBytes + r.bytes.length
              continuation := some r.cursor
              records := a.records ++ [r] } = t at h ⊢
          obtain ⟨h1, h2, h3, h4, h5⟩ := h
          dsimp only at h1 h2 h3 h4 h5
          rw [hbudget] at h1 h2 h3 h4 h5
          refine ⟨?_, ?_, ?_, ?_, ?_⟩
          · rw [h1, hrecords, fitting, if_neg hgt, List.append_assoc]
            rfl
          · rw [h2, hnext, nextUnfit_cons_of_le hgt]
          · rw [h3, fitting, if_neg hgt]
            cases hf : fitting (maxBytes - out.rawBytes - r.bytes.length) rest with
            | nil => rfl
            | cons q qs =>
                rw [List.getLast?_cons_cons, List.getLast?_cons]
                rfl
          · rw [h4, hraw, fitting, if_neg hgt, rawLength_cons]
            omega
          · rw [h5, hcapped, nextUnfit_cons_of_le hgt]
      rw [takeRecords]
      split
      · exact hmain { out with gap := true } rfl rfl rfl rfl rfl
      · exact hmain out rfl rfl rfl rfl rfl

/-! ### The stages around the loop -/

open Evidence (Alike)

theorem alike_chooseEpoch (state : Option WriterState) (epoch : Option String) (found : Bool)
    (out : Evidence) : Alike out (chooseEpoch state epoch found out) := by
  have hunav : Alike out (reportUnavailable state found out) := by
    rw [reportUnavailable]
    split
    · exact Evidence.alike_warn _ _
    · exact Alike.refl _
  have hlimit : ∀ o : Evidence, Alike o (limitEpochs o) := by
    intro o
    rw [limitEpochs]
    split
    · exact ⟨rfl, rfl, rfl, rfl, rfl, rfl⟩
    · exact Alike.refl _
  have hmissing : ∀ o : Evidence, Alike o (reportMissing o) := by
    intro o
    rw [reportMissing]
    split
    · exact Evidence.alike_warn _ _
    · exact Alike.refl _
  rw [chooseEpoch]
  refine Alike.trans ?_ ((hlimit _).trans (hmissing _))
  exact ⟨hunav.records, hunav.continuation, hunav.next, hunav.rawBytes, hunav.capped, hunav.gap⟩

theorem alike_reportGap (out : Evidence) : Alike out (reportGap out) := by
  rw [reportGap]
  split
  · exact Evidence.alike_warn _ _
  · exact Alike.refl _

/-- What the range report and the conflicts leave alone. -/
theorem reportRange_alike (state : Option WriterState) (start : Nat)
    (selected : List ReceiveRecord) (out : Evidence) :
    (reportRange state start selected out).nextRecordBytes = out.nextRecordBytes ∧
      (reportRange state start selected out).capped = out.capped := by
  rw [reportRange]
  dsimp only
  split <;> exact ⟨rfl, rfl⟩

theorem reportConflicts_alike (selected : List ReceiveRecord) (out : Evidence) :
    (reportConflicts selected out).nextRecordBytes = out.nextRecordBytes ∧
      (reportConflicts selected out).capped = out.capped := by
  rw [reportConflicts]
  induction conflicts selected generalizing out with
  | nil => exact ⟨rfl, rfl⟩
  | cons p ps ih =>
      rw [List.foldl_cons]
      obtain ⟨hnext, hcapped⟩ := ih
        (let out := { out with gap := true }
        if out.diagnostics.length < MAX_DIAGNOSTICS then
          out.warn (diagnostic .conflictingCursor "different records share an epoch/RX sequence")
        else out)
      rw [hnext, hcapped]
      dsimp only
      split <;> exact ⟨rfl, rfl⟩

/-- The records of the chosen epoch behind the cursor, as `read` selects them. -/
def wanted (epoch : Option String) (since : Option Nat) (acquired : List ReceiveRecord) :
    List ReceiveRecord :=
  (dedup (selectRecords epoch acquired)).filter fun r => r.rxSeq > since.getD 0

/-- The answer of `collect`: what fits of the wanted records. -/
theorem collect_spec (maxBytes : Nat) (state : Option WriterState) (since : Option Nat)
    (acquired : List ReceiveRecord) {out : Evidence} (hraw : out.rawBytes ≤ maxBytes)
    (hrecords : out.records = []) (hnext : out.nextRecordBytes = none) :
    let l := wanted out.epoch since acquired
    let budget := maxBytes - out.rawBytes
    let out' := collect maxBytes state since acquired out
    out'.records = fitting budget l ∧ out'.nextRecordBytes = nextUnfit budget l ∧
      out'.continuation = ((fitting budget l).getLast?.map ReceiveRecord.cursor <|>
        out.epoch.map fun e => ⟨e, since.getD 0⟩) ∧
      out'.rawBytes = out.rawBytes + rawLength (fitting budget l) ∧
      out'.capped = (out.capped || (nextUnfit budget l).isSome) := by
  have hconf := reportConflicts_extends (selectRecords out.epoch acquired) out
  obtain ⟨hconfNext, hconfCapped⟩ := reportConflicts_alike (selectRecords out.epoch acquired) out
  have hconfRaw := rawBytes_reportConflicts (selectRecords out.epoch acquired) out
  dsimp only
  rw [collect]
  generalize reportConflicts (selectRecords out.epoch acquired) out = a at *
  obtain ⟨hrec, hepoch, -⟩ :=
    reportRange_spec state (since.getD 0) (dedup (selectRecords out.epoch acquired)) a
  obtain ⟨hrangeNext, hrangeCapped⟩ :=
    reportRange_alike state (since.getD 0) (dedup (selectRecords out.epoch acquired)) a
  have hrangeRaw :=
    rawBytes_reportRange state (since.getD 0) (dedup (selectRecords out.epoch acquired)) a
  generalize reportRange state (since.getD 0) (dedup (selectRecords out.epoch acquired)) a = b at *
  have hbraw : b.rawBytes = out.rawBytes := hrangeRaw.trans hconfRaw
  have htaken := takeRecords_spec maxBytes (wanted out.epoch since acquired)
    (saturatingSucc (since.getD 0))
    { b with continuation := b.epoch.map fun e => ⟨e, since.getD 0⟩ } (by
      dsimp only
      omega)
  have hgap := alike_reportGap (takeRecords maxBytes (saturatingSucc (since.getD 0))
    (wanted out.epoch since acquired)
    { b with continuation := b.epoch.map fun e => ⟨e, since.getD 0⟩ })
  obtain ⟨h1, h2, h3, h4, h5⟩ := htaken
  dsimp only at h1 h2 h3 h4 h5
  refine ⟨?_, ?_, ?_, ?_, ?_⟩
  · exact hgap.records.trans (by rw [h1, hbraw, hrec, hconf.records, hrecords, List.nil_append])
  · refine hgap.next.trans ?_
    rw [h2, hbraw, hrangeNext, hconfNext, hnext]
    cases nextUnfit (maxBytes - out.rawBytes) (wanted out.epoch since acquired) <;> rfl
  · exact hgap.continuation.trans (by rw [h3, hbraw, hepoch, hconf.epoch])
  · exact hgap.rawBytes.trans (by rw [h4, hbraw])
  · exact hgap.capped.trans (by rw [h5, hbraw, hrangeCapped, hconfCapped])

/-- The account of the failures comes after the answer. -/
theorem next_reportFailures {c : RecordCodec} {maxBytes : Nat} {state : Option WriterState}
    (failures : List FailureFile) (out : Evidence) :
    (reportFailures c maxBytes state failures out).nextRecordBytes = out.nextRecordBytes := by
  have hone : ∀ (epoch : Option String) (s : Evidence × List ReceiveRecord) (f : Nat × FailureFile),
      (readFailure c maxBytes epoch s f).1.nextRecordBytes = s.1.nextRecordBytes := by
    intro epoch s f
    rw [readFailure]
    cases f.2 with
    | missing => rfl
    | unreadable e => rfl
    | failed e => rfl
    | bytes content =>
        dsimp only
        split
        · split
          · split <;> rfl
          · rfl
        · rfl
  have hfold : ∀ (epoch : Option String) (fs : List (Nat × FailureFile))
      (s : Evidence × List ReceiveRecord),
      (fs.foldl (readFailure c maxBytes epoch) s).1.nextRecordBytes = s.1.nextRecordBytes := by
    intro epoch fs
    induction fs with
    | nil => exact fun _ => rfl
    | cons f fs ih =>
        intro s
        rw [List.foldl_cons, ih, hone]
  have hwriter : ∀ (failed : List ReceiveRecord) (out : Evidence),
      (reportWriter state failed out).1.nextRecordBytes = out.nextRecordBytes := by
    intro failed out
    cases state with
    | none => rfl
    | some w =>
        have herr : (reportError w out).nextRecordBytes = out.nextRecordBytes := by
          rw [reportError]
          cases w.error <;> rfl
        rw [reportWriter, reportBehind]
        cases w.lastReceived with
        | none => exact herr
        | some last =>
            dsimp only
            split
            · exact herr
            · exact herr
  have hfailed : ∀ (failed : List ReceiveRecord) (out : Evidence),
      (failed.foldl (reportFailed maxBytes) out).nextRecordBytes = out.nextRecordBytes := by
    intro failed
    induction failed with
    | nil => exact fun _ => rfl
    | cons r failed ih =>
        intro out
        rw [List.foldl_cons, ih]
        rfl
  rw [reportFailures, hfailed, hwriter, hfold]

/-! ### The whole read -/

/-- Why a read is refused before anything is scanned. -/
def refused (q : Query) (file : StateFile) (failures : List FailureFile) : Option String :=
  if q.since.isSome && q.epoch.isNone then some "--since requires --epoch"
  else if q.maxBytes = 0 ∨ q.maxBytes > MAX_BYTES then some s!"--max-bytes must be 1..={MAX_BYTES}"
  else readToEndError file failures

/-- What a read makes of its scan. -/
def answer (c : RecordCodec) (q : Query) (state : Option WriterState) (found : Bool)
    (failures : List FailureFile) (s : Scan) : Evidence :=
  reportFailures c q.maxBytes state failures
    (collect q.maxBytes state q.since s.acquired (chooseEpoch state q.epoch found s.out))

/-- The scan of a read starts here. -/
def opening (now : Nat) (file : StateFile) (segments : List OpenedSegment) : Scan :=
  ⟨(openSegments segments (readState file { observedAtMs := now }).2).2, []⟩

theorem read_of_refused {c : RecordCodec} {now : Nat} {q : Query} {file : StateFile}
    {segments : List OpenedSegment} {failures : List FailureFile} {e : String}
    (h : refused q file failures = some e) : read c now q file segments failures = .error e := by
  rw [refused] at h
  rw [read]
  split at h
  · rename_i hsince
    rw [if_pos hsince, Option.some.inj h]
  · rename_i hsince
    rw [if_neg hsince]
    split at h
    · rename_i hmax
      rw [if_pos hmax, Option.some.inj h]
    · rename_i hmax
      rw [if_neg hmax, h]

theorem read_of_accepted {c : RecordCodec} {now : Nat} {q : Query} {file : StateFile}
    {segments : List OpenedSegment} {failures : List FailureFile}
    (h : refused q file failures = none) :
    read c now q file segments failures =
      .ok (answer c q (checkpointOf file) (!(openedSegments segments).isEmpty) failures
        (scanSegments c q.maxBytes (checkpointOf file) (openedSegments segments)
          (opening now file segments))) := by
  rw [refused] at h
  split at h
  · cases h
  · rename_i hsince
    split at h
    · cases h
    · rename_i hmax
      rw [read, if_neg hsince, if_neg hmax, h]
      dsimp only
      rw [readState_fst, openSegments_fst]
      rfl

theorem maxBytes_pos_of_accepted {q : Query} {file : StateFile} {failures : List FailureFile}
    (h : refused q file failures = none) : 0 < q.maxBytes ∧ q.maxBytes ≤ MAX_BYTES := by
  rw [refused] at h
  split at h
  · cases h
  · split at h
    · cases h
    · omega

/-- Nothing is counted before the scan. -/
theorem opening_spec (now : Nat) (file : StateFile) (segments : List OpenedSegment) :
    (opening now file segments).out.records = [] ∧
      (opening now file segments).out.nextRecordBytes = none ∧
      (opening now file segments).out.rawBytes = 0 ∧
      (opening now file segments).out.capped = false ∧
      (opening now file segments).out.availableEpochs = [] := by
  have hstate : (readState file { observedAtMs := now }).2.nextRecordBytes = none ∧
      (readState file { observedAtMs := now }).2.rawBytes = 0 ∧
      (readState file { observedAtMs := now }).2.capped = false := by
    cases file with
    | parsed w =>
        rw [readState]
        split <;> exact ⟨rfl, rfl, rfl⟩
    | unavailable e => exact ⟨rfl, rfl, rfl⟩
    | unreadable e => exact ⟨rfl, rfl, rfl⟩
    | corrupt e => exact ⟨rfl, rfl, rfl⟩
  have hopen : ∀ out : Evidence,
      (openSegments segments out).2.nextRecordBytes = out.nextRecordBytes ∧
        (openSegments segments out).2.rawBytes = out.rawBytes ∧
        (openSegments segments out).2.capped = out.capped := by
    induction segments with
    | nil => exact fun _ => ⟨rfl, rfl, rfl⟩
    | cons f segments ih =>
        intro out
        cases f with
        | opened g => exact ih out
        | missing => exact ih out
        | failed e => exact ih (out.warnGap (diagnostic .readError e))
  obtain ⟨hext, havail⟩ := readState_snd file { observedAtMs := now }
  obtain ⟨hext', havail'⟩ := openSegments_snd segments (readState file { observedAtMs := now }).2
  obtain ⟨hnext, hraw, hcapped⟩ := hopen (readState file { observedAtMs := now }).2
  rw [opening]
  dsimp only
  rw [hext'.records, hext.records, hnext, hraw, hcapped, havail', havail]
  exact ⟨rfl, hstate.1, hstate.2.1, hstate.2.2, rfl⟩

/-- The answer in terms of the scan: what fits of the wanted records. -/
theorem answer_spec (c : RecordCodec) (q : Query) (state : Option WriterState) (found : Bool)
    (failures : List FailureFile) {s : Scan} (hraw : s.out.rawBytes ≤ q.maxBytes)
    (hrecords : s.out.records = []) (hnext : s.out.nextRecordBytes = none) :
    let e := q.epoch <|> (state.bind WriterState.lastReceived).map Cursor.epoch <|>
      s.out.availableEpochs.getLast?
    let l := wanted e q.since s.acquired
    let budget := q.maxBytes - s.out.rawBytes
    (answer c q state found failures s).records = fitting budget l ∧
      (answer c q state found failures s).nextRecordBytes = nextUnfit budget l ∧
      (answer c q state found failures s).continuation =
        ((fitting budget l).getLast?.map ReceiveRecord.cursor <|>
          e.map fun e => ⟨e, q.since.getD 0⟩) := by
  have halike := alike_chooseEpoch state q.epoch found s.out
  have hepoch := (chooseEpoch_spec state q.epoch found s.out).2.2.2.1
  have hcollect := collect_spec q.maxBytes state q.since s.acquired
    (by rw [halike.rawBytes]; exact hraw) (halike.records.trans hrecords)
    (halike.next.trans hnext)
  dsimp only at hcollect ⊢
  rw [halike.rawBytes, hepoch] at hcollect
  obtain ⟨h1, h2, h3, -, -⟩ := hcollect
  have hext : Evidence.Extends
      (collect q.maxBytes state q.since s.acquired (chooseEpoch state q.epoch found s.out))
      (answer c q state found failures s) := extends_reportFailures failures _
  exact ⟨hext.records.trans h1, (next_reportFailures failures _).trans h2,
    hext.continuation.trans h3⟩

/-! ### Segments of whole records -/

theorem scanSegment_whole {c : RecordCodec} (hc : c.Lawful) {g : Segment}
    {rs : List ReceiveRecord} (h : g.Holds c rs []) (maxBytes : Nat) (state : Option WriterState)
    (s : Scan) :
    ∃ s', scanSegment c maxBytes state g s = (s', false) ∧
      s'.acquired = s.acquired ++ rs.filter (fun r => !notPersisted state r) ∧
      Alike s.out s'.out := by
  obtain ⟨offset, s', hs', hacq, -, halike⟩ :=
    scanLines_lines hc maxBytes state g.index rs h.2.1 0 s
  refine ⟨s', ?_, hacq, halike⟩
  rw [scanSegment, h.checkLen_eq, h.pieces hc, hs', if_pos rfl, scanLines]
  dsimp only
  rw [h.reportReadError_eq]

/-- Segments of whole records are scanned without a report. -/
theorem scanSegments_whole {c : RecordCodec} (hc : c.Lawful) (maxBytes : Nat)
    (state : Option WriterState) {records : Segment → List ReceiveRecord} (fs : List Segment)
    (hfs : ∀ g ∈ fs, g.Holds c (records g) []) :
    ∀ s : Scan, ∃ s',
      (∀ rest, scanSegments c maxBytes state (fs ++ rest) s =
        scanSegments c maxBytes state rest s') ∧
      s'.acquired = s.acquired ++ (fs.flatMap records).filter (fun r => !notPersisted state r) ∧
      Alike s.out s'.out := by
  induction fs with
  | nil => exact fun s => ⟨s, fun _ => rfl, by simp, Alike.refl _⟩
  | cons g fs ih =>
      intro s
      obtain ⟨m, hm, hacq, halike⟩ := scanSegment_whole hc (hfs g (by simp)) maxBytes state s
      obtain ⟨s', hs', hacq', halike'⟩ := ih (fun f hf => hfs f (List.mem_cons_of_mem g hf)) m
      refine ⟨s', ?_, ?_, halike.trans halike'⟩
      · intro rest
        rw [List.cons_append, scanSegments, hm]
        exact hs' rest
      · rw [hacq', hacq, List.flatMap_cons, List.filter_append, List.append_assoc]

end Journal

end Serialcap

end Paniolo
