import Paniolo.Serialcap.Journal.CleanRead
import Paniolo.Serialcap.Journal.Legible

/-!
# Reading damaged segments

A segment may end with the beginning of a record. The read reports it and goes
on: every whole record in front of it, and in the other segments, is returned
if the checkpoint vouches for it and the budget has room.
-/

namespace Paniolo

namespace Serialcap

namespace Journal

/-- `b` gives the same answer as `a`, whatever else it reports. -/
structure Evidence.Alike (a b : Evidence) : Prop where
  records : b.records = a.records
  continuation : b.continuation = a.continuation
  next : b.nextRecordBytes = a.nextRecordBytes
  rawBytes : b.rawBytes = a.rawBytes
  capped : b.capped = a.capped
  gap : b.gap = a.gap

namespace Evidence

theorem Alike.refl (a : Evidence) : Alike a a := ⟨rfl, rfl, rfl, rfl, rfl, rfl⟩

theorem Alike.trans {a b d : Evidence} (h : Alike a b) (h' : Alike b d) : Alike a d where
  records := h'.records.trans h.records
  continuation := h'.continuation.trans h.continuation
  next := h'.next.trans h.next
  rawBytes := h'.rawBytes.trans h.rawBytes
  capped := h'.capped.trans h.capped
  gap := h'.gap.trans h.gap

theorem alike_warn (a : Evidence) (d : Diagnostic) : Alike a (a.warn d) :=
  ⟨rfl, rfl, rfl, rfl, rfl, rfl⟩

end Evidence

open Evidence (Alike)

/-! ### A scan that has something to report -/

section Scan

variable {c : RecordCodec} {maxBytes : Nat} {state : Option WriterState}

/-- What a scan may have done to get from `s` to `s'`: it acquired the records of `rs` that the
checkpoint vouches for and others of `extra`, and it had one thing to report, with at most `n` raw
bytes. -/
structure Scanned (state : Option WriterState) (rs extra : List ReceiveRecord) (n : Nat)
    (s s' : Scan) : Prop where
  acquired : s'.acquired = s.acquired ++ rs.filter (fun r => !notPersisted state r) ++ extra
  diagnostics : s'.out.diagnostics.length ≤ s.out.diagnostics.length + 1
  rawBytes : s'.out.rawBytes ≤ s.out.rawBytes + n

theorem rawBytes_warnRaw_le (out : Evidence) (raw : List UInt8) (d : Diagnostic) :
    (out.warnRaw maxBytes raw d).rawBytes ≤ out.rawBytes + raw.length := by
  rw [Evidence.warnRaw]
  dsimp only
  rw [List.length_take]
  omega

theorem acquire_out (s : Scan) (r : ReceiveRecord) :
    (acquire s r).out.diagnostics = s.out.diagnostics ∧ Alike s.out (acquire s r).out := by
  rw [acquire]
  dsimp only
  split
  · exact ⟨rfl, Alike.refl _⟩
  · exact ⟨rfl, rfl, rfl, rfl, rfl, rfl, rfl⟩

/-- A line that is a record is acquired or left for later, without a report. -/
theorem scanLine_line (hc : c.Lawful) (maxBytes : Nat) (state : Option WriterState)
    (index offset : Nat) {r : ReceiveRecord} (hr : r.valid = true) (s : Scan) :
    ∃ s', scanLine c maxBytes state index offset (c.line r) s = (s', .continue) ∧
      s'.acquired = s.acquired ++ [r].filter (fun r => !notPersisted state r) ∧
      s'.out.diagnostics = s.out.diagnostics ∧ Alike s.out s'.out := by
  have hend : (index = 0 && (c.line r).getLast? != some newline &&
      state.all fun w => w.error.isNone) = false := by
    simp [RecordCodec.line]
  rw [scanLine, hend, hc.decode_line r hr]
  simp only [hr, Bool.false_eq_true, if_false, if_true]
  split
  · rename_i hnp
    exact ⟨_, rfl, by simp [hnp], rfl, rfl, rfl, rfl, rfl, rfl, rfl⟩
  · rename_i hnp
    refine ⟨_, rfl, ?_, acquire_out s r⟩
    simp [acquire, hnp]

theorem scanLines_lines (hc : c.Lawful) (maxBytes : Nat) (state : Option WriterState)
    (index : Nat) (rs : List ReceiveRecord) (hrs : ∀ r ∈ rs, r.valid = true) :
    ∀ (offset : Nat) (s : Scan), ∃ offset' s',
      (∀ ps, scanLines c maxBytes state index offset (rs.map c.line ++ ps) s =
        scanLines c maxBytes state index offset' ps s') ∧
      s'.acquired = s.acquired ++ rs.filter (fun r => !notPersisted state r) ∧
      s'.out.diagnostics = s.out.diagnostics ∧ Alike s.out s'.out := by
  induction rs with
  | nil => exact fun offset s => ⟨offset, s, fun _ => rfl, by simp, rfl, Alike.refl _⟩
  | cons r rs ih =>
      intro offset s
      obtain ⟨m, hm, hacq, hdiag, hraw⟩ :=
        scanLine_line hc maxBytes state index offset (hrs r (by simp)) s
      obtain ⟨offset', s', hs', hacq', hdiag', hraw'⟩ :=
        ih (fun q hq => hrs q (List.mem_cons_of_mem r hq)) (offset + (c.line r).length) m
      refine ⟨offset', s', ?_, ?_, hdiag'.trans hdiag, hraw.trans hraw'⟩
      · intro ps
        rw [List.map_cons, List.cons_append, scanLines, hm]
        exact hs' ps
      · rw [hacq', hacq, List.append_assoc, ← List.filter_append]
        rfl

/-- The tail is reported once, or turns out to be a whole record. -/
theorem scanLine_tail (c : RecordCodec) (maxBytes : Nat) (state : Option WriterState)
    (index offset : Nat) (t : List UInt8) (s : Scan)
    (hdiag : s.out.diagnostics.length + 1 < MAX_DIAGNOSTICS) :
    (scanLine c maxBytes state index offset t s).2 ≠ .endAll ∧
      ∃ extra, (∀ r ∈ extra, pieceRecord c t = some r) ∧ extra.length ≤ 1 ∧
        Scanned state [] extra t.length s (scanLine c maxBytes state index offset t s).1 := by
  have hcorrupt : ∀ message,
      (corruptRecord maxBytes index offset t message s).2 ≠ .endAll ∧
      Scanned state [] [] t.length s (corruptRecord maxBytes index offset t message s).1 := by
    intro message
    rw [corruptRecord]
    dsimp only
    rw [if_neg]
    · refine ⟨by simp, by simp, by simp [Evidence.warnRaw], ?_⟩
      exact rawBytes_warnRaw_le { s.out with gap := true } t _
    · simp only [Evidence.warnRaw, List.length_append, List.length_singleton]
      omega
  rw [scanLine]
  split
  · refine ⟨by simp, [], by simp, by simp, by simp, by simp [Evidence.warnRaw], ?_⟩
    exact rawBytes_warnRaw_le { s.out with capturePending := true } t _
  · cases hd : c.decode t with
    | error e => exact ⟨(hcorrupt e).1, [], by simp, by simp, (hcorrupt e).2⟩
    | ok r =>
        dsimp only
        split
        · rename_i hvalid
          split
          · exact ⟨by simp, [], by simp, by simp, by simp, by simp, by simp⟩
          · obtain ⟨hd', hr'⟩ := acquire_out s r
            refine ⟨by simp, [r], ?_, by simp, by simp [acquire], by rw [hd']; omega,
              by rw [hr'.rawBytes]; omega⟩
            intro q hq
            rw [List.mem_singleton.mp hq, pieceRecord, hd]
            simp [hvalid]
        · exact ⟨(hcorrupt _).1, [], by simp, by simp, (hcorrupt _).2⟩

/-- A segment of whole records and a tail. -/
def Segment.Holds (c : RecordCodec) (g : Segment) (rs : List ReceiveRecord) (t : List UInt8) :
    Prop :=
  g.content = unlines newline (rs.map c.encode) ++ t ∧ (∀ r ∈ rs, r.valid = true) ∧ newline ∉ t ∧
    g.content.length ≤ SCAN_SEGMENT_BYTES ∧ g.len = some g.content.length ∧ g.readError = none

theorem Segment.Holds.pieces (hc : c.Lawful) {g : Segment} {rs : List ReceiveRecord}
    {t : List UInt8} (h : g.Holds c rs t) :
    g.pieces = rs.map c.line ++ if t = [] then [] else [t] := by
  obtain ⟨hcontent, -, ht, hlen, -, herr⟩ := h
  have hnl : ∀ l ∈ rs.map c.encode, newline ∉ l := by
    intro l hl
    obtain ⟨r, -, rfl⟩ := List.mem_map.mp hl
    exact hc.newline_notMem r
  rw [Segment.pieces, herr, List.take_of_length_le hlen, hcontent, splitAfter_unlines hnl ht,
    List.map_map]
  rfl

theorem Segment.Holds.checkLen_eq {g : Segment} {rs : List ReceiveRecord} {t : List UInt8}
    (h : g.Holds c rs t) (out : Evidence) : checkLen g out = out := by
  obtain ⟨-, -, -, hle, hlen, -⟩ := h
  rw [checkLen, hlen, if_neg]
  simpa using hle

theorem Segment.Holds.reportReadError_eq {g : Segment} {rs : List ReceiveRecord} {t : List UInt8}
    (h : g.Holds c rs t) (out : Evidence) : reportReadError g out = out := by
  rw [reportReadError, h.2.2.2.2.2]

theorem scanSegment_holds (hc : c.Lawful) {g : Segment} {rs : List ReceiveRecord} {t : List UInt8}
    (h : g.Holds c rs t) (maxBytes : Nat) (state : Option WriterState) (s : Scan)
    (hdiag : s.out.diagnostics.length + 1 < MAX_DIAGNOSTICS) :
    ∃ s' extra, scanSegment c maxBytes state g s = (s', false) ∧
      (∀ r ∈ extra, t ≠ [] ∧ pieceRecord c t = some r) ∧ extra.length ≤ 1 ∧
      Scanned state rs extra t.length s s' := by
  obtain ⟨offset, m, hm, hacq, hd, hr⟩ := scanLines_lines hc maxBytes state g.index rs h.2.1 0 s
  rw [scanSegment, h.checkLen_eq, h.pieces hc, hm]
  by_cases hnil : t = []
  · rw [if_pos hnil, scanLines]
    refine ⟨_, [], rfl, by simp, by simp, ?_, ?_, ?_⟩
    · rw [List.append_nil]
      exact hacq
    · rw [h.reportReadError_eq, hd]
      exact Nat.le_succ _
    · rw [h.reportReadError_eq, hr.rawBytes]
      exact Nat.le_add_right _ _
  · rw [if_neg hnil]
    obtain ⟨hflow, extra, hextra, hone, hscan⟩ := scanLine_tail c maxBytes state g.index offset t m
      (by rw [hd]; exact hdiag)
    have hs' : Scanned state rs extra t.length s
        (scanLine c maxBytes state g.index offset t m).1 := by
      refine ⟨?_, ?_, ?_⟩
      · rw [hscan.acquired, hacq, List.filter_nil, List.append_nil]
      · rw [← hd]
        exact hscan.diagnostics
      · rw [← hr.rawBytes]
        exact hscan.rawBytes
    rw [scanLines]
    generalize scanLine c maxBytes state g.index offset t m = u at hflow hs'
    obtain ⟨u, flow⟩ := u
    have hdone : Scanned state rs extra t.length s { u with out := reportReadError g u.out } := by
      rw [h.reportReadError_eq]
      exact hs'
    refine ⟨_, extra, ?_, fun r hr => ⟨hnil, hextra r hr⟩, hone, hdone⟩
    cases flow with
    | «continue» => rfl
    | endFile => rfl
    | endAll => exact absurd rfl hflow

/-! ### The budget -/

def wantedBytes (wanted : ReceiveRecord → Bool) (rs : List ReceiveRecord) : Nat :=
  ((rs.filter wanted).map fun r => r.bytes.length).sum

/-- What a piece takes of the budget: its own bytes if it has to be reported, and those of its
record if they are wanted. -/
def pieceCost (c : RecordCodec) (wanted : ReceiveRecord → Bool) (p : List UInt8) : Nat :=
  (if p.getLast? = some newline ∧ (pieceRecord c p).isSome then 0 else p.length) +
    wantedBytes wanted (pieceRecord c p).toList

theorem wantedBytes_append (wanted : ReceiveRecord → Bool) (rs qs : List ReceiveRecord) :
    wantedBytes wanted (rs ++ qs) = wantedBytes wanted rs + wantedBytes wanted qs := by
  simp [wantedBytes]

theorem wantedBytes_cons (wanted : ReceiveRecord → Bool) (r : ReceiveRecord)
    (rs : List ReceiveRecord) :
    wantedBytes wanted (r :: rs) = wantedBytes wanted [r] + wantedBytes wanted rs :=
  wantedBytes_append wanted [r] rs

theorem wantedBytes_le_of_sublist {wanted : ReceiveRecord → Bool} {rs qs : List ReceiveRecord}
    (h : rs.Sublist qs) : wantedBytes wanted rs ≤ wantedBytes wanted qs := by
  induction h with
  | slnil => exact Nat.le_refl _
  | cons a _ ih =>
      rw [wantedBytes_cons]
      omega
  | @cons_cons l₁ l₂ a _ ih =>
      rw [wantedBytes_cons wanted a l₁, wantedBytes_cons wanted a l₂]
      omega

theorem wantedBytes_eq_of_perm {wanted : ReceiveRecord → Bool} {rs qs : List ReceiveRecord}
    (h : rs.Perm qs) : wantedBytes wanted rs = wantedBytes wanted qs :=
  ((h.filter wanted).map _).sum_nat

theorem wantedBytes_filter (wanted keep : ReceiveRecord → Bool) (rs : List ReceiveRecord) :
    wantedBytes wanted (rs.filter keep) = wantedBytes (fun r => wanted r && keep r) rs := by
  rw [wantedBytes, wantedBytes, List.filter_filter]

theorem cost_lines (hc : c.Lawful) (wanted : ReceiveRecord → Bool) {rs : List ReceiveRecord}
    (hrs : ∀ r ∈ rs, r.valid = true) :
    ((rs.map c.line).map (pieceCost c wanted)).sum = wantedBytes wanted rs := by
  induction rs with
  | nil => rfl
  | cons r rs ih =>
      have hrec : pieceRecord c (c.line r) = some r := by
        rw [pieceRecord, hc.decode_line r (hrs r (by simp))]
        simp [hrs r (by simp)]
      have hcost : pieceCost c wanted (c.line r) = wantedBytes wanted [r] := by
        rw [pieceCost, hrec, if_pos ⟨by simp [RecordCodec.line], rfl⟩, Nat.zero_add]
        rfl
      rw [List.map_cons, List.map_cons, List.sum_cons, hcost,
        ih fun q hq => hrs q (List.mem_cons_of_mem r hq), ← wantedBytes_append]
      rfl

theorem Scanned.cost_le (hc : c.Lawful) (wanted : ReceiveRecord → Bool) {g : Segment}
    {rs extra : List ReceiveRecord} {t : List UInt8} {s s' : Scan} (hg : g.Holds c rs t)
    (hextra : ∀ r ∈ extra, t ≠ [] ∧ pieceRecord c t = some r) (hone : extra.length ≤ 1)
    (h : Scanned state rs extra t.length s s') :
    s'.out.rawBytes + wantedBytes wanted s'.acquired ≤
      s.out.rawBytes + wantedBytes wanted s.acquired + (g.pieces.map (pieceCost c wanted)).sum := by
  have hfilter : wantedBytes wanted (rs.filter fun r => !notPersisted state r) ≤
      wantedBytes wanted rs := wantedBytes_le_of_sublist List.filter_sublist
  have htail : t.length + wantedBytes wanted extra ≤
      ((if t = [] then [] else [t]).map (pieceCost c wanted)).sum := by
    by_cases hnil : t = []
    · have hno : extra = [] := List.eq_nil_iff_forall_not_mem.mpr fun r hr => (hextra r hr).1 hnil
      simp [hnil, hno, wantedBytes]
    · have hlast : ¬(t.getLast? = some newline ∧ (pieceRecord c t).isSome) := fun hl =>
        hg.2.2.1 (List.mem_of_getLast? hl.1)
      rw [if_neg hnil, List.map_singleton, List.sum_singleton, pieceCost, if_neg hlast]
      refine Nat.add_le_add_left ?_ _
      match extra, hone with
      | [], _ => exact Nat.zero_le _
      | [r], _ =>
          rw [(hextra r (by simp)).2]
          exact Nat.le_refl _
  have hraw := h.rawBytes
  rw [h.acquired, wantedBytes_append, wantedBytes_append, hg.pieces hc, List.map_append,
    List.sum_append, cost_lines hc wanted hg.2.1]
  omega

/-- The whole scan: no report ends it early, so every vouched record of every segment is acquired,
within the cost of the pieces. -/
theorem scanSegments_holds (hc : c.Lawful) (maxBytes : Nat) (state : Option WriterState)
    (wanted : ReceiveRecord → Bool) (fs : List Segment) {records : Segment → List ReceiveRecord}
    {tails : Segment → List UInt8} (hfs : ∀ g ∈ fs, g.Holds c (records g) (tails g)) :
    ∀ s : Scan, s.out.diagnostics.length + fs.length < MAX_DIAGNOSTICS →
      (∀ r ∈ s.acquired, r ∈ (scanSegments c maxBytes state fs s).acquired) ∧
      (∀ g ∈ fs, ∀ r ∈ records g, notPersisted state r = false →
        r ∈ (scanSegments c maxBytes state fs s).acquired) ∧
      (scanSegments c maxBytes state fs s).out.rawBytes +
          wantedBytes wanted (scanSegments c maxBytes state fs s).acquired ≤
        s.out.rawBytes + wantedBytes wanted s.acquired +
          ((fs.flatMap Segment.pieces).map (pieceCost c wanted)).sum := by
  induction fs with
  | nil => exact fun s _ => ⟨fun r hr => hr, by simp, by simp [scanSegments]⟩
  | cons g fs ih =>
      intro s hdiag
      rw [List.length_cons] at hdiag
      have hg := hfs g (by simp)
      obtain ⟨s', extra, hscan, hextra, hone, hspec⟩ :=
        scanSegment_holds hc hg maxBytes state s (by omega)
      have hd := hspec.diagnostics
      obtain ⟨hkeep, hrest, hcost⟩ :=
        ih (fun f hf => hfs f (List.mem_cons_of_mem g hf)) s' (by omega)
      rw [scanSegments, hscan]
      dsimp only
      have hmem : ∀ r, r ∈ s.acquired ∨ (r ∈ records g ∧ notPersisted state r = false) →
          r ∈ s'.acquired := by
        intro r hr
        rw [hspec.acquired, List.mem_append, List.mem_append, List.mem_filter]
        refine Or.inl (hr.imp_right fun h => ⟨h.1, ?_⟩)
        rw [h.2]
        rfl
      refine ⟨fun r hr => hkeep r (hmem r (Or.inl hr)), fun f hf r hr hnp => ?_, ?_⟩
      · rcases List.mem_cons.mp hf with rfl | hf
        · exact hkeep r (hmem r (Or.inr ⟨hr, hnp⟩))
        · exact hrest f hf r hr hnp
      · have hone' := hspec.cost_le hc wanted hg hextra hone
        rw [List.flatMap_cons, List.map_append, List.sum_append]
        omega

/-! ### The selection -/

theorem subset_takeRecords (maxBytes : Nat) (l : List ReceiveRecord) :
    ∀ (expected : Nat) (out : Evidence),
      out.records ⊆ (takeRecords maxBytes expected l out).records := by
  induction l with
  | nil => exact fun _ out => List.Subset.refl _
  | cons r l ih =>
      intro expected out
      rw [takeRecords]
      split
      · split
        · exact List.Subset.refl _
        · exact fun x hx => ih _ _ (List.mem_append_left _ hx)
      · split
        · exact List.Subset.refl _
        · exact fun x hx => ih _ _ (List.mem_append_left _ hx)

/-- A record is returned when the budget has room for it and for everything before it. -/
theorem mem_takeRecords {maxBytes : Nat} {r : ReceiveRecord} {l : List ReceiveRecord}
    (hl : l.Pairwise fun a b => a.rxSeq ≤ b.rxSeq) (hr : r ∈ l) :
    ∀ (expected : Nat) (out : Evidence),
      out.rawBytes + wantedBytes (fun a => a.rxSeq ≤ r.rxSeq) l ≤ maxBytes →
      r ∈ (takeRecords maxBytes expected l out).records := by
  induction l with
  | nil => cases hr
  | cons a l ih =>
      intro expected out hfit
      obtain ⟨ha, hl⟩ := List.pairwise_cons.mp hl
      have hle : a.rxSeq ≤ r.rxSeq := by
        rcases List.mem_cons.mp hr with rfl | hr
        · exact Nat.le_refl _
        · exact ha r hr
      have hone : wantedBytes (fun b => b.rxSeq ≤ r.rxSeq) [a] = a.bytes.length := by
        simp [wantedBytes, hle]
      rw [wantedBytes_cons, hone] at hfit
      -- whether or not a gap is noted, the record fits
      have hstep : ∀ out' : Evidence, out'.rawBytes = out.rawBytes →
          r ∈ (if out'.rawBytes + a.bytes.length > maxBytes then
            { out' with
              capped := true
              nextRecordBytes := some a.bytes.length }
          else takeRecords maxBytes (saturatingSucc a.rxSeq) l
            { out' with
              rawBytes := out'.rawBytes + a.bytes.length
              continuation := some a.cursor
              records := out'.records ++ [a] }).records := by
        intro out' hraw
        rw [if_neg (by rw [hraw]; omega)]
        rcases List.mem_cons.mp hr with rfl | hr
        · exact subset_takeRecords maxBytes l _ _ (by simp)
        · exact ih hl hr _ _ (by dsimp only; rw [hraw]; omega)
      rw [takeRecords]
      split
      · exact hstep { out with gap := true } rfl
      · exact hstep out rfl

theorem rawBytes_reportConflicts (selected : List ReceiveRecord) (out : Evidence) :
    (reportConflicts selected out).rawBytes = out.rawBytes := by
  rw [reportConflicts]
  induction conflicts selected generalizing out with
  | nil => rfl
  | cons p ps ih =>
      rw [List.foldl_cons, ih]
      dsimp only
      split <;> rfl

theorem rawBytes_reportRange (state : Option WriterState) (start : Nat)
    (selected : List ReceiveRecord) (out : Evidence) :
    (reportRange state start selected out).rawBytes = out.rawBytes := by
  rw [reportRange]
  dsimp only
  split <;> rfl

/-- The stages behind the scan leave the budget as the scan left it, and return the record. -/
theorem mem_collect {maxBytes : Nat} {state : Option WriterState} {since : Option Nat}
    {acquired : List ReceiveRecord} {out : Evidence} {r : ReceiveRecord} (hr : r ∈ acquired)
    (hepoch : out.epoch = some r.epoch) (hsince : since.getD 0 < r.rxSeq)
    (hfit : out.rawBytes + wantedBytes (fun a => a.epoch = r.epoch ∧ since.getD 0 < a.rxSeq ∧
      a.rxSeq ≤ r.rxSeq) acquired ≤ maxBytes) :
    r ∈ (collect maxBytes state since acquired out).records := by
  rw [collect]
  rw [(reportGap_extends _).records]
  have hraw : (reportRange state (since.getD 0) (dedup (selectRecords out.epoch acquired))
      (reportConflicts (selectRecords out.epoch acquired) out)).rawBytes = out.rawBytes := by
    rw [rawBytes_reportRange, rawBytes_reportConflicts]
  have hsorted : ((dedup (selectRecords out.epoch acquired)).filter fun a =>
      a.rxSeq > since.getD 0).Pairwise fun a b => a.rxSeq ≤ b.rxSeq :=
    ((pairwise_selectRecords _ _).sublist (dedup_sublist _)).filter _
  refine mem_takeRecords hsorted ?_ _ _ ?_
  · rw [List.mem_filter, mem_dedup, mem_selectRecords, decide_eq_true_iff]
    exact ⟨⟨hr, hepoch.symm⟩, hsince⟩
  · dsimp only
    rw [hraw]
    refine Nat.le_trans (Nat.add_le_add_left ?_ _) hfit
    rw [wantedBytes_filter]
    refine Nat.le_trans (wantedBytes_le_of_sublist (dedup_sublist _)) (Nat.le_of_eq ?_)
    rw [selectRecords, wantedBytes_eq_of_perm (List.perm_insertionSort _ _), wantedBytes_filter]
    congr 1
    funext a
    rw [hepoch, Bool.eq_iff_iff]
    simp only [Bool.and_eq_true, decide_eq_true_eq, Option.some.injEq]
    exact ⟨fun h => ⟨h.2, h.1.2, h.1.1⟩, fun h => ⟨⟨h.2.2, h.2.1⟩, h.1⟩⟩

theorem rawBytes_chooseEpoch (state : Option WriterState) (epoch : Option String) (found : Bool)
    (out : Evidence) : (chooseEpoch state epoch found out).rawBytes = out.rawBytes := by
  have hmissing : ∀ o : Evidence, (reportMissing o).rawBytes = o.rawBytes := fun o => by
    rw [reportMissing]
    split <;> rfl
  have hlimit : ∀ o : Evidence, (limitEpochs o).rawBytes = o.rawBytes := fun o => by
    rw [limitEpochs]
    split <;> rfl
  rw [chooseEpoch, hmissing, hlimit, reportUnavailable]
  split <;> rfl

end Scan

/-! ### The whole read -/

/-- The budget that a read of `epoch` needs to get from `since` to record `n`. -/
def Disk.rawNeeded (c : RecordCodec) (d : Disk) (epoch : String) (since n : Nat) : Nat :=
  (((openedSegments d.segments).flatMap Segment.pieces).map (pieceCost c fun a =>
    a.epoch = epoch ∧ since < a.rxSeq ∧ a.rxSeq ≤ n)).sum

theorem readToEndError_disk (d : Disk) :
    readToEndError d.stateFile ((List.range SEGMENTS).map d.failureFile) = none := by
  have hstate : ∀ e, d.stateFile ≠ .unreadable e := by
    intro e
    rw [Disk.stateFile]
    cases d.checkpoint <;> exact StateFile.noConfusion
  rw [readToEndError, List.findSome?_eq_none_iff]
  · intro f hf
    obtain ⟨i, -, rfl⟩ := List.mem_map.mp hf
    rw [Disk.failureFile]
    cases d.failure i <;> rfl
  · exact hstate

theorem mem_openedSegments {d : Disk} {g : Segment} :
    g ∈ openedSegments d.segments ↔ ∃ i f, i < SEGMENTS ∧ d.slot i = some f ∧
      g = ⟨i, some (d.content f).length, d.content f, none⟩ := by
  have hopened : ∀ i, (∃ f, d.slot i = some f ∧
      g = ⟨i, some (d.content f).length, d.content f, none⟩) ↔ d.segment i = .opened g := by
    intro i
    rw [Disk.segment]
    cases d.slot i with
    | none => simp
    | some f => simp [eq_comm]
  rw [openedSegments, List.mem_filterMap]
  constructor
  · rintro ⟨o, ho, hg⟩
    obtain ⟨i, hi, rfl⟩ := List.mem_map.mp ho
    have hseg : d.segment i = .opened g := by
      cases hd : d.segment i with
      | opened g' =>
          rw [hd] at hg
          cases hg
          rfl
      | missing =>
          rw [hd] at hg
          cases hg
      | failed e =>
          rw [hd] at hg
          cases hg
    obtain ⟨f, hf, hgf⟩ := (hopened i).mpr hseg
    exact ⟨i, f, by simpa using hi, hf, hgf⟩
  · rintro ⟨i, f, hi, hf, hg⟩
    refine ⟨d.segment i, List.mem_map.mpr ⟨i, by simpa using hi, rfl⟩, ?_⟩
    rw [(hopened i).mp ⟨f, hf, hg⟩]

theorem length_openedSegments_le (d : Disk) : (openedSegments d.segments).length ≤ SEGMENTS := by
  refine Nat.le_trans (List.length_filterMap_le _ _) ?_
  rw [Disk.segments, List.length_map, List.length_reverse, List.length_range]

theorem openSegments_segment (d : Disk) (indices : List Nat) (out : Evidence) :
    openSegments (indices.map d.segment) out =
      (openedSegments (indices.map d.segment), out) := by
  induction indices with
  | nil => rfl
  | cons i indices ih =>
      rw [List.map_cons, Disk.segment]
      cases d.slot i with
      | some f =>
          dsimp only
          rw [openSegments, ih]
          rfl
      | none => exact ih

/-- Every vouched record of a directory of whole records and tails is read back. -/
theorem read_holds {c : RecordCodec} (hc : c.Lawful) {d : Disk}
    {records : Segment → List ReceiveRecord} {tails : Segment → List UInt8}
    (hd : ∀ g ∈ openedSegments d.segments, g.Holds c (records g) (tails g))
    (hvalid : ∀ w, d.checkpoint = some w → w.valid = true) {g : Segment}
    (hg : g ∈ openedSegments d.segments) {r : ReceiveRecord} (hr : r ∈ records g)
    (hvouched : notPersisted d.checkpoint r = false) (now : Nat) {q : Query}
    (hq : q.epoch = some r.epoch) (hsince : q.since.getD 0 < r.rxSeq) (hpos : 0 < q.maxBytes)
    (hmax : q.maxBytes ≤ MAX_BYTES)
    (hbudget : d.rawNeeded c r.epoch (q.since.getD 0) r.rxSeq ≤ q.maxBytes) :
    ∃ ev, d.read c now q = .ok ev ∧ r ∈ ev.records := by
  have hstate : ∀ out, ∃ out', readState d.stateFile out = (d.checkpoint, out') ∧
      out'.rawBytes = out.rawBytes ∧ out'.diagnostics.length ≤ out.diagnostics.length + 1 := by
    intro out
    rw [Disk.stateFile]
    cases hckpt : d.checkpoint with
    | none => exact ⟨_, rfl, rfl, by simp [Evidence.warn]⟩
    | some w => exact ⟨out, by rw [readState, if_pos (hvalid w hckpt)], rfl, by omega⟩
  have hopen : ∀ out, openSegments d.segments out = (openedSegments d.segments, out) :=
    fun out => openSegments_segment d _ out
  obtain ⟨out₁, hst, hraw₁, hdiag₁⟩ := hstate { observedAtMs := now }
  rw [Disk.read, read, if_neg (by rw [hq]; simp), if_neg (by omega), readToEndError_disk]
  simp only [hst, hopen]
  refine ⟨_, rfl, ?_⟩
  have hlen := length_openedSegments_le d
  obtain ⟨-, hacq, hcost⟩ := scanSegments_holds hc q.maxBytes d.checkpoint
    (fun a => a.epoch = r.epoch ∧ q.since.getD 0 < a.rxSeq ∧ a.rxSeq ≤ r.rxSeq)
    (openedSegments d.segments) hd ⟨out₁, []⟩ (by
      dsimp only at hdiag₁ ⊢
      rw [SEGMENTS] at hlen
      rw [MAX_DIAGNOSTICS]
      simp only [List.length_nil] at hdiag₁
      omega)
  rw [(extends_reportFailures _ _).records]
  refine mem_collect (hacq g hg r hr hvouched) ?_ hsince ?_
  · rw [(chooseEpoch_spec _ _ _ _).2.2.2.1, hq]
    rfl
  · rw [rawBytes_chooseEpoch]
    refine Nat.le_trans hcost (Nat.le_trans (Nat.le_of_eq ?_) hbudget)
    dsimp only
    rw [hraw₁]
    simp [wantedBytes, Disk.rawNeeded]

end Journal

end Serialcap

end Paniolo
