import Paniolo.Serialcap.Journal.Read

/-!
# Clean reads

A read that reports no gap, is not capped and has nothing pending went through
without a single exception: every piece of every segment was a record that the
checkpoint vouches for, and the records behind the cursor follow each other
without a hole. This module proves that from the code of `read`, stage by
stage; what the pieces are is left to the users of the results.
-/

namespace Paniolo

namespace Serialcap

namespace Journal

variable {c : RecordCodec} {maxBytes : Nat} {state : Option WriterState}

/-! ### Later stages only add reports -/

/-- `b` comes from `a` by reporting more: the result is the same and no flag is taken back. -/
structure Evidence.Extends (a b : Evidence) : Prop where
  records : b.records = a.records
  latest : b.latest = a.latest
  continuation : b.continuation = a.continuation
  epoch : b.epoch = a.epoch
  missing : b.epochMissing = a.epochMissing
  gap : a.gap = true → b.gap = true
  capped : a.capped = true → b.capped = true
  pending : a.capturePending = true → b.capturePending = true

namespace Evidence

theorem Extends.refl (a : Evidence) : Extends a a :=
  ⟨rfl, rfl, rfl, rfl, rfl, id, id, id⟩

theorem Extends.trans {a b d : Evidence} (h : Extends a b) (h' : Extends b d) : Extends a d where
  records := h'.records.trans h.records
  latest := h'.latest.trans h.latest
  continuation := h'.continuation.trans h.continuation
  epoch := h'.epoch.trans h.epoch
  missing := h'.missing.trans h.missing
  gap := h'.gap ∘ h.gap
  capped := h'.capped ∘ h.capped
  pending := h'.pending ∘ h.pending

theorem extends_warn (a : Evidence) (d : Diagnostic) : Extends a (a.warn d) :=
  ⟨rfl, rfl, rfl, rfl, rfl, id, id, id⟩

theorem extends_warnGap (a : Evidence) (d : Diagnostic) : Extends a (a.warnGap d) :=
  ⟨rfl, rfl, rfl, rfl, rfl, fun _ => rfl, id, id⟩

theorem extends_gap (a : Evidence) : Extends a { a with gap := true } :=
  ⟨rfl, rfl, rfl, rfl, rfl, fun _ => rfl, id, id⟩

theorem extends_pending (a : Evidence) : Extends a { a with capturePending := true } :=
  ⟨rfl, rfl, rfl, rfl, rfl, id, id, fun _ => rfl⟩

theorem extends_warnRaw (a : Evidence) (m : Nat) (raw : List UInt8) (d : Diagnostic) :
    Extends a (a.warnRaw m raw d) :=
  ⟨rfl, rfl, rfl, rfl, rfl, id, fun h => by simp [warnRaw, h], id⟩

end Evidence

open Evidence (Extends)

theorem extends_readFailure (epoch : Option String) (s : Evidence × List ReceiveRecord)
    (f : Nat × FailureFile) : Extends s.1 (readFailure c maxBytes epoch s f).1 := by
  rw [readFailure]
  cases f.2 with
  | missing => exact Evidence.Extends.refl _
  | unreadable e => exact Evidence.Extends.refl _
  | failed e => exact Evidence.extends_warnGap _ _
  | bytes content =>
      dsimp only
      split
      · split
        · split <;> exact Evidence.Extends.refl _
        · exact Evidence.extends_warnGap _ _
      · exact (Evidence.extends_gap _).trans (Evidence.extends_warnRaw _ _ _ _)

theorem extends_foldl_readFailure (c : RecordCodec) (maxBytes : Nat) (epoch : Option String)
    (fs : List (Nat × FailureFile)) (s : Evidence × List ReceiveRecord) :
    Extends s.1 (fs.foldl (readFailure c maxBytes epoch) s).1 := by
  induction fs generalizing s with
  | nil => exact Evidence.Extends.refl _
  | cons f fs ih => exact (extends_readFailure epoch s f).trans (ih _)

theorem extends_foldl_reportFailed (failed : List ReceiveRecord) (out : Evidence) :
    Extends out (failed.foldl (reportFailed maxBytes) out) := by
  induction failed generalizing out with
  | nil => exact Evidence.Extends.refl _
  | cons r failed ih =>
      have hone : Extends out (reportFailed maxBytes out r) :=
        (Evidence.extends_gap _).trans (Evidence.extends_warnRaw _ _ _ _)
      exact hone.trans (ih _)

theorem extends_reportError (w : WriterState) (out : Evidence) :
    Extends out (reportError w out) := by
  rw [reportError]
  cases w.error with
  | none => exact Evidence.Extends.refl _
  | some e => exact Evidence.extends_warnGap _ _

theorem extends_reportBehind (w : WriterState) (out : Evidence) :
    Extends out (reportBehind w out) := by
  rw [reportBehind]
  cases w.lastReceived with
  | none => exact Evidence.Extends.refl _
  | some last =>
      dsimp only
      split
      · exact (Evidence.extends_pending _).trans (Evidence.extends_warn _ _)
      · exact Evidence.Extends.refl _

theorem extends_reportWriter (failed : List ReceiveRecord) (out : Evidence) :
    Extends out (reportWriter state failed out).1 := by
  cases state with
  | none => exact Evidence.Extends.refl _
  | some w => exact (extends_reportError w out).trans (extends_reportBehind w _)

/-- The writer is behind its own checkpoint: the read says that something is pending. -/
theorem pending_of_reportWriter {w : WriterState} {last : Cursor} {failed : List ReceiveRecord}
    {out : Evidence} (hlast : w.lastReceived = some last) (hepoch : some last.epoch = out.epoch)
    (hbehind : ∀ cur, out.latest = some cur → cur.rxSeq < last.rxSeq) :
    (reportWriter (some w) failed out).1.capturePending = true := by
  have herr := extends_reportError w out
  have hlatest : ((reportError w out).latest.all fun cur => decide (cur.rxSeq < last.rxSeq)) =
      true := by
    rw [herr.latest]
    cases hl : out.latest with
    | none => rfl
    | some cur => simpa using hbehind cur hl
  simp only [reportWriter, reportBehind, hlast]
  rw [if_pos (by simp [herr.epoch, hepoch, hlatest])]
  rfl

theorem extends_reportFailures (failures : List FailureFile) (out : Evidence) :
    Extends out (reportFailures c maxBytes state failures out) := by
  have hfold := extends_foldl_readFailure c maxBytes out.epoch
    (failures.zipIdx.map Prod.swap) (out, [])
  rw [reportFailures]
  generalize (failures.zipIdx.map Prod.swap).foldl (readFailure c maxBytes out.epoch) (out, []) = t
    at hfold
  exact hfold.trans ((extends_reportWriter t.2 t.1).trans (extends_foldl_reportFailed _ _))

/-- A write error in the checkpoint makes a gap. -/
theorem gap_of_error {w : WriterState} {failures : List FailureFile} {out : Evidence}
    (herr : w.error ≠ none) :
    (reportFailures c maxBytes (some w) failures out).gap = true := by
  rw [reportFailures]
  generalize (failures.zipIdx.map Prod.swap).foldl (readFailure c maxBytes out.epoch) (out, []) = t
  obtain ⟨e, he⟩ := Option.ne_none_iff_exists'.mp herr
  have hgap : (reportWriter (some w) t.2 t.1).1.gap = true := by
    rw [reportWriter]
    refine (extends_reportBehind w _).gap ?_
    rw [reportError, he]
    rfl
  exact (extends_foldl_reportFailed _ _).gap hgap

/-- With nothing pending at the end, the records found reach the received cursor. -/
theorem caught_up_reportFailures {w : WriterState} {last : Cursor} {failures : List FailureFile}
    {out : Evidence} (hlast : w.lastReceived = some last) (hepoch : out.epoch = some last.epoch)
    (h : (reportFailures c maxBytes (some w) failures out).capturePending = false) :
    ∃ cur, out.latest = some cur ∧ last.rxSeq ≤ cur.rxSeq := by
  by_contra hnone
  have hfold := extends_foldl_readFailure c maxBytes out.epoch
    (failures.zipIdx.map Prod.swap) (out, [])
  rw [reportFailures] at h
  generalize (failures.zipIdx.map Prod.swap).foldl (readFailure c maxBytes out.epoch) (out, []) = t
    at hfold h
  have hpending : (reportWriter (some w) t.2 t.1).1.capturePending = true := by
    refine pending_of_reportWriter hlast ?_ fun cur hcur => ?_
    · rw [hfold.epoch]
      exact hepoch.symm
    · rw [hfold.latest] at hcur
      exact Nat.lt_of_not_le fun hle => hnone ⟨cur, hcur, hle⟩
  rw [(extends_foldl_reportFailed _ _).pending hpending] at h
  cases h

/-! ### The scan -/

section

variable (c : RecordCodec) (maxBytes : Nat) (state : Option WriterState)

/-- The record a piece of a segment holds. -/
def pieceRecord (c : RecordCodec) (p : List UInt8) : Option ReceiveRecord :=
  match c.decode p with
  | .ok r => if r.valid then some r else none
  | .error _ => none

/-- A piece that is taken as a record which the checkpoint vouches for. -/
def Vouched (c : RecordCodec) (state : Option WriterState) (p : List UInt8) : Prop :=
  ∃ r, pieceRecord c p = some r ∧ notPersisted state r = false

/-- A piece that is not the unfinished end of the active segment; after a write error, the end
counts like any other piece. -/
def Committed (state : Option WriterState) (index : Nat) (p : List UInt8) : Prop :=
  index = 0 → p.getLast? ≠ some newline → ∃ w, state = some w ∧ w.error ≠ none

theorem gap_corruptRecord {index offset : Nat} {bytes : List UInt8} {message : String} {s : Scan} :
    (corruptRecord maxBytes index offset bytes message s).1.out.gap = true := by
  rw [corruptRecord]
  split <;> rfl

/-- What one piece can do: raise a flag, or be acquired as a record. -/
theorem scanLine_cases (index offset : Nat) (bytes : List UInt8) (s : Scan) :
    (scanLine c maxBytes state index offset bytes s).1.out.gap = true ∨
      (scanLine c maxBytes state index offset bytes s).1.out.capturePending = true ∨
      ∃ r, pieceRecord c bytes = some r ∧ notPersisted state r = false ∧
        Committed state index bytes ∧
        scanLine c maxBytes state index offset bytes s = (acquire s r, .continue) := by
  rw [scanLine]
  split
  · exact Or.inr (Or.inl rfl)
  · rename_i hend
    have hcommitted : Committed state index bytes := by
      intro hindex hlast
      cases state with
      | none => exact absurd (by simp [hindex, hlast]) hend
      | some w => exact ⟨w, rfl, fun herr => hend (by simp [hindex, hlast, herr])⟩
    cases hd : c.decode bytes with
    | error e => exact Or.inl (gap_corruptRecord maxBytes)
    | ok r =>
        dsimp only
        split
        · rename_i hvalid
          split
          · exact Or.inr (Or.inl rfl)
          · rename_i hvouched
            refine Or.inr (Or.inr ⟨r, ?_, by simpa using hvouched, hcommitted, rfl⟩)
            simp [pieceRecord, hd, hvalid]
        · exact Or.inl (gap_corruptRecord maxBytes)

theorem extends_acquire (s : Scan) (r : ReceiveRecord) : Extends s.out (acquire s r).out := by
  rw [acquire]
  dsimp only
  split
  · exact Evidence.Extends.refl _
  · exact ⟨rfl, rfl, rfl, rfl, rfl, id, id, id⟩

theorem extends_corruptRecord {index offset : Nat} {bytes : List UInt8} {message : String}
    {s : Scan} :
    Extends s.out (corruptRecord maxBytes index offset bytes message s).1.out := by
  have hraw : Extends s.out ({ s.out with gap := true }.warnRaw maxBytes bytes
      { diagnostic .corruptRecord message with
        segment := some (segmentName index)
        offset := some offset }) :=
    (Evidence.extends_gap _).trans (Evidence.extends_warnRaw _ _ _ _)
  rw [corruptRecord]
  dsimp only
  split
  · exact hraw.trans (Evidence.extends_warn _ _)
  · exact hraw

theorem extends_scanLine (index offset : Nat) (bytes : List UInt8) (s : Scan) :
    Extends s.out (scanLine c maxBytes state index offset bytes s).1.out := by
  rw [scanLine]
  split
  · exact (Evidence.extends_pending _).trans (Evidence.extends_warnRaw _ _ _ _)
  · cases c.decode bytes with
    | error e => exact extends_corruptRecord maxBytes
    | ok r =>
        dsimp only
        split
        · split
          · exact Evidence.extends_pending _
          · exact extends_acquire s r
        · exact extends_corruptRecord maxBytes

theorem extends_scanLines (index : Nat) (ps : List (List UInt8)) :
    ∀ (offset : Nat) (s : Scan),
      Extends s.out (scanLines c maxBytes state index offset ps s).1.out := by
  induction ps with
  | nil => exact fun _ s => Evidence.Extends.refl s.out
  | cons p ps ih =>
      intro offset s
      have hone := extends_scanLine c maxBytes state index offset p s
      rw [scanLines]
      generalize scanLine c maxBytes state index offset p s = t at hone
      obtain ⟨t, flow⟩ := t
      cases flow with
      | «continue» => exact hone.trans (ih _ t)
      | endFile => exact hone
      | endAll => exact hone

/-- The listed epochs are those of the acquired records. -/
def EpochsAcquired (s : Scan) : Prop :=
  ∀ e ∈ s.out.availableEpochs, ∃ r ∈ s.acquired, r.epoch = e

theorem epochsAcquired_acquire {s : Scan} (h : EpochsAcquired s) (r : ReceiveRecord) :
    EpochsAcquired (acquire s r) := by
  intro e he
  have hcases : e ∈ s.out.availableEpochs ∨ e = r.epoch := by
    simp only [acquire] at he
    split at he
    · exact Or.inl he
    · simpa using he
  rcases hcases with hold | rfl
  · obtain ⟨q, hq, heq⟩ := h e hold
    exact ⟨q, List.mem_append_left _ hq, heq⟩
  · exact ⟨r, List.mem_append_right _ (List.mem_singleton_self r), rfl⟩

/-- What a scan did that raised no flag. -/
structure CleanScan (c : RecordCodec) (state : Option WriterState) (ps : List (List UInt8))
    (s s' : Scan) : Prop where
  vouched : ∀ p ∈ ps, Vouched c state p
  acquired : s'.acquired = s.acquired ++ ps.filterMap (pieceRecord c)
  epochs : EpochsAcquired s → EpochsAcquired s'

/-- A flag raised by a piece stays raised to the end of the segment. -/
theorem flag_scanLines (index : Nat) (ps : List (List UInt8)) (offset : Nat) (s : Scan)
    (h : s.out.gap = true ∨ s.out.capturePending = true) :
    (scanLines c maxBytes state index offset ps s).1.out.gap = true ∨
      (scanLines c maxBytes state index offset ps s).1.out.capturePending = true :=
  h.imp (extends_scanLines c maxBytes state index ps offset s).gap
    (extends_scanLines c maxBytes state index ps offset s).pending

theorem scanLines_clean (index : Nat) (ps : List (List UInt8)) :
    ∀ (offset : Nat) (s : Scan),
      ¬((scanLines c maxBytes state index offset ps s).1.out.gap = true ∨
        (scanLines c maxBytes state index offset ps s).1.out.capturePending = true) →
      (scanLines c maxBytes state index offset ps s).2 = false ∧
        (∀ p ∈ ps, Committed state index p) ∧
        CleanScan c state ps s (scanLines c maxBytes state index offset ps s).1 := by
  induction ps with
  | nil =>
      intro offset s _
      exact ⟨rfl, by simp, by simp, by simp [scanLines], id⟩
  | cons p ps ih =>
      intro offset s hclean
      rcases or_assoc.mpr (scanLine_cases c maxBytes state index offset p s) with
        hflag | ⟨r, hr, hvouched, hcommitted, hline⟩
      · -- the flag is still there at the end, whether or not the segment goes on
        exfalso
        apply hclean
        rw [scanLines]
        generalize scanLine c maxBytes state index offset p s = t at hflag
        obtain ⟨t, flow⟩ := t
        cases flow with
        | «continue» => exact flag_scanLines c maxBytes state index ps _ t hflag
        | endFile => exact hflag
        | endAll => exact hflag
      · rw [scanLines, hline] at hclean ⊢
        obtain ⟨hend, hrest, hscan⟩ := ih (offset + p.length) (acquire s r) hclean
        refine ⟨hend, ?_, ?_, ?_, ?_⟩
        · intro q hq
          rcases List.mem_cons.mp hq with rfl | hq
          · exact hcommitted
          · exact hrest q hq
        · intro q hq
          rcases List.mem_cons.mp hq with rfl | hq
          · exact ⟨r, hr, hvouched⟩
          · exact hscan.vouched q hq
        · rw [hscan.acquired, List.filterMap_cons, hr]
          simp [acquire]
        · exact fun he => hscan.epochs (epochsAcquired_acquire he r)

theorem extends_checkLen (f : Segment) (out : Evidence) : Extends out (checkLen f out) := by
  rw [checkLen]
  split
  · exact Evidence.extends_warnGap _ _
  · exact Evidence.Extends.refl _

theorem extends_reportReadError (f : Segment) (out : Evidence) :
    Extends out (reportReadError f out) := by
  rw [reportReadError]
  cases f.readError with
  | none => exact Evidence.Extends.refl _
  | some e => exact Evidence.extends_warnGap _ _

theorem extends_scanSegment (f : Segment) (s : Scan) :
    Extends s.out (scanSegment c maxBytes state f s).1.out := by
  have hlines := extends_scanLines c maxBytes state f.index f.pieces 0
    { s with out := checkLen f s.out }
  refine (extends_checkLen f s.out).trans ?_
  rw [scanSegment]
  generalize scanLines c maxBytes state f.index 0 f.pieces { s with out := checkLen f s.out } = t
    at hlines
  obtain ⟨t, b⟩ := t
  cases b with
  | true => exact hlines
  | false => exact hlines.trans (extends_reportReadError f t.out)

/-- A segment that raised no flag was read to its end, and was not longer than the scan. -/
theorem scanSegment_clean (f : Segment) (s : Scan)
    (hclean : ¬((scanSegment c maxBytes state f s).1.out.gap = true ∨
      (scanSegment c maxBytes state f s).1.out.capturePending = true)) :
    (scanSegment c maxBytes state f s).2 = false ∧ f.readError = none ∧
      (∃ n, f.len = some n ∧ n ≤ SCAN_SEGMENT_BYTES) ∧
      (∀ p ∈ f.pieces, Committed state f.index p) ∧
      CleanScan c state f.pieces s (scanSegment c maxBytes state f s).1 := by
  have hlines := scanLines_clean c maxBytes state f.index f.pieces 0
    { s with out := checkLen f s.out }
  have hext := extends_scanLines c maxBytes state f.index f.pieces 0
    { s with out := checkLen f s.out }
  have hlen : f.len.all (fun n => decide (n > SCAN_SEGMENT_BYTES)) = false ∨
      (checkLen f s.out).gap = true := by
    rw [checkLen]
    cases f.len.all fun n => decide (n > SCAN_SEGMENT_BYTES) with
    | false => exact Or.inl rfl
    | true => exact Or.inr rfl
  rw [scanSegment] at hclean ⊢
  generalize scanLines c maxBytes state f.index 0 f.pieces { s with out := checkLen f s.out } = t
    at hlines hext hclean
  obtain ⟨t, b⟩ := t
  cases b with
  | true => exact absurd (hlines hclean).1 (by simp)
  | false =>
      dsimp only at hlines hext hclean ⊢
      have herr : f.readError = none := by
        cases he : f.readError with
        | none => rfl
        | some e => exact absurd (Or.inl (by simp [reportReadError, he, Evidence.warnGap])) hclean
      have hsame : reportReadError f t.out = t.out := by simp [reportReadError, herr]
      rw [hsame] at hclean ⊢
      obtain ⟨-, hcommitted, hscan⟩ := hlines hclean
      refine ⟨rfl, herr, ?_, hcommitted, ⟨hscan.vouched, hscan.acquired, ?_⟩⟩
      · rcases hlen with hlen | hgap
        · cases hf : f.len with
          | none => simp [hf] at hlen
          | some n => exact ⟨n, rfl, by simpa [hf] using hlen⟩
        · exact absurd (Or.inl (hext.gap hgap)) hclean
      · intro he
        refine hscan.epochs ?_
        have hsame' : (checkLen f s.out).availableEpochs = s.out.availableEpochs := by
          rw [checkLen]
          split <;> rfl
        intro e hmem
        exact he e (hsame' ▸ hmem)

theorem extends_scanSegments (fs : List Segment) :
    ∀ s : Scan, Extends s.out (scanSegments c maxBytes state fs s).out := by
  induction fs with
  | nil => exact fun s => Evidence.Extends.refl s.out
  | cons f fs ih =>
      intro s
      have hone := extends_scanSegment c maxBytes state f s
      rw [scanSegments]
      generalize scanSegment c maxBytes state f s = t at hone
      obtain ⟨t, b⟩ := t
      cases b with
      | true => exact hone
      | false => exact hone.trans (ih t)

/-- A scan that raised no flag: every segment was read to its end, and every piece of every
segment is a record that the checkpoint vouches for. -/
theorem scanSegments_clean (fs : List Segment) :
    ∀ s : Scan,
      ¬((scanSegments c maxBytes state fs s).out.gap = true ∨
        (scanSegments c maxBytes state fs s).out.capturePending = true) →
      (∀ f ∈ fs, f.readError = none ∧ (∃ n, f.len = some n ∧ n ≤ SCAN_SEGMENT_BYTES) ∧
          ∀ p ∈ f.pieces, Committed state f.index p) ∧
        CleanScan c state (fs.flatMap Segment.pieces) s (scanSegments c maxBytes state fs s) := by
  induction fs with
  | nil =>
      intro s _
      exact ⟨by simp, by simp, by simp [scanSegments], id⟩
  | cons f fs ih =>
      intro s hclean
      have hone := scanSegment_clean c maxBytes state f s
      rw [scanSegments] at hclean ⊢
      generalize scanSegment c maxBytes state f s = t at hone hclean
      obtain ⟨t, b⟩ := t
      cases b with
      | true => exact absurd (hone hclean).1 (by simp)
      | false =>
          have hext := extends_scanSegments c maxBytes state fs t
          obtain ⟨-, herr, hlen, hcommitted, hscan⟩ := hone fun h => hclean (h.imp hext.gap hext.pending)
          obtain ⟨hrest, hscan'⟩ := ih t hclean
          refine ⟨?_, ?_, ?_, fun he => hscan'.epochs (hscan.epochs he)⟩
          · intro g hg
            rcases List.mem_cons.mp hg with rfl | hg
            · exact ⟨herr, hlen, hcommitted⟩
            · exact hrest g hg
          · intro p hp
            rw [List.flatMap_cons] at hp
            rcases List.mem_append.mp hp with hp | hp
            · exact hscan.vouched p hp
            · exact hscan'.vouched p hp
          · rw [hscan'.acquired, hscan.acquired, List.flatMap_cons, List.filterMap_append,
              List.append_assoc]

end

end Journal

end Serialcap

end Paniolo
