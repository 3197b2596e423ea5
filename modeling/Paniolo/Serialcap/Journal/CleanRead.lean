import Paniolo.Serialcap.Journal.Clean

/-!
# What a clean read returns

The stages behind the scan, and the result of a whole `read` without a gap, a
cap or anything pending: `read_clean`. The records it returns are those of the
scan that belong to the epoch and lie behind the cursor, each exactly one
sequence number after the one before.
-/

namespace Paniolo

namespace Serialcap

namespace Journal

open Evidence (Extends)

/-! ### Selection -/

theorem mem_dedup {l : List ReceiveRecord} {r : ReceiveRecord} : r ∈ dedup l ↔ r ∈ l := by
  fun_induction dedup l with
  | case1 => rfl
  | case2 q => rfl
  | case3 q rest ih =>
      rw [ih]
      simp
  | case4 a q rest _ ih => rw [List.mem_cons, ih, List.mem_cons (a := r) (b := a)]

theorem dedup_sublist (l : List ReceiveRecord) : (dedup l).Sublist l := by
  fun_induction dedup l with
  | case1 => exact List.Sublist.refl _
  | case2 q => exact List.Sublist.refl _
  | case3 q rest ih => exact ih.cons q
  | case4 a q rest _ ih => exact ih.cons_cons a

/-- Without conflicts, what is left after removing repetitions has every cursor once. -/
theorem pairwise_dedup {l : List ReceiveRecord} (hsorted : l.Pairwise fun a b => a.rxSeq ≤ b.rxSeq)
    (hconf : conflicts l = []) : (dedup l).Pairwise fun a b => a.rxSeq < b.rxSeq := by
  fun_induction dedup l with
  | case1 => exact List.Pairwise.nil
  | case2 q => exact List.pairwise_singleton _ _
  | case3 q rest ih =>
      rw [conflicts, if_neg fun h => h.2 rfl] at hconf
      exact ih (List.pairwise_cons.mp hsorted).2 hconf
  | case4 a q rest hne ih =>
      obtain ⟨ha, hrest⟩ := List.pairwise_cons.mp hsorted
      have hlt : a.rxSeq < q.rxSeq := by
        rcases Nat.lt_or_eq_of_le (ha q (by simp)) with hlt | heq
        · exact hlt
        · rw [conflicts, if_pos ⟨heq, hne⟩] at hconf
          cases hconf
      have hconf' : conflicts (q :: rest) = [] := by
        rwa [conflicts, if_neg fun h => absurd h.1 (Nat.ne_of_lt hlt)] at hconf
      refine List.pairwise_cons.mpr ⟨fun b hb => ?_, ih hrest hconf'⟩
      rcases List.mem_cons.mp (mem_dedup.mp hb) with rfl | hb
      · exact hlt
      · exact lt_of_lt_of_le hlt ((List.pairwise_cons.mp hrest).1 b hb)

theorem mem_selectRecords {epoch : Option String} {acquired : List ReceiveRecord}
    {r : ReceiveRecord} :
    r ∈ selectRecords epoch acquired ↔ r ∈ acquired ∧ some r.epoch = epoch := by
  rw [selectRecords, List.mem_insertionSort, List.mem_filter, decide_eq_true_iff]

theorem pairwise_selectRecords (epoch : Option String) (acquired : List ReceiveRecord) :
    (selectRecords epoch acquired).Pairwise fun a b => a.rxSeq ≤ b.rxSeq := by
  have htotal : Std.Total fun a b : ReceiveRecord => a.rxSeq ≤ b.rxSeq :=
    ⟨fun a b => Nat.le_total a.rxSeq b.rxSeq⟩
  have htrans : IsTrans ReceiveRecord fun a b => a.rxSeq ≤ b.rxSeq :=
    ⟨fun _ _ _ => Nat.le_trans⟩
  exact List.pairwise_insertionSort _ _

theorem reportConflicts_extends (selected : List ReceiveRecord) (out : Evidence) :
    Extends out (reportConflicts selected out) := by
  rw [reportConflicts]
  induction conflicts selected generalizing out with
  | nil => exact Evidence.Extends.refl _
  | cons p ps ih =>
      refine Evidence.Extends.trans ?_ (ih _)
      dsimp only
      split
      · exact (Evidence.extends_gap _).trans (Evidence.extends_warn _ _)
      · exact Evidence.extends_gap _

theorem conflicts_eq_nil {selected : List ReceiveRecord} {out : Evidence}
    (h : (reportConflicts selected out).gap = false) : conflicts selected = [] := by
  rw [reportConflicts] at h
  cases hc : conflicts selected with
  | nil => rfl
  | cons p ps =>
      rw [hc, List.foldl_cons] at h
      exfalso
      -- the flag raised for the first conflict is still there after the others
      have hkeep : ∀ (ps : List (ReceiveRecord × ReceiveRecord)) (out : Evidence),
          out.gap = true → (ps.foldl (fun out _ =>
            let out := { out with gap := true }
            if out.diagnostics.length < MAX_DIAGNOSTICS then
              out.warn (diagnostic .conflictingCursor
                "different records share an epoch/RX sequence")
            else out) out).gap = true := by
        intro ps
        induction ps with
        | nil => exact fun _ h => h
        | cons q qs ih =>
            intro out _
            refine ih _ ?_
            dsimp only
            split <;> rfl
      rw [hkeep ps _ (by dsimp only; split <;> rfl)] at h
      cases h

/-! ### The records behind the cursor -/

/-- Every record is one sequence number behind the one before. -/
def Consecutive : Nat → List ReceiveRecord → Prop
  | _, [] => True
  | expected, r :: rest => r.rxSeq = expected ∧ Consecutive (saturatingSucc r.rxSeq) rest

theorem Consecutive.exists_mem {expected n : Nat} {l : List ReceiveRecord}
    (h : Consecutive expected l) {r : ReceiveRecord} (hr : r ∈ l) (hlow : expected ≤ n)
    (hhigh : n ≤ r.rxSeq) : ∃ q ∈ l, q.rxSeq = n := by
  induction l generalizing expected with
  | nil => cases hr
  | cons a l ih =>
      obtain ⟨ha, hl⟩ := h
      rcases Nat.lt_or_eq_of_le hlow with hlt | rfl
      · have hmem : r ∈ l := by
          rcases List.mem_cons.mp hr with rfl | hmem
          · omega
          · exact hmem
        have hle := r.rxSeq_le
        obtain ⟨q, hq, heq⟩ := ih hl hmem (by rw [saturatingSucc]; omega)
        exact ⟨q, List.mem_cons_of_mem a hq, heq⟩
      · exact ⟨a, by simp, ha⟩

theorem takeRecords_extends (maxBytes : Nat) (l : List ReceiveRecord) :
    ∀ (expected : Nat) (out : Evidence),
      (out.gap = true → (takeRecords maxBytes expected l out).gap = true) ∧
      (takeRecords maxBytes expected l out).latest = out.latest ∧
      (takeRecords maxBytes expected l out).epoch = out.epoch ∧
      (takeRecords maxBytes expected l out).epochMissing = out.epochMissing ∧
      (takeRecords maxBytes expected l out).capturePending = out.capturePending := by
  induction l with
  | nil => exact fun _ out => ⟨id, rfl, rfl, rfl, rfl⟩
  | cons r l ih =>
      intro expected out
      rw [takeRecords]
      by_cases hexp : r.rxSeq ≠ expected
      · rw [if_pos hexp]
        dsimp only
        split
        · exact ⟨fun _ => rfl, rfl, rfl, rfl, rfl⟩
        · obtain ⟨hgap, hrest⟩ := ih (saturatingSucc r.rxSeq)
            { out with
              gap := true
              rawBytes := out.rawBytes + r.bytes.length
              continuation := some r.cursor
              records := out.records ++ [r] }
          exact ⟨fun _ => hgap rfl, hrest⟩
      · rw [if_neg hexp]
        split
        · exact ⟨id, rfl, rfl, rfl, rfl⟩
        · exact ih (saturatingSucc r.rxSeq)
            { out with
              rawBytes := out.rawBytes + r.bytes.length
              continuation := some r.cursor
              records := out.records ++ [r] }

theorem takeRecords_clean {maxBytes : Nat} {l : List ReceiveRecord} :
    ∀ {expected : Nat} {out : Evidence},
      (takeRecords maxBytes expected l out).gap = false →
      (takeRecords maxBytes expected l out).capped = false →
      Consecutive expected l ∧
        (takeRecords maxBytes expected l out).records = out.records ++ l ∧
        (takeRecords maxBytes expected l out).continuation =
          (l.getLast?.map ReceiveRecord.cursor <|> out.continuation) := by
  induction l with
  | nil => exact fun _ _ => ⟨trivial, by simp [takeRecords], by simp [takeRecords]⟩
  | cons r l ih =>
      intro expected out hgap hcapped
      rw [takeRecords] at hgap hcapped ⊢
      by_cases hexp : r.rxSeq ≠ expected
      · -- a record out of sequence leaves its flag behind
        rw [if_pos hexp] at hgap
        dsimp only at hgap
        split at hgap
        · cases hgap
        · rw [(takeRecords_extends maxBytes l _ _).1 rfl] at hgap
          cases hgap
      · rw [if_neg hexp] at hgap hcapped ⊢
        split at hcapped
        · cases hcapped
        · rename_i hfits
          rw [if_neg hfits] at hgap ⊢
          obtain ⟨hcons, hrec, hcont⟩ := ih hgap hcapped
          refine ⟨⟨not_ne_iff.mp hexp, hcons⟩, by rw [hrec]; simp, ?_⟩
          rw [hcont]
          cases l with
          | nil => rfl
          | cons q l =>
              rw [List.getLast?_cons_cons, List.getLast?_cons]
              rfl

theorem reportGap_extends (out : Evidence) : Extends out (reportGap out) := by
  rw [reportGap]
  split
  · exact Evidence.extends_warn _ _
  · exact Evidence.Extends.refl _

theorem gap_reportGap (out : Evidence) : (reportGap out).gap = out.gap := by
  rw [reportGap]
  split <;> rfl

theorem capped_reportGap (out : Evidence) : (reportGap out).capped = out.capped := by
  rw [reportGap]
  split <;> rfl

/-- What the range report leaves alone, and the ends it notes. -/
theorem reportRange_spec (state : Option WriterState) (start : Nat)
    (selected : List ReceiveRecord) (out : Evidence) :
    (reportRange state start selected out).records = out.records ∧
      (reportRange state start selected out).epoch = out.epoch ∧
      (reportRange state start selected out).epochMissing = out.epochMissing ∧
      (reportRange state start selected out).capturePending = out.capturePending ∧
      (reportRange state start selected out).latest =
        selected.getLast?.map ReceiveRecord.cursor ∧
      (out.gap = true → (reportRange state start selected out).gap = true) := by
  rw [reportRange]
  dsimp only
  split
  · exact ⟨rfl, rfl, rfl, rfl, rfl, fun _ => rfl⟩
  · exact ⟨rfl, rfl, rfl, rfl, rfl, id⟩

theorem collect_extends (maxBytes : Nat) (state : Option WriterState) (since : Option Nat)
    (acquired : List ReceiveRecord) (out : Evidence) :
    (out.gap = true → (collect maxBytes state since acquired out).gap = true) ∧
      (collect maxBytes state since acquired out).epoch = out.epoch ∧
      (collect maxBytes state since acquired out).epochMissing = out.epochMissing ∧
      (out.capturePending = true →
        (collect maxBytes state since acquired out).capturePending = true) := by
  have hconf := reportConflicts_extends (selectRecords out.epoch acquired) out
  rw [collect]
  obtain ⟨-, hepoch, hmissing, hpending, -, hgap⟩ := reportRange_spec state (since.getD 0)
    (dedup (selectRecords out.epoch acquired))
    (reportConflicts (selectRecords out.epoch acquired) out)
  generalize reportRange state (since.getD 0) (dedup (selectRecords out.epoch acquired))
    (reportConflicts (selectRecords out.epoch acquired) out) = b at hepoch hmissing hpending hgap
  obtain ⟨tgap, -, tepoch, tmissing, tpending⟩ := takeRecords_extends maxBytes
    ((dedup (selectRecords out.epoch acquired)).filter fun r => r.rxSeq > since.getD 0)
    (saturatingSucc (since.getD 0))
    { b with continuation := b.epoch.map fun e => ⟨e, since.getD 0⟩ }
  have hext := reportGap_extends (takeRecords maxBytes (saturatingSucc (since.getD 0))
    ((dedup (selectRecords out.epoch acquired)).filter fun r => r.rxSeq > since.getD 0)
    { b with continuation := b.epoch.map fun e => ⟨e, since.getD 0⟩ })
  refine ⟨fun h => hext.gap (tgap (hgap (hconf.gap h))), ?_, ?_, fun h => hext.pending ?_⟩
  · rw [hext.epoch, tepoch, hepoch, hconf.epoch]
  · rw [hext.missing, tmissing, hmissing, hconf.missing]
  · rw [tpending, hpending]
    exact hconf.pending h

/-- The selection as a whole: a clean one has each cursor once and returns, in order, everything
behind the requested cursor. -/
theorem collect_clean (maxBytes : Nat) (state : Option WriterState) (since : Option Nat)
    (acquired : List ReceiveRecord) {out : Evidence} (hrecords : out.records = [])
    (hgap : (collect maxBytes state since acquired out).gap = false)
    (hcapped : (collect maxBytes state since acquired out).capped = false) :
    ∃ selected : List ReceiveRecord,
      (∀ r, r ∈ selected ↔ r ∈ acquired ∧ some r.epoch = out.epoch) ∧
      (selected.Pairwise fun a b => a.rxSeq < b.rxSeq) ∧
      Consecutive (saturatingSucc (since.getD 0))
        (selected.filter fun r => r.rxSeq > since.getD 0) ∧
      (collect maxBytes state since acquired out).records =
        (selected.filter fun r => r.rxSeq > since.getD 0) ∧
      (collect maxBytes state since acquired out).latest =
        selected.getLast?.map ReceiveRecord.cursor ∧
      (collect maxBytes state since acquired out).continuation =
        ((selected.filter fun r => r.rxSeq > since.getD 0).getLast?.map ReceiveRecord.cursor <|>
          out.epoch.map fun e => ⟨e, since.getD 0⟩) := by
  have hconf := reportConflicts_extends (selectRecords out.epoch acquired) out
  rw [collect] at hgap hcapped ⊢
  obtain ⟨hrec, hepoch, -, -, hlatest, hkeep⟩ := reportRange_spec state (since.getD 0)
    (dedup (selectRecords out.epoch acquired))
    (reportConflicts (selectRecords out.epoch acquired) out)
  generalize reportRange state (since.getD 0) (dedup (selectRecords out.epoch acquired))
    (reportConflicts (selectRecords out.epoch acquired) out) = b at *
  rw [gap_reportGap] at hgap
  rw [capped_reportGap] at hcapped
  obtain ⟨tgap, tlatest, -⟩ := takeRecords_extends maxBytes
    ((dedup (selectRecords out.epoch acquired)).filter fun r => r.rxSeq > since.getD 0)
    (saturatingSucc (since.getD 0))
    { b with continuation := b.epoch.map fun e => ⟨e, since.getD 0⟩ }
  obtain ⟨hcons, trec, tcont⟩ := takeRecords_clean hgap hcapped
  have hext := reportGap_extends (takeRecords maxBytes (saturatingSucc (since.getD 0))
    ((dedup (selectRecords out.epoch acquired)).filter fun r => r.rxSeq > since.getD 0)
    { b with continuation := b.epoch.map fun e => ⟨e, since.getD 0⟩ })
  have hnogap : (reportConflicts (selectRecords out.epoch acquired) out).gap = false := by
    refine Bool.eq_false_iff.mpr fun h => ?_
    rw [tgap (hkeep h)] at hgap
    cases hgap
  refine ⟨dedup (selectRecords out.epoch acquired), fun r => ?_, ?_, hcons, ?_, ?_, ?_⟩
  · rw [mem_dedup, mem_selectRecords]
  · exact pairwise_dedup (pairwise_selectRecords _ _) (conflicts_eq_nil hnogap)
  · rw [hext.records, trec, hrec, hconf.records, hrecords, List.nil_append]
  · rw [hext.latest, tlatest, hlatest]
  · rw [hext.continuation, tcont, hepoch, hconf.epoch]

/-! ### The other stages -/

/-- The checkpoint that a read goes by. -/
def checkpointOf : StateFile → Option WriterState
  | .parsed w => if w.valid then some w else none
  | _ => none

theorem readState_fst (file : StateFile) (out : Evidence) :
    (readState file out).1 = checkpointOf file := by
  cases file with
  | parsed w =>
      rw [readState, checkpointOf]
      split <;> rfl
  | unavailable e => rfl
  | unreadable e => rfl
  | corrupt e => rfl

theorem readState_snd (file : StateFile) (out : Evidence) :
    Extends out (readState file out).2 ∧
      (readState file out).2.availableEpochs = out.availableEpochs := by
  cases file with
  | parsed w =>
      rw [readState]
      split
      · exact ⟨Evidence.Extends.refl _, rfl⟩
      · exact ⟨Evidence.extends_warnGap _ _, rfl⟩
  | unavailable e => exact ⟨Evidence.extends_warn _ _, rfl⟩
  | unreadable e => exact ⟨Evidence.Extends.refl _, rfl⟩
  | corrupt e => exact ⟨Evidence.extends_warnGap _ _, rfl⟩

/-- The segments that could be opened. -/
def openedSegments (segments : List OpenedSegment) : List Segment :=
  segments.filterMap fun s =>
    match s with
    | .opened f => some f
    | _ => none

theorem openSegments_fst (segments : List OpenedSegment) (out : Evidence) :
    (openSegments segments out).1 = openedSegments segments := by
  induction segments generalizing out with
  | nil => rfl
  | cons s segments ih =>
      cases s with
      | opened f =>
          rw [openSegments, openedSegments, List.filterMap_cons]
          exact congrArg (f :: ·) (ih out)
      | missing =>
          rw [openSegments, openedSegments, List.filterMap_cons]
          exact ih out
      | failed e =>
          rw [openSegments, openedSegments, List.filterMap_cons]
          exact ih _

theorem openSegments_snd (segments : List OpenedSegment) (out : Evidence) :
    Extends out (openSegments segments out).2 ∧
      (openSegments segments out).2.availableEpochs = out.availableEpochs := by
  induction segments generalizing out with
  | nil => exact ⟨Evidence.Extends.refl _, rfl⟩
  | cons s segments ih =>
      cases s with
      | opened f => exact ih out
      | missing => exact ih out
      | failed e =>
          obtain ⟨hext, havail⟩ := ih (out.warnGap (diagnostic .readError e))
          exact ⟨(Evidence.extends_warnGap _ _).trans hext, havail⟩

theorem limitEpochs_extends (out : Evidence) : Extends out (limitEpochs out) := by
  rw [limitEpochs]
  split
  · exact ⟨rfl, rfl, rfl, rfl, rfl, id, id, id⟩
  · exact Evidence.Extends.refl _

theorem reportMissing_extends (out : Evidence) : Extends out (reportMissing out) := by
  rw [reportMissing]
  split
  · exact Evidence.extends_warn _ _
  · exact Evidence.Extends.refl _

theorem mem_addCurrent {last : Option Cursor} {available : List String} {e : String}
    (h : e ∈ addCurrent last available) :
    e ∈ available ∨ ∃ cur, last = some cur ∧ cur.epoch = e := by
  cases last with
  | none => exact Or.inl h
  | some cur =>
      rw [addCurrent] at h
      split at h
      · exact Or.inl h
      · rcases List.mem_append.mp h with h | h
        · exact Or.inl h
        · exact Or.inr ⟨cur, rfl, (List.mem_singleton.mp h).symm⟩

/-- The epoch that is read, and what it means that it is not missing. -/
theorem chooseEpoch_spec (state : Option WriterState) (epoch : Option String) (found : Bool)
    (out : Evidence) :
    (chooseEpoch state epoch found out).records = out.records ∧
      (out.gap = true → (chooseEpoch state epoch found out).gap = true) ∧
      (out.capturePending = true → (chooseEpoch state epoch found out).capturePending = true) ∧
      (chooseEpoch state epoch found out).epoch =
        (epoch <|> (state.bind WriterState.lastReceived).map Cursor.epoch <|>
          out.availableEpochs.getLast?) ∧
      ((chooseEpoch state epoch found out).epochMissing = false →
        ∀ e, epoch = some e → e ∈ out.availableEpochs ∨
          ∃ cur, state.bind WriterState.lastReceived = some cur ∧ cur.epoch = e) := by
  have hunav : Extends out (reportUnavailable state found out) ∧
      (reportUnavailable state found out).availableEpochs = out.availableEpochs := by
    rw [reportUnavailable]
    split
    · exact ⟨Evidence.extends_warn _ _, rfl⟩
    · exact ⟨Evidence.Extends.refl _, rfl⟩
  obtain ⟨hout, havail⟩ := hunav
  rw [chooseEpoch]
  generalize reportUnavailable state found out = b at hout havail
  rw [havail]
  have hext := fun out => (limitEpochs_extends out).trans (reportMissing_extends _)
  refine ⟨?_, fun h => (hext _).gap (hout.gap h), fun h => (hext _).pending (hout.pending h),
    (hext _).epoch, ?_⟩
  · rw [(hext _).records]
    exact hout.records
  · rw [(hext _).missing]
    rintro hmissing e rfl
    refine mem_addCurrent ?_
    simpa using hmissing

/-! ### The whole read -/

/-- What is known of a read without a gap, a cap, anything pending or a missing epoch. `state` is
the checkpoint it went by and `files` are the segments it opened. -/
structure CleanRead (c : RecordCodec) (q : Query) (state : Option WriterState)
    (files : List Segment) (ev : Evidence) : Prop where
  readable : ∀ f ∈ files, f.readError = none ∧ ∃ n, f.len = some n ∧ n ≤ SCAN_SEGMENT_BYTES
  committed : ∀ f ∈ files, f.index = 0 → ∀ p ∈ f.pieces, p.getLast? = some newline
  vouched : ∀ p ∈ files.flatMap Segment.pieces, Vouched c state p
  selected : ∃ selected : List ReceiveRecord,
    (∀ r, r ∈ selected ↔
      (∃ p ∈ files.flatMap Segment.pieces, pieceRecord c p = some r) ∧ some r.epoch = ev.epoch) ∧
    (selected.Pairwise fun a b => a.rxSeq < b.rxSeq) ∧
    ev.records = (selected.filter fun r => r.rxSeq > q.since.getD 0) ∧
    ev.latest = selected.getLast?.map ReceiveRecord.cursor
  consecutive : Consecutive (saturatingSucc (q.since.getD 0)) ev.records
  continuation : ev.continuation = (ev.records.getLast?.map ReceiveRecord.cursor <|>
    ev.epoch.map fun e => ⟨e, q.since.getD 0⟩)
  epoch_named : ∀ e, q.epoch = some e → ev.epoch = some e
  epoch_current : ∀ cur, state.bind WriterState.lastReceived = some cur → q.epoch = none →
    ev.epoch = some cur.epoch
  present : ∀ e, q.epoch = some e →
    (∃ p ∈ files.flatMap Segment.pieces, ∃ r, pieceRecord c p = some r ∧ r.epoch = e) ∨
      ∃ cur, state.bind WriterState.lastReceived = some cur ∧ cur.epoch = e
  caught_up : ∀ last, state.bind WriterState.lastReceived = some last →
    ev.epoch = some last.epoch → ∃ cur, ev.latest = some cur ∧ last.rxSeq ≤ cur.rxSeq

/-- No flag is raised. -/
def Evidence.clean (ev : Evidence) : Bool :=
  !ev.gap && !ev.capped && !ev.capturePending && !ev.epochMissing

theorem read_clean {c : RecordCodec} {now : Nat} {q : Query} {file : StateFile}
    {segments : List OpenedSegment} {failures : List FailureFile} {ev : Evidence}
    (h : read c now q file segments failures = .ok ev) (hclean : ev.clean = true) :
    CleanRead c q (checkpointOf file) (openedSegments segments) ev ∧
      ∀ w, file = .parsed w → w.valid = true := by
  rw [read] at h
  split at h
  · cases h
  split at h
  · cases h
  split at h
  · cases h
  -- every stage by its name and what is known of it
  have hstate := readState_fst file { observedAtMs := now }
  have hstate' := readState_snd file { observedAtMs := now }
  have hinvalid : ∀ w, file = .parsed w → ¬w.valid = true →
      (readState file { observedAtMs := now }).2.gap = true := by
    rintro w rfl hvalid
    rw [readState, if_neg hvalid]
    rfl
  generalize readState file { observedAtMs := now } = st at h hstate hstate' hinvalid
  obtain ⟨state, out₁⟩ := st
  obtain ⟨hext₁, havail₁⟩ := hstate'
  dsimp only at h hstate hext₁ havail₁ hinvalid
  have hfiles := openSegments_fst segments out₁
  have hfiles' := openSegments_snd segments out₁
  generalize openSegments segments out₁ = op at h hfiles hfiles'
  obtain ⟨files, out₂⟩ := op
  obtain ⟨hext₂, havail₂⟩ := hfiles'
  dsimp only at h hfiles hext₂ havail₂
  rw [← hstate, ← hfiles]
  have hscan := scanSegments_clean c q.maxBytes state files ⟨out₂, []⟩
  have hext₃ := extends_scanSegments c q.maxBytes state files ⟨out₂, []⟩
  generalize scanSegments c q.maxBytes state files ⟨out₂, []⟩ = s at h hscan hext₃
  obtain ⟨hrec₄, hgap₄, hpend₄, hepoch₄, hmiss₄⟩ :=
    chooseEpoch_spec state q.epoch (!files.isEmpty) s.out
  generalize chooseEpoch state q.epoch (!files.isEmpty) s.out = out₄ at *
  obtain ⟨hgap₅, hepoch₅, hmiss₅, hpend₅⟩ := collect_extends q.maxBytes state q.since s.acquired out₄
  have hcollect := collect_clean q.maxBytes state q.since s.acquired (hrec₄.trans
    (hext₃.records.trans (hext₂.records.trans hext₁.records)))
  generalize collect q.maxBytes state q.since s.acquired out₄ = out₅ at *
  have hfin : Extends out₅ ev := Except.ok.inj h ▸ extends_reportFailures failures out₅
  obtain ⟨⟨⟨hgap, hcapped⟩, hpending⟩, hmissing⟩ :
      ((ev.gap = false ∧ ev.capped = false) ∧ ev.capturePending = false) ∧
        ev.epochMissing = false := by
    simpa [Evidence.clean] using hclean
  have hgap₅' : out₅.gap = false :=
    Bool.eq_false_iff.mpr fun h => Bool.eq_false_iff.mp hgap (hfin.gap h)
  have hcapped₅ : out₅.capped = false :=
    Bool.eq_false_iff.mpr fun h => Bool.eq_false_iff.mp hcapped (hfin.capped h)
  have hpend₅' : out₅.capturePending = false :=
    Bool.eq_false_iff.mpr fun h => Bool.eq_false_iff.mp hpending (hfin.pending h)
  obtain ⟨hread, hclean₃⟩ := hscan fun hflag => by
    rcases hflag with hflag | hflag
    · exact Bool.eq_false_iff.mp hgap₅' (hgap₅ (hgap₄ hflag))
    · exact Bool.eq_false_iff.mp hpend₅' (hpend₅ (hpend₄ hflag))
  have hacquired : ∀ r, r ∈ s.acquired ↔
      ∃ p ∈ files.flatMap Segment.pieces, pieceRecord c p = some r := by
    intro r
    rw [hclean₃.acquired, List.nil_append, List.mem_filterMap]
  have hepochs : EpochsAcquired s := hclean₃.epochs fun e he => by
    rw [havail₂, havail₁] at he
    cases he
  obtain ⟨selected, hmem, hpair, hcons, hrecs, hlatest, hcont⟩ := hcollect hgap₅' hcapped₅
  have hepoch : ev.epoch = out₄.epoch := hfin.epoch.trans hepoch₅
  have hcommitted : ∀ f ∈ files, f.index = 0 → ∀ p ∈ f.pieces, p.getLast? = some newline := by
    intro f hf hindex p hp
    by_contra hlast
    obtain ⟨w, rfl, herr⟩ := (hread f hf).2.2 p hp hindex hlast
    rw [← Except.ok.inj h, gap_of_error herr] at hgap
    cases hgap
  refine ⟨⟨fun f hf => ⟨(hread f hf).1, (hread f hf).2.1⟩, hcommitted, hclean₃.vouched, ⟨selected, fun r => ?_, hpair, hfin.records.trans hrecs,
    hfin.latest.trans hlatest⟩, ?_, ?_, ?_, ?_, ?_, ?_⟩, ?_⟩
  · rw [hmem, hacquired, hepoch]
  · rw [hfin.records, hrecs]
    exact hcons
  · rw [hfin.records, hrecs, hfin.continuation, hcont, hepoch]
  · rintro e he
    rw [hepoch, hepoch₄, he]
    rfl
  · intro cur hcur hnone
    rw [hepoch, hepoch₄, hnone, hcur]
    rfl
  · intro e he
    refine (hmiss₄ (by rw [← hmiss₅, ← hfin.missing, hmissing]) e he).imp_left fun hin => ?_
    obtain ⟨r, hr, hre⟩ := hepochs e hin
    obtain ⟨p, hp, hpr⟩ := (hacquired r).mp hr
    exact ⟨p, hp, r, hpr, hre⟩
  · intro last hlast hlastepoch
    cases state with
    | none => cases hlast
    | some w =>
        have hnone : (reportFailures c q.maxBytes (some w) failures out₅).capturePending = false := by
          rw [Except.ok.inj h]
          exact hpending
        rw [hfin.latest]
        exact caught_up_reportFailures hlast (hfin.epoch.symm.trans hlastepoch) hnone
  · intro w hw
    by_contra hvalid
    have hgap₁ := hinvalid w hw hvalid
    exact Bool.eq_false_iff.mp hgap₅' (hgap₅ (hgap₄ (hext₃.gap (hext₂.gap hgap₁))))

namespace CleanRead

variable {c : RecordCodec} {q : Query} {state : Option WriterState} {files : List Segment}
  {ev : Evidence}

theorem mem_records (h : CleanRead c q state files ev) {r : ReceiveRecord} :
    r ∈ ev.records ↔ (∃ p ∈ files.flatMap Segment.pieces, pieceRecord c p = some r) ∧
      some r.epoch = ev.epoch ∧ q.since.getD 0 < r.rxSeq := by
  obtain ⟨selected, hmem, -, hrecs, -⟩ := h.selected
  rw [hrecs, List.mem_filter, hmem, and_assoc, decide_eq_true_iff]

theorem pairwise_records (h : CleanRead c q state files ev) :
    ev.records.Pairwise fun a b => a.rxSeq < b.rxSeq := by
  obtain ⟨selected, -, hpair, hrecs, -⟩ := h.selected
  rw [hrecs]
  exact hpair.filter _

/-- A clean read has no hole between the cursor and any record it found. -/
theorem exists_mem_records (h : CleanRead c q state files ev) {p : List UInt8} {r : ReceiveRecord}
    {n : Nat} (hp : p ∈ files.flatMap Segment.pieces) (hr : pieceRecord c p = some r)
    (hepoch : some r.epoch = ev.epoch) (hlow : q.since.getD 0 < n) (hhigh : n ≤ r.rxSeq) :
    ∃ a ∈ ev.records, a.rxSeq = n := by
  have hmem : r ∈ ev.records := h.mem_records.mpr ⟨⟨p, hp, hr⟩, hepoch, by omega⟩
  refine h.consecutive.exists_mem hmem ?_ hhigh
  rw [saturatingSucc]
  omega

/-- The last record found, when there is one, is one of the pieces. -/
theorem exists_piece_latest (h : CleanRead c q state files ev) {cur : Cursor}
    (hcur : ev.latest = some cur) :
    ∃ p ∈ files.flatMap Segment.pieces, ∃ r, pieceRecord c p = some r ∧
      some r.epoch = ev.epoch ∧ r.cursor = cur := by
  obtain ⟨selected, hmem, -, -, hlatest⟩ := h.selected
  rw [hlatest, Option.map_eq_some_iff] at hcur
  obtain ⟨r, hlast, hr⟩ := hcur
  obtain ⟨⟨p, hp, hpr⟩, hepoch⟩ := (hmem r).mp (List.mem_of_getLast? hlast)
  exact ⟨p, hp, r, hpr, hepoch, hr⟩

end CleanRead

end Journal

end Serialcap

end Paniolo
