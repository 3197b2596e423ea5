import Paniolo.Serialcap.Journal.InFlight

/-!
# Paging through the journal

A client that asks again from the returned continuation until an answer is not
capped gets every record of its epoch once, in order. The journal is
undamaged: whole committed records in every segment, those of the epoch
numbered without a hole, in whatever order and among whatever others.
-/

namespace Paniolo

namespace Serialcap

namespace Journal

/-- The records of one epoch. -/
def retained (e : String) (rs : List ReceiveRecord) : List ReceiveRecord :=
  rs.filter fun r => r.epoch = e

/-- One record to a number, and no number left out between two. -/
structure Contiguous (rs : List ReceiveRecord) : Prop where
  unique : ∀ a ∈ rs, ∀ b ∈ rs, a.rxSeq = b.rxSeq → a = b
  filled : ∀ a ∈ rs, ∀ b ∈ rs, ∀ n, a.rxSeq ≤ n → n ≤ b.rxSeq → ∃ r ∈ rs, r.rxSeq = n

/-! ### The wanted records -/

theorem mem_retained {e : String} {rs : List ReceiveRecord} {r : ReceiveRecord} :
    r ∈ retained e rs ↔ r ∈ rs ∧ r.epoch = e := by
  rw [retained, List.mem_filter, decide_eq_true_iff]

theorem mem_wanted {e : String} {since : Option Nat} {rs : List ReceiveRecord}
    {r : ReceiveRecord} :
    r ∈ wanted (some e) since rs ↔ r ∈ retained e rs ∧ since.getD 0 < r.rxSeq := by
  rw [wanted, List.mem_filter, mem_dedup, mem_selectRecords, mem_retained, decide_eq_true_iff,
    Option.some.injEq]

theorem conflicts_eq_nil_of_unique {l : List ReceiveRecord}
    (h : ∀ a ∈ l, ∀ b ∈ l, a.rxSeq = b.rxSeq → a = b) : conflicts l = [] := by
  fun_induction conflicts l with
  | case1 => rfl
  | case2 r => rfl
  | case3 r q rest hboth ih => exact absurd (h r (by simp) q (by simp) hboth.1) hboth.2
  | case4 r q rest _ ih =>
      exact ih fun a ha b hb => h a (List.mem_cons_of_mem r ha) b (List.mem_cons_of_mem r hb)

theorem conflicts_selectRecords {e : String} {rs : List ReceiveRecord}
    (h : Contiguous (retained e rs)) : conflicts (selectRecords (some e) rs) = [] := by
  refine conflicts_eq_nil_of_unique fun a ha b hb => ?_
  obtain ⟨ha, hea⟩ := mem_selectRecords.mp ha
  obtain ⟨hb, heb⟩ := mem_selectRecords.mp hb
  exact h.unique a (mem_retained.mpr ⟨ha, Option.some.inj hea⟩) b
    (mem_retained.mpr ⟨hb, Option.some.inj heb⟩)

theorem pairwise_wanted {e : String} {rs : List ReceiveRecord} (h : Contiguous (retained e rs))
    (since : Option Nat) : (wanted (some e) since rs).Pairwise fun a b => a.rxSeq < b.rxSeq :=
  (pairwise_dedup (pairwise_selectRecords _ _) (conflicts_selectRecords h)).filter _

/-- A sorted list without holes is numbered from its first record on. -/
theorem consecutive_of_filled {l : List ReceiveRecord}
    (hsorted : l.Pairwise fun a b => a.rxSeq < b.rxSeq)
    (hfilled : ∀ a ∈ l, ∀ b ∈ l, ∀ n, a.rxSeq ≤ n → n ≤ b.rxSeq → ∃ r ∈ l, r.rxSeq = n)
    {r : ReceiveRecord} {rest : List ReceiveRecord} (hl : l = r :: rest) :
    Consecutive r.rxSeq l := by
  induction rest generalizing r l with
  | nil =>
      rw [hl]
      exact ⟨rfl, trivial⟩
  | cons q rest ih =>
      subst hl
      obtain ⟨hr, htail⟩ := List.pairwise_cons.mp hsorted
      have hnot : ∀ p ∈ r :: q :: rest, r.rxSeq < p.rxSeq → p ∈ q :: rest := by
        intro p hp hlt
        rcases List.mem_cons.mp hp with rfl | hp
        · exact absurd hlt (Nat.lt_irrefl _)
        · exact hp
      have hrest := ih htail (fun a ha b hb n hna hnb => by
        obtain ⟨p, hp, hpn⟩ := hfilled a (List.mem_cons_of_mem r ha) b (List.mem_cons_of_mem r hb)
          n hna hnb
        exact ⟨p, hnot p hp (by have := hr a ha; omega), hpn⟩) rfl
      -- the number behind the first is taken, and by none but the second
      have hq : q.rxSeq = r.rxSeq + 1 := by
        have hrq := hr q (by simp)
        obtain ⟨p, hp, hpn⟩ := hfilled r (by simp) q (by simp) (r.rxSeq + 1) (by omega) (by omega)
        rcases List.mem_cons.mp (hnot p hp (by omega)) with rfl | hp'
        · exact hpn
        · have := (List.pairwise_cons.mp htail).1 p hp'
          omega
      have hsucc : saturatingSucc r.rxSeq = q.rxSeq := by
        have := q.rxSeq_le
        rw [saturatingSucc]
        omega
      refine ⟨rfl, ?_⟩
      rw [hsucc]
      exact hrest

theorem consecutive_wanted {e : String} {rs : List ReceiveRecord} (h : Contiguous (retained e rs))
    (since : Option Nat) {r : ReceiveRecord} (hr : r ∈ (wanted (some e) since rs).head?) :
    Consecutive r.rxSeq (wanted (some e) since rs) := by
  have hfilled : ∀ a ∈ wanted (some e) since rs, ∀ b ∈ wanted (some e) since rs, ∀ n,
      a.rxSeq ≤ n → n ≤ b.rxSeq → ∃ r ∈ wanted (some e) since rs, r.rxSeq = n := by
    intro a ha b hb n hna hnb
    obtain ⟨ha, hsince⟩ := mem_wanted.mp ha
    obtain ⟨p, hp, hpn⟩ := h.filled a ha b (mem_wanted.mp hb).1 n hna hnb
    exact ⟨p, mem_wanted.mpr ⟨hp, by omega⟩, hpn⟩
  obtain ⟨rest, hl⟩ := List.head?_eq_some_iff.mp hr
  exact consecutive_of_filled (pairwise_wanted h since) hfilled hl

/-- What is wanted after the last record of a page is what the page left over. -/
theorem wanted_continued {e : String} {since : Option Nat} {rs page rest : List ReceiveRecord}
    (h : Contiguous (retained e rs)) (hsplit : wanted (some e) since rs = page ++ rest)
    {last : ReceiveRecord} (hlast : page.getLast? = some last) :
    wanted (some e) (some last.rxSeq) rs = rest := by
  have hsorted := pairwise_wanted h since
  have hmem : last ∈ page := List.mem_of_getLast? hlast
  have hsince : since.getD 0 < last.rxSeq :=
    (mem_wanted.mp (by rw [hsplit]; exact List.mem_append_left _ hmem)).2
  have hfilter : wanted (some e) (some last.rxSeq) rs =
      (wanted (some e) since rs).filter fun r => r.rxSeq > last.rxSeq := by
    rw [wanted, wanted, List.filter_filter]
    refine List.filter_congr fun r _ => ?_
    simp only [Option.getD_some, gt_iff_lt]
    by_cases hr : last.rxSeq < r.rxSeq
    · simp [hr, Nat.lt_trans hsince hr]
    · simp [hr]
  rw [hsplit] at hsorted hfilter
  obtain ⟨hpage, -, hcross⟩ := List.pairwise_append.mp hsorted
  have hle : ∀ r ∈ page, ¬last.rxSeq < r.rxSeq := by
    intro r hr hlt
    obtain ⟨init, hinit⟩ := List.getLast?_eq_some_iff.mp hlast
    rw [hinit] at hpage hr
    rcases List.mem_append.mp hr with hr | hr
    · have := (List.pairwise_append.mp hpage).2.2 r hr last (by simp)
      omega
    · rw [List.mem_singleton.mp hr] at hlt
      omega
  rw [hfilter, List.filter_append, List.filter_eq_nil_iff.mpr, List.nil_append,
    List.filter_eq_self.mpr]
  · intro r hr
    simpa using hcross last hmem r hr
  · intro r hr
    simpa using hle r hr

/-! ### The gap -/

/-- A read from `since` has a gap to report: the records behind it do not begin with the next
number, or it lies beyond everything received. -/
def GapAfter (state : Option WriterState) (e : String) (since : Nat) (rs : List ReceiveRecord) :
    Prop :=
  ((∃ r ∈ rs, since < r.rxSeq) ∧ ∀ r ∈ rs, r.rxSeq ≠ since + 1) ∨
    (receivedThrough state (some e) < since ∧ ∀ r ∈ rs, r.rxSeq < since)

theorem gap_takeRecords_of_consecutive {maxBytes : Nat} {l : List ReceiveRecord} :
    ∀ {expected : Nat} {out : Evidence}, Consecutive expected l →
      (takeRecords maxBytes expected l out).gap = out.gap := by
  induction l with
  | nil => exact fun _ => rfl
  | cons r rest ih =>
      intro expected out h
      have hexp : ¬r.rxSeq ≠ expected := not_ne_iff.mpr h.1
      rw [takeRecords, if_neg hexp]
      split
      · rfl
      · exact ih h.2

/-- Only the first of numbered records can be out of sequence. -/
theorem gap_takeRecords {maxBytes : Nat} {l : List ReceiveRecord}
    (h : ∀ r ∈ l.head?, Consecutive r.rxSeq l) (expected : Nat) (out : Evidence) :
    (takeRecords maxBytes expected l out).gap =
      (out.gap || l.head?.any fun r => r.rxSeq ≠ expected) := by
  cases l with
  | nil => simp [takeRecords]
  | cons r rest =>
      have hrest := (h r rfl).2
      rw [takeRecords]
      by_cases hexp : r.rxSeq ≠ expected
      · rw [if_pos hexp]
        split
        · simp [hexp]
        · rw [gap_takeRecords_of_consecutive hrest]
          simp [hexp]
      · rw [if_neg hexp]
        split
        · simp [not_ne_iff.mp hexp]
        · rw [gap_takeRecords_of_consecutive hrest]
          simp [not_ne_iff.mp hexp]

theorem gap_reportRange (state : Option WriterState) (start : Nat)
    (selected : List ReceiveRecord) (out : Evidence) :
    (reportRange state start selected out).gap =
      (out.gap || (start > receivedThrough state out.epoch &&
        (selected.getLast?.map ReceiveRecord.cursor).all fun cur => start > cur.rxSeq)) := by
  rw [reportRange]
  dsimp only
  split
  · rename_i h
    rw [h, Bool.or_true]
    rfl
  · rename_i h
    rw [Bool.eq_false_iff.mpr h, Bool.or_false]

theorem head_wanted_ne_iff {e : String} {rs : List ReceiveRecord}
    (h : Contiguous (retained e rs)) (since : Option Nat) :
    ((wanted (some e) since rs).head?.any fun r => r.rxSeq ≠ saturatingSucc (since.getD 0)) = true ↔
      (∃ r ∈ retained e rs, since.getD 0 < r.rxSeq) ∧
        ∀ r ∈ retained e rs, r.rxSeq ≠ since.getD 0 + 1 := by
  have hmem : ∀ r, r ∈ wanted (some e) since rs ↔ r ∈ retained e rs ∧ since.getD 0 < r.rxSeq :=
    fun r => mem_wanted
  have hsorted := pairwise_wanted h since
  cases hw : wanted (some e) since rs with
  | nil =>
      rw [hw] at hmem
      simp only [List.head?_nil, Option.any_none, Bool.false_eq_true, false_iff]
      rintro ⟨⟨r, hr, hlt⟩, -⟩
      exact List.not_mem_nil ((hmem r).mpr ⟨hr, hlt⟩)
  | cons a rest =>
      rw [hw] at hmem hsorted
      obtain ⟨ha, hlt⟩ := (hmem a).mp (by simp)
      have hsucc : saturatingSucc (since.getD 0) = since.getD 0 + 1 := by
        have := a.rxSeq_le
        rw [saturatingSucc]
        omega
      simp only [List.head?_cons, Option.any_some, decide_eq_true_eq, hsucc]
      constructor
      · refine fun hne => ⟨⟨a, ha, hlt⟩, fun r hr heq => ?_⟩
        rcases List.mem_cons.mp ((hmem r).mpr ⟨hr, by omega⟩) with rfl | hrest
        · exact hne heq
        · have := (List.pairwise_cons.mp hsorted).1 r hrest
          omega
      · exact fun hall => hall.2 a ha

theorem beyond_latest_iff (e : String) (rs : List ReceiveRecord) (start : Nat) :
    (((dedup (selectRecords (some e) rs)).getLast?.map ReceiveRecord.cursor).all
      fun cur => start > cur.rxSeq) = true ↔ ∀ r ∈ retained e rs, r.rxSeq < start := by
  have hmem : ∀ r, r ∈ dedup (selectRecords (some e) rs) ↔ r ∈ retained e rs := by
    intro r
    rw [mem_dedup, mem_selectRecords, mem_retained, Option.some.injEq]
  have hsorted := (pairwise_selectRecords (some e) rs).sublist (dedup_sublist _)
  generalize dedup (selectRecords (some e) rs) = l at hmem hsorted
  cases hlast : l.getLast? with
  | none =>
      rw [List.getLast?_eq_none_iff.mp hlast] at hmem
      simp only [Option.map_none, Option.all_none, true_iff]
      exact fun r hr => absurd ((hmem r).mpr hr) List.not_mem_nil
  | some last =>
      obtain ⟨init, rfl⟩ := List.getLast?_eq_some_iff.mp hlast
      simp only [Option.map_some, Option.all_some, ReceiveRecord.cursor, decide_eq_true_eq]
      constructor
      · intro hlt r hr
        rcases List.mem_append.mp ((hmem r).mpr hr) with hinit | hone
        · have := (List.pairwise_append.mp hsorted).2.2 r hinit last (by simp)
          omega
        · rw [List.mem_singleton.mp hone]
          exact hlt
      · exact fun hall => hall last ((hmem last).mp (by simp))

theorem gap_collect (maxBytes : Nat) (state : Option WriterState) (since : Option Nat)
    {rs : List ReceiveRecord} {e : String} (h : Contiguous (retained e rs))
    {out : Evidence} (hepoch : out.epoch = some e)
    (hgap : out.gap = false) :
    (collect maxBytes state since rs out).gap = true ↔
      GapAfter state e (since.getD 0) (retained e rs) := by
  have hconf : reportConflicts (selectRecords (some e) rs) out = out := by
    rw [reportConflicts, conflicts_selectRecords h, List.foldl_nil]
  obtain ⟨-, hepoch', -⟩ :=
    reportRange_spec state (since.getD 0) (dedup (selectRecords (some e) rs)) out
  have hrange := gap_reportRange state (since.getD 0) (dedup (selectRecords (some e) rs)) out
  rw [collect, gap_reportGap, hepoch, hconf]
  generalize reportRange state (since.getD 0) (dedup (selectRecords (some e) rs)) out = b at *
  have htake : ∀ a : Evidence, (takeRecords maxBytes (saturatingSucc (since.getD 0))
      (wanted (some e) since rs) a).gap = (a.gap || (wanted (some e) since rs).head?.any fun r =>
        r.rxSeq ≠ saturatingSucc (since.getD 0)) :=
    gap_takeRecords (fun r hr => consecutive_wanted h since hr) _
  rw [← wanted, htake, Bool.or_eq_true, head_wanted_ne_iff h, hrange, hgap, hepoch, Bool.false_or,
    Bool.and_eq_true, beyond_latest_iff, decide_eq_true_iff, GapAfter]
  exact Or.comm

/-! ### One page -/

open Evidence (Alike)

/-- No fault is on record: the checkpoint, if there is one, knows of none, every segment that is
there could be opened and holds whole committed records, and no failure was archived. -/
structure Undamaged (c : RecordCodec) (file : StateFile) (segments : List OpenedSegment)
    (failures : List FailureFile) (records : Segment → List ReceiveRecord) : Prop where
  checkpoint : (∃ error, file = .unavailable error) ∨
    ∃ w, file = .parsed w ∧ w.valid = true ∧ w.error = none ∧ w.failedReceive = none
  opened : ∀ error, OpenedSegment.failed error ∉ segments
  holds : ∀ g ∈ openedSegments segments, g.Holds c (records g) []
  committed : ∀ g ∈ openedSegments segments, ∀ r ∈ records g,
    notPersisted (checkpointOf file) r = false
  archived : ∀ f ∈ failures, f = .missing

namespace Undamaged

variable {c : RecordCodec} {file : StateFile} {segments : List OpenedSegment}
  {failures : List FailureFile} {records : Segment → List ReceiveRecord}
  (h : Undamaged c file segments failures records)

include h

theorem not_refused (e : String) (since : Option Nat) {maxBytes : Nat} (hpos : 0 < maxBytes)
    (hmax : maxBytes ≤ MAX_BYTES) : refused ⟨some e, since, maxBytes⟩ file failures = none := by
  have herror : readToEndError file failures = none := by
    have hfile : ∀ error, file ≠ .unreadable error := by
      rcases h.checkpoint with ⟨error, rfl⟩ | ⟨w, rfl, -⟩
      · exact fun _ => StateFile.noConfusion
      · exact fun _ => StateFile.noConfusion
    rw [readToEndError, List.findSome?_eq_none_iff]
    · intro f hf
      rw [h.archived f hf]
    · exact hfile
  rw [refused, if_neg (by simp), if_neg (by dsimp only; omega), herror]

theorem gap_opening (now : Nat) : (opening now file segments).out.gap = false := by
  have hopen : ∀ out, (openSegments segments out).2 = out := by
    have hno := h.opened
    generalize segments = gs at hno
    induction gs with
    | nil => exact fun _ => rfl
    | cons f gs ih =>
        intro out
        have hrest := ih (fun error hf => hno error (List.mem_cons_of_mem f hf)) out
        cases f with
        | opened g => exact hrest
        | missing => exact hrest
        | failed error => exact absurd (by simp) (hno error)
  rw [opening, hopen]
  rcases h.checkpoint with ⟨error, rfl⟩ | ⟨w, rfl, hvalid, -⟩
  · rfl
  · rw [readState, if_pos hvalid]

theorem alike_reportFailures (maxBytes : Nat) (out : Evidence) :
    Alike out (reportFailures c maxBytes (checkpointOf file) failures out) := by
  have hfold : ∀ (fs : List (Nat × FailureFile)) (s : Evidence × List ReceiveRecord),
      (∀ f ∈ fs, f.2 = .missing) → fs.foldl (readFailure c maxBytes out.epoch) s = s := by
    intro fs
    induction fs with
    | nil => exact fun _ _ => rfl
    | cons f fs ih =>
        intro s hfs
        rw [List.foldl_cons, readFailure, hfs f (by simp)]
        exact ih s fun g hg => hfs g (List.mem_cons_of_mem f hg)
  have hmissing : ∀ f ∈ failures.zipIdx.map Prod.swap, f.2 = .missing := by
    intro f hf
    obtain ⟨p, hp, rfl⟩ := List.mem_map.mp hf
    exact h.archived p.1 (List.fst_mem_of_mem_zipIdx hp)
  rw [reportFailures, hfold _ _ hmissing]
  rcases h.checkpoint with ⟨error, rfl⟩ | ⟨w, rfl, hvalid, herror, hfailed⟩
  · exact Alike.refl _
  · rw [checkpointOf, if_pos hvalid]
    dsimp only [reportWriter]
    rw [reportError, herror, addFailed, hfailed, List.foldl_nil, reportBehind]
    cases w.lastReceived with
    | none => exact Alike.refl _
    | some last =>
        dsimp only
        split
        · exact ⟨rfl, rfl, rfl, rfl, rfl, rfl⟩
        · exact Alike.refl _

/-- The answer of one read. -/
theorem read_page (hc : c.Lawful) {e : String}
    (hcont : Contiguous (retained e ((openedSegments segments).flatMap records)))
    (since : Option Nat) {maxBytes : Nat} (hpos : 0 < maxBytes) (hmax : maxBytes ≤ MAX_BYTES)
    (now : Nat) :
    ∃ ev, read c now ⟨some e, since, maxBytes⟩ file segments failures = .ok ev ∧
      ev.records = fitting maxBytes
        (wanted (some e) since ((openedSegments segments).flatMap records)) ∧
      ev.continuation = (ev.records.getLast?.map ReceiveRecord.cursor <|>
        some ⟨e, since.getD 0⟩) ∧
      ev.rawBytes = rawLength ev.records ∧
      ev.capped = (nextUnfit maxBytes
        (wanted (some e) since ((openedSegments segments).flatMap records))).isSome ∧
      (ev.gap = true ↔ GapAfter (checkpointOf file) e (since.getD 0)
        (retained e ((openedSegments segments).flatMap records))) := by
  rw [read_of_accepted (h.not_refused e since hpos hmax)]
  refine ⟨_, rfl, ?_⟩
  obtain ⟨hrec, hnext, hraw, hcapped, -⟩ := opening_spec now file segments
  have hgap := h.gap_opening now
  obtain ⟨s, hs, hacq, halike⟩ := scanSegments_whole hc maxBytes (checkpointOf file)
    (openedSegments segments) h.holds (opening now file segments)
  have hall : ((openedSegments segments).flatMap records).filter
      (fun r => !notPersisted (checkpointOf file) r) = (openedSegments segments).flatMap records := by
    refine List.filter_eq_self.mpr fun r hr => ?_
    obtain ⟨g, hg, hrg⟩ := List.mem_flatMap.mp hr
    rw [h.committed g hg r hrg]
    rfl
  have hnil := hs []
  rw [List.append_nil, scanSegments] at hnil
  rw [hnil]
  rw [hall, opening, List.nil_append] at hacq
  have hchoose := alike_chooseEpoch (checkpointOf file) (some e)
    (!(openedSegments segments).isEmpty) s.out
  have hepoch := (chooseEpoch_spec (checkpointOf file) (some e)
    (!(openedSegments segments).isEmpty) s.out).2.2.2.1
  rw [answer, hacq]
  dsimp only
  generalize chooseEpoch (checkpointOf file) (some e) (!(openedSegments segments).isEmpty) s.out =
    out at hchoose hepoch ⊢
  replace halike := halike.trans hchoose
  have hraw0 : out.rawBytes = 0 := halike.rawBytes.trans hraw
  obtain ⟨h1, -, h3, h4, h5⟩ := collect_spec maxBytes (checkpointOf file) since
    ((openedSegments segments).flatMap records) (hraw0.trans_le (Nat.zero_le maxBytes))
    (halike.records.trans hrec) (halike.next.trans hnext)
  have hgap' := gap_collect maxBytes (checkpointOf file) since hcont hepoch
    (halike.gap.trans hgap)
  have hquiet := h.alike_reportFailures maxBytes
    (collect maxBytes (checkpointOf file) since ((openedSegments segments).flatMap records) out)
  rw [hepoch, hraw0, Nat.sub_zero] at h1 h3 h4 h5
  rw [hquiet.records, hquiet.continuation, hquiet.rawBytes, hquiet.capped, hquiet.gap, h1, h3, h4,
    h5, halike.capped, hcapped]
  exact ⟨rfl, rfl, Nat.zero_add _, Bool.false_or _, hgap'⟩

end Undamaged

/-! ### All pages -/

/-- A client asks for the records of an epoch and, as long as the answer is capped, again from its
continuation. `ask k` is the `k`th read. -/
def readPages (ask : Nat → Query → Except String Evidence) (e : String) (maxBytes : Nat) :
    Nat → Nat → Option Nat → Option (List Evidence)
  | 0, _, _ => none
  | fuel + 1, k, since =>
      match ask k ⟨some e, since, maxBytes⟩ with
      | .error _ => none
      | .ok ev =>
          if ev.capped then
            (readPages ask e maxBytes fuel (k + 1) (ev.continuation.map Cursor.rxSeq)).map (ev :: ·)
          else some [ev]

/-- A page holds everything, or leaves something over. -/
theorem fitting_cases (budget : Nat) (l : List ReceiveRecord) :
    (nextUnfit budget l = none ∧ fitting budget l = l) ∨
      ∃ r rest, (nextUnfit budget l).isSome = true ∧ l = fitting budget l ++ r :: rest := by
  obtain ⟨rest, hrest⟩ := fitting_prefix budget l
  have hdrop : ∀ p, p ++ rest = l → l.drop p.length = rest := by
    rintro p rfl
    exact List.drop_left
  rw [nextUnfit, hdrop _ hrest]
  cases rest with
  | nil => exact Or.inl ⟨rfl, by rw [List.append_nil] at hrest; exact hrest⟩
  | cons r rest => exact Or.inr ⟨r, rest, rfl, hrest.symm⟩

theorem fitting_ne_nil {budget : Nat} {l : List ReceiveRecord} (hne : l ≠ [])
    (hbig : ∀ r ∈ l, r.bytes.length ≤ budget) : fitting budget l ≠ [] := by
  cases l with
  | nil => exact absurd rfl hne
  | cons r rest =>
      rw [fitting, if_neg (Nat.not_lt.mpr (hbig r (by simp)))]
      exact List.cons_ne_nil _ _

/-- Behind the last record of a page comes the next: the later pages have no gap. -/
theorem not_gapAfter_continued {state : Option WriterState} {e : String}
    {rs : List ReceiveRecord} (h : Contiguous rs) {last r : ReceiveRecord} (hlast : last ∈ rs)
    (hr : r ∈ rs) (hlt : last.rxSeq < r.rxSeq) : ¬GapAfter state e last.rxSeq rs := by
  rintro (⟨-, hne⟩ | ⟨-, hall⟩)
  · obtain ⟨p, hp, hpn⟩ := h.filled last hlast r hr (last.rxSeq + 1) (by omega) (by omega)
    exact hne p hp hpn
  · have := hall r hr
    omega

section Pages

variable {c : RecordCodec} {file : StateFile} {segments : List OpenedSegment}
  {failures : List FailureFile} {records : Segment → List ReceiveRecord}

theorem exists_readPages (hc : c.Lawful) (h : Undamaged c file segments failures records)
    {e : String} (hcont : Contiguous (retained e ((openedSegments segments).flatMap records)))
    {maxBytes : Nat} (hpos : 0 < maxBytes) (hmax : maxBytes ≤ MAX_BYTES)
    (hbig : ∀ r ∈ retained e ((openedSegments segments).flatMap records),
      r.bytes.length ≤ maxBytes) (now : Nat → Nat) :
    ∀ (fuel k : Nat) (since : Option Nat),
      (wanted (some e) since ((openedSegments segments).flatMap records)).length < fuel →
      ∃ first rest,
        readPages (fun k q => read c (now k) q file segments failures) e maxBytes fuel k since =
          some (first :: rest) ∧
        (first :: rest).flatMap Evidence.records =
          wanted (some e) since ((openedSegments segments).flatMap records) ∧
        (∀ ev ∈ first :: rest, ev.rawBytes ≤ maxBytes) ∧
        (∀ ev ∈ (first :: rest).dropLast, ev.capped = true) ∧
        (∀ ev ∈ (first :: rest).getLast?, ev.capped = false) ∧
        (first.gap = true ↔ GapAfter (checkpointOf file) e (since.getD 0)
          (retained e ((openedSegments segments).flatMap records))) ∧
        ∀ ev ∈ rest, ev.gap = false := by
  generalize hrs : (openedSegments segments).flatMap records = rs at hcont hbig
  intro fuel
  induction fuel with
  | zero => exact fun _ _ hlen => absurd hlen (Nat.not_lt_zero _)
  | succ fuel ih =>
      intro k since hlen
      obtain ⟨ev, hread, hrec, hnext, hraw, hcapped, hgap⟩ :=
        h.read_page hc (by rw [hrs]; exact hcont) since hpos hmax (now k)
      rw [hrs] at hrec hcapped hgap
      have hrawle : ev.rawBytes ≤ maxBytes := by
        rw [hraw, hrec]
        exact rawLength_fitting_le maxBytes _
      rw [readPages, hread]
      dsimp only
      rcases fitting_cases maxBytes (wanted (some e) since rs) with ⟨hnone, hall⟩ | ⟨r, tail, hsome, hsplit⟩
      · -- the last page
        rw [hnone] at hcapped
        rw [if_neg (by rw [hcapped]; decide)]
        refine ⟨ev, [], rfl, ?_, by simpa using hrawle, by simp, by simpa using hcapped, hgap, by simp⟩
        rw [List.flatMap_singleton, hrec, hall]
      · rw [hsome] at hcapped
        rw [if_pos hcapped]
        have hne : fitting maxBytes (wanted (some e) since rs) ≠ [] := by
          refine fitting_ne_nil ?_ fun q hq => hbig q (mem_wanted.mp hq).1
          rw [hsplit]
          simp
        obtain ⟨last, hlast⟩ := Option.ne_none_iff_exists'.mp
          (mt List.getLast?_eq_none_iff.mp hne)
        have hcontinued := wanted_continued hcont hsplit hlast
        have hsince : ev.continuation.map Cursor.rxSeq = some last.rxSeq := by
          rw [hnext, hrec, hlast]
          rfl
        have hlen' : (wanted (some e) (some last.rxSeq) rs).length < fuel := by
          have hpage := List.length_pos_iff.mpr hne
          have hwhole := congrArg List.length hsplit
          rw [List.length_append] at hwhole
          rw [hcontinued]
          omega
        obtain ⟨first, rest, hpages, hconcat, hraws, hcap, hlastcap, hfirst, hrest⟩ :=
          ih (k + 1) (some last.rxSeq) hlen'
        have hnogap : first.gap = false := by
          have hin : ∀ q ∈ wanted (some e) since rs, q ∈ retained e rs := fun q hq =>
            (mem_wanted.mp hq).1
          have hr : r ∈ wanted (some e) (some last.rxSeq) rs := by
            rw [hcontinued]
            simp
          obtain ⟨hrin, hrlt⟩ := mem_wanted.mp hr
          have hlastin := hin last (by
            rw [hsplit]
            exact List.mem_append_left _ (List.mem_of_getLast? hlast))
          exact Bool.eq_false_iff.mpr fun hgap =>
            not_gapAfter_continued hcont hlastin hrin hrlt (hfirst.mp hgap)
        rw [hsince, hpages]
        refine ⟨ev, first :: rest, rfl, ?_, ?_, ?_, ?_, hgap, ?_⟩
        · rw [List.flatMap_cons, hconcat, hrec, hcontinued]
          exact hsplit.symm
        · intro page hpage
          rcases List.mem_cons.mp hpage with rfl | hpage
          · exact hrawle
          · exact hraws page hpage
        · intro page hpage
          rw [List.dropLast_cons_cons] at hpage
          rcases List.mem_cons.mp hpage with rfl | hpage
          · exact hcapped
          · exact hcap page hpage
        · rw [List.getLast?_cons_cons]
          exact hlastcap
        · intro page hpage
          rcases List.mem_cons.mp hpage with rfl | hpage
          · exact hnogap
          · exact hrest page hpage

end Pages

/-- Two chunks with one of an older epoch between them. -/
def interleaved : List ReceiveRecord :=
  [chunk "7-1" 1 [5, 6], chunk "6-0" 9 [1], chunk "7-1" 2 [7, 8]]

def interleavedState : StateFile :=
  .parsed { lastReceived := some ⟨"7-1", 2⟩, persisted := some ⟨"7-1", 2⟩ }

def readInterleaved (_ : Nat) (q : Query) : Except String Evidence :=
  read jsonCodec 0 q interleavedState [.opened (activeSegment jsonCodec interleaved [])] []

end Journal

end Serialcap

end Paniolo
