import Paniolo.Library.Machine
import Paniolo.Serialcap.LineLog.Ingest
import Paniolo.Serialcap.LineLog.Segments

/-!
# The capture log across restarts

`LineLog::open`, `ingest`, `commit` and `rotate` over one directory, where the process may be killed
while it writes a record. What it left of the record stays at the end of `serial.jsonl`, and the
next record is appended to it: neither can be read then. Where no record is written behind a torn
one, `readable_of_meets` says that every line can be read and that the sequence numbers increase.
-/

namespace Paniolo

namespace Serialcap

namespace LineLog

open Utf8

open Journal (newline)

/-- The log of a running process. -/
structure Log where
  nextSeq : UInt64
  segLines : Nat
  activeLines : Nat
  pending : Pending
  sidecarDirty : Bool

/-- The directory, the process if it runs, and, as history, which lines were written to which
segment. -/
structure State where
  dir : Dir
  log : Option Log
  written : Nat → List Line

/-- `State`, while the process runs. -/
structure Writing where
  dir : Dir
  log : Log
  written : Nat → List Line

inductive Event where
  | start (bufferLines : UInt64)
  | ingest (now : UInt64) (bytes : List UInt8) (due : Bool)
  | flushSidecar (now : UInt64)
  | stop
  | kill (now : UInt64) (bytes : List UInt8) (commits reached : Nat)

section Code

variable (c : LineCodec)

/-- `LineLog::open`. -/
def openLog (bufferLines : UInt64) (d : Dir) : Dir × Log :=
  let segLines := max (bufferLines.toNat / MAX_SEGMENTS) 1
  ({ d.openAppend 0 with sidecar := none },
    ⟨recoverNextSeq c d, segLines, countLines c (d.contents 0), .empty, false⟩)

/-- The line of a commit. -/
def Log.line (log : Log) (x : Commit) : Line := ⟨log.nextSeq, UInt64.ofNat x.ts, x.text, false⟩

/-- What was written to the segments, after a rotation. -/
def shifted (written : Nat → List Line) : Nat → List Line
  | 0 => []
  | k + 1 => written k

/-- `commit`. -/
def Writing.commit (w : Writing) (x : Commit) : Writing :=
  let line := w.log.line x
  let log : Log :=
    { w.log with nextSeq := w.log.nextSeq + 1, activeLines := w.log.activeLines + 1 }
  let dir := w.dir.append 0 (c.record line)
  let written := Function.update w.written 0 (w.written 0 ++ [line])
  if log.segLines ≤ log.activeLines then
    ⟨dir.rotate, { log with activeLines := 0 }, shifted written⟩
  else ⟨dir, log, written⟩

def Writing.commits (w : Writing) (xs : List Commit) : Writing := xs.foldl (Writing.commit c) w

/-- `write_pending_sidecar`. -/
def Log.writePendingSidecar (log : Log) (now : UInt64) (d : Dir) : Dir :=
  if log.pending.pending.isEmpty then { d with sidecar := none }
  else
    let ts := UInt64.ofNat (log.pending.pendingTs.getD now.toNat)
    { d with sidecar := some (c.encode ⟨log.nextSeq, ts, lossy log.pending.pending, true⟩) }

/-- A process that is killed in a `commit` leaves the first `reached` bytes of its record. -/
def State.step (s : State) : Event → Option State
  | .start bufferLines =>
      match s.log with
      | some _ => none
      | none =>
          let (dir, log) := openLog c bufferLines s.dir
          some { s with dir := dir, log := some log }
  | .ingest now bytes due => do
      let log ← s.log
      let (pending, xs) := ingestAt MAX_PENDING now.toNat log.pending bytes
      let w := Writing.commits c ⟨s.dir, { log with pending := pending }, s.written⟩ xs
      if due then
        pure ⟨w.log.writePendingSidecar c now w.dir, some { w.log with sidecarDirty := false },
          w.written⟩
      else pure ⟨w.dir, some { w.log with sidecarDirty := true }, w.written⟩
  | .flushSidecar now => do
      let log ← s.log
      if log.sidecarDirty then
        pure { s with
          dir := log.writePendingSidecar c now s.dir
          log := some { log with sidecarDirty := false } }
      else pure s
  | .stop => s.log.map fun _ => { s with log := none }
  | .kill now bytes commits reached => do
      let log ← s.log
      let (pending, xs) := ingestAt MAX_PENDING now.toNat log.pending bytes
      let x ← xs[commits]?
      let w := Writing.commits c ⟨s.dir, { log with pending := pending }, s.written⟩
        (xs.take commits)
      let record := c.record (w.log.line x)
      if reached < record.length then
        pure ⟨w.dir.append 0 (record.take reached), none, w.written⟩
      else none

end Code

def State.initial : State := ⟨.empty, none, fun _ => []⟩

/-! ### The condition -/

/-- The active segment is empty or ends with a newline. -/
def Clean (d : Dir) : Prop := ∀ b ∈ (d.contents 0).getLast?, b = newline

/-- The bytes end a line, or fill it up. -/
def Completes (p : Pending) (bytes : List UInt8) : Prop :=
  newline ∈ bytes ∨ MAX_PENDING ≤ p.pending.length + bytes.length

/-- No line is completed while the active segment ends in the middle of a record, and the sequence
numbers do not run out. -/
def Condition (s : State) : Event → Prop
  | .ingest _ bytes _ | .kill _ bytes _ _ =>
      ∀ log ∈ s.log, (Completes log.pending bytes → Clean s.dir) ∧
        log.nextSeq.toNat + bytes.length < 2 ^ 64
  | _ => True

instance (d : Dir) : Decidable (Clean d) :=
  inferInstanceAs (Decidable (∀ b ∈ (d.contents 0).getLast?, b = newline))

instance (p : Pending) (bytes : List UInt8) : Decidable (Completes p bytes) :=
  inferInstanceAs (Decidable (_ ∨ _))

instance (s : State) : (ev : Event) → Decidable (Condition s ev)
  | .ingest _ bytes _ | .kill _ bytes _ _ =>
      inferInstanceAs (Decidable (∀ log ∈ s.log, (Completes log.pending bytes → Clean s.dir) ∧
        log.nextSeq.toNat + bytes.length < 2 ^ 64))
  | .start _ | .flushSidecar _ | .stop => inferInstanceAs (Decidable True)

/-- A chunk that completes no line commits none. -/
theorem ingestAt_commits_eq_nil (now : Nat) {p : Pending} {bytes : List UInt8}
    (h : ¬Completes p bytes) : (ingestAt MAX_PENDING now p bytes).2 = [] := by
  induction bytes generalizing p with
  | nil => rfl
  | cons b bytes ih =>
      rw [Completes, List.mem_cons, not_or, not_or, List.length_cons] at h
      obtain ⟨⟨hb, hbytes⟩, hlen⟩ := h
      have hstep : ingestByte MAX_PENDING now p b =
          (⟨p.pending ++ [b], if p.pending.isEmpty then some now else p.pendingTs⟩, []) := by
        have hshort : ¬MAX_PENDING ≤ (p.pending ++ [b]).length := by
          rw [List.length_append, List.length_singleton]
          omega
        rw [ingestByte, if_neg fun heq => hb heq.symm]
        dsimp only
        rw [if_neg hshort]
      have hrest := ih (p := ⟨p.pending ++ [b], if p.pending.isEmpty then some now else p.pendingTs⟩)
        (by
          rw [Completes, not_or]
          refine ⟨hbytes, ?_⟩
          rw [List.length_append, List.length_singleton]
          omega)
      rw [ingestAt, hstep]
      exact hrest

theorem length_commits_le (limit now : Nat) (p : Pending) (bytes : List UInt8) :
    (ingestAt limit now p bytes).2.length ≤ bytes.length := by
  induction bytes generalizing p with
  | nil => exact Nat.le_refl 0
  | cons b bytes ih =>
      have hone : (ingestByte limit now p b).2.length ≤ 1 := by
        rw [ingestByte]
        split
        · exact Nat.le_refl 1
        · dsimp only
          split
          · exact Nat.le_refl 1
          · exact Nat.zero_le 1
      have hrest := ih (ingestByte limit now p b).1
      rw [ingestAt]
      dsimp only
      rw [List.length_append, List.length_cons]
      omega

/-! ### What is on disk -/

/-- The lines written to the segments, in the order they are read in. -/
def retained (written : Nat → List Line) : List Line := readOrder.flatMap written

theorem retained_eq (written : Nat → List Line) :
    retained written = written 4 ++ (written 3 ++ (written 2 ++ (written 1 ++ (written 0 ++ [])))) :=
  rfl

/-- The segments are the records of the lines written to them; behind those of the active one is
`tail`, the beginning of a record. -/
structure Holds (c : LineCodec) (d : Dir) (written : Nat → List Line) (tail : List UInt8) :
    Prop where
  old : ∀ k, 0 < k → k < MAX_SEGMENTS → d.contents k = unlines newline ((written k).map c.encode)
  active : d.contents 0 = unlines newline ((written 0).map c.encode) ++ tail
  torn : ∃ l, tail <+: c.encode l

namespace Holds

variable {c : LineCodec} {d : Dir} {written : Nat → List Line} {tail : List UInt8}

theorem newline_notMem (hc : c.Lawful) (h : Holds c d written tail) : newline ∉ tail := by
  obtain ⟨l, hl⟩ := h.torn
  exact fun hmem => hc.newline_notMem l (hl.subset hmem)

theorem allLines_eq (hc : c.Lawful) (h : Holds c d written tail) :
    allLines c d = retained written ++ lastLine c tail := by
  have hold : ((List.range' 1 (MAX_SEGMENTS - 1)).reverse.flatMap fun k =>
      forEachLine c (d.contents k)) =
        (List.range' 1 (MAX_SEGMENTS - 1)).reverse.flatMap written := by
    refine List.flatMap_congr fun k hk => ?_
    have hrange := List.mem_range'_1.mp (List.mem_reverse.mp hk)
    have hread := forEachLine_eq hc (written k) (List.not_mem_nil (a := newline))
    rw [List.append_nil] at hread
    rw [h.old k hrange.1 hrange.2, hread, lastLine, if_pos rfl, List.append_nil]
  have hactive : forEachLine c (d.contents 0) = written 0 ++ lastLine c tail := by
    rw [h.active, forEachLine_eq hc (written 0) (h.newline_notMem hc)]
  rw [allLines, retained, readOrder, List.flatMap_append, List.flatMap_append, hold,
    List.flatMap_singleton, List.flatMap_singleton, hactive, List.append_assoc]

/-- A segment that is clean ends behind a record. -/
theorem tail_eq_nil (hc : c.Lawful) (h : Holds c d written tail) (hclean : Clean d) :
    tail = [] := by
  rcases List.eq_nil_or_concat tail with hnil | ⟨t, b, htail⟩
  · exact hnil
  · have hb : (d.contents 0).getLast? = some b := by
      rw [h.active, htail, List.concat_eq_append, ← List.append_assoc, List.getLast?_concat]
    have hmem : newline ∈ tail := by
      rw [← hclean b hb, htail, List.concat_eq_append]
      exact List.mem_append_right _ List.mem_cons_self
    exact absurd hmem (h.newline_notMem hc)

theorem append (h : Holds c d written []) (l : Line) :
    Holds c (d.append 0 (c.record l)) (Function.update written 0 (written 0 ++ [l])) [] where
  old k hpos hk := by
    have hne : k ≠ 0 := Nat.ne_of_gt hpos
    rw [Dir.contents_append, Function.update_of_ne hne, Function.update_of_ne hne, h.old k hpos hk]
  active := by
    rw [Dir.contents_append, Function.update_self, Function.update_self, h.active, List.append_nil,
      List.append_nil, List.map_append, unlines_append]
    exact congrArg _ (List.append_nil _).symm
  torn := ⟨l, List.nil_prefix⟩

theorem rotate (h : Holds c d written []) : Holds c d.rotate (shifted written) [] where
  old k hpos hk := by
    obtain ⟨k, rfl⟩ := Nat.exists_eq_succ_of_ne_zero (Nat.ne_of_gt hpos)
    have hk' : k < MAX_SEGMENTS - 1 := Nat.lt_sub_of_add_lt hk
    rw [d.contents_rotate.2 k hk']
    cases k with
    | zero =>
        have hactive := h.active
        rwa [List.append_nil] at hactive
    | succ k => exact h.old (k + 1) (Nat.succ_pos k) (Nat.lt_of_succ_lt hk)
  active := d.contents_rotate.1
  torn := h.torn

end Holds

/-- The lines are in order, and the next number is above theirs. -/
structure Ordered (next : UInt64) (ls : List Line) : Prop where
  sorted : ls.Pairwise fun l m => l.seq < m.seq
  below : ∀ l ∈ ls, l.seq < next

theorem Ordered.concat {next : UInt64} {ls : List Line} (h : Ordered next ls)
    (hnext : next.toNat + 1 < 2 ^ 64) {l : Line} (hl : l.seq = next) :
    Ordered (next + 1) (ls ++ [l]) where
  sorted := by
    refine List.pairwise_append.mpr ⟨h.sorted, List.pairwise_singleton _ _, fun m hm x hx => ?_⟩
    rw [List.mem_singleton.mp hx, hl]
    exact h.below m hm
  below m hm := by
    rw [UInt64.lt_iff_toNat_lt, toNat_succ hnext]
    rcases List.mem_append.mp hm with hm | hm
    · exact Nat.lt_succ_of_lt (UInt64.lt_iff_toNat_lt.mp (h.below m hm))
    · rw [List.mem_singleton.mp hm, hl]
      exact Nat.lt_succ_self _

theorem Ordered.sublist {next : UInt64} {ls ms : List Line} (h : Ordered next ls)
    (hsub : ms.Sublist ls) : Ordered next ms :=
  ⟨h.sorted.sublist hsub, fun l hl => h.below l (hsub.subset hl)⟩

theorem retained_concat (written : Nat → List Line) (l : Line) :
    retained (Function.update written 0 (written 0 ++ [l])) = retained written ++ [l] := by
  have hne : ∀ k, Function.update written 0 (written 0 ++ [l]) (k + 1) = written (k + 1) :=
    fun k => Function.update_of_ne (Nat.succ_ne_zero k) _ _
  rw [retained_eq, retained_eq, hne, hne, hne, hne, Function.update_self]
  simp only [List.append_assoc, List.append_nil]

theorem retained_shifted (written : Nat → List Line) :
    (retained (shifted written)).Sublist (retained written) := by
  have hshifted : retained (shifted written) =
      written 3 ++ (written 2 ++ (written 1 ++ (written 0 ++ []))) := rfl
  rw [hshifted, retained_eq]
  exact List.sublist_append_right _ _

/-! ### One commit after the other -/

/-- A running process with nothing torn behind the records. -/
structure Live (c : LineCodec) (w : Writing) : Prop where
  holds : Holds c w.dir w.written []
  ordered : Ordered w.log.nextSeq (retained w.written)

namespace Live

variable {c : LineCodec} {w : Writing}

theorem commit (h : Live c w) (hnext : w.log.nextSeq.toNat + 1 < 2 ^ 64) (x : Commit) :
    Live c (w.commit c x) ∧ (w.commit c x).log.nextSeq = w.log.nextSeq + 1 := by
  have hholds := h.holds.append (w.log.line x)
  have hordered := h.ordered.concat hnext (l := w.log.line x) rfl
  rw [← retained_concat] at hordered
  rw [Writing.commit]
  dsimp only
  split
  · exact ⟨⟨hholds.rotate, hordered.sublist (retained_shifted _)⟩, rfl⟩
  · exact ⟨⟨hholds, hordered⟩, rfl⟩

theorem commits (h : Live c w) {xs : List Commit}
    (hnext : w.log.nextSeq.toNat + xs.length < 2 ^ 64) :
    Live c (w.commits c xs) ∧
      (w.commits c xs).log.nextSeq.toNat = w.log.nextSeq.toNat + xs.length := by
  induction xs generalizing w with
  | nil => exact ⟨h, rfl⟩
  | cons x xs ih =>
      rw [List.length_cons] at hnext
      have hone : w.log.nextSeq.toNat + 1 < 2 ^ 64 := by omega
      obtain ⟨hlive, hseq⟩ := h.commit hone x
      have hseq' : (w.commit c x).log.nextSeq.toNat = w.log.nextSeq.toNat + 1 := by
        rw [hseq, toNat_succ hone]
      obtain ⟨hrest, hlast⟩ := ih hlive (by omega)
      refine ⟨hrest, ?_⟩
      rw [Writing.commits, List.foldl_cons, ← Writing.commits, hlast, hseq', List.length_cons]
      omega

end Live

/-! ### Runs -/

/-- What holds of the directory, and of the process where it runs. -/
structure Inv (c : LineCodec) (s : State) : Prop where
  holds : ∃ tail, Holds c s.dir s.written tail
  sorted : (allLines c s.dir).Pairwise fun l m => l.seq < m.seq
  fits : ∀ l ∈ allLines c s.dir, l.seq.toNat + 1 < 2 ^ 64
  below : ∀ log ∈ s.log, ∀ l ∈ allLines c s.dir, l.seq < log.nextSeq

theorem fits_of_below {next : UInt64} {ls : List Line} (h : ∀ l ∈ ls, l.seq < next) :
    ∀ l ∈ ls, l.seq.toNat + 1 < 2 ^ 64 := by
  intro l hl
  have hlt := UInt64.lt_iff_toNat_lt.mp (h l hl)
  have hmax := next.toNat_lt
  omega

theorem allLines_congr {c : LineCodec} {d e : Dir} (h : d.contents = e.contents) :
    allLines c d = allLines c e := by
  rw [allLines, allLines, h]

theorem Holds.congr {c : LineCodec} {d e : Dir} {written : Nat → List Line} {tail : List UInt8}
    (h : Holds c d written tail) (heq : e.contents = d.contents) : Holds c e written tail where
  old k hpos hk := by rw [heq, h.old k hpos hk]
  active := by rw [heq, h.active]
  torn := h.torn

/-- Only the contents of the segments matter, and the next number of the process. -/
theorem Inv.congr {c : LineCodec} {s t : State} (h : Inv c s)
    (hdir : t.dir.contents = s.dir.contents) (hwritten : t.written = s.written)
    (hlog : ∀ log ∈ t.log, ∃ old ∈ s.log, log.nextSeq = old.nextSeq) : Inv c t where
  holds := by
    obtain ⟨tail, htail⟩ := h.holds
    rw [hwritten]
    exact ⟨tail, htail.congr hdir⟩
  sorted := by
    rw [allLines_congr hdir]
    exact h.sorted
  fits := by
    rw [allLines_congr hdir]
    exact h.fits
  below log hmem := by
    obtain ⟨old, hold, hseq⟩ := hlog log hmem
    rw [allLines_congr hdir, hseq]
    exact h.below old hold

theorem contents_writePendingSidecar (c : LineCodec) (log : Log) (now : UInt64) (d : Dir) :
    (log.writePendingSidecar c now d).contents = d.contents := by
  rw [Log.writePendingSidecar]
  split <;> rfl

/-- The lines committed by a chunk, before any of them is torn. -/
theorem Inv.live {c : LineCodec} (hc : c.Lawful) {s : State} (h : Inv c s) {log : Log}
    (hlog : log ∈ s.log) (hclean : Clean s.dir) (pending : Pending) :
    Live c ⟨s.dir, { log with pending := pending }, s.written⟩ := by
  obtain ⟨tail, htail⟩ := h.holds
  have hnil := htail.tail_eq_nil hc hclean
  rw [hnil] at htail
  have hall : allLines c s.dir = retained s.written := by
    rw [htail.allLines_eq hc, lastLine, if_pos rfl, List.append_nil]
  refine ⟨htail, ?_, ?_⟩
  · rw [← hall]
    exact h.sorted
  · rw [← hall]
    exact h.below log hlog

/-- What a process that runs on has made of the directory. -/
theorem Live.inv {c : LineCodec} (hc : c.Lawful) {w : Writing} (h : Live c w) {log : Log}
    (hlog : log.nextSeq = w.log.nextSeq) : Inv c ⟨w.dir, some log, w.written⟩ := by
  have hall : allLines c w.dir = retained w.written := by
    rw [h.holds.allLines_eq hc, lastLine, if_pos rfl, List.append_nil]
  have hbelow : ∀ l ∈ allLines c w.dir, l.seq < w.log.nextSeq := by
    rw [hall]
    exact h.ordered.below
  refine ⟨⟨[], h.holds⟩, ?_, fits_of_below hbelow, fun log' hlog' => ?_⟩
  · rw [hall]
    exact h.ordered.sorted
  · cases hlog'
    rw [hlog]
    exact hbelow

/-- A process that is killed in the middle of a record leaves the beginning of it. -/
theorem Live.inv_torn {c : LineCodec} (hc : c.Lawful) {w : Writing} (h : Live c w)
    (hnext : w.log.nextSeq.toNat + 1 < 2 ^ 64) (x : Commit) {reached : Nat}
    (hreached : reached < (c.record (w.log.line x)).length) :
    Inv c ⟨w.dir.append 0 ((c.record (w.log.line x)).take reached), none, w.written⟩ := by
  have hprefix : (c.record (w.log.line x)).take reached <+: c.encode (w.log.line x) := by
    rw [LineCodec.record, List.length_append, List.length_singleton] at hreached
    rw [LineCodec.record, List.take_append_of_le_length (Nat.le_of_lt_succ hreached)]
    exact List.take_prefix _ _
  have hholds : Holds c (w.dir.append 0 ((c.record (w.log.line x)).take reached)) w.written
      ((c.record (w.log.line x)).take reached) := by
    refine ⟨fun k hpos hk => ?_, ?_, ⟨_, hprefix⟩⟩
    · rw [Dir.contents_append, Function.update_of_ne (Nat.ne_of_gt hpos), h.holds.old k hpos hk]
    · rw [Dir.contents_append, Function.update_self, h.holds.active, List.append_nil]
  have hordered : Ordered (w.log.nextSeq + 1) (allLines c
      (w.dir.append 0 ((c.record (w.log.line x)).take reached))) := by
    have hconcat := h.ordered.concat hnext (l := w.log.line x) rfl
    rw [hholds.allLines_eq hc]
    rcases lastLine_of_prefix hc hprefix with hlast | hlast
    · rw [hlast, List.append_nil]
      exact hconcat.sublist (List.sublist_append_left _ _)
    · rw [hlast]
      exact hconcat
  exact ⟨⟨_, hholds⟩, hordered.sorted, fits_of_below hordered.below, nofun⟩

/-- The lines that a chunk completes are committed behind whole records, if there are any. -/
theorem Inv.commits {c : LineCodec} (hc : c.Lawful) {s : State} (h : Inv c s) {log : Log}
    (hlog : log ∈ s.log) {now : Nat} {bytes : List UInt8}
    (hcond : Completes log.pending bytes → Clean s.dir) {pending : Pending} {xs : List Commit}
    (hxs : ingestAt MAX_PENDING now log.pending bytes = (pending, xs)) :
    xs = [] ∨ Live c ⟨s.dir, { log with pending := pending }, s.written⟩ := by
  by_cases hcompletes : Completes log.pending bytes
  · exact Or.inr (h.live hc hlog (hcond hcompletes) pending)
  · left
    have hnil := ingestAt_commits_eq_nil now hcompletes
    rwa [hxs] at hnil

theorem Inv.step {c : LineCodec} (hc : c.Lawful) {s t : State} {ev : Event} (h : Inv c s)
    (hcond : Condition s ev) (hstep : s.step c ev = some t) : Inv c t := by
  cases ev with
  | start bufferLines =>
      rw [State.step] at hstep
      cases hlog : s.log with
      | some log =>
          rw [hlog] at hstep
          cases hstep
      | none =>
          rw [hlog] at hstep
          cases hstep
          have hdir : ({ s.dir.openAppend 0 with sidecar := none } : Dir).contents =
              s.dir.contents := s.dir.contents_openAppend 0
          have hdead : Inv c ⟨{ s.dir.openAppend 0 with sidecar := none }, none, s.written⟩ :=
            h.congr hdir rfl nofun
          refine ⟨hdead.holds, hdead.sorted, hdead.fits, fun log hmem l hl => ?_⟩
          cases hmem
          rw [allLines_congr hdir] at hl
          exact lt_recoverNextSeq h.fits hl
  | ingest now bytes due =>
      obtain ⟨log, hlog, hstep⟩ := Option.bind_eq_some_iff.mp hstep
      cases hxs : ingestAt MAX_PENDING now.toNat log.pending bytes with
      | mk pending xs =>
          rw [hxs] at hstep
          dsimp only at hstep
          obtain ⟨hclean, hbound⟩ := hcond log hlog
          have hlen := length_commits_le MAX_PENDING now.toNat log.pending bytes
          rw [hxs] at hlen
          have hafter : Inv c ⟨(Writing.commits c ⟨s.dir, { log with pending := pending },
              s.written⟩ xs).dir, some (Writing.commits c ⟨s.dir, { log with pending := pending },
                s.written⟩ xs).log, (Writing.commits c ⟨s.dir, { log with pending := pending },
                  s.written⟩ xs).written⟩ := by
            rcases h.commits hc hlog hclean hxs with rfl | hlive
            · refine h.congr rfl rfl fun new hnew => ⟨log, hlog, ?_⟩
              cases hnew
              rfl
            · exact ((hlive.commits (Nat.lt_of_le_of_lt (Nat.add_le_add_left hlen _) hbound)).1).inv
                hc rfl
          split at hstep
          · cases hstep
            refine hafter.congr (contents_writePendingSidecar ..) rfl fun new hnew => ⟨_, rfl, ?_⟩
            cases hnew
            rfl
          · cases hstep
            refine hafter.congr rfl rfl fun new hnew => ⟨_, rfl, ?_⟩
            cases hnew
            rfl
  | flushSidecar now =>
      obtain ⟨log, hlog, hstep⟩ := Option.bind_eq_some_iff.mp hstep
      split at hstep
      · cases hstep
        refine h.congr (contents_writePendingSidecar ..) rfl fun new hnew => ⟨log, hlog, ?_⟩
        cases hnew
        rfl
      · cases hstep
        exact h
  | stop =>
      obtain ⟨log, -, rfl⟩ := Option.map_eq_some_iff.mp hstep
      exact h.congr rfl rfl nofun
  | kill now bytes commits reached =>
      obtain ⟨log, hlog, hstep⟩ := Option.bind_eq_some_iff.mp hstep
      cases hxs : ingestAt MAX_PENDING now.toNat log.pending bytes with
      | mk pending xs =>
          rw [hxs] at hstep
          obtain ⟨x, hx, hstep⟩ := Option.bind_eq_some_iff.mp hstep
          dsimp only at hstep
          split at hstep
          · next hreached =>
              cases hstep
              obtain ⟨hclean, hbound⟩ := hcond log hlog
              have hlen := length_commits_le MAX_PENDING now.toNat log.pending bytes
              rw [hxs] at hlen
              obtain ⟨hlt, -⟩ := List.getElem?_eq_some_iff.mp hx
              rcases h.commits hc hlog hclean hxs with rfl | hlive
              · cases hx
              · have htake : (xs.take commits).length = commits :=
                  List.length_take_of_le (Nat.le_of_lt hlt)
                have hfew : log.nextSeq.toNat + (xs.take commits).length < 2 ^ 64 := by
                  rw [htake]
                  dsimp only at hlen
                  omega
                obtain ⟨hafter, hseq⟩ := hlive.commits hfew
                refine hafter.inv_torn hc ?_ x hreached
                rw [hseq, htake]
                dsimp only at hlen ⊢
                omega
          · cases hstep

theorem inv_initial (c : LineCodec) : Inv c State.initial := by
  have hnil : ∀ k, State.initial.dir.contents k = [] := fun k => rfl
  have hall : allLines c State.initial.dir = [] := rfl
  refine ⟨⟨[], fun k _ _ => hnil k, hnil 0, ⟨⟨0, 0, "", false⟩, List.nil_prefix⟩⟩, ?_, ?_, nofun⟩
  · rw [hall]
    exact List.Pairwise.nil
  · rw [hall]
    exact nofun

/-- In a run that writes no record behind a torn one, every line written to a segment that is there
yet is read, and whatever is selected is in the order of the sequence numbers. -/
theorem readable_of_meets {c : LineCodec} (hc : c.Lawful) {evs : List Event} {s : State}
    (hmeets : Machine.meets (State.step c) Condition State.initial evs)
    (hrun : Machine.run (State.step c) State.initial evs = some s) :
    (∀ k < MAX_SEGMENTS, ∀ l ∈ s.written k, l ∈ readLines c s.dir .all) ∧
      ∀ q, ((readLines c s.dir q).map Line.seq).Pairwise (· < ·) := by
  have hinv : Inv c s := Machine.run_history_of_meets (P := fun _ t => Inv c t) (inv_initial c)
    (fun _ m ev t _ hm hcond hstep => hm.step hc hcond hstep) evs s hmeets hrun
  obtain ⟨tail, htail⟩ := hinv.holds
  refine ⟨fun k hk l hl => ?_, fun q => ?_⟩
  · rw [readLines_all, htail.allLines_eq hc]
    refine List.mem_append_left _ (List.mem_flatMap.mpr ⟨k, ?_, hl⟩)
    have hcases : k = 0 ∨ k = 1 ∨ k = 2 ∨ k = 3 ∨ k = 4 := by
      rw [MAX_SEGMENTS] at hk
      omega
    rcases hcases with rfl | rfl | rfl | rfl | rfl <;> decide
  · exact List.pairwise_map.mpr (pairwise_readLines hinv.sorted q)

/-- A log that is written to, closed, reopened with smaller segments and written to again. -/
def reopened : List Event :=
  [.start 50000, .ingest 1 [97, 10] true, .stop, .start 5, .ingest 2 [98, 10, 99] true]

theorem readable_of_meets_reopened :
    ∃ s, Machine.run (State.step lineCodec) State.initial reopened = some s ∧
      ∀ k < MAX_SEGMENTS, ∀ l ∈ s.written k, l ∈ readLines lineCodec s.dir .all := by
  have hmeets : Machine.check (State.step lineCodec) (fun s ev => decide (Condition s ev))
      State.initial reopened = true := by decide +kernel
  have hrun : (Machine.run (State.step lineCodec) State.initial reopened).isSome = true := by
    decide +kernel
  obtain ⟨s, hs⟩ := Option.isSome_iff_exists.mp hrun
  exact ⟨s, hs, (readable_of_meets lineCodec_lawful
    (Machine.meets_of_check (fun _ _ => of_decide_eq_true) hmeets) hs).1⟩

/-- The second line is torn when the process is killed; the next one is appended right behind it. -/
def tornThenReopened : List Event :=
  [.start 50000, .ingest 1 [97, 10] true, .kill 2 [98, 10] 0 9, .start 50000,
    .ingest 3 [99, 10] true]

theorem not_readable_torn :
    ¬∀ s, Machine.run (State.step lineCodec) State.initial tornThenReopened = some s →
      ∀ k < MAX_SEGMENTS, ∀ l ∈ s.written k, l ∈ readLines lineCodec s.dir .all := by
  intro h
  have hrun : ((Machine.run (State.step lineCodec) State.initial tornThenReopened).any fun s =>
      decide (⟨1, 3, "c", false⟩ ∈ s.written 0) &&
        decide (⟨1, 3, "c", false⟩ ∉ readLines lineCodec s.dir .all)) = true := by decide +kernel
  obtain ⟨s, hs, hfacts⟩ := (Option.any_eq_true _ _).mp hrun
  obtain ⟨hwritten, hmissing⟩ := Bool.and_eq_true_iff.mp hfacts
  exact of_decide_eq_true hmissing (h s hs 0 (by decide) _ (of_decide_eq_true hwritten))

end LineLog

end Serialcap

end Paniolo
