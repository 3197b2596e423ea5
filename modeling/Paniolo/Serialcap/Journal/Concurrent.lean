import Paniolo.Serialcap.Journal.CleanRead
import Paniolo.Serialcap.Journal.Json
import Paniolo.Serialcap.Journal.Numbered

/-!
# Reading while the writer appends

One reader runs beside the writer, file operation by file operation: it reads
the checkpoint, opens the segments oldest first and then reads what it opened,
while records are appended and segments rotate under it. A read that raises no
flag returns exactly the records up to the cursor that its checkpoint had as
received.
-/

namespace Paniolo

namespace Serialcap

namespace Journal

/-- The reader: the checkpoint once it has it, how many names are left to open, the descriptors
that are not read yet, the length that `metadata` gave for the first of them, and the segments
that are read. A file only grows, so reading it piece by piece until it ends gives what it holds
at the end. -/
structure Reader where
  file : Option StateFile := none
  unopened : Nat := SEGMENTS
  opened : List (Nat × Nat) := []
  len : Option Nat := none
  segments : List Segment := []

namespace Reader

def step (r : Reader) (d : Disk) : Option Reader :=
  match r.file, r.unopened, r.opened, r.len with
  | none, _, _, _ => some { r with file := some d.stateFile }
  | some _, index + 1, _, _ =>
      match d.slot index with
      | some f =>
          some { r with
            unopened := index
            opened := r.opened ++ [(index, f)] }
      | none => some { r with unopened := index }
  | some _, 0, (_, f) :: _, none => some { r with len := some (d.content f).length }
  | some _, 0, (index, f) :: rest, some n =>
      some { r with
        opened := rest
        len := none
        segments := r.segments ++ [⟨index, some n, d.content f, none⟩] }
  | some _, 0, [], _ => none

/-- What `read` returns once everything is read. -/
def result (c : RecordCodec) (now : Nat) (q : Query) (r : Reader) (d : Disk) :
    Option (Except String Evidence) :=
  match r.file, r.unopened, r.opened with
  | some file, 0, [] =>
      some (read c now q file (r.segments.map OpenedSegment.opened)
        ((List.range SEGMENTS).map d.failureFile))
  | _, _, _ => none

end Reader

structure System where
  world : World
  reader : Reader := {}

inductive SystemAction where
  | append (r : ReceiveRecord)
  | op (k : Nat)
  | read
deriving DecidableEq

/-- The writer appends and performs file operations that do not fail; the reader reads. -/
def systemStep (c : RecordCodec) (segmentBytes : Nat) (s : System) : SystemAction → Option System
  | .append r => (step c segmentBytes s.world (.append r)).map fun t => { s with world := t }
  | .op k => (step c segmentBytes s.world (.op k)).map fun t => { s with world := t }
  | .read => (s.reader.step s.world.disk).map fun r => { s with reader := r }

/-! ### The epoch being received -/

/-- A checkpoint of the epoch `e`: what is persisted was received. -/
def WriterState.Of (e : String) (state : WriterState) : Prop :=
  ∃ n p, state.lastReceived = some ⟨e, n⟩ ∧ state.persisted = some ⟨e, p⟩ ∧ p ≤ n

structure Receiving (e : String) (s : World) : Prop where
  checkpoint : ∃ state, s.disk.checkpoint = some state ∧ state.Of e
  writer : ∃ w, s.writer = some w ∧ w.state.Of e

variable {c : RecordCodec} {segmentBytes : Nat} {e : String}

theorem receiving_perform {k : Nat} {s t : World} {w : Writer} (h : Receiving e s)
    (hnum : Numbered s) (hw : s.writer = some w)
    (hstep : perform c segmentBytes k s w = some t) : Receiving e t := by
  obtain ⟨hckpt, w', hw', hof⟩ := h
  rw [hw] at hw'
  cases hw'
  rw [perform] at hstep
  cases hstage : w.stage with
  | idle =>
      rw [hstage] at hstep
      cases hstep
  | startEpoch | publish r | publishFailure =>
      rw [hstage] at hstep
      cases hstep
      exact ⟨⟨_, rfl, hof⟩, _, rfl, hof⟩
  | checkSize r =>
      rw [hstage] at hstep
      dsimp only at hstep
      split at hstep
      · cases hstep
        exact ⟨hckpt, _, rfl, hof⟩
      · cases hstep
        exact ⟨hckpt, _, rfl, hof⟩
  | remove r index | write r f rest | archiveRemove r index | archiveWrite r =>
      rw [hstage] at hstep
      cases hstep
      exact ⟨hckpt, _, rfl, hof⟩
  | rename r index =>
      rw [hstage] at hstep
      cases hstep
      refine ⟨?_, _, rfl, hof⟩
      dsimp only [World.goto, World.withDisk]
      rw [Disk.rename_checkpoint]
      exact hckpt
  | openActive r =>
      rw [hstage] at hstep
      cases hstep
      refine ⟨?_, _, rfl, hof⟩
      dsimp only [World.goto, World.withDisk]
      rw [Disk.openActive_checkpoint]
      exact hckpt
  | persist r f =>
      have hcur := hnum.stage w r hw (by rw [hstage]; rfl)
      rw [hstage] at hstep
      cases hstep
      have hof' : ({ w.state with persisted := some r.cursor } : WriterState).Of e := by
        obtain ⟨n, p, hlast, -, -⟩ := hof
        exact ⟨n, n, hlast, hcur.symm.trans hlast, Nat.le_refl n⟩
      exact ⟨⟨_, rfl, hof'⟩, _, rfl, hof'⟩
  | archiveRename r index =>
      rw [hstage] at hstep
      cases hstep
      refine ⟨?_, _, rfl, hof⟩
      dsimp only [World.goto, World.withDisk]
      rw [Disk.renameFailure_checkpoint]
      exact hckpt

theorem receiving_append {s t : World} {r : ReceiveRecord} (h : Receiving e s)
    (hstep : step c segmentBytes s (.append r) = some t) : Receiving e t := by
  obtain ⟨hckpt, w, hw, hof⟩ := h
  rw [step, hw] at hstep
  dsimp only at hstep
  split at hstep
  · rename_i hnext
    cases hstep
    obtain ⟨m, hlast, hrx⟩ := exists_cursor_of_nextRecord hnext.2
    obtain ⟨n, p, hlast', hpers, hle⟩ := hof
    rw [hlast] at hlast'
    obtain ⟨hepoch, hmn⟩ : r.epoch = e ∧ m = n := by simpa using hlast'
    refine ⟨hckpt, _, rfl, n + 1, p, ?_, hpers, Nat.le_succ_of_le hle⟩
    rw [ReceiveRecord.cursor, hepoch, hrx, hmn]
  · cases hstep

/-! ### The reader beside the writer -/

/-- What holds in every state of the system, `s₀` being the state in which `start_epoch` left the
writer. -/
structure Observed (c : RecordCodec) (e : String) (s₀ : World) (s : System) : Prop where
  sound : Sound c s.world
  numbered : Numbered s.world
  epochs : s.world.epochs = s₀.epochs
  receiving : Receiving e s.world
  file : ∀ f, s.reader.file = some f → ∃ state, f = .parsed state ∧ state.Of e
  pieces : ∀ g ∈ s.reader.segments, ∀ p ∈ g.pieces, ∀ r, pieceRecord c p = some r →
    r ∈ s.world.appended

theorem appended_append {s t : World} {r : ReceiveRecord}
    (h : step c segmentBytes s (.append r) = some t) :
    t.appended = s.appended ++ [r] ∧ t.epochs = s.epochs := by
  rw [step] at h
  split at h
  · split at h
    · cases h
      exact ⟨rfl, rfl⟩
    · cases h
  · cases h

/-- Nothing that the reader has is touched by a step of the writer. -/
theorem Observed.writer_step {s₀ t : World} {s : System} {a : Action} (hc : c.Lawful)
    (h : Observed c e s₀ s) (hstep : step c segmentBytes s.world a = some t)
    (hepochs : t.epochs = s.world.epochs) (hsub : s.world.appended ⊆ t.appended)
    (hrec : Receiving e t) : Observed c e s₀ { s with world := t } where
  sound := sound_step hc h.sound hstep
  numbered := numbered_step h.numbered hstep
  epochs := hepochs.trans h.epochs
  receiving := hrec
  file := h.file
  pieces := fun g hg p hp r hr => hsub (h.pieces g hg p hp r hr)

/-- A segment that is read now gives records that were appended. -/
theorem Observed.mem_appended {s₀ : World} {s : System} (h : Observed c e s₀ s) {index f n : Nat}
    {p : List UInt8} (hp : p ∈ (Segment.mk index (some n) (s.world.disk.content f) none).pieces)
    {r : ReceiveRecord} (hr : pieceRecord c p = some r) : r ∈ s.world.appended :=
  (h.sound.legible f).mem_of_piece SCAN_SEGMENT_BYTES hp hr

theorem observed_read {s₀ : World} {s : System} {r : Reader} (h : Observed c e s₀ s)
    (hstep : s.reader.step s.world.disk = some r) : Observed c e s₀ { s with reader := r } := by
  rw [Reader.step] at hstep
  split at hstep
  · -- the checkpoint
    cases hstep
    refine ⟨h.sound, h.numbered, h.epochs, h.receiving, fun f hf => ?_, h.pieces⟩
    obtain ⟨state, hckpt, hof⟩ := h.receiving.checkpoint
    cases hf
    exact ⟨state, by rw [Disk.stateFile, hckpt], hof⟩
  · split at hstep
    · cases hstep
      exact ⟨h.sound, h.numbered, h.epochs, h.receiving, h.file, h.pieces⟩
    · cases hstep
      exact ⟨h.sound, h.numbered, h.epochs, h.receiving, h.file, h.pieces⟩
  · cases hstep
    exact ⟨h.sound, h.numbered, h.epochs, h.receiving, h.file, h.pieces⟩
  · -- the contents of a descriptor
    cases hstep
    refine ⟨h.sound, h.numbered, h.epochs, h.receiving, h.file, fun g hg p hp o ho => ?_⟩
    rcases List.mem_append.mp hg with hg | hg
    · exact h.pieces g hg p hp o ho
    · rw [List.mem_singleton.mp hg] at hp
      exact h.mem_appended hp ho
  · cases hstep

theorem observed_step {s₀ : World} {s t : System} {a : SystemAction} (hc : c.Lawful)
    (h : Observed c e s₀ s) (hstep : systemStep c segmentBytes s a = some t) :
    Observed c e s₀ t := by
  cases a with
  | append r =>
      obtain ⟨w, hw, rfl⟩ := Option.map_eq_some_iff.mp hstep
      obtain ⟨happended, hepochs⟩ := appended_append hw
      refine h.writer_step hc hw hepochs ?_ (receiving_append h.receiving hw)
      rw [happended]
      exact List.subset_append_left _ _
  | op k =>
      obtain ⟨t', ht, rfl⟩ := Option.map_eq_some_iff.mp hstep
      obtain ⟨w, hw, hperform⟩ := Option.bind_eq_some_iff.mp ht
      obtain ⟨happended, hepochs, -⟩ := perform_frame hperform
      refine h.writer_step hc ht hepochs ?_ (receiving_perform h.receiving h.numbered hw hperform)
      rw [happended]
      exact List.Subset.refl _
  | read =>
      obtain ⟨r, hr, rfl⟩ := Option.map_eq_some_iff.mp hstep
      exact observed_read h hr

theorem observed_run {s₀ : World} {as : List Action} {bs : List SystemAction} {s : System}
    (hc : c.Lawful) (h₀ : Machine.run (step c segmentBytes) {} as = some s₀)
    (hw : s₀.writer = some ⟨startState e, false, .idle⟩)
    (hckpt : s₀.disk.checkpoint = some (startState e))
    (hrun : Machine.run (systemStep c segmentBytes) ⟨s₀, {}⟩ bs = some s) :
    Observed c e s₀ s := by
  have hof : (startState e).Of e := ⟨0, 0, rfl, rfl, Nat.le_refl 0⟩
  refine Machine.run_induct ⟨sound_run hc h₀, numbered_run h₀, rfl,
    ⟨⟨_, hckpt, hof⟩, ⟨startState e, false, .idle⟩, hw, hof⟩, fun f hf => ?_,
    fun g hg => ?_⟩
    (fun _ _ _ => observed_step hc) hrun
  · cases hf
  · cases hg

/-- A record that the checkpoint of its epoch vouches for was persisted by then. -/
theorem rxSeq_le_of_vouched {state : WriterState} {r : ReceiveRecord} {n p : Nat}
    (hlast : state.lastReceived = some ⟨r.epoch, n⟩)
    (hpers : state.persisted = some ⟨r.epoch, p⟩)
    (h : notPersisted (some state) r = false) : r.rxSeq ≤ p := by
  simpa [notPersisted, hlast, hpers] using h

/-- Two lists in receive order with the same records are the same. -/
theorem eq_of_mem_iff {l m : List ReceiveRecord} (hl : l.Pairwise fun a b => a.rxSeq < b.rxSeq)
    (hm : m.Pairwise fun a b => a.rxSeq < b.rxSeq) (h : ∀ r, r ∈ l ↔ r ∈ m) : l = m := by
  have hnodup : ∀ {k : List ReceiveRecord}, (k.Pairwise fun a b => a.rxSeq < b.rxSeq) →
      k.Nodup := fun hk => hk.imp fun hlt heq => absurd (congrArg ReceiveRecord.rxSeq heq)
        (Nat.ne_of_lt hlt)
  have hperm := (List.perm_ext_iff_of_nodup (hnodup hl) (hnodup hm)).mpr h
  exact hperm.eq_of_pairwise (fun a b _ _ hab hba => absurd hab (Nat.lt_asymm hba)) hl hm

theorem openedSegments_map_opened (files : List Segment) :
    openedSegments (files.map OpenedSegment.opened) = files := by
  rw [openedSegments, List.filterMap_map]
  exact List.filterMap_some

/-- A clean read of the epoch being received, by a checkpoint that has `r` as received: the
records up to `r`, if nothing but appended records can be read from the segments. -/
theorem CleanRead.records_eq {q : Query} {state : WriterState} {files : List Segment}
    {ev : Evidence} {s : World} {r p : Nat} (h : CleanRead c q (some state) files ev)
    (hnum : Numbered s) (hepoch : ev.epoch = some e)
    (hlast : state.lastReceived = some ⟨e, r⟩) (hpers : state.persisted = some ⟨e, p⟩)
    (hle : p ≤ r)
    (hpieces : ∀ b ∈ files.flatMap Segment.pieces, ∀ a, pieceRecord c b = some a →
      a ∈ s.appended) :
    ev.records = ((epochRecords s.appended e).filter fun a =>
      q.since.getD 0 < a.rxSeq ∧ a.rxSeq ≤ r) := by
  have hmem : ∀ a ∈ ev.records, a ∈ s.appended ∧ a.epoch = e ∧ q.since.getD 0 < a.rxSeq ∧
      a.rxSeq ≤ r := by
    intro a ha
    obtain ⟨⟨b, hb, hba⟩, hae, hsince⟩ := h.mem_records.mp ha
    rw [hepoch] at hae
    cases hae
    obtain ⟨o, ho, hvouched⟩ := h.vouched b hb
    rw [hba] at ho
    cases ho
    have hp := rxSeq_le_of_vouched hlast hpers hvouched
    exact ⟨hpieces b hb a hba, rfl, hsince, Nat.le_trans hp hle⟩
  refine eq_of_mem_iff h.pairwise_records ((hnum.pairwise_epochRecords e).filter _) fun a => ?_
  rw [List.mem_filter, mem_epochRecords, decide_eq_true_iff]
  constructor
  · intro ha
    obtain ⟨happ, hae, hrange⟩ := hmem a ha
    exact ⟨⟨happ, hae⟩, hrange⟩
  · rintro ⟨⟨happ, hae⟩, hsince, har⟩
    -- the checkpoint is caught up with, so nothing up to its cursor can be missing
    obtain ⟨cur, hcur, hrcur⟩ := h.caught_up _ hlast hepoch
    obtain ⟨b, hb, o, ho, hoe, rfl⟩ := h.exists_piece_latest hcur
    obtain ⟨x, hx, hxrx⟩ := h.exists_mem_records hb ho hoe hsince (Nat.le_trans har hrcur)
    obtain ⟨hxapp, hxe, -⟩ := hmem x hx
    rwa [hnum.eq_of_cursor happ hxapp (hae.trans hxe.symm) hxrx.symm]

/-- Two chunks with a rotation between them; when the third is appended, behind another rotation,
the reader has the checkpoint and all descriptors but has read nothing yet. -/
def rotatingRun : List SystemAction :=
  .append (chunk "7-1" 1 [104]) :: List.replicate 6 (.op 60) ++
  .append (chunk "7-1" 2 [105]) :: List.replicate 14 (.op 60) ++ List.replicate 7 .read ++
  .append (chunk "7-1" 3 [106]) :: List.replicate 12 (.op 60) ++ List.replicate 3 .read

end Journal

end Serialcap

end Paniolo
