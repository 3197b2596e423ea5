import Paniolo.Library.Machine
import Paniolo.Serialcap.Journal.Read
import Mathlib.Logic.Function.Basic

/-!
# The journal writer

`Journal` and the directory it writes to, one file operation at a time. The
capture thread opens the journal, starts a fresh epoch and appends what it
receives; any operation may fail, a write may stop after any of its bytes, and
the process may end between any two operations. Files are reached by name, but
a descriptor keeps the file that it opened, so names (`slot`) and contents are
separate.
-/

namespace Paniolo

namespace Serialcap

namespace Journal

/-- The capture directory: the checkpoint, which file each segment name refers to, the contents of
all files ever created, and the failure archives. Slot 0 is the active segment. -/
structure Disk where
  checkpoint : Option WriterState := none
  slot : Nat → Option Nat := fun _ => none
  content : Nat → List UInt8 := fun _ => []
  files : Nat := 0
  failure : Nat → Option (List UInt8) := fun _ => none

namespace Disk

def size (d : Disk) : Nat :=
  match d.slot 0 with
  | some f => (d.content f).length
  | none => 0

def remove (d : Disk) (index : Nat) : Disk :=
  { d with slot := Function.update d.slot index none }

/-- Rename the segment before `index` to `index`, if there is one. -/
def rename (d : Disk) (index : Nat) : Disk :=
  match d.slot (index - 1) with
  | some f =>
      { d with
        slot := Function.update (Function.update d.slot index (some f)) (index - 1) none }
  | none => d

/-- `open_private_append` on the active segment: the file, created if it is not there. -/
def openActive (d : Disk) : Nat × Disk :=
  match d.slot 0 with
  | some f => (f, d)
  | none =>
      (d.files,
        { d with
          slot := Function.update d.slot 0 (some d.files)
          files := d.files + 1 })

def append (d : Disk) (file : Nat) (bytes : List UInt8) : Disk :=
  { d with content := Function.update d.content file (d.content file ++ bytes) }

def removeFailure (d : Disk) (index : Nat) : Disk :=
  { d with failure := Function.update d.failure index none }

def renameFailure (d : Disk) (index : Nat) : Disk :=
  match d.failure (index - 1) with
  | some b =>
      { d with
        failure := Function.update (Function.update d.failure index (some b)) (index - 1) none }
  | none => d

def writeFailure (d : Disk) (bytes : List UInt8) : Disk :=
  { d with failure := Function.update d.failure 0 (some bytes) }

@[simp] theorem append_content_self (d : Disk) (file : Nat) (bytes : List UInt8) :
    (d.append file bytes).content file = d.content file ++ bytes := Function.update_self ..

theorem append_content_of_ne (d : Disk) {file f : Nat} (bytes : List UInt8) (h : f ≠ file) :
    (d.append file bytes).content f = d.content f := Function.update_of_ne h ..

@[simp] theorem remove_slot_self (d : Disk) (index : Nat) : (d.remove index).slot index = none :=
  Function.update_self index _ d.slot

theorem remove_slot_of_ne (d : Disk) {index i : Nat} (h : i ≠ index) :
    (d.remove index).slot i = d.slot i := Function.update_of_ne h ..

@[simp] theorem rename_content (d : Disk) (index : Nat) :
    (d.rename index).content = d.content := by
  rw [rename]
  split <;> rfl

@[simp] theorem rename_checkpoint (d : Disk) (index : Nat) :
    (d.rename index).checkpoint = d.checkpoint := by
  rw [rename]
  split <;> rfl

@[simp] theorem rename_files (d : Disk) (index : Nat) : (d.rename index).files = d.files := by
  rw [rename]
  split <;> rfl

@[simp] theorem openActive_content (d : Disk) : d.openActive.2.content = d.content := by
  rw [openActive]
  split <;> rfl

@[simp] theorem openActive_checkpoint (d : Disk) :
    d.openActive.2.checkpoint = d.checkpoint := by
  rw [openActive]
  split <;> rfl

@[simp] theorem openActive_slot_zero (d : Disk) :
    d.openActive.2.slot 0 = some d.openActive.1 := by
  rw [openActive]
  split
  · assumption
  · exact Function.update_self 0 _ d.slot

@[simp] theorem renameFailure_content (d : Disk) (index : Nat) :
    (d.renameFailure index).content = d.content := by
  rw [renameFailure]
  split <;> rfl

@[simp] theorem renameFailure_checkpoint (d : Disk) (index : Nat) :
    (d.renameFailure index).checkpoint = d.checkpoint := by
  rw [renameFailure]
  split <;> rfl

end Disk

/-- Where the writer is: the next file operation of `start_epoch`, `append_inner` or
`archive_failure`. -/
inductive Stage where
  | idle
  | startEpoch
  | publish (r : ReceiveRecord)
  | checkSize (r : ReceiveRecord)
  | remove (r : ReceiveRecord) (index : Nat)
  | rename (r : ReceiveRecord) (index : Nat)
  | openActive (r : ReceiveRecord)
  | write (r : ReceiveRecord) (file : Nat) (rest : List UInt8)
  | persist (r : ReceiveRecord) (file : Nat)
  | archiveRemove (r : ReceiveRecord) (index : Nat)
  | archiveRename (r : ReceiveRecord) (index : Nat)
  | archiveWrite (r : ReceiveRecord)
  | publishFailure
deriving DecidableEq

/-- The record that `append_inner` is working on. -/
def Stage.record : Stage → Option ReceiveRecord
  | .publish r | .checkSize r | .remove r _ | .rename r _ | .openActive r | .write r _ _
  | .persist r _ => some r
  | .idle | .startEpoch | .publishFailure | .archiveRemove _ _ | .archiveRename _ _
  | .archiveWrite _ => none

/-- `Journal` in memory. -/
structure Writer where
  state : WriterState
  failureArchived : Bool := false
  stage : Stage
deriving DecidableEq

/-- The directory, the process if one runs, and what has happened so far: the epochs started, the
cursors a checkpoint held as received, the records handed to `append`, and those whose `append`
returned `Ok`, each with the file it went to. -/
structure World where
  disk : Disk := {}
  writer : Option Writer := none
  epochs : List String := []
  held : List Cursor := []
  appended : List ReceiveRecord := []
  committed : List (ReceiveRecord × Nat) := []

inductive Action where
  | start (epoch : String)
  | append (r : ReceiveRecord)
  | op (k : Nat)
  | fail (k : Nat) (error : String)
  | crash
deriving DecidableEq

namespace World

/-- `save_state`: a temporary file renamed over the checkpoint. -/
def saveState (s : World) (state : WriterState) : World :=
  { s with
    disk := { s.disk with checkpoint := some state }
    held := s.held ++ state.lastReceived.toList }

def goto (s : World) (w : Writer) (stage : Stage) : World :=
  { s with writer := some { w with stage := stage } }

def withDisk (s : World) (d : Disk) : World := { s with disk := d }

end World

variable (c : RecordCodec) (segmentBytes : Nat)

/-- The next file operation goes through; a write takes at most `k + 1` bytes. -/
def perform (k : Nat) (s : World) (w : Writer) : Option World :=
  match w.stage with
  | .idle => none
  | .startEpoch => some ((s.saveState w.state).goto w .idle)
  | .publish r => some ((s.saveState w.state).goto w (.checkSize r))
  | .checkSize r =>
      let size := s.disk.size
      if size > 0 ∧ size + (c.line r).length > segmentBytes then some (s.goto w (.remove r 4))
      else some (s.goto w (.openActive r))
  | .remove r index => some ((s.withDisk (s.disk.remove index)).goto w (.rename r index))
  | .rename r index =>
      some ((s.withDisk (s.disk.rename index)).goto w
        (if index ≤ 1 then .openActive r else .remove r (index - 1)))
  | .openActive r =>
      some ((s.withDisk s.disk.openActive.2).goto w (.write r s.disk.openActive.1 (c.line r)))
  | .write r file rest =>
      some ((s.withDisk (s.disk.append file (rest.take (k + 1)))).goto w
        (if rest.drop (k + 1) = [] then .persist r file else .write r file (rest.drop (k + 1))))
  | .persist r file =>
      let state := { w.state with persisted := some r.cursor }
      some ({ s with committed := s.committed ++ [(r, file)] }.saveState state |>.goto
        { w with state := state } .idle)
  | .archiveRemove r index =>
      some ((s.withDisk (s.disk.removeFailure index)).goto w (.archiveRename r index))
  | .archiveRename r index =>
      some ((s.withDisk (s.disk.renameFailure index)).goto w
        (if index ≤ 1 then .archiveWrite r else .archiveRemove r (index - 1)))
  | .archiveWrite r =>
      some ((s.withDisk (s.disk.writeFailure (c.encode r))).goto
        { w with failureArchived := true } .publishFailure)
  | .publishFailure => some ((s.saveState w.state).goto w .idle)

/-- What `append` does with the error of `append_inner`. -/
def noteFailure (s : World) (w : Writer) (state : WriterState) (r : ReceiveRecord)
    (message : String) : World :=
  s.goto
    { w with
      state := { state with
        failedChunks := state.failedChunks + 1
        failedBytes := state.failedBytes + r.bytes.length
        error := state.error <|> some message
        failedReceive := state.failedReceive <|> some r } }
    (if w.failureArchived then .publishFailure else .archiveRemove r 4)

/-- The next file operation fails; a write has put out `k` of its bytes by then. `metadata` does
not fail: without it, the size counts as 0. -/
def failOp (k : Nat) (error : String) (s : World) (w : Writer) : Option World :=
  match w.stage with
  | .idle => none
  | .startEpoch => some (s.goto w .idle)
  | .publish r => some (noteFailure s w w.state r "recording received cursor")
  | .checkSize _ => none
  | .remove r _ => some (noteFailure s w w.state r "removing expired evidence segment")
  | .rename r _ => some (noteFailure s w w.state r "rotating evidence segment")
  | .openActive r => some (noteFailure s w w.state r error)
  | .write r file rest =>
      if k < rest.length then
        some (noteFailure (s.withDisk (s.disk.append file (rest.take k))) w w.state r
          "appending receive evidence")
      else none
  | .persist r _ =>
      some (noteFailure s w { w.state with persisted := some r.cursor } r
        "recording persisted cursor")
  | .archiveRemove _ _ => some (s.goto w .publishFailure)
  | .archiveRename _ _ => some (s.goto w .publishFailure)
  | .archiveWrite r =>
      some ((s.withDisk (s.disk.writeFailure ((c.encode r).take k))).goto w .publishFailure)
  | .publishFailure => some (s.goto w .idle)

/-- A new process: `Journal::open` and the beginning of `start_epoch`. -/
def startState (epoch : String) : WriterState where
  lastReceived := some ⟨epoch, 0⟩
  persisted := some ⟨epoch, 0⟩

/-- The supervisor numbers the chunks of its epoch 1, 2, 3, ... and hands every one to the
journal, whatever became of the ones before. -/
def nextRecord (state : WriterState) (r : ReceiveRecord) : Bool :=
  r.valid && state.lastReceived.any fun cur => cur.epoch = r.epoch && cur.rxSeq + 1 = r.rxSeq

def step (s : World) : Action → Option World
  | .start epoch =>
      if s.writer.isNone ∧ epoch ∉ s.epochs ∧ epoch ≠ "" ∧ epoch.utf8ByteSize ≤ 128 then
        some { s with
          writer := some ⟨startState epoch, false, .startEpoch⟩
          epochs := s.epochs ++ [epoch] }
      else none
  | .append r =>
      match s.writer with
      | some w =>
          if w.stage = .idle ∧ nextRecord w.state r then
            some { s with
              writer := some { w with
                state := { w.state with lastReceived := some r.cursor }
                stage := .publish r }
              appended := s.appended ++ [r] }
          else none
      | none => none
  | .op k => s.writer.bind (perform c segmentBytes k s)
  | .fail k error => s.writer.bind (failOp c k error s)
  | .crash => if s.writer.isSome then some { s with writer := none } else none

/-! ### What an operation leaves alone -/

section

variable {c : RecordCodec} {segmentBytes k : Nat} {s t : World} {w : Writer}

theorem perform_frame (h : perform c segmentBytes k s w = some t) :
    t.appended = s.appended ∧ t.epochs = s.epochs ∧
      ∃ w', t.writer = some w' ∧ w'.state.lastReceived = w.state.lastReceived ∧
        ∀ r, w'.stage.record = some r → w.stage.record = some r := by
  rw [perform] at h
  cases hstage : w.stage with
  | idle =>
      rw [hstage] at h
      cases h
  | checkSize r =>
      rw [hstage] at h
      dsimp only at h
      split at h
      · cases h
        exact ⟨rfl, rfl, _, rfl, rfl, fun _ => id⟩
      · cases h
        exact ⟨rfl, rfl, _, rfl, rfl, fun _ => id⟩
  | rename r index =>
      rw [hstage] at h
      cases h
      refine ⟨rfl, rfl, _, rfl, rfl, fun q => ?_⟩
      dsimp only
      split <;> exact id
  | write r file rest =>
      rw [hstage] at h
      cases h
      refine ⟨rfl, rfl, _, rfl, rfl, fun q => ?_⟩
      dsimp only
      split <;> exact id
  | archiveRename r index =>
      rw [hstage] at h
      cases h
      refine ⟨rfl, rfl, _, rfl, rfl, fun q hq => ?_⟩
      dsimp only at hq
      split at hq <;> cases hq
  | startEpoch | persist r file | archiveWrite r | archiveRemove r index | publishFailure =>
      rw [hstage] at h
      cases h
      exact ⟨rfl, rfl, _, rfl, rfl, fun q hq => by cases hq⟩
  | publish r | remove r index | openActive r =>
      rw [hstage] at h
      cases h
      exact ⟨rfl, rfl, _, rfl, rfl, fun _ => id⟩

theorem record_noteFailure (state : WriterState) (r : ReceiveRecord) (message : String) :
    ∃ w', (noteFailure s w state r message).writer = some w' ∧
      w'.state.lastReceived = state.lastReceived ∧ w'.stage.record = none := by
  refine ⟨_, rfl, rfl, ?_⟩
  dsimp only
  split <;> rfl

theorem failOp_frame {error : String} (h : failOp c k error s w = some t) :
    t.appended = s.appended ∧ t.epochs = s.epochs ∧
      ∃ w', t.writer = some w' ∧ w'.state.lastReceived = w.state.lastReceived ∧
        ∀ r, w'.stage.record = some r → w.stage.record = some r := by
  have hnote : ∀ (s' : World) (state : WriterState) (r : ReceiveRecord) (message : String),
      state.lastReceived = w.state.lastReceived →
      ∃ w', (noteFailure s' w state r message).writer = some w' ∧
        w'.state.lastReceived = w.state.lastReceived ∧
        ∀ q, w'.stage.record = some q → w.stage.record = some q := by
    intro s' state r message hlast
    obtain ⟨w', hw', hlast', hnone⟩ := record_noteFailure state r message
    refine ⟨w', hw', hlast'.trans hlast, fun q hq => ?_⟩
    rw [hnone] at hq
    cases hq
  rw [failOp] at h
  cases hstage : w.stage with
  | idle | checkSize r =>
      rw [hstage] at h
      cases h
  | write r file rest =>
      rw [hstage] at h hnote
      dsimp only at h
      split at h
      · cases h
        exact ⟨rfl, rfl, hnote _ _ _ _ rfl⟩
      · cases h
  | publish r | remove r index | rename r index | openActive r | persist r file =>
      rw [hstage] at h hnote
      cases h
      exact ⟨rfl, rfl, hnote _ _ _ _ rfl⟩
  | startEpoch | archiveRemove r index | archiveRename r index | archiveWrite r
  | publishFailure =>
      rw [hstage] at h
      cases h
      exact ⟨rfl, rfl, _, rfl, rfl, fun q hq => by cases hq⟩

end

/-! ### Reading the directory -/

namespace Disk

def stateFile (d : Disk) : StateFile :=
  match d.checkpoint with
  | some w => .parsed w
  | none => .unavailable "No such file or directory (os error 2)"

/-- The segment a name refers to, as it is now. -/
def segment (d : Disk) (index : Nat) : OpenedSegment :=
  match d.slot index with
  | some f => .opened ⟨index, some (d.content f).length, d.content f, none⟩
  | none => .missing

def failureFile (d : Disk) (index : Nat) : FailureFile :=
  match d.failure index with
  | some b => .bytes b
  | none => .missing

/-- The segments in the order in which `read` opens them: oldest first. -/
def segments (d : Disk) : List OpenedSegment := (List.range SEGMENTS).reverse.map d.segment

/-- `read` with nobody writing meanwhile. -/
def read (d : Disk) (now : Nat) (q : Query) : Except String Evidence :=
  Journal.read c now q d.stateFile d.segments ((List.range SEGMENTS).map d.failureFile)

end Disk

end Journal

end Serialcap

end Paniolo
