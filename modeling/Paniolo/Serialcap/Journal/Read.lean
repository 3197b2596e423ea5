import Paniolo.Library.Lines
import Paniolo.Serialcap.Journal.Record
import Mathlib.Data.List.Sort

/-!
# Reading the journal

`read` as a function of what its file operations returned: the checkpoint, the
segments that could be opened (oldest first), and the failure archives. It
scans the segments line by line, selects the records of one epoch, and reports
every way in which the history may be incomplete.
-/

namespace Paniolo

namespace Serialcap

namespace Journal

def MAX_BYTES : Nat := 1048576

def SEGMENT_BYTES : Nat := 1048576

def SEGMENTS : Nat := 5

def SCAN_SEGMENT_BYTES : Nat := SEGMENT_BYTES + 300000

def MAX_DIAGNOSTICS : Nat := 64

inductive DiagKind where
  | stateCorrupt
  | stateUnavailable
  | readError
  | scanLimit
  | incompleteTail
  | corruptRecord
  | diagnosticLimit
  | unavailable
  | epochListLimit
  | epochMissing
  | conflictingCursor
  | cursorAhead
  | gap
  | failureArchiveCorrupt
  | failureArchiveUnreadable
  | writeError
  | capturePending
  | failedReceive
deriving DecidableEq, Repr

structure Diagnostic where
  kind : DiagKind
  message : String
  segment : Option String := none
  offset : Option Nat := none
  rawBytes : Option (List UInt8) := none
  rawLength : Nat := 0
  rawTruncated : Bool := false
  receiveCursor : Option Cursor := none
deriving DecidableEq, Repr

def diagnostic (kind : DiagKind) (message : String) : Diagnostic where
  kind := kind
  message := String.ofList (message.toList.take 128)

structure Evidence where
  records : List ReceiveRecord := []
  observedAtMs : Nat
  epoch : Option String := none
  availableEpochs : List String := []
  earliest : Option Cursor := none
  latest : Option Cursor := none
  continuation : Option Cursor := none
  rawBytes : Nat := 0
  capped : Bool := false
  nextRecordBytes : Option Nat := none
  gap : Bool := false
  epochMissing : Bool := false
  capturePending : Bool := false
  epochsTruncated : Bool := false
  diagnostics : List Diagnostic := []
deriving DecidableEq, Repr

/-! ### What the file operations returned -/

inductive StateFile where
  | unavailable (error : String)
  | unreadable (error : String)
  | corrupt (error : String)
  | parsed (state : WriterState)
deriving DecidableEq

/-- An opened segment: its length as `metadata` gave it, and what reading it returned up to the
end of the file or an error. Index 0 is the active file. -/
structure Segment where
  index : Nat
  len : Option Nat
  content : List UInt8
  readError : Option String := none

inductive OpenedSegment where
  | opened (s : Segment)
  | missing
  | failed (error : String)

inductive FailureFile where
  | bytes (content : List UInt8)
  | missing
  | failed (error : String)
  | unreadable (error : String)

structure Query where
  epoch : Option String
  since : Option Nat
  maxBytes : Nat

def segmentName (index : Nat) : String :=
  if index = 0 then "evidence.jsonl" else s!"evidence.jsonl.{index}"

/-! ### Scanning -/

namespace Evidence

def warn (out : Evidence) (d : Diagnostic) : Evidence :=
  { out with diagnostics := out.diagnostics ++ [d] }

def warnGap (out : Evidence) (d : Diagnostic) : Evidence :=
  { out with
    gap := true
    diagnostics := out.diagnostics ++ [d] }

/-- Keep as many raw bytes in the diagnostic as the budget still allows. -/
def warnRaw (out : Evidence) (maxBytes : Nat) (raw : List UInt8) (d : Diagnostic) : Evidence :=
  let bytes := raw.take (maxBytes - out.rawBytes)
  { out with
    rawBytes := out.rawBytes + bytes.length
    capped := out.capped || bytes.length != raw.length
    diagnostics := out.diagnostics ++
      [{ d with
         rawBytes := some bytes
         rawLength := raw.length
         rawTruncated := bytes.length != raw.length }] }

end Evidence

/-- The state of the scan: the result so far and the records acquired. -/
structure Scan where
  out : Evidence
  acquired : List ReceiveRecord

inductive Flow where
  | continue
  | endFile
  | endAll
deriving DecidableEq

/-- The checkpoint does not vouch for this record: it is of the epoch being received, and was
not persisted when the checkpoint was written. -/
def notPersisted (state : Option WriterState) (r : ReceiveRecord) : Bool :=
  ((state.bind WriterState.lastReceived).any fun c => c.epoch = r.epoch) &&
    (state.bind WriterState.persisted).all fun c => c.epoch ≠ r.epoch || c.rxSeq < r.rxSeq

def acquire (s : Scan) (r : ReceiveRecord) : Scan where
  out :=
    if s.out.availableEpochs.contains r.epoch then s.out
    else { s.out with availableEpochs := s.out.availableEpochs ++ [r.epoch] }
  acquired := s.acquired ++ [r]

def corruptRecord (maxBytes index offset : Nat) (bytes : List UInt8) (message : String)
    (s : Scan) : Scan × Flow :=
  let d := { diagnostic .corruptRecord message with
             segment := some (segmentName index)
             offset := some offset }
  let out := { s.out with gap := true }.warnRaw maxBytes bytes d
  if out.diagnostics.length ≥ MAX_DIAGNOSTICS then
    ({ s with out := out.warn (diagnostic .diagnosticLimit
        "corruption diagnostic limit reached; remaining journal bytes were not read") }, .endAll)
  else ({ s with out := out }, .continue)

variable (c : RecordCodec) (maxBytes : Nat) (state : Option WriterState)

/-- One piece of a segment as `read_until` returned it. -/
def scanLine (index offset : Nat) (bytes : List UInt8) (s : Scan) : Scan × Flow :=
  if index = 0 && bytes.getLast? != some newline && state.all fun w => w.error.isNone then
    let d := { diagnostic .incompleteTail
                 "active record was not committed; tail may still be appending" with
               segment := some (segmentName index)
               offset := some offset }
    ({ s with out := { s.out with capturePending := true }.warnRaw maxBytes bytes d }, .endFile)
  else
    match c.decode bytes with
    | .ok r =>
        if r.valid then
          if notPersisted state r then
            ({ s with out := { s.out with capturePending := true } }, .continue)
          else (acquire s r, .continue)
        else corruptRecord maxBytes index offset bytes "empty or invalid receive record" s
    | .error e => corruptRecord maxBytes index offset bytes e s

/-- The pieces of one segment; the flag says that the whole scan is over. -/
def scanLines (index : Nat) : Nat → List (List UInt8) → Scan → Scan × Bool
  | _, [], s => (s, false)
  | offset, bytes :: rest, s =>
      match scanLine c maxBytes state index offset bytes s with
      | (s, .continue) => scanLines index (offset + bytes.length) rest s
      | (s, .endFile) => (s, false)
      | (s, .endAll) => (s, true)

/-- The pieces that are read before the end of the file or an error; the piece an error
interrupts is lost. -/
def Segment.pieces (f : Segment) : List (List UInt8) :=
  let ps := splitAfter newline (f.content.take SCAN_SEGMENT_BYTES)
  if f.readError.isSome then ps.filter fun p => p.getLast? == some newline else ps

def checkLen (f : Segment) (out : Evidence) : Evidence :=
  if f.len.all fun n => n > SCAN_SEGMENT_BYTES then
    out.warnGap (diagnostic .scanLimit
      "damaged segment exceeds bounded scan size; bytes beyond limit were not read")
  else out

def reportReadError (f : Segment) (out : Evidence) : Evidence :=
  match f.readError with
  | none => out
  | some e => out.warnGap (diagnostic .readError e)

def scanSegment (f : Segment) (s : Scan) : Scan × Bool :=
  match scanLines c maxBytes state f.index 0 f.pieces { s with out := checkLen f s.out } with
  | (s, true) => (s, true)
  | (s, false) => ({ s with out := reportReadError f s.out }, false)

def scanSegments : List Segment → Scan → Scan
  | [], s => s
  | f :: fs, s =>
      match scanSegment c maxBytes state f s with
      | (s, true) => s
      | (s, false) => scanSegments fs s

/-! ### Selecting -/

/-- `dedup_by(|a, b| a == b)`: an element equal to the one before it goes. -/
def dedup : List ReceiveRecord → List ReceiveRecord
  | [] => []
  | [r] => [r]
  | r :: q :: rest => if r = q then dedup (q :: rest) else r :: dedup (q :: rest)

def conflicts : List ReceiveRecord → List (ReceiveRecord × ReceiveRecord)
  | [] => []
  | [_] => []
  | r :: q :: rest =>
      if r.rxSeq = q.rxSeq ∧ r ≠ q then (r, q) :: conflicts (q :: rest) else conflicts (q :: rest)

/-- The loop over the records behind the cursor: out of sequence is a gap, and the first record
beyond the budget ends it. -/
def takeRecords : Nat → List ReceiveRecord → Evidence → Evidence
  | _, [], out => out
  | expected, r :: rest, out =>
      let out := if r.rxSeq ≠ expected then { out with gap := true } else out
      if out.rawBytes + r.bytes.length > maxBytes then
        { out with
          capped := true
          nextRecordBytes := some r.bytes.length }
      else
        takeRecords (saturatingSucc r.rxSeq) rest
          { out with
            rawBytes := out.rawBytes + r.bytes.length
            continuation := some r.cursor
            records := out.records ++ [r] }

/-! ### Failure archives -/

def readFailure (epoch : Option String) (s : Evidence × List ReceiveRecord)
    (f : Nat × FailureFile) : Evidence × List ReceiveRecord :=
  match f.2 with
  | .missing => s
  | .unreadable _ => s
  | .failed e => (s.1.warnGap (diagnostic .failureArchiveUnreadable e), s.2)
  | .bytes content =>
      let content := content.take 300000
      match c.decode content with
      | .ok r =>
          if r.valid then if some r.epoch = epoch then (s.1, s.2 ++ [r]) else s
          else (s.1.warnGap (diagnostic .failureArchiveCorrupt "invalid failed-receive metadata"), s.2)
      | .error e =>
          let d := { diagnostic .failureArchiveCorrupt e with
                     segment := some s!"evidence-failure.{f.1}.json" }
          ({ s.1 with gap := true }.warnRaw maxBytes content d, s.2)

def reportFailed (out : Evidence) (r : ReceiveRecord) : Evidence :=
  { out with gap := true }.warnRaw maxBytes r.bytes
    { diagnostic .failedReceive
        "first failed receive chunk of an epoch; fault snapshots survive up to five subsequent failed epochs"
      with receiveCursor := some r.cursor }

/-! ### The stages of `read` -/

/-- The checkpoint, and what is said when there is none to go by. -/
def readState (f : StateFile) (out : Evidence) : Option WriterState × Evidence :=
  match f with
  | .parsed w =>
      if w.valid then (some w, out)
      else (none, out.warnGap (diagnostic .stateCorrupt "invalid writer checkpoint metadata"))
  | .corrupt e => (none, out.warnGap (diagnostic .stateCorrupt e))
  | .unavailable e => (none, out.warn (diagnostic .stateUnavailable e))
  | .unreadable _ => (none, out)

def openSegments : List OpenedSegment → Evidence → List Segment × Evidence
  | [], out => ([], out)
  | .opened f :: rest, out =>
      let (fs, out) := openSegments rest out
      (f :: fs, out)
  | .missing :: rest, out => openSegments rest out
  | .failed e :: rest, out => openSegments rest (out.warnGap (diagnostic .readError e))

def reportUnavailable (found : Bool) (out : Evidence) : Evidence :=
  if !found && state.isNone then
    out.warn (diagnostic .unavailable "no raw receive journal; older daemons do not collect it")
  else out

/-- The epoch being received is known even when none of its records is. -/
def addCurrent (last : Option Cursor) (available : List String) : List String :=
  match last with
  | some cur => if available.contains cur.epoch then available else available ++ [cur.epoch]
  | none => available

def limitEpochs (out : Evidence) : Evidence :=
  if out.availableEpochs.length > 64 then
    { out with
      availableEpochs := out.availableEpochs.drop (out.availableEpochs.length - 64)
      epochsTruncated := true }.warn (diagnostic .epochListLimit
        "only the newest 64 known epochs are listed; requested epoch selection still checks all retained records")
  else out

def reportMissing (out : Evidence) : Evidence :=
  if out.epochMissing then out.warn (diagnostic .epochMissing "requested epoch is absent or expired")
  else out

/-- Which epoch is read, and which are there. -/
def chooseEpoch (epoch : Option String) (found : Bool) (out : Evidence) : Evidence :=
  let out := reportUnavailable state found out
  let last := state.bind WriterState.lastReceived
  let available := addCurrent last out.availableEpochs
  reportMissing (limitEpochs { out with
    epoch := epoch <|> last.map Cursor.epoch <|> out.availableEpochs.getLast?
    availableEpochs := available
    epochMissing := epoch.any fun e => !available.contains e })

def reportConflicts (selected : List ReceiveRecord) (out : Evidence) : Evidence :=
  (conflicts selected).foldl (fun out _ =>
    let out := { out with gap := true }
    if out.diagnostics.length < MAX_DIAGNOSTICS then
      out.warn (diagnostic .conflictingCursor "different records share an epoch/RX sequence")
    else out) out

/-- The records of the chosen epoch in receive order; the sort is stable, as `sort_by_key` is. -/
def selectRecords (epoch : Option String) (acquired : List ReceiveRecord) : List ReceiveRecord :=
  (acquired.filter fun r => some r.epoch = epoch).insertionSort fun a b => a.rxSeq ≤ b.rxSeq

def receivedThrough (epoch : Option String) : Nat :=
  match state.bind WriterState.lastReceived with
  | some cur => if some cur.epoch = epoch then cur.rxSeq else 0
  | none => 0

/-- The ends of the selection, and whether the cursor lies beyond everything received. -/
def reportRange (start : Nat) (selected : List ReceiveRecord) (out : Evidence) : Evidence :=
  let out := { out with
    earliest := selected.head?.map ReceiveRecord.cursor
    latest := selected.getLast?.map ReceiveRecord.cursor }
  if start > receivedThrough state out.epoch && out.latest.all fun cur => start > cur.rxSeq then
    out.warnGap (diagnostic .cursorAhead "requested cursor is ahead of retained receive history")
  else out

def reportGap (out : Evidence) : Evidence :=
  if out.gap then
    out.warn (diagnostic .gap "receive history has retention, corruption, read or sequence gaps")
  else out

def collect (since : Option Nat) (acquired : List ReceiveRecord) (out : Evidence) : Evidence :=
  let selected := selectRecords out.epoch acquired
  let out := reportConflicts selected out
  let selected := dedup selected
  let start := since.getD 0
  let out := reportRange state start selected out
  let out := { out with continuation := out.epoch.map fun e => ⟨e, start⟩ }
  reportGap (takeRecords maxBytes (saturatingSucc start)
    (selected.filter fun r => r.rxSeq > start) out)

def reportError (w : WriterState) (out : Evidence) : Evidence :=
  match w.error with
  | some e =>
      let chunks := w.failedChunks
      let raw := w.failedBytes
      out.warnGap (diagnostic .writeError
        s!"{chunks} chunks / {raw} raw bytes failed journal writes: {e}")
  | none => out

def addFailed (w : WriterState) (epoch : Option String) (failed : List ReceiveRecord) :
    List ReceiveRecord :=
  match w.failedReceive with
  | some r => if some r.epoch = epoch ∧ r ∉ failed then failed ++ [r] else failed
  | none => failed

/-- The received cursor is ahead of the records that were found. -/
def reportBehind (w : WriterState) (out : Evidence) : Evidence :=
  match w.lastReceived with
  | some last =>
      if some last.epoch = out.epoch && out.latest.all fun cur => cur.rxSeq < last.rxSeq then
        { out with capturePending := true }.warn (diagnostic .capturePending
          "received cursor is ahead of the persisted journal; check live evidence health for write failure")
      else out
  | none => out

/-- What the checkpoint says about the writer. -/
def reportWriter (failed : List ReceiveRecord) (out : Evidence) :
    Evidence × List ReceiveRecord :=
  match state with
  | none => (out, failed)
  | some w => (reportBehind w (reportError w out), addFailed w out.epoch failed)

/-- The archives, the writer's own account, and the chunks that are known to have failed. -/
def reportFailures (failures : List FailureFile) (out : Evidence) : Evidence :=
  let (out, failed) :=
    (failures.zipIdx.map Prod.swap).foldl (readFailure c maxBytes out.epoch) (out, [])
  let (out, failed) := reportWriter state failed out
  failed.foldl (reportFailed maxBytes) out

/-- An error of `read_to_end` on the checkpoint or on an archive is the error of the whole read. -/
def readToEndError (file : StateFile) (failures : List FailureFile) : Option String :=
  match file with
  | .unreadable e => some e
  | _ => failures.findSome? fun f =>
      match f with
      | .unreadable e => some e
      | _ => none

def read (now : Nat) (q : Query) (file : StateFile) (segments : List OpenedSegment)
    (failures : List FailureFile) : Except String Evidence :=
  if q.since.isSome && q.epoch.isNone then .error "--since requires --epoch"
  else if q.maxBytes = 0 ∨ q.maxBytes > MAX_BYTES then
    .error s!"--max-bytes must be 1..={MAX_BYTES}"
  else
    match readToEndError file failures with
    | some e => .error e
    | none =>
        let (state, out) := readState file { observedAtMs := now }
        let (files, out) := openSegments segments out
        let s := scanSegments c q.maxBytes state files ⟨out, []⟩
        let out := chooseEpoch state q.epoch (!files.isEmpty) s.out
        let out := collect q.maxBytes state q.since s.acquired out
        .ok (reportFailures c q.maxBytes state failures out)

end Journal

end Serialcap

end Paniolo
