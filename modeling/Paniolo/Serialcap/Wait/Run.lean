import Paniolo.Library.JsonValue

/-!
# Waiting for serial input

`wait::run` collects what an interface receives after a cursor until a pattern
matches, a budget is spent, the deadline passes or something is wrong. The
reads of the journal, the probes of the daemon, the clock and the consumer of
the lines are outside: a `Turn` holds what they may answer during one pass of
the loop, and a run is a list of turns. Nothing is assumed of the answers.
-/

namespace Paniolo

namespace Serialcap

namespace Wait

def MAX_TIMEOUT_MS : Nat := 3600000

def MAX_BYTES : Nat := 1024 * 1024

def MAX_OUTPUT_BYTES : Nat := 8 * 1024 * 1024

def MIN_OUTPUT_BYTES : Nat := 4096

def FINISH_RESERVE : Nat := 1024

def DIAGNOSTIC_BUDGET : Nat := 512

def U64_MAX : Nat := 18446744073709551615

structure Request where
  epoch : String
  since : UInt64
  timeoutMs : UInt64
  maxBytes : UInt64
  maxOutputBytes : UInt64
  follow : Bool
  pattern : Option String
  includePending : Bool

inductive Status where
  | timeout
  | readError
  | cap
  | gap
  | epochMissing
  | captureError
  | daemonUnavailable
  | unsupported
  | epochChanged
  | disconnected
  | reconnected
  | matched
deriving DecidableEq

def Status.text : Status → String
  | timeout => "timeout"
  | readError => "read_error"
  | cap => "cap"
  | gap => "gap"
  | epochMissing => "epoch_missing"
  | captureError => "capture_error"
  | daemonUnavailable => "daemon_unavailable"
  | unsupported => "unsupported"
  | epochChanged => "epoch_changed"
  | disconnected => "disconnected"
  | reconnected => "reconnected"
  | matched => "matched"

open JsonValue (nat optNat)

def note (kind message : String) : JsonValue :=
  .obj [("kind", .str kind), ("message", .str message)]

/-! ### Diagnostics -/

structure Diagnostics where
  values : List JsonValue := []
  count : UInt64 := 0
  rawLength : Nat := 0
  rawBytes : Nat := 0
  truncated : Bool := false
  rawTruncated : Bool := false

/-- The elements of an array field, none if there is no array. -/
def arrayField (v : JsonValue) (key : String) : List JsonValue :=
  ((v.get key).asArray).getD []

/-- The raw length a note states, or else that of the bytes it carries. -/
def noteRawLength (v : JsonValue) : Nat :=
  match (v.get "raw_length").asU64 with
  | some n => n.toNat
  | none => (arrayField v "raw_bytes").length

def textField (v : JsonValue) (key fallback : String) : String :=
  String.ofList ((((v.get key).asStr).getD fallback).toList.take 64)

/-- A note that is too long keeps the beginning of its texts and of its bytes. -/
def shorten (v : JsonValue) : JsonValue :=
  let rawLength := noteRawLength v
  let raw := (arrayField v "raw_bytes").take 16
  .obj [("kind", .str (textField v "kind" "diagnostic")),
    ("message", .str (textField v "message" "diagnostic details truncated")),
    ("raw_bytes", .arr raw), ("raw_length", nat rawLength),
    ("raw_truncated", .bool (raw.length < rawLength)), ("diagnostics_truncated", .bool true)]

namespace Diagnostics

/-- What `push` makes of the note itself, and the counts that follow. -/
def trim (d : Diagnostics) (v : JsonValue) : Diagnostics × JsonValue × Nat :=
  let rawLength := noteRawLength v
  let rawBytes := (arrayField v "raw_bytes").length
  let d := { d with
    count := d.count + 1
    truncated := d.truncated || (v.get "diagnostics_truncated").isBool true
    rawLength := min (d.rawLength + rawLength) U64_MAX
    rawTruncated := d.rawTruncated || ((v.get "raw_truncated").isBool true || rawBytes < rawLength) }
  if v.encodedLen > DIAGNOSTIC_BUDGET / 2 then
    let rawBytes := ((arrayField v "raw_bytes").take 16).length
    ({ d with
        truncated := true
        rawTruncated := d.rawTruncated || rawBytes < rawLength }, shorten v, rawBytes)
  else (d, v, rawBytes)

def push (d : Diagnostics) (v : JsonValue) : Diagnostics :=
  let (d, kept, rawBytes) := d.trim v
  if (JsonValue.arr d.values).encodedLen + kept.encodedLen + 1 > DIAGNOSTIC_BUDGET then
    { d with
      truncated := true
      rawTruncated := d.rawTruncated || noteRawLength v > 0 }
  else
    { d with
      rawBytes := d.rawBytes + rawBytes
      values := d.values ++ [kept] }

end Diagnostics

/-! ### What was acquired -/

/-- A complete line and the record that completed it. -/
structure Line where
  throughRxSeq : JsonValue
  prefixUnknown : Bool
  bytes : List UInt8

def byteArray (bytes : List UInt8) : JsonValue := .arr (bytes.map fun b => nat b.toNat)

def Line.json (l : Line) : JsonValue :=
  .obj [("type", .str "line"), ("through_rx_seq", l.throughRxSeq),
    ("prefix_unknown", .bool l.prefixUnknown), ("bytes", byteArray l.bytes)]

structure Acquired where
  records : List JsonValue := []
  bytes : List UInt8 := []
  pending : List UInt8 := []
  lines : List Line := []
  prefixUnknown : Bool
  cursor : UInt64

def newline : UInt8 := 10

namespace Acquired

def new (since : UInt64) : Acquired where
  prefixUnknown := since > 0
  cursor := since

/-- One byte of a record; a newline completes a line. -/
def pushByte (record : JsonValue) (a : Acquired) (byte : UInt8) : Acquired :=
  let a := { a with
    bytes := a.bytes ++ [byte]
    pending := a.pending ++ [byte] }
  if byte = newline then
    { a with
      lines := a.lines ++ [⟨record.get "rx_seq", a.prefixUnknown, a.pending⟩]
      prefixUnknown := false
      pending := [] }
  else a

def rawByte (v : JsonValue) : Option UInt8 :=
  v.asU64.bind fun n => if n.toNat < 256 then some (UInt8.ofNat n.toNat) else none

def pushBytes (record : JsonValue) : List JsonValue → Acquired → Except String Acquired
  | [], a => .ok a
  | v :: rest, a =>
      match rawByte v with
      | none => .error "invalid raw byte"
      | some byte => pushBytes record rest (a.pushByte record byte)

/-- The lines that `append` hands out are those it adds. -/
def append (a : Acquired) (record : JsonValue) : Except String Acquired :=
  match (record.field? "bytes").bind JsonValue.asArray with
  | none => .error "receive record has no raw bytes"
  | some raw => do
      let a ← pushBytes record raw a
      match (record.get "rx_seq").asU64 with
      | none => .error "receive record has no cursor"
      | some seq =>
          .ok { a with
            cursor := seq
            records := a.records ++ [record] }

end Acquired

/-! ### The result -/

structure ResultMeta where
  startedAtMs : UInt64
  finishedAtMs : UInt64
  elapsedMs : UInt64
  nextRecordBytes : Option Nat
  requiredOutputBytes : Option Nat

def resultFields (request : Request) (a : Acquired) (status : Status) (notes : Diagnostics)
    (m : ResultMeta) : List (String × JsonValue) :=
  [("type", .str "result"), ("status", .str status.text), ("epoch", .str request.epoch),
    ("since", nat request.since.toNat), ("through_rx_seq", nat a.cursor.toNat),
    ("started_at_ms", nat m.startedAtMs.toNat), ("finished_at_ms", nat m.finishedAtMs.toNat),
    ("elapsed_ms", nat m.elapsedMs.toNat),
    ("raw_bytes", nat (a.bytes.length + notes.rawBytes)),
    ("raw_length", nat (min (a.bytes.length + notes.rawLength) U64_MAX)),
    ("received_bytes", nat a.bytes.length), ("records", .arr a.records),
    ("complete_lines", .arr (a.lines.map Line.json)),
    ("pending", if request.includePending then byteArray a.pending else .null),
    ("diagnostics", .arr notes.values), ("diagnostic_count", nat notes.count.toNat),
    ("diagnostics_truncated", .bool notes.truncated), ("raw_truncated", .bool notes.rawTruncated),
    ("next_record_bytes", optNat m.nextRecordBytes),
    ("required_output_bytes", optNat m.requiredOutputBytes),
    ("command_execution", .str "not_assessed")]

def result (request : Request) (a : Acquired) (status : Status) (notes : Diagnostics)
    (m : ResultMeta) : JsonValue :=
  .obj (resultFields request a status notes m)

/-- The result as the budget checks measure it: no diagnostics, and the largest numbers. -/
def worstMeta (startedAtMs : UInt64) : ResultMeta where
  startedAtMs := startedAtMs
  finishedAtMs := startedAtMs
  elapsedMs := UInt64.ofNat U64_MAX
  nextRecordBytes := some U64_MAX
  requiredOutputBytes := some U64_MAX

def worstLen (request : Request) (startedAtMs : UInt64) (a : Acquired) : Nat :=
  (result request a .daemonUnavailable {} (worstMeta startedAtMs)).encodedLen

/-! ### One pass of the loop -/

structure HealthError where
  message : String
  timedOut : Bool

/-- What the outside may answer during one pass. The flags are the comparisons of the clock with
the deadline, in the order the pass makes them; `lateRecord i` is the one before record `i`, and
`emitError i` the failure to hand out event `i` of the run. -/
structure Turn where
  lateStart : Bool
  preflight : Except HealthError JsonValue
  latePreflight : Bool
  envelope : Except String JsonValue
  lateRecord : Nat → Bool
  emitError : Nat → Option String
  lateProbe : Bool
  probe : Except HealthError JsonValue
  lateError : Bool
  lateAnswer : Bool
  lateEnd : Bool

structure State where
  acquired : Acquired
  diagnostics : Diagnostics := {}
  pendingDiagnostics : List JsonValue := []
  generation : Option UInt64 := none
  shouldRead : Bool := true
  firstRead : Bool := true
  emittedBytes : Nat := 0
  emitted : List JsonValue := []
  nextRecordBytes : Option Nat := none
  requiredOutputBytes : Option Nat := none

/-- How a stage of the loop ends: the next one goes on, the loop breaks with a status, or the
whole run fails. -/
inductive Flow where
  | go (s : State)
  | stop (status : Status) (s : State)
  | fail (error : String) (s : State)

/-- The next stage, if it comes to that. -/
def Flow.bind (f : Flow) (next : State → Flow) : Flow :=
  match f with
  | .go s => next s
  | .stop status s => .stop status s
  | .fail error s => .fail error s

namespace State

def push (s : State) (v : JsonValue) : State := { s with diagnostics := s.diagnostics.push v }

end State

def capturePendingNote : JsonValue :=
  note "capture_pending" "received cursor is ahead of the persisted journal"

/-- The daemon has received the boundary, but the journal has not caught up with it. -/
def behind (request : Request) (answer : Except HealthError JsonValue) : Bool :=
  match answer with
  | .error _ => false
  | .ok s =>
      let health := s.get "health"
      (health.get "epoch").asStr == some request.epoch && (s.get "connected").isBool true &&
        (health.get "capture_alive").isBool true && (health.get "evidence_error").isNull &&
        ((health.get "last_rx_seq").asU64.any fun seq => seq ≥ request.since) &&
        (health.get "evidence_through_seq").asU64.any fun seq => seq < request.since

variable (request : Request) (startedAtMs : UInt64) (t : Turn)

/-- Before the first read; an answer that says to wait is used again as the probe of this pass. -/
def preflightStage (s : State) : Flow × Option (Except HealthError JsonValue) :=
  if s.firstRead then
    if request.timeoutMs ≠ 0 && t.lateStart then (.stop .timeout s, none)
    else if request.timeoutMs > 0 && t.latePreflight then (.stop .timeout s, none)
    else if behind request t.preflight then
      (.go { s with
        shouldRead := false
        pendingDiagnostics := [capturePendingNote] }, some t.preflight)
    else
      (.go { s with
        firstRead := false
        shouldRead := true }, none)
  else (.go s, none)

def sortNote (s : State) (v : JsonValue) : State :=
  if (v.get "kind").asStr = some "incomplete_tail" ∨ (v.get "kind").asStr = some "capture_pending" then
    { s with pendingDiagnostics := s.pendingDiagnostics ++ [v] }
  else s.push v

/-- Hand out the events one by one. -/
def emitAll : List JsonValue → State → Flow
  | [], s => .go s
  | e :: rest, s =>
      match t.emitError s.emitted.length with
      | some error => .fail error s
      | none => emitAll rest { s with emitted := s.emitted ++ [e] }

/-- The lines that a record completed. -/
def newEvents (a candidate : Acquired) : List JsonValue :=
  (candidate.lines.drop a.lines.length).map Line.json

/-- What handing out the events takes of the output: each is a line of its own. -/
def eventBytes (events : List JsonValue) : Nat :=
  if request.follow then (events.map fun e => e.encodedLen + 1).sum else 0

/-- A record that passed the checks of its form is appended to a copy, and the copy kept if the
output still fits. -/
def commitRecord (record : JsonValue) (rawLen : Nat) (s : State) : Flow :=
  match s.acquired.append record with
  | .error e => .stop .readError (s.push (note "read_error" e))
  | .ok candidate =>
      let events := newEvents s.acquired candidate
      let required := s.emittedBytes + eventBytes request events + 1 + FINISH_RESERVE +
        worstLen request startedAtMs candidate
      if required > request.maxOutputBytes.toNat then
        .stop .cap { s with
          nextRecordBytes := some rawLen
          requiredOutputBytes := some required }
      else
        (if request.follow then emitAll t events s else .go s).bind fun s =>
          .go { s with
            emittedBytes := s.emittedBytes + eventBytes request events
            acquired := candidate }

def takeRecord (i : Nat) (record : JsonValue) (s : State) : Flow :=
  if request.timeoutMs > 0 && t.lateRecord i then .stop .timeout s
  else
    match (record.get "rx_seq").asU64 with
    | none => .stop .readError (s.push (note "read_error" "invalid receive sequence"))
    | some seq =>
        if (record.get "epoch").asStr ≠ some request.epoch ∨ seq ≤ s.acquired.cursor then
          .stop .readError (s.push (note "read_error"
            "journal returned data outside the requested receive boundary"))
        else
          match (record.get "bytes").asArray with
          | none => .stop .readError (s.push (note "read_error" "invalid receive bytes"))
          | some raw =>
              if s.acquired.bytes.length + raw.length > request.maxBytes.toNat then
                .stop .cap { s with nextRecordBytes := some raw.length }
              else commitRecord request startedAtMs t record raw.length s

def takeRecords : Nat → List JsonValue → State → Flow
  | _, [], s => .go s
  | i, record :: rest, s =>
      (takeRecord request startedAtMs t i record s).bind (takeRecords (i + 1) rest)

/-- The journal, if it is to be read in this pass: the envelope is an empty one if not. -/
def readStage (s : State) : Flow × JsonValue :=
  match if s.shouldRead then t.envelope else .ok (.obj [("records", .arr [])]) with
  | .error e => (.stop .readError (s.push (note "read_error" e)), .null)
  | .ok envelope =>
      let s := if s.shouldRead then { s with pendingDiagnostics := [] } else s
      let s := (arrayField envelope "diagnostics").foldl sortNote s
      (takeRecords request startedAtMs t 0 (arrayField envelope "records") s, envelope)

/-- What the envelope says about the history as a whole. -/
def envelopeStage (envelope : JsonValue) (s : State) : Flow :=
  if (envelope.get "gap").isBool true then .stop .gap s
  else if (envelope.get "epoch_missing").isBool true then .stop .epochMissing s
  else if s.diagnostics.count > 0 then .stop .captureError s
  else .go s

/-- Some window of the bytes is `p`. -/
def hasWindow (p : List UInt8) : List UInt8 → Bool
  | [] => p.isEmpty
  | b :: l => p.isPrefixOf (b :: l) || hasWindow p l

def hasPattern (a : Acquired) : Bool :=
  request.pattern.any fun p => hasWindow p.toUTF8.data.toList a.bytes

/-- The connection is compared with the records and with the last probe. -/
def generationStage (state : JsonValue) (s : State) : Flow :=
  let current := ((state.get "health").get "connection_generation").asU64
  if s.acquired.records.any fun r => (r.get "connection_generation").asU64 ≠ current then
    .stop .reconnected s
  else if s.generation.isSome && current ≠ s.generation then .stop .reconnected s
  else .go { s with generation := current }

def healthStage (state : JsonValue) (s : State) : Flow :=
  let health := state.get "health"
  if (health.get "epoch").asStr ≠ some request.epoch then
    .stop (if (health.get "epoch").isNull then .unsupported else .epochChanged) s
  else if !(state.get "connected").isBool true then .stop .disconnected s
  else if (health.get "capture_alive").isBool false || !(health.get "evidence_error").isNull then
    .stop .captureError (s.push (.obj [("kind", .str "capture_error"),
      ("message", health.get "evidence_error")]))
  else generationStage state s

/-- The probe of the daemon, after the records: an interrupted acquisition must not match. -/
def probeStage (preflight : Option (Except HealthError JsonValue)) (s : State) :
    Flow × JsonValue :=
  if request.timeoutMs > 0 && t.lateProbe then (.stop .timeout s, .null)
  else
    match preflight.getD t.probe with
    | .error e =>
        if e.timedOut && request.timeoutMs > 0 && t.lateError then (.stop .timeout s, .null)
        else (.stop .daemonUnavailable (s.push (note "daemon_unavailable" e.message)), .null)
    | .ok state =>
        if request.timeoutMs > 0 && t.lateAnswer then (.stop .timeout s, .null)
        else (healthStage request state s, state)

def endStage (envelope state : JsonValue) (s : State) : Flow :=
  if hasPattern request s.acquired then .stop .matched s
  else if (envelope.get "capped").isBool true || s.acquired.bytes.length == request.maxBytes.toNat then
    .stop .cap s
  else if t.lateEnd then .stop .timeout s
  else
    .go { s with
      shouldRead :=
        ((state.get "health").get "evidence_through_seq").asU64.all fun seq => seq > s.acquired.cursor }

def turn (s : State) : Flow :=
  let (flow, preflight) := preflightStage request t s
  flow.bind fun s =>
    let (flow, envelope) := readStage request startedAtMs t s
    flow.bind fun s =>
      (envelopeStage envelope s).bind fun s =>
        let (flow, state) := probeStage request t preflight s
        flow.bind (endStage request t envelope state)

/-! ### A whole run -/

inductive RunError where
  | limits
  | empty
  | metadata
  | emit (error : String)
  | accounting

def RunError.text : RunError → String
  | limits => s!"wait requires timeout <= {MAX_TIMEOUT_MS} ms, 1..={MAX_BYTES} raw bytes, and {MIN_OUTPUT_BYTES}..={MAX_OUTPUT_BYTES} output bytes"
  | empty => "epoch and a supplied pattern must be nonempty"
  | metadata => "receive boundary metadata exceeds the output byte budget"
  | emit error => error
  | accounting => "wait output byte budget accounting failed"

/-- The passes as long as they go on; `go` when the turns are used up. -/
def acquireLoop : List Turn → State → Flow
  | [], s => .go s
  | t :: ts, s => (turn request startedAtMs t s).bind (acquireLoop ts)

def finish (finishedAtMs elapsedMs : UInt64) (status : Status) (s : State) :
    Except RunError JsonValue :=
  let notes := s.pendingDiagnostics.foldl Diagnostics.push s.diagnostics
  let output := result request s.acquired status notes
    ⟨startedAtMs, finishedAtMs, elapsedMs, s.nextRecordBytes, s.requiredOutputBytes⟩
  if s.emittedBytes + output.encodedLen + 1 > request.maxOutputBytes.toNat then .error .accounting
  else .ok output

/-- The answer and the events handed out; none while the loop goes on. -/
def run (finishedAtMs elapsedMs : UInt64) (turns : List Turn) :
    Option (Except RunError JsonValue × List JsonValue) :=
  if request.timeoutMs.toNat > MAX_TIMEOUT_MS ∨ request.maxBytes = 0 ∨
      request.maxBytes.toNat > MAX_BYTES ∨
      ¬(MIN_OUTPUT_BYTES ≤ request.maxOutputBytes.toNat ∧
        request.maxOutputBytes.toNat ≤ MAX_OUTPUT_BYTES) then
    some (.error .limits, [])
  else if request.epoch.isEmpty || request.pattern.any String.isEmpty then some (.error .empty, [])
  else if worstLen request startedAtMs (.new request.since) + 1 + FINISH_RESERVE >
      request.maxOutputBytes.toNat then
    some (.error .metadata, [])
  else
    match acquireLoop request startedAtMs turns { acquired := .new request.since } with
    | .go _ => none
    | .fail e s => some (.error (.emit e), s.emitted)
    | .stop status s =>
        some (finish request startedAtMs finishedAtMs elapsedMs status s, s.emitted)

end Wait

end Serialcap

end Paniolo
