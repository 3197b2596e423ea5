import Paniolo.Cli.Commands
import Paniolo.Library.JsonValue
import Paniolo.Library.Result

/-!
# Tool calls as command lines

How the tool server turns a call into the arguments of this program run as a
child: `cli_call` for the tools that print text, `ShotRequest` for the one that
returns a picture, and the flags the server puts in front of either.
-/

namespace Paniolo

namespace Cli

open CommandLine (optArg switchArg)

def MAX_SHOT_TIMEOUT_MS : Nat := 120000

def DEFAULT_SHOT_TIMEOUT_MS : Nat := 2000

def MAX_LOG_LINES : Nat := 5000

def MAX_PACE_MS : Nat := 10000

/-- The tools that run a command. -/
inductive Tool where
  | videoShot
  | videoRead
  | serialStatus
  | serialWait
  | serialEvidence
  | serialLog
  | serialSend
  | serialTransact
  | hidSend
  | actionList
  | actionRun
  | powerState
  | powerOn
  | powerOff
  | powerCycle
deriving DecidableEq

namespace Tool

def name : Tool → String
  | videoShot => "video_shot"
  | videoRead => "video_read"
  | serialStatus => "serial_status"
  | serialWait => "serial_wait"
  | serialEvidence => "serial_evidence"
  | serialLog => "serial_log"
  | serialSend => "serial_send"
  | serialTransact => "serial_transact"
  | hidSend => "hid_send"
  | actionList => "action_list"
  | actionRun => "action_run"
  | powerState => "power_state"
  | powerOn => "power_on"
  | powerOff => "power_off"
  | powerCycle => "power_cycle"

def all : List Tool :=
  [videoShot, videoRead, serialStatus, serialWait, serialEvidence, serialLog, serialSend,
    serialTransact, hidSend, actionList, actionRun, powerState, powerOn, powerOff, powerCycle]

def ofName (name : String) : Option Tool := all.find? fun t => t.name == name

theorem name_of_ofName {name : String} {t : Tool} (h : ofName name = some t) : t.name = name :=
  eq_of_beq (List.find?_some (p := fun t : Tool => t.name == name) h)

end Tool

/-! ### Looking into the arguments -/

def strArg (v : JsonValue) (name : String) : Option String := (v.field? name).bind JsonValue.asStr

def boolArg (v : JsonValue) (name : String) : Option Bool := (v.field? name).bind JsonValue.asBool

def natArg (v : JsonValue) (name : String) : Option Nat :=
  (v.field? name).bind fun v => v.asU64.map UInt64.toNat

/-- An argument that may be absent or `null`, and is of one type otherwise. -/
def optionalArg {α : Type} (v : JsonValue) (name : String) (read : JsonValue → Option α)
    (message : String) : Except String (Option α) :=
  match v.field? name with
  | none => .ok none
  | some x => if x.isNull then .ok none else okOr ((read x).map some) message

/-- An unsigned integer up to a bound. -/
def u64UpTo (max : Nat) (v : JsonValue) : Option Nat :=
  (v.asU64.map UInt64.toNat).filter (· ≤ max)

/-- The arguments of a call; the errors name the tool and the argument. -/
structure Args where
  tool : String
  v : JsonValue

namespace Args

def target (a : Args) : Except String String :=
  okOr ((strArg a.v "target").filter (· != "")) s!"{a.tool} needs a target"

def optStr (a : Args) (name : String) : Except String (Option String) :=
  optionalArg a.v name JsonValue.asStr s!"{a.tool}: {name} must be a string"

def optBool (a : Args) (name : String) : Except String (Option Bool) :=
  optionalArg a.v name JsonValue.asBool s!"{a.tool}: {name} must be a boolean"

def optU64 (a : Args) (name : String) (max : Nat) : Except String (Option Nat) :=
  optionalArg a.v name (u64UpTo max) s!"{a.tool}: {name} must be an integer from 0 to {max}"

end Args

/-- One tool call as the arguments of the program. -/
structure CliCall where
  argv : List String
  writes : Bool
deriving DecidableEq

/-- A bounded number and the option it goes to. -/
structure Limit where
  name : String
  flag : String
  max : Nat
  min : Nat

/-- The options of the bounded numbers that are given. -/
def limitArgs (a : Args) : List Limit → Except String (List String)
  | [] => .ok []
  | l :: ls => do
      let value ← a.optU64 l.name l.max
      ensure (value.all (l.min ≤ ·)) s!"{a.tool}: {l.name} must be >= {l.min}"
      let more ← limitArgs a ls
      return optArg l.flag (value.map toString) ++ more

/-! ### The tools -/

def videoReadCall (a : Args) : Except String CliCall := do
  let target ← a.target
  let timeout := (← a.optU64 "timeout_ms" MAX_SHOT_TIMEOUT_MS).getD DEFAULT_SHOT_TIMEOUT_MS
  let stable := (← a.optBool "stable").getD false
  return ⟨["video", "read", "-t", target, "--timeout", toString timeout] ++
    switchArg "--stable" stable, false⟩

def serialStatusCall (a : Args) : Except String CliCall := do
  let target ← a.target
  let interface ← a.optStr "interface"
  return ⟨["serial", "status", "-t", target] ++ optArg "-i" interface, false⟩

def waitLimits : List Limit :=
  [⟨"timeout_ms", "--timeout-ms", 3600000, 0⟩, ⟨"max_bytes", "--max-bytes", 1048576, 1⟩,
    ⟨"max_output_bytes", "--max-output-bytes", 8388608, 4096⟩]

def serialWaitCall (a : Args) : Except String CliCall := do
  let epoch ← okOr ((← a.optStr "epoch").filter (· != "")) "serial_wait needs a nonempty epoch"
  let since ← okOr (← a.optU64 "since" U64_MAX) "serial_wait needs since"
  let target ← a.target
  let interface ← a.optStr "interface"
  let limits ← limitArgs a waitLimits
  let pattern ← a.optStr "pattern"
  ensure (pattern != some "") "serial_wait: pattern must be nonempty"
  let includePending := (← a.optBool "include_pending").getD false
  let follow := (← a.optBool "follow").getD false
  return ⟨["serial", "wait", "-t", target, "--epoch", epoch, "--since", toString since] ++
    optArg "-i" interface ++ limits ++ optArg "--pattern" pattern ++
    switchArg "--include-pending" includePending ++ switchArg "--follow" follow, false⟩

def serialEvidenceCall (a : Args) : Except String CliCall := do
  let target ← a.target
  let interface ← a.optStr "interface"
  let epoch ← a.optStr "epoch"
  let since ← a.optU64 "since" U64_MAX
  ensure (since.isNone || epoch.isSome) "serial_evidence: since requires epoch"
  let max ← a.optU64 "max_bytes" MAX_EVIDENCE_BYTES
  ensure (max != some 0) "serial_evidence: max_bytes must be positive"
  return ⟨["serial", "evidence", "-t", target] ++ optArg "-i" interface ++
    optArg "--epoch" epoch ++ optArg "--since" (since.map toString) ++
    optArg "--max-bytes" (max.map toString), false⟩

def logLimits : List Limit :=
  [⟨"tail", "-n", MAX_LOG_LINES, 0⟩, ⟨"since", "--since", U64_MAX, 0⟩,
    ⟨"from", "--from", U64_MAX, 0⟩, ⟨"to", "--to", U64_MAX, 0⟩]

def serialLogCall (a : Args) : Except String CliCall := do
  let target ← a.target
  let interface ← a.optStr "interface"
  let limits ← limitArgs a logLimits
  return ⟨["serial", "log", "-t", target] ++ optArg "-i" interface ++ limits, false⟩

/-- `--` so that text that starts with `-` stays text. -/
def serialSendCall (a : Args) : Except String CliCall := do
  let target ← a.target
  let text ← okOr (← a.optStr "text") s!"{a.tool} needs text (\"\" with newline sends just Enter)"
  let interface ← a.optStr "interface"
  let pace ← a.optU64 "pace_ms" MAX_PACE_MS
  let newline := (← a.optBool "newline").getD true
  return ⟨["serial", "send", "-t", target] ++ optArg "-i" interface ++
    optArg "--pace-ms" (pace.map toString) ++ switchArg "--no-newline" (!newline) ++
    ["--", text], true⟩

def transactLimits : List Limit :=
  [⟨"timeout_ms", "--timeout-ms", 3600000, 1⟩, ⟨"max_bytes", "--max-bytes", 1048576, 1⟩,
    ⟨"pace_ms", "--pace-ms", MAX_PACE_MS, 0⟩]

def serialTransactCall (a : Args) : Except String CliCall := do
  let target ← a.target
  let text ← okOr (← a.optStr "text") s!"{a.tool} needs text"
  let untilText ← okOr ((← a.optStr "until").filter (· != ""))
    s!"{a.tool} needs a nonempty until"
  let interface ← a.optStr "interface"
  let limits ← limitArgs a transactLimits
  let newline := (← a.optBool "newline").getD true
  return ⟨["serial", "transact", "-t", target, "--until", untilText] ++ optArg "-i" interface ++
    limits ++ switchArg "--no-newline" (!newline) ++ ["--", text], true⟩

/-- The strings of an array of strings. -/
def strings (items : List JsonValue) : Option (List String) := items.mapM JsonValue.asStr

def hidSendCall (a : Args) : Except String CliCall := do
  let target ← a.target
  let items ← okOr ((a.v.field? "command").bind JsonValue.asArray)
    s!"{a.tool} needs command, an array of strings"
  let words ← okOr (strings items) s!"{a.tool}: command must be an array of strings"
  let verb ← okOr words.head? s!"{a.tool}: command is empty"
  let shown := Text.debugStr verb.toList
  ensure (verb != "" && verb.toList.head? != some '-')
    s!"{a.tool}: command must start with a verb, got {shown}"
  return ⟨["hid", "send", "-t", target] ++ words, true⟩

def actionListCall (a : Args) : Except String CliCall := do
  let target ← a.target
  return ⟨["action", "list", "-t", target, "--json"], false⟩

def actionRunCall (a : Args) : Except String CliCall := do
  let target ← a.target
  let name ← okOr ((strArg a.v "name").filter (· != "")) s!"{a.tool} needs name, a string"
  let shown := Text.debugStr name.toList
  ensure (name.toList.head? != some '-') s!"{a.tool}: name must not start with '-', got {shown}"
  return ⟨["action", "run", "-t", target, "--", name], true⟩

/-- A name that reads as a flag would reach the parser as one. -/
def powerCall (words : List String) (writes : Bool) (a : Args) : Except String CliCall := do
  let target ← a.target
  let level ← a.optStr "level"
  let shown := Text.debugStr (level.getD "").toList
  ensure (level.all fun level => level != "" && level.toList.head? != some '-')
    s!"{a.tool}: level must be a level name, got {shown}"
  return ⟨words ++ ["-t", target] ++ optArg "--level" level, writes⟩

def cliCall (tool : String) (args : JsonValue) : Except String CliCall :=
  let a : Args := ⟨tool, args⟩
  match Tool.ofName tool with
  | some .videoRead => videoReadCall a
  | some .serialStatus => serialStatusCall a
  | some .serialWait => serialWaitCall a
  | some .serialEvidence => serialEvidenceCall a
  | some .serialLog => serialLogCall a
  | some .serialSend => serialSendCall a
  | some .serialTransact => serialTransactCall a
  | some .hidSend => hidSendCall a
  | some .actionList => actionListCall a
  | some .actionRun => actionRunCall a
  | some .powerState => powerCall ["power-state"] false a
  | some .powerOn => powerCall ["power", "on"] true a
  | some .powerOff => powerCall ["power", "off"] true a
  | some .powerCycle => powerCall ["power-cycle"] true a
  | some .videoShot | none => .error s!"unknown tool: {tool}"

structure ShotRequest where
  target : String
  changedSince : Option String
  stable : Bool
  timeoutMs : Nat
deriving DecidableEq

def ShotRequest.fromArgs (args : JsonValue) : Except String ShotRequest := do
  let target ← okOr ((strArg args "target").filter (· != "")) "video_shot needs a target"
  let changedSince ← optionalArg args "changed_since" JsonValue.asStr
    "changed_since must be a string"
  let stable ← optionalArg args "stable" JsonValue.asBool "stable must be a boolean"
  let timeoutMs ← optionalArg args "timeout_ms" (u64UpTo MAX_SHOT_TIMEOUT_MS)
    s!"timeout_ms must be an integer from 0 to {MAX_SHOT_TIMEOUT_MS}"
  return ⟨target, changedSince, stable.getD false, timeoutMs.getD DEFAULT_SHOT_TIMEOUT_MS⟩

/-- `-t` rather than a positional, so that a target named like an option is not read as one. -/
def ShotRequest.argv (req : ShotRequest) (out : String) : List String :=
  ["video", "shot", "-t", req.target, "--timeout", toString req.timeoutMs, "--out", out] ++
    switchArg "--stable" req.stable ++ optArg "--changed-since" req.changedSince

/-- The arguments a call of a tool comes to; a shot is written to `out`. -/
def toolArgv (tool : String) (args : JsonValue) (out : String) : Except String (List String) :=
  if tool = "video_shot" then (ShotRequest.fromArgs args).map fun req => req.argv out
  else (cliCall tool args).map CliCall.argv

/-- The arguments of the child: the `--lab` of the server goes on to it. -/
def childArgs (lab : Option String) (argv : List String) : List String :=
  optArg "--lab" lab ++ "--json-errors" :: argv

/-! ### What an accepted argument is -/

/-- An accepted argument is what the field holds, read with `g` or with the narrower `read`. -/
theorem eq_of_optionalArg {α : Type} {v : JsonValue} {name message : String}
    {read g : JsonValue → Option α} (hnull : g .null = none)
    (hg : ∀ v x, read v = some x → g v = some x) {o : Option α}
    (h : optionalArg v name read message = .ok o) :
    (v.field? name).bind g = o ∧ ∀ x ∈ o, ∃ v, read v = some x := by
  rw [optionalArg] at h
  cases hv : v.field? name with
  | none =>
      rw [hv] at h
      cases h
      exact ⟨rfl, fun x hx => by cases hx⟩
  | some w =>
      rw [hv] at h
      dsimp only at h
      split at h
      · next hisNull =>
          cases h
          refine ⟨?_, fun x hx => by cases hx⟩
          cases w with
          | null => exact hnull
          | _ => cases hisNull
      · obtain ⟨x, hx, rfl⟩ := Option.map_eq_some_iff.mp (okOr_eq_ok.mp h)
        refine ⟨hg w x hx, fun y hy => ?_⟩
        cases hy
        exact ⟨w, hx⟩

theorem strArg_of_optionalArg {v : JsonValue} {name message : String} {o : Option String}
    (h : optionalArg v name JsonValue.asStr message = .ok o) : strArg v name = o :=
  (eq_of_optionalArg rfl (fun _ _ hx => hx) h).1

theorem boolArg_of_optionalArg {v : JsonValue} {name message : String} {o : Option Bool}
    (h : optionalArg v name JsonValue.asBool message = .ok o) : boolArg v name = o :=
  (eq_of_optionalArg rfl (fun _ _ hx => hx) h).1

theorem natArg_of_optionalArg {v : JsonValue} {name message : String} {max : Nat} {o : Option Nat}
    (h : optionalArg v name (u64UpTo max) message = .ok o) :
    natArg v name = o ∧ ∀ n ∈ o, n ≤ max := by
  obtain ⟨heq, hread⟩ := eq_of_optionalArg (g := fun v => v.asU64.map UInt64.toNat) rfl
    (fun _ _ hx => (Option.filter_eq_some_iff.mp hx).1) h
  refine ⟨heq, fun n hn => ?_⟩
  obtain ⟨w, hw⟩ := hread n hn
  simpa using (Option.filter_eq_some_iff.mp hw).2

theorem Args.optStr_eq_ok {a : Args} {name : String} {o : Option String}
    (h : a.optStr name = .ok o) : strArg a.v name = o :=
  strArg_of_optionalArg h

theorem Args.optBool_eq_ok {a : Args} {name : String} {o : Option Bool}
    (h : a.optBool name = .ok o) : boolArg a.v name = o :=
  boolArg_of_optionalArg h

theorem Args.optU64_eq_ok {a : Args} {name : String} {max : Nat} {o : Option Nat}
    (h : a.optU64 name max = .ok o) : natArg a.v name = o ∧ ∀ n ∈ o, n ≤ max :=
  natArg_of_optionalArg h

/-- A text that must be there and not be empty. -/
theorem okOr_nonempty {o : Option String} {message s : String}
    (h : okOr (o.filter (· != "")) message = .ok s) : o = some s ∧ s ≠ "" := by
  obtain ⟨ho, hs⟩ := Option.filter_eq_some_iff.mp (okOr_eq_ok.mp h)
  exact ⟨ho, by simpa using hs⟩

theorem Args.target_eq_ok {a : Args} {target : String} (h : a.target = .ok target) :
    strArg a.v "target" = some target :=
  (okOr_nonempty h).1

/-- The bounded numbers that are given, each within its bounds. -/
theorem limitArgs_eq_ok {a : Args} {ls : List Limit} {argv : List String}
    (h : limitArgs a ls = .ok argv) :
    argv = ls.flatMap (fun l => optArg l.flag ((natArg a.v l.name).map toString)) ∧
      ∀ l ∈ ls, ∀ n ∈ natArg a.v l.name, l.min ≤ n ∧ n ≤ l.max := by
  induction ls generalizing argv with
  | nil =>
      cases h
      exact ⟨rfl, fun l hl => absurd hl List.not_mem_nil⟩
  | cons l ls ih =>
      rw [limitArgs, bind_eq_ok] at h
      obtain ⟨value, hvalue, h⟩ := h
      obtain ⟨hmin, h⟩ := seq_eq_ok.mp h
      obtain ⟨more, hmore, h⟩ := bind_eq_ok.mp h
      cases h
      obtain ⟨hmoreEq, hbounds⟩ := ih hmore
      obtain ⟨hnat, hmax⟩ := Args.optU64_eq_ok hvalue
      rw [ensure_eq_ok] at hmin
      refine ⟨?_, List.forall_mem_cons.mpr ⟨fun n hn => ?_, hbounds⟩⟩
      · rw [List.flatMap_cons, hnat, hmoreEq]
      · rw [hnat] at hn
        rw [hn, Option.all_some, decide_eq_true_eq] at hmin
        exact ⟨hmin, hmax n hn⟩

end Cli

end Paniolo
