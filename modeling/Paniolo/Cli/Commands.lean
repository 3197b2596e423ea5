import Mathlib.Data.Option.Basic
import Paniolo.Library.CommandLine
import Paniolo.Library.JsonText
import Paniolo.Library.Text

/-!
# The command line of the program

The commands that a tool call can run, as `Cli` declares them: which options
and positional arguments each has, and what it makes of them, with its
defaults, bounds and conflicts.
-/

namespace Paniolo

namespace Cli

open CommandLine (Opt Level Matches)

/-! ### What is declared -/

/-- An option with a value and no short name. -/
def valueOpt (id long : String) : Opt := ⟨id, some long, none, .value, false⟩

/-- A switch with no short name. -/
def switchOpt (id long : String) : Opt := ⟨id, some long, none, .switch, false⟩

def labOpt : Opt := valueOpt "lab" "lab"

/-- Overrides itself, so a repeat is accepted. -/
def jsonErrorsOpt : Opt := ⟨"json_errors", some "json-errors", none, .switch, true⟩

def pluginPathOpt : Opt := valueOpt "plugin_path" "plugin-path"

def helpOpt : Opt := ⟨"help", some "help", some 'h', .help, false⟩

def versionOpt : Opt := ⟨"version", some "version", some 'V', .help, false⟩

def targetOpt : Opt := ⟨"target", some "target", some 't', .value, false⟩

def interfaceOpt : Opt := ⟨"interface", some "interface", some 'i', .value, false⟩

/-- What every command has. -/
def globals : List Opt := [labOpt, jsonErrorsOpt, helpOpt]

/-- A command with its own options and positional arguments. -/
def verb (opts : List Opt) (positionals : List String) (trailing : Bool) :
    CommandLine.Command :=
  .mk (globals ++ opts) positionals trailing []

/-- A command that only has subcommands. -/
def group (subs : List (String × CommandLine.Command)) : CommandLine.Command :=
  .mk globals [] false subs

/-- A runtime verb's target: positional, or as `-t`. -/
def targetCommand (opts : List Opt) : CommandLine.Command :=
  verb (targetOpt :: opts) ["target_pos"] false

def serialSend : CommandLine.Command :=
  verb [targetOpt, interfaceOpt, valueOpt "pace_ms" "pace-ms",
    switchOpt "no_newline" "no-newline"] ["first", "second"] false

def serialLog : CommandLine.Command :=
  targetCommand [interfaceOpt, ⟨"tail", some "tail", some 'n', .value, false⟩,
    valueOpt "from" "from", valueOpt "to" "to", valueOpt "since" "since", switchOpt "raw" "raw",
    switchOpt "json" "json", switchOpt "no_pending" "no-pending",
    switchOpt "require_live" "require-live"]

def serialEvidence : CommandLine.Command :=
  targetCommand [interfaceOpt, valueOpt "epoch" "epoch", valueOpt "since" "since",
    valueOpt "max_bytes" "max-bytes"]

def serialWait : CommandLine.Command :=
  targetCommand [interfaceOpt, valueOpt "epoch" "epoch", valueOpt "since" "since",
    valueOpt "timeout_ms" "timeout-ms", valueOpt "max_bytes" "max-bytes",
    valueOpt "max_output_bytes" "max-output-bytes", valueOpt "pattern" "pattern",
    switchOpt "include_pending" "include-pending", switchOpt "follow" "follow"]

def serialTransact : CommandLine.Command :=
  verb [targetOpt, interfaceOpt, valueOpt "until" "until", valueOpt "timeout_ms" "timeout-ms",
    valueOpt "max_bytes" "max-bytes", valueOpt "pace_ms" "pace-ms",
    switchOpt "no_newline" "no-newline"] ["text"] false

def serialStatus : CommandLine.Command := targetCommand [interfaceOpt]

/-- `power on`, `power off`, `power-cycle` and `power-state`. -/
def powerVerb : CommandLine.Command := targetCommand [valueOpt "level" "level"]

def videoShot : CommandLine.Command :=
  targetCommand [switchOpt "stable" "stable", valueOpt "changed_since" "changed-since",
    valueOpt "timeout" "timeout", ⟨"out", some "out", some 'o', .value, false⟩]

def videoRead : CommandLine.Command :=
  targetCommand [switchOpt "stable" "stable", valueOpt "timeout" "timeout",
    switchOpt "json" "json"]

def hidSend : CommandLine.Command := verb [targetOpt] [] true

def actionList : CommandLine.Command := verb [targetOpt, switchOpt "json" "json"] [] false

def actionRun : CommandLine.Command :=
  verb [targetOpt, switchOpt "power_checked" "power-checked"] ["name"] false

def cli : CommandLine.Command :=
  .mk (globals ++ [pluginPathOpt, versionOpt]) [] false
    [("serial", group [("send", serialSend), ("log", serialLog), ("evidence", serialEvidence),
      ("wait", serialWait), ("transact", serialTransact), ("status", serialStatus)]),
    ("power", group [("on", powerVerb), ("off", powerVerb)]),
    ("video", group [("shot", videoShot), ("read", videoRead)]),
    ("hid", group [("send", hidSend)]),
    ("action", group [("list", actionList), ("run", actionRun)]),
    ("power-cycle", powerVerb),
    ("power-state", powerVerb)]

/-! ### What comes out -/

/-- The two spellings of a target, never both. -/
structure TargetArg where
  targetPos : Option String
  target : Option String
deriving DecidableEq

def TargetArg.name (t : TargetArg) : Option String := t.targetPos.or t.target

inductive SerialCmd where
  | send (first : String) (second target interface : Option String) (paceMs : Nat)
      (noNewline : Bool)
  | log (target : TargetArg) (interface : Option String) (tail fromSeq toSeq since : Option Nat)
      (raw json noPending requireLive : Bool)
  | evidence (target : TargetArg) (interface epoch : Option String) (since : Option Nat)
      (maxBytes : Nat)
  | wait (target : TargetArg) (interface : Option String) (epoch : String)
      (since timeoutMs maxBytes maxOutputBytes : Nat) (pattern : Option String)
      (includePending follow : Bool)
  | transact (target interface : Option String) (untilText : String)
      (timeoutMs maxBytes paceMs : Nat) (noNewline : Bool) (text : String)
  | status (target : TargetArg) (interface : Option String)
deriving DecidableEq

inductive PowerCmd where
  | on (target : TargetArg) (level : Option String)
  | off (target : TargetArg) (level : Option String)
deriving DecidableEq

inductive VideoCmd where
  | shot (target : TargetArg) (stable : Bool) (changedSince : Option String) (timeout : Nat)
      (out : String)
  | read (target : TargetArg) (stable : Bool) (timeout : Nat) (json : Bool)
deriving DecidableEq

inductive HidCmd where
  | send (target : Option String) (args : List String)
deriving DecidableEq

inductive ActionCmd where
  | list (target : Option String) (json : Bool)
  | run (target : Option String) (name : String) (powerChecked : Bool)
deriving DecidableEq

inductive Command where
  | serial (cmd : SerialCmd)
  | power (cmd : PowerCmd)
  | video (cmd : VideoCmd)
  | hid (cmd : HidCmd)
  | action (cmd : ActionCmd)
  | powerCycle (target : TargetArg) (level : Option String)
  | powerState (target : TargetArg) (level : Option String)
deriving DecidableEq

end Cli

/-- What the program was started with. -/
structure Cli where
  lab : Option String
  jsonErrors : Bool
  pluginPath : Option String
  command : Cli.Command
deriving DecidableEq

namespace Cli

open CommandLine (Opt Level Matches)

def U64_MAX : Nat := 18446744073709551615

def U32_MAX : Nat := 4294967295

def DEFAULT_EVIDENCE_BYTES : Nat := 65536

def MAX_EVIDENCE_BYTES : Nat := 1048576

/-- `value_parser!(u64).range(lo..=hi)`. -/
def parseRange (lo hi : Nat) (s : String) : Option Nat :=
  (Text.parseUnsigned (hi + 1) s.toList).filter (lo ≤ ·)

/-- `NonEmptyStringValueParser`. -/
def nonEmpty (s : String) : Option String := if s = "" then none else some s

/-- An option that may be left out, with its parser. -/
def optional {α : Type} (parse : String → Option α) (v : Option String) : Option (Option α) :=
  match v with
  | none => some none
  | some s => (parse s).map some

/-- An option with a default. -/
def withDefault {α : Type} (parse : String → Option α) (default : α) (v : Option String) :
    Option α :=
  match v with
  | none => some default
  | some s => parse s

def TargetArg.ofLevel (lv : Level) : Option TargetArg :=
  if (lv.values "target_pos").isSome && (lv.values "target").isSome then none
  else some ⟨lv.values "target_pos", lv.values "target"⟩

def SerialCmd.sendOf (lv : Level) : Option SerialCmd := do
  let first ← lv.values "first"
  let second := lv.values "second"
  let target := lv.values "target"
  guard !(second.isSome && target.isSome)
  let paceMs ← withDefault (parseRange 0 U32_MAX) 0 (lv.values "pace_ms")
  return .send first second target (lv.values "interface") paceMs (lv.switches "no_newline")

def SerialCmd.logOf (lv : Level) : Option SerialCmd := do
  let target ← TargetArg.ofLevel lv
  let tail ← optional (parseRange 0 U64_MAX) (lv.values "tail")
  let fromSeq ← optional (parseRange 0 U64_MAX) (lv.values "from")
  let toSeq ← optional (parseRange 0 U64_MAX) (lv.values "to")
  let since ← optional (parseRange 0 U64_MAX) (lv.values "since")
  return .log target (lv.values "interface") tail fromSeq toSeq since (lv.switches "raw")
    (lv.switches "json") (lv.switches "no_pending") (lv.switches "require_live")

def SerialCmd.evidenceOf (lv : Level) : Option SerialCmd := do
  let target ← TargetArg.ofLevel lv
  let epoch := lv.values "epoch"
  let since ← optional (parseRange 0 U64_MAX) (lv.values "since")
  guard (since.isNone || epoch.isSome)
  let maxBytes ← withDefault (parseRange 1 MAX_EVIDENCE_BYTES) DEFAULT_EVIDENCE_BYTES
    (lv.values "max_bytes")
  return .evidence target (lv.values "interface") epoch since maxBytes

def SerialCmd.waitOf (lv : Level) : Option SerialCmd := do
  let target ← TargetArg.ofLevel lv
  let epoch ← (lv.values "epoch").bind nonEmpty
  let since ← (lv.values "since").bind (parseRange 0 U64_MAX)
  let timeoutMs ← withDefault (parseRange 0 3600000) 30000 (lv.values "timeout_ms")
  let maxBytes ← withDefault (parseRange 1 1048576) 65536 (lv.values "max_bytes")
  let maxOutputBytes ← withDefault (parseRange 4096 8388608) 8388608 (lv.values "max_output_bytes")
  let pattern ← optional nonEmpty (lv.values "pattern")
  return .wait target (lv.values "interface") epoch since timeoutMs maxBytes maxOutputBytes pattern
    (lv.switches "include_pending") (lv.switches "follow")

def SerialCmd.transactOf (lv : Level) : Option SerialCmd := do
  let untilText ← (lv.values "until").bind nonEmpty
  let timeoutMs ← withDefault (parseRange 1 3600000) 30000 (lv.values "timeout_ms")
  let maxBytes ← withDefault (parseRange 1 1048576) 65536 (lv.values "max_bytes")
  let paceMs ← withDefault (parseRange 0 10000) 0 (lv.values "pace_ms")
  let text ← lv.values "text"
  return .transact (lv.values "target") (lv.values "interface") untilText timeoutMs maxBytes paceMs
    (lv.switches "no_newline") text

def SerialCmd.statusOf (lv : Level) : Option SerialCmd := do
  let target ← TargetArg.ofLevel lv
  return .status target (lv.values "interface")

def VideoCmd.shotOf (lv : Level) : Option VideoCmd := do
  let target ← TargetArg.ofLevel lv
  let timeout ← withDefault (parseRange 0 U64_MAX) 2000 (lv.values "timeout")
  return .shot target (lv.switches "stable") (lv.values "changed_since") timeout
    ((lv.values "out").getD "-")

def VideoCmd.readOf (lv : Level) : Option VideoCmd := do
  let target ← TargetArg.ofLevel lv
  let timeout ← withDefault (parseRange 0 U64_MAX) 2000 (lv.values "timeout")
  return .read target (lv.switches "stable") timeout (lv.switches "json")

def HidCmd.sendOf (lv : Level) : Option HidCmd :=
  if lv.trailing = [] then none else some (.send (lv.values "target") lv.trailing)

def ActionCmd.listOf (lv : Level) : Option ActionCmd :=
  some (.list (lv.values "target") (lv.switches "json"))

def ActionCmd.runOf (lv : Level) : Option ActionCmd := do
  let name ← lv.values "name"
  return .run (lv.values "target") name (lv.switches "power_checked")

/-- A power verb: its target and its level. -/
def powerOf (make : TargetArg → Option String → Command) (lv : Level) : Option Command := do
  let target ← TargetArg.ofLevel lv
  return make target (lv.values "level")

/-- The command that a path of subcommands names; a group alone is none. -/
def Command.ofLevel (path : List String) (lv : Level) : Option Command :=
  match path with
  | ["serial", "send"] => (SerialCmd.sendOf lv).map .serial
  | ["serial", "log"] => (SerialCmd.logOf lv).map .serial
  | ["serial", "evidence"] => (SerialCmd.evidenceOf lv).map .serial
  | ["serial", "wait"] => (SerialCmd.waitOf lv).map .serial
  | ["serial", "transact"] => (SerialCmd.transactOf lv).map .serial
  | ["serial", "status"] => (SerialCmd.statusOf lv).map .serial
  | ["power", "on"] => powerOf (fun target level => .power (.on target level)) lv
  | ["power", "off"] => powerOf (fun target level => .power (.off target level)) lv
  | ["video", "shot"] => (VideoCmd.shotOf lv).map .video
  | ["video", "read"] => (VideoCmd.readOf lv).map .video
  | ["hid", "send"] => (HidCmd.sendOf lv).map .hid
  | ["action", "list"] => (ActionCmd.listOf lv).map .action
  | ["action", "run"] => (ActionCmd.runOf lv).map .action
  | ["power-cycle"] => powerOf .powerCycle lv
  | ["power-state"] => powerOf .powerState lv
  | _ => none

def ofMatches (m : Matches) : Option Cli := do
  let command ← Command.ofLevel m.path m.last
  return ⟨m.globalValue "lab", m.globalSwitch "json_errors", m.top.values "plugin_path", command⟩

/-- `Cli::try_parse_from`, without the name of the program. -/
def tryParseFrom (args : List String) : Option Cli :=
  (CommandLine.run cli .empty args).bind ofMatches

/-! ### Numbers -/

theorem parseRange_toString {lo hi n : Nat} (hlo : lo ≤ n) (hhi : n ≤ hi) :
    parseRange lo hi (toString n) = some n := by
  have hlist : (toString n).toList = Nat.toDigits 10 n := by
    rw [Nat.toString_eq_ofList_toDigits, String.toList_ofList]
  rw [parseRange, hlist, Text.parseUnsigned_toDigits, if_pos (Nat.lt_succ_of_le hhi),
    Option.filter_some, if_pos (decide_eq_true hlo)]

theorem isValue_toString (n : Nat) : CommandLine.isValue (toString n) = true := by
  refine CommandLine.isValue_of_head fun h => ?_
  rw [Nat.toString_eq_ofList_toDigits, String.toList_ofList] at h
  exact Text.head?_toDigits_ne (by decide) n h

theorem all_isValue_toString (o : Option Nat) :
    (o.map toString).all CommandLine.isValue = true := by
  cases o with
  | none => rfl
  | some n => exact isValue_toString n

/-! ### Options with well-formed values -/

section

variable {o : Option Nat}

theorem withDefault_toString {lo hi default : Nat} (h : ∀ n ∈ o, lo ≤ n ∧ n ≤ hi) :
    withDefault (parseRange lo hi) default (o.map toString) = some (o.getD default) := by
  cases o with
  | none => rfl
  | some n => exact parseRange_toString (h n rfl).1 (h n rfl).2

theorem optional_toString (h : ∀ n ∈ o, n ≤ U64_MAX) :
    optional (parseRange 0 U64_MAX) (o.map toString) = some o := by
  cases o with
  | none => rfl
  | some n =>
      change (parseRange 0 U64_MAX (toString n)).map some = some (some n)
      rw [parseRange_toString (Nat.zero_le n) (h n rfl)]
      rfl

theorem optional_nonEmpty {o : Option String} (h : o ≠ some "") : optional nonEmpty o = some o := by
  cases o with
  | none => rfl
  | some s =>
      have hs : s ≠ "" := fun hs => h (by rw [hs])
      change (nonEmpty s).map some = some (some s)
      rw [nonEmpty, if_neg hs]
      rfl

end

section

variable (lv : Level) {o : Option Nat}

/-- A target given as `-t` only. -/
theorem TargetArg.ofLevel_eq (h : lv.values "target_pos" = none) :
    TargetArg.ofLevel lv = some ⟨none, lv.values "target"⟩ := by
  rw [TargetArg.ofLevel, h]
  rfl

theorem SerialCmd.sendOf_eq {text : String} (hfirst : lv.values "first" = some text)
    (hsecond : lv.values "second" = none) (hpace : lv.values "pace_ms" = o.map toString)
    (hmax : ∀ n ∈ o, n ≤ 10000) :
    SerialCmd.sendOf lv = some (.send text none (lv.values "target") (lv.values "interface")
      (o.getD 0) (lv.switches "no_newline")) := by
  have hbound : ∀ n ∈ o, 0 ≤ n ∧ n ≤ U32_MAX := fun n hn =>
    ⟨Nat.zero_le n, (hmax n hn).trans (by decide)⟩
  simp only [SerialCmd.sendOf, hfirst, hsecond, hpace, withDefault_toString hbound]
  rfl

theorem SerialCmd.logOf_eq {tail lowest highest since : Option Nat}
    (hpos : lv.values "target_pos" = none) (htail : lv.values "tail" = tail.map toString)
    (hfrom : lv.values "from" = lowest.map toString) (hto : lv.values "to" = highest.map toString)
    (hsince : lv.values "since" = since.map toString) (htailMax : ∀ n ∈ tail, n ≤ U64_MAX)
    (hfromMax : ∀ n ∈ lowest, n ≤ U64_MAX) (htoMax : ∀ n ∈ highest, n ≤ U64_MAX)
    (hsinceMax : ∀ n ∈ since, n ≤ U64_MAX) :
    SerialCmd.logOf lv = some (.log ⟨none, lv.values "target"⟩ (lv.values "interface") tail lowest
      highest since (lv.switches "raw") (lv.switches "json") (lv.switches "no_pending")
      (lv.switches "require_live")) := by
  simp only [SerialCmd.logOf, TargetArg.ofLevel_eq lv hpos, htail, hfrom, hto, hsince,
    optional_toString htailMax, optional_toString hfromMax, optional_toString htoMax,
    optional_toString hsinceMax]
  rfl

theorem SerialCmd.evidenceOf_eq {since : Option Nat} (hpos : lv.values "target_pos" = none)
    (hsince : lv.values "since" = since.map toString)
    (hrequires : (since.isNone || (lv.values "epoch").isSome) = true)
    (hbytes : lv.values "max_bytes" = o.map toString) (hmax : ∀ n ∈ since, n ≤ U64_MAX)
    (hbound : ∀ n ∈ o, 1 ≤ n ∧ n ≤ MAX_EVIDENCE_BYTES) :
    SerialCmd.evidenceOf lv = some (.evidence ⟨none, lv.values "target"⟩ (lv.values "interface")
      (lv.values "epoch") since (o.getD DEFAULT_EVIDENCE_BYTES)) := by
  simp only [SerialCmd.evidenceOf, TargetArg.ofLevel_eq lv hpos, hsince, hbytes,
    optional_toString hmax, withDefault_toString hbound, Option.bind_eq_bind, Option.bind_some,
    hrequires]
  rfl

theorem SerialCmd.waitOf_eq {epoch : String} {since : Nat} {timeout bytes output : Option Nat}
    (hpos : lv.values "target_pos" = none) (hepoch : lv.values "epoch" = some epoch)
    (hne : epoch ≠ "") (hsince : lv.values "since" = some (toString since))
    (hmax : since ≤ U64_MAX) (htimeout : lv.values "timeout_ms" = timeout.map toString)
    (hbytes : lv.values "max_bytes" = bytes.map toString)
    (houtput : lv.values "max_output_bytes" = output.map toString)
    (hpattern : lv.values "pattern" ≠ some "") (ht : ∀ n ∈ timeout, 0 ≤ n ∧ n ≤ 3600000)
    (hb : ∀ n ∈ bytes, 1 ≤ n ∧ n ≤ 1048576) (ho : ∀ n ∈ output, 4096 ≤ n ∧ n ≤ 8388608) :
    SerialCmd.waitOf lv = some (.wait ⟨none, lv.values "target"⟩ (lv.values "interface") epoch
      since (timeout.getD 30000) (bytes.getD 65536) (output.getD 8388608) (lv.values "pattern")
      (lv.switches "include_pending") (lv.switches "follow")) := by
  simp only [SerialCmd.waitOf, TargetArg.ofLevel_eq lv hpos, hepoch, hsince, htimeout, hbytes,
    houtput, withDefault_toString ht, withDefault_toString hb, withDefault_toString ho,
    optional_nonEmpty hpattern, Option.bind_some, nonEmpty, if_neg hne,
    parseRange_toString (Nat.zero_le since) hmax]
  rfl

theorem SerialCmd.transactOf_eq {untilText text : String} {timeout bytes pace : Option Nat}
    (huntil : lv.values "until" = some untilText) (hne : untilText ≠ "")
    (htimeout : lv.values "timeout_ms" = timeout.map toString)
    (hbytes : lv.values "max_bytes" = bytes.map toString)
    (hpace : lv.values "pace_ms" = pace.map toString) (htext : lv.values "text" = some text)
    (ht : ∀ n ∈ timeout, 1 ≤ n ∧ n ≤ 3600000) (hb : ∀ n ∈ bytes, 1 ≤ n ∧ n ≤ 1048576)
    (hp : ∀ n ∈ pace, 0 ≤ n ∧ n ≤ 10000) :
    SerialCmd.transactOf lv = some (.transact (lv.values "target") (lv.values "interface")
      untilText (timeout.getD 30000) (bytes.getD 65536) (pace.getD 0)
      (lv.switches "no_newline") text) := by
  simp only [SerialCmd.transactOf, huntil, htimeout, hbytes, hpace, htext,
    withDefault_toString ht, withDefault_toString hb, withDefault_toString hp, Option.bind_some,
    nonEmpty, if_neg hne]
  rfl

theorem SerialCmd.statusOf_eq (hpos : lv.values "target_pos" = none) :
    SerialCmd.statusOf lv = some (.status ⟨none, lv.values "target"⟩ (lv.values "interface")) := by
  rw [SerialCmd.statusOf, TargetArg.ofLevel_eq lv hpos]
  rfl

theorem VideoCmd.shotOf_eq {timeout : Nat} (hpos : lv.values "target_pos" = none)
    (htimeout : lv.values "timeout" = some (toString timeout)) (hmax : timeout ≤ U64_MAX) :
    VideoCmd.shotOf lv = some (.shot ⟨none, lv.values "target"⟩ (lv.switches "stable")
      (lv.values "changed_since") timeout ((lv.values "out").getD "-")) := by
  simp only [VideoCmd.shotOf, TargetArg.ofLevel_eq lv hpos, htimeout, withDefault,
    parseRange_toString (Nat.zero_le timeout) hmax]
  rfl

theorem VideoCmd.readOf_eq {timeout : Nat} (hpos : lv.values "target_pos" = none)
    (htimeout : lv.values "timeout" = some (toString timeout)) (hmax : timeout ≤ U64_MAX) :
    VideoCmd.readOf lv = some (.read ⟨none, lv.values "target"⟩ (lv.switches "stable") timeout
      (lv.switches "json")) := by
  simp only [VideoCmd.readOf, TargetArg.ofLevel_eq lv hpos, htimeout, withDefault,
    parseRange_toString (Nat.zero_le timeout) hmax]
  rfl

theorem powerOf_eq (make : TargetArg → Option String → Command)
    (hpos : lv.values "target_pos" = none) :
    powerOf make lv = some (make ⟨none, lv.values "target"⟩ (lv.values "level")) := by
  rw [powerOf, TargetArg.ofLevel_eq lv hpos]
  rfl

end

end Cli

end Paniolo
