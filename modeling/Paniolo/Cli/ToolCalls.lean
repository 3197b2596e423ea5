import Paniolo.Cli.Mcp

/-!
# A tool call runs the command it names

The arguments of every call are a path of subcommands, options one by one, and
words. The parser reads them as the command the call names, unless a text that
is handed on as the value of an option looks like an option: then it refuses
the line. `text`, the words of a key command, action names and levels are
guarded; a target, an interface, an epoch and the texts to wait for are not.
-/

namespace Paniolo

namespace Cli

open CommandLine (Level Piece optArg switchArg isValue)

/-! ### What a call names -/

/-- The command of a call: the fields of its arguments, and defaults where it gives none. -/
def Tool.command (t : Tool) (args : JsonValue) (out : String) : Command :=
  let target := strArg args "target"
  let named : TargetArg := ⟨none, target⟩
  let interface := strArg args "interface"
  let on := fun name => (boolArg args name).getD false
  let noNewline := !(boolArg args "newline").getD true
  let number := fun name default => (natArg args name).getD default
  match t with
  | .videoShot =>
      .video (.shot named (on "stable") (strArg args "changed_since") (number "timeout_ms" 2000) out)
  | .videoRead => .video (.read named (on "stable") (number "timeout_ms" 2000) false)
  | .serialStatus => .serial (.status named interface)
  | .serialWait =>
      .serial (.wait named interface ((strArg args "epoch").getD "") (number "since" 0)
        (number "timeout_ms" 30000) (number "max_bytes" 65536) (number "max_output_bytes" 8388608)
        (strArg args "pattern") (on "include_pending") (on "follow"))
  | .serialEvidence =>
      .serial (.evidence named interface (strArg args "epoch") (natArg args "since")
        (number "max_bytes" 65536))
  | .serialLog =>
      .serial (.log named interface (natArg args "tail") (natArg args "from") (natArg args "to")
        (natArg args "since") false false false false)
  | .serialSend =>
      .serial (.send ((strArg args "text").getD "") none target interface (number "pace_ms" 0)
        noNewline)
  | .serialTransact =>
      .serial (.transact target interface ((strArg args "until").getD "")
        (number "timeout_ms" 30000) (number "max_bytes" 65536) (number "pace_ms" 0) noNewline
        ((strArg args "text").getD ""))
  | .hidSend =>
      .hid (.send target
        (((args.field? "command").bind JsonValue.asArray).bind strings).toList.flatten)
  | .actionList => .action (.list target true)
  | .actionRun => .action (.run target ((strArg args "name").getD "") false)
  | .powerState => .powerState named (strArg args "level")
  | .powerOn => .power (.on named (strArg args "level"))
  | .powerOff => .power (.off named (strArg args "level"))
  | .powerCycle => .powerCycle named (strArg args "level")

/-- The texts of a call that become values of options as they are. -/
def Tool.spliced (t : Tool) (args : JsonValue) (out : String) : List (Option String) :=
  match t with
  | .videoShot => [strArg args "target", some out, strArg args "changed_since"]
  | .serialStatus | .serialLog | .serialSend => [strArg args "target", strArg args "interface"]
  | .serialWait =>
      [strArg args "target", strArg args "epoch", strArg args "interface", strArg args "pattern"]
  | .serialEvidence => [strArg args "target", strArg args "interface", strArg args "epoch"]
  | .serialTransact => [strArg args "target", strArg args "until", strArg args "interface"]
  | .videoRead | .hidSend | .actionList | .actionRun | .powerState | .powerOn | .powerOff
  | .powerCycle => [strArg args "target"]

/-! ### How it is written -/

def Tool.path : Tool → List String
  | .videoShot => ["video", "shot"]
  | .videoRead => ["video", "read"]
  | .serialStatus => ["serial", "status"]
  | .serialWait => ["serial", "wait"]
  | .serialEvidence => ["serial", "evidence"]
  | .serialLog => ["serial", "log"]
  | .serialSend => ["serial", "send"]
  | .serialTransact => ["serial", "transact"]
  | .hidSend => ["hid", "send"]
  | .actionList => ["action", "list"]
  | .actionRun => ["action", "run"]
  | .powerState => ["power-state"]
  | .powerOn => ["power", "on"]
  | .powerOff => ["power", "off"]
  | .powerCycle => ["power-cycle"]

def Tool.verb : Tool → CommandLine.Command
  | .videoShot => Cli.videoShot
  | .videoRead => Cli.videoRead
  | .serialStatus => Cli.serialStatus
  | .serialWait => Cli.serialWait
  | .serialEvidence => Cli.serialEvidence
  | .serialLog => Cli.serialLog
  | .serialSend => Cli.serialSend
  | .serialTransact => Cli.serialTransact
  | .hidSend => Cli.hidSend
  | .actionList => Cli.actionList
  | .actionRun => Cli.actionRun
  | .powerState | .powerOn | .powerOff | .powerCycle => Cli.powerVerb

/-- The options of a call, in the order in which they are written. -/
def Tool.pieces (t : Tool) (args : JsonValue) (out : String) : List Piece :=
  let target : Piece := .value "-t" targetOpt (strArg args "target")
  let interface : Piece := .value "-i" interfaceOpt (strArg args "interface")
  let text := fun name flag o => Piece.value flag o (strArg args name)
  let number := fun name flag o => Piece.value flag o ((natArg args name).map toString)
  let on := fun name flag o => Piece.switch flag o ((boolArg args name).getD false)
  let timeout : Piece := .value "--timeout" (valueOpt "timeout" "timeout")
    (some (toString ((natArg args "timeout_ms").getD DEFAULT_SHOT_TIMEOUT_MS)))
  let noNewline : Piece := .switch "--no-newline" (switchOpt "no_newline" "no-newline")
    (!(boolArg args "newline").getD true)
  match t with
  | .videoShot =>
      [target, timeout, .value "--out" ⟨"out", some "out", some 'o', .value, false⟩ (some out),
        on "stable" "--stable" (switchOpt "stable" "stable"),
        text "changed_since" "--changed-since" (valueOpt "changed_since" "changed-since")]
  | .videoRead => [target, timeout, on "stable" "--stable" (switchOpt "stable" "stable")]
  | .serialStatus => [target, interface]
  | .serialWait =>
      [target, text "epoch" "--epoch" (valueOpt "epoch" "epoch"),
        number "since" "--since" (valueOpt "since" "since"), interface,
        number "timeout_ms" "--timeout-ms" (valueOpt "timeout_ms" "timeout-ms"),
        number "max_bytes" "--max-bytes" (valueOpt "max_bytes" "max-bytes"),
        number "max_output_bytes" "--max-output-bytes"
          (valueOpt "max_output_bytes" "max-output-bytes"),
        text "pattern" "--pattern" (valueOpt "pattern" "pattern"),
        on "include_pending" "--include-pending" (switchOpt "include_pending" "include-pending"),
        on "follow" "--follow" (switchOpt "follow" "follow")]
  | .serialEvidence =>
      [target, interface, text "epoch" "--epoch" (valueOpt "epoch" "epoch"),
        number "since" "--since" (valueOpt "since" "since"),
        number "max_bytes" "--max-bytes" (valueOpt "max_bytes" "max-bytes")]
  | .serialLog =>
      [target, interface, number "tail" "-n" ⟨"tail", some "tail", some 'n', .value, false⟩,
        number "since" "--since" (valueOpt "since" "since"),
        number "from" "--from" (valueOpt "from" "from"), number "to" "--to" (valueOpt "to" "to")]
  | .serialSend =>
      [target, interface, number "pace_ms" "--pace-ms" (valueOpt "pace_ms" "pace-ms"), noNewline]
  | .serialTransact =>
      [target, text "until" "--until" (valueOpt "until" "until"), interface,
        number "timeout_ms" "--timeout-ms" (valueOpt "timeout_ms" "timeout-ms"),
        number "max_bytes" "--max-bytes" (valueOpt "max_bytes" "max-bytes"),
        number "pace_ms" "--pace-ms" (valueOpt "pace_ms" "pace-ms"), noNewline]
  | .hidSend | .actionRun => [target]
  | .actionList => [target, .switch "--json" (switchOpt "json" "json") true]
  | .powerState | .powerOn | .powerOff | .powerCycle =>
      [target, text "level" "--level" (valueOpt "level" "level")]

/-- The words after the options. -/
def Tool.words (t : Tool) (args : JsonValue) : List String :=
  match t with
  | .serialSend | .serialTransact => ["--", (strArg args "text").getD ""]
  | .hidSend => (((args.field? "command").bind JsonValue.asArray).bind strings).toList.flatten
  | .actionRun => ["--", (strArg args "name").getD ""]
  | _ => []

theorem Tool.follow_path (t : Tool) : cli.follow t.path = some t.verb := by
  cases t with
  | _ => rfl

/-- Every verb knows the options that are written for it. -/
theorem Tool.known_pieces (t : Tool) (args : JsonValue) (out : String) :
    ∀ p ∈ t.pieces args out, p.Known t.verb := by
  intro p hp
  cases t with
  | _ =>
    simp only [pieces, List.mem_cons, List.not_mem_nil, or_false] at hp
    rcases hp with rfl | rfl | rfl | rfl | rfl | rfl | rfl | rfl | rfl | rfl <;> exact fun lv => rfl

theorem Tool.nodup_pieces (t : Tool) (args : JsonValue) (out : String) :
    ((t.pieces args out).map Piece.id).Nodup := by
  have hids : (t.pieces args out).map Piece.id = (t.pieces .null "").map Piece.id := by
    cases t with
    | _ => rfl
  rw [hids]
  cases t with
  | _ => decide

/-! ### What the verbs read -/

/-- The line of an accepted call, and what its verb makes of it. -/
structure Tool.Reads (t : Tool) (args : JsonValue) (out : String) (argv : List String) :
    Prop where
  argv_eq : argv = t.path ++ ((t.pieces args out).flatMap Piece.args ++ t.words args)
  fits_eq : (t.pieces args out).all Piece.fits = (t.spliced args out).all fun v => v.all isValue
  read : ∃ final : Level,
    CommandLine.run t.verb (.ofPieces (t.pieces args out)) (t.words args) = some ⟨final, []⟩ ∧
    final.values "lab" = none ∧ final.switches "json_errors" = false ∧
    Command.ofLevel t.path final = some (t.command args out)

theorem getD_le {o : Option Nat} {d bound : Nat} (h : ∀ n ∈ o, n ≤ bound) (hd : d ≤ bound) :
    o.getD d ≤ bound := by
  cases o with
  | none => exact hd
  | some n => exact h n rfl

theorem shotTimeout_le {o : Option Nat} (h : ∀ n ∈ o, n ≤ MAX_SHOT_TIMEOUT_MS) :
    o.getD DEFAULT_SHOT_TIMEOUT_MS ≤ U64_MAX :=
  (getD_le h (by decide)).trans (by decide)

/-- A text that starts with no hyphen can stand in an argument of its own. -/
theorem isValue_of_guard {s : String} (h : (s != "" && s.toList.head? != some '-') = true) :
    isValue s = true := by
  rw [Bool.and_eq_true, bne_iff_ne, bne_iff_ne] at h
  exact CommandLine.isValue_of_head h.2

section

variable {args : JsonValue} {out tool : String} {call : CliCall}

theorem reads_videoShot {req : ShotRequest} (h : ShotRequest.fromArgs args = .ok req) :
    Tool.videoShot.Reads args out (req.argv out) := by
  obtain ⟨target, htarget, h⟩ := bind_eq_ok.mp h
  obtain ⟨changed, hchanged, h⟩ := bind_eq_ok.mp h
  obtain ⟨stable, hstable, h⟩ := bind_eq_ok.mp h
  obtain ⟨timeout, htimeout, h⟩ := bind_eq_ok.mp h
  cases h
  replace htarget := (okOr_nonempty htarget).1
  replace hchanged := strArg_of_optionalArg hchanged
  replace hstable := boolArg_of_optionalArg hstable
  obtain ⟨htimeout, hmax⟩ := natArg_of_optionalArg htimeout
  subst hchanged hstable htimeout
  refine ⟨?_, ?_, _, rfl, rfl, rfl, ?_⟩
  · simp [ShotRequest.argv, Tool.path, Tool.pieces, Tool.words, Piece.args, optArg, htarget]
  · simp [Tool.pieces, Tool.spliced, Piece.fits, -Nat.toString_eq_repr, isValue_toString]
  · exact congrArg (Option.map Command.video)
      (VideoCmd.shotOf_eq (.ofPieces (Tool.videoShot.pieces args out)) rfl rfl
        (shotTimeout_le hmax))

theorem reads_videoRead (h : videoReadCall ⟨tool, args⟩ = .ok call) :
    Tool.videoRead.Reads args out call.argv := by
  obtain ⟨target, htarget, h⟩ := bind_eq_ok.mp h
  obtain ⟨timeout, htimeout, h⟩ := bind_eq_ok.mp h
  obtain ⟨stable, hstable, h⟩ := bind_eq_ok.mp h
  cases h
  replace htarget := Args.target_eq_ok htarget
  replace hstable := Args.optBool_eq_ok hstable
  obtain ⟨htimeout, hmax⟩ := Args.optU64_eq_ok htimeout
  subst htimeout hstable
  refine ⟨?_, ?_, _, rfl, rfl, rfl, ?_⟩
  · simp [Tool.path, Tool.pieces, Tool.words, Piece.args, optArg, htarget]
  · simp [Tool.pieces, Tool.spliced, Piece.fits, -Nat.toString_eq_repr, isValue_toString]
  · exact congrArg (Option.map Command.video)
      (VideoCmd.readOf_eq (.ofPieces (Tool.videoRead.pieces args out)) rfl rfl
        (shotTimeout_le hmax))

theorem reads_serialStatus (h : serialStatusCall ⟨tool, args⟩ = .ok call) :
    Tool.serialStatus.Reads args out call.argv := by
  obtain ⟨target, htarget, h⟩ := bind_eq_ok.mp h
  obtain ⟨interface, hinterface, h⟩ := bind_eq_ok.mp h
  cases h
  replace htarget := Args.target_eq_ok htarget
  replace hinterface := Args.optStr_eq_ok hinterface
  subst hinterface
  refine ⟨?_, ?_, _, rfl, rfl, rfl, ?_⟩
  · simp [Tool.path, Tool.pieces, Tool.words, Piece.args, optArg, htarget]
  · simp [Tool.pieces, Tool.spliced, Piece.fits]
  · exact congrArg (Option.map Command.serial)
      (SerialCmd.statusOf_eq (.ofPieces (Tool.serialStatus.pieces args out)) rfl)

theorem reads_serialWait (h : serialWaitCall ⟨tool, args⟩ = .ok call) :
    Tool.serialWait.Reads args out call.argv := by
  obtain ⟨epochArg, hepochArg, h⟩ := bind_eq_ok.mp h
  obtain ⟨epoch, hepoch, h⟩ := bind_eq_ok.mp h
  obtain ⟨sinceArg, hsinceArg, h⟩ := bind_eq_ok.mp h
  obtain ⟨since, hsince, h⟩ := bind_eq_ok.mp h
  obtain ⟨target, htarget, h⟩ := bind_eq_ok.mp h
  obtain ⟨interface, hinterface, h⟩ := bind_eq_ok.mp h
  obtain ⟨limits, hlimits, h⟩ := bind_eq_ok.mp h
  obtain ⟨pattern, hpattern, h⟩ := bind_eq_ok.mp h
  obtain ⟨hnonempty, h⟩ := seq_eq_ok.mp h
  obtain ⟨pending, hpending, h⟩ := bind_eq_ok.mp h
  obtain ⟨follow, hfollow, h⟩ := bind_eq_ok.mp h
  cases h
  obtain ⟨hepochSome, hepochNe⟩ := okOr_nonempty hepoch
  obtain ⟨hsinceEq, hsinceMax⟩ := Args.optU64_eq_ok hsinceArg
  have hsinceSome := okOr_eq_ok.mp hsince
  obtain ⟨hlimitsEq, hbounds⟩ := limitArgs_eq_ok hlimits
  replace htarget := Args.target_eq_ok htarget
  replace hepochArg := Args.optStr_eq_ok hepochArg
  replace hinterface := Args.optStr_eq_ok hinterface
  replace hpattern := Args.optStr_eq_ok hpattern
  replace hpending := Args.optBool_eq_ok hpending
  replace hfollow := Args.optBool_eq_ok hfollow
  rw [ensure_eq_ok, bne_iff_ne] at hnonempty
  rw [hepochSome] at hepochArg
  rw [hsinceSome] at hsinceEq
  subst hinterface hpattern hpending hfollow hlimitsEq
  dsimp only at hepochArg hsinceEq hbounds
  have htimeout := hbounds ⟨"timeout_ms", "--timeout-ms", 3600000, 0⟩ (by simp [waitLimits])
  have hbytes := hbounds ⟨"max_bytes", "--max-bytes", 1048576, 1⟩ (by simp [waitLimits])
  have houtput := hbounds ⟨"max_output_bytes", "--max-output-bytes", 8388608, 4096⟩
    (by simp [waitLimits])
  refine ⟨?_, ?_, _, rfl, rfl, rfl, ?_⟩
  · simp [Tool.path, Tool.pieces, Tool.words, Piece.args, optArg, htarget, hepochArg, hsinceEq,
      waitLimits]
  · simp [Tool.pieces, Tool.spliced, Piece.fits, -Nat.toString_eq_repr, all_isValue_toString]
  · have hread := SerialCmd.waitOf_eq (.ofPieces (Tool.serialWait.pieces args out)) rfl hepochArg
      hepochNe (congrArg (Option.map toString) hsinceEq) (hsinceMax since hsinceSome) rfl rfl rfl
      hnonempty htimeout hbytes houtput
    have hcommand : Tool.serialWait.command args out = .serial (.wait ⟨none, strArg args "target"⟩
        (strArg args "interface") epoch since ((natArg args "timeout_ms").getD 30000)
        ((natArg args "max_bytes").getD 65536) ((natArg args "max_output_bytes").getD 8388608)
        (strArg args "pattern") ((boolArg args "include_pending").getD false)
        ((boolArg args "follow").getD false)) := by
      simp only [Tool.command, hepochArg, hsinceEq, Option.getD_some]
    rw [hcommand]
    exact congrArg (Option.map Command.serial) hread

theorem reads_serialEvidence (h : serialEvidenceCall ⟨tool, args⟩ = .ok call) :
    Tool.serialEvidence.Reads args out call.argv := by
  obtain ⟨target, htarget, h⟩ := bind_eq_ok.mp h
  obtain ⟨interface, hinterface, h⟩ := bind_eq_ok.mp h
  obtain ⟨epoch, hepoch, h⟩ := bind_eq_ok.mp h
  obtain ⟨since, hsince, h⟩ := bind_eq_ok.mp h
  obtain ⟨hrequires, h⟩ := seq_eq_ok.mp h
  obtain ⟨max, hmax, h⟩ := bind_eq_ok.mp h
  obtain ⟨hpositive, h⟩ := seq_eq_ok.mp h
  cases h
  replace htarget := Args.target_eq_ok htarget
  replace hinterface := Args.optStr_eq_ok hinterface
  replace hepoch := Args.optStr_eq_ok hepoch
  obtain ⟨hsince, hsinceMax⟩ := Args.optU64_eq_ok hsince
  obtain ⟨hmax, hmaxBound⟩ := Args.optU64_eq_ok hmax
  rw [ensure_eq_ok] at hrequires hpositive
  rw [bne_iff_ne] at hpositive
  subst hinterface hepoch hsince hmax
  have hbound : ∀ n ∈ natArg args "max_bytes", 1 ≤ n ∧ n ≤ MAX_EVIDENCE_BYTES := by
    intro n hn
    refine ⟨Nat.one_le_iff_ne_zero.mpr fun hzero => hpositive ?_, hmaxBound n hn⟩
    rw [← hzero]
    exact hn
  refine ⟨?_, ?_, _, rfl, rfl, rfl, ?_⟩
  · simp [Tool.path, Tool.pieces, Tool.words, Piece.args, optArg, htarget]
  · simp [Tool.pieces, Tool.spliced, Piece.fits, -Nat.toString_eq_repr, all_isValue_toString]
  · exact congrArg (Option.map Command.serial)
      (SerialCmd.evidenceOf_eq (.ofPieces (Tool.serialEvidence.pieces args out)) rfl rfl hrequires
        rfl hsinceMax hbound)

theorem reads_serialLog (h : serialLogCall ⟨tool, args⟩ = .ok call) :
    Tool.serialLog.Reads args out call.argv := by
  obtain ⟨target, htarget, h⟩ := bind_eq_ok.mp h
  obtain ⟨interface, hinterface, h⟩ := bind_eq_ok.mp h
  obtain ⟨limits, hlimits, h⟩ := bind_eq_ok.mp h
  cases h
  replace htarget := Args.target_eq_ok htarget
  replace hinterface := Args.optStr_eq_ok hinterface
  obtain ⟨hlimitsEq, hbounds⟩ := limitArgs_eq_ok hlimits
  subst hinterface hlimitsEq
  have htail := fun n hn => (hbounds ⟨"tail", "-n", MAX_LOG_LINES, 0⟩ (by simp [logLimits]) n hn).2
  have hsince := fun n hn =>
    (hbounds ⟨"since", "--since", U64_MAX, 0⟩ (by simp [logLimits]) n hn).2
  have hfrom := fun n hn => (hbounds ⟨"from", "--from", U64_MAX, 0⟩ (by simp [logLimits]) n hn).2
  have hto := fun n hn => (hbounds ⟨"to", "--to", U64_MAX, 0⟩ (by simp [logLimits]) n hn).2
  have htailMax : ∀ n ∈ natArg args "tail", n ≤ U64_MAX := fun n hn =>
    (htail n hn).trans (by decide)
  refine ⟨?_, ?_, _, rfl, rfl, rfl, ?_⟩
  · simp [Tool.path, Tool.pieces, Tool.words, Piece.args, optArg, htarget, logLimits]
  · simp [Tool.pieces, Tool.spliced, Piece.fits, -Nat.toString_eq_repr, all_isValue_toString]
  · exact congrArg (Option.map Command.serial)
      (SerialCmd.logOf_eq (.ofPieces (Tool.serialLog.pieces args out)) rfl rfl rfl rfl rfl htailMax
        hfrom hto hsince)

theorem reads_serialSend (h : serialSendCall ⟨tool, args⟩ = .ok call) :
    Tool.serialSend.Reads args out call.argv := by
  obtain ⟨target, htarget, h⟩ := bind_eq_ok.mp h
  obtain ⟨textArg, htextArg, h⟩ := bind_eq_ok.mp h
  obtain ⟨text, htext, h⟩ := bind_eq_ok.mp h
  obtain ⟨interface, hinterface, h⟩ := bind_eq_ok.mp h
  obtain ⟨pace, hpace, h⟩ := bind_eq_ok.mp h
  obtain ⟨newline, hnewline, h⟩ := bind_eq_ok.mp h
  cases h
  replace htarget := Args.target_eq_ok htarget
  replace htextArg := Args.optStr_eq_ok htextArg
  rw [okOr_eq_ok.mp htext] at htextArg
  replace hinterface := Args.optStr_eq_ok hinterface
  replace hnewline := Args.optBool_eq_ok hnewline
  obtain ⟨hpace, hmax⟩ := Args.optU64_eq_ok hpace
  subst hinterface hpace hnewline
  refine ⟨?_, ?_, _, rfl, rfl, rfl, ?_⟩
  · simp [Tool.path, Tool.pieces, Tool.words, Piece.args, optArg, htarget, htextArg]
  · simp [Tool.pieces, Tool.spliced, Piece.fits, -Nat.toString_eq_repr, all_isValue_toString]
  · exact congrArg (Option.map Command.serial) (SerialCmd.sendOf_eq _ rfl rfl rfl hmax)

theorem reads_serialTransact (h : serialTransactCall ⟨tool, args⟩ = .ok call) :
    Tool.serialTransact.Reads args out call.argv := by
  obtain ⟨target, htarget, h⟩ := bind_eq_ok.mp h
  obtain ⟨textArg, htextArg, h⟩ := bind_eq_ok.mp h
  obtain ⟨text, htext, h⟩ := bind_eq_ok.mp h
  obtain ⟨untilArg, huntilArg, h⟩ := bind_eq_ok.mp h
  obtain ⟨untilText, huntil, h⟩ := bind_eq_ok.mp h
  obtain ⟨interface, hinterface, h⟩ := bind_eq_ok.mp h
  obtain ⟨limits, hlimits, h⟩ := bind_eq_ok.mp h
  obtain ⟨newline, hnewline, h⟩ := bind_eq_ok.mp h
  cases h
  replace htarget := Args.target_eq_ok htarget
  replace htextArg := Args.optStr_eq_ok htextArg
  rw [okOr_eq_ok.mp htext] at htextArg
  replace huntilArg := Args.optStr_eq_ok huntilArg
  obtain ⟨huntilSome, hne⟩ := okOr_nonempty huntil
  rw [huntilSome] at huntilArg
  replace hinterface := Args.optStr_eq_ok hinterface
  replace hnewline := Args.optBool_eq_ok hnewline
  obtain ⟨hlimitsEq, hbounds⟩ := limitArgs_eq_ok hlimits
  subst hinterface hnewline hlimitsEq
  have htimeout := hbounds ⟨"timeout_ms", "--timeout-ms", 3600000, 1⟩ (by simp [transactLimits])
  have hbytes := hbounds ⟨"max_bytes", "--max-bytes", 1048576, 1⟩ (by simp [transactLimits])
  have hpace := hbounds ⟨"pace_ms", "--pace-ms", MAX_PACE_MS, 0⟩ (by simp [transactLimits])
  refine ⟨?_, ?_, _, rfl, rfl, rfl, ?_⟩
  · simp [Tool.path, Tool.pieces, Tool.words, Piece.args, optArg, htarget, htextArg, huntilArg,
      transactLimits]
  · simp [Tool.pieces, Tool.spliced, Piece.fits, -Nat.toString_eq_repr, all_isValue_toString]
  · have hcommand : Tool.serialTransact.command args out =
        .serial (.transact (strArg args "target") (strArg args "interface") untilText
          ((natArg args "timeout_ms").getD 30000) ((natArg args "max_bytes").getD 65536)
          ((natArg args "pace_ms").getD 0) (!(boolArg args "newline").getD true)
          ((strArg args "text").getD "")) := by
      dsimp only at huntilArg
      simp only [Tool.command, huntilArg, Option.getD_some]
    rw [hcommand]
    exact congrArg (Option.map Command.serial)
      (SerialCmd.transactOf_eq _ huntilArg hne rfl rfl rfl rfl htimeout hbytes hpace)

theorem reads_hidSend (h : hidSendCall ⟨tool, args⟩ = .ok call) :
    Tool.hidSend.Reads args out call.argv := by
  obtain ⟨target, htarget, h⟩ := bind_eq_ok.mp h
  obtain ⟨items, hitems, h⟩ := bind_eq_ok.mp h
  obtain ⟨words, hwords, h⟩ := bind_eq_ok.mp h
  obtain ⟨verb, hverb, h⟩ := bind_eq_ok.mp h
  obtain ⟨hguard, h⟩ := seq_eq_ok.mp h
  cases h
  replace htarget := Args.target_eq_ok htarget
  replace hitems := okOr_eq_ok.mp hitems
  replace hwords := okOr_eq_ok.mp hwords
  have hplain := isValue_of_guard (ensure_eq_ok.mp hguard)
  have hall : Tool.hidSend.words args = words := by
    dsimp only at hitems
    simp [Tool.words, hitems, hwords]
  obtain ⟨more, rfl⟩ := List.head?_eq_some_iff.mp (okOr_eq_ok.mp hverb)
  have hrun : CommandLine.run Cli.hidSend (.ofPieces (Tool.hidSend.pieces args out))
      (verb :: more) = some ⟨{ Level.ofPieces (Tool.hidSend.pieces args out) with
        trailing := verb :: more }, []⟩ := CommandLine.run_trailing rfl rfl hplain more
  have hcommand : Tool.hidSend.command args out =
      .hid (.send (strArg args "target") (verb :: more)) :=
    congrArg (fun words => Command.hid (.send (strArg args "target") words)) hall
  refine ⟨?_, ?_, _, (congrArg _ hall).trans hrun, rfl, rfl, ?_⟩
  · rw [hall]
    simp [Tool.path, Tool.pieces, Piece.args, optArg, htarget]
  · simp [Tool.pieces, Tool.spliced, Piece.fits]
  · rw [hcommand]
    rfl

theorem reads_actionList (h : actionListCall ⟨tool, args⟩ = .ok call) :
    Tool.actionList.Reads args out call.argv := by
  obtain ⟨target, htarget, h⟩ := bind_eq_ok.mp h
  cases h
  replace htarget := Args.target_eq_ok htarget
  refine ⟨?_, ?_, _, rfl, rfl, rfl, rfl⟩
  · simp [Tool.path, Tool.pieces, Tool.words, Piece.args, optArg, switchArg, htarget]
  · simp [Tool.pieces, Tool.spliced, Piece.fits]

theorem reads_actionRun (h : actionRunCall ⟨tool, args⟩ = .ok call) :
    Tool.actionRun.Reads args out call.argv := by
  obtain ⟨target, htarget, h⟩ := bind_eq_ok.mp h
  obtain ⟨name, hname, h⟩ := bind_eq_ok.mp h
  obtain ⟨hguard, h⟩ := seq_eq_ok.mp h
  cases h
  replace htarget := Args.target_eq_ok htarget
  replace hname := (okOr_nonempty hname).1
  refine ⟨?_, ?_, _, rfl, rfl, rfl, rfl⟩
  · simp [Tool.path, Tool.pieces, Tool.words, Piece.args, optArg, htarget, hname]
  · simp [Tool.pieces, Tool.spliced, Piece.fits]

/-- The power tools differ only in their path. -/
theorem reads_power {t : Tool} {words : List String} {writes : Bool}
    (h : powerCall words writes ⟨tool, args⟩ = .ok call) (hpath : t.path = words)
    (hwords : t.words args = [])
    (hpieces : t.pieces args out = [.value "-t" targetOpt (strArg args "target"),
      .value "--level" (valueOpt "level" "level") (strArg args "level")])
    (hspliced : t.spliced args out = [strArg args "target"])
    (hcommand : ∀ lv : Level, lv.values "target_pos" = none →
      lv.values "target" = strArg args "target" → lv.values "level" = strArg args "level" →
      Command.ofLevel t.path lv = some (t.command args out)) :
    t.Reads args out call.argv := by
  obtain ⟨target, htarget, h⟩ := bind_eq_ok.mp h
  obtain ⟨level, hlevel, h⟩ := bind_eq_ok.mp h
  obtain ⟨hguard, h⟩ := seq_eq_ok.mp h
  cases h
  replace htarget := Args.target_eq_ok htarget
  replace hlevel := Args.optStr_eq_ok hlevel
  rw [ensure_eq_ok] at hguard
  subst hlevel
  have hfits : (strArg args "level").all isValue = true := by
    cases hl : strArg args "level" with
    | none => rfl
    | some level =>
        dsimp only at hguard
        rw [hl] at hguard
        exact isValue_of_guard hguard
  refine ⟨?_, ?_, .ofPieces (t.pieces args out), ?_, ?_, ?_, ?_⟩
  · rw [hpath, hpieces, hwords]
    simp [Piece.args, optArg, htarget]
  · rw [hpieces, hspliced]
    simp [Piece.fits, hfits]
  · rw [hwords]
    rfl
  · rw [hpieces]
    rfl
  · rw [hpieces]
    rfl
  · rw [hpieces]
    exact hcommand _ rfl rfl rfl

/-- Every accepted call is read by the verb of its tool. -/
theorem exists_reads {argv : List String} (h : toolArgv tool args out = .ok argv) :
    ∃ t, Tool.ofName tool = some t ∧ t.Reads args out argv := by
  rw [toolArgv] at h
  split at h
  · next hshot =>
      obtain ⟨req, hreq, rfl⟩ := map_eq_ok.mp h
      exact ⟨.videoShot, by rw [hshot]; rfl, reads_videoShot hreq⟩
  · obtain ⟨call, hcall, rfl⟩ := map_eq_ok.mp h
    rw [cliCall] at hcall
    cases ht : Tool.ofName tool with
    | none =>
        rw [ht] at hcall
        cases hcall
    | some t =>
        refine ⟨t, rfl, ?_⟩
        rw [ht] at hcall
        have hpower := fun (make : TargetArg → Option String → Command) (lv : Level)
            (hpos : lv.values "target_pos" = none)
            (htarget : lv.values "target" = strArg args "target")
            (hlevel : lv.values "level" = strArg args "level") =>
          show powerOf make lv = some (make ⟨none, strArg args "target"⟩ (strArg args "level")) by
            rw [powerOf_eq lv make hpos, htarget, hlevel]
        cases t with
        | videoShot => cases hcall
        | videoRead => exact reads_videoRead hcall
        | serialStatus => exact reads_serialStatus hcall
        | serialWait => exact reads_serialWait hcall
        | serialEvidence => exact reads_serialEvidence hcall
        | serialLog => exact reads_serialLog hcall
        | serialSend => exact reads_serialSend hcall
        | serialTransact => exact reads_serialTransact hcall
        | hidSend => exact reads_hidSend hcall
        | actionList => exact reads_actionList hcall
        | actionRun => exact reads_actionRun hcall
        | powerState => exact reads_power hcall rfl rfl rfl rfl (hpower .powerState)
        | powerOn =>
            exact reads_power hcall rfl rfl rfl rfl
              (hpower fun target level => .power (.on target level))
        | powerOff =>
            exact reads_power hcall rfl rfl rfl rfl
              (hpower fun target level => .power (.off target level))
        | powerCycle => exact reads_power hcall rfl rfl rfl rfl (hpower .powerCycle)

end

/-! ### The whole line -/

/-- The flags the server puts in front. -/
def serverPieces (lab : Option String) : List Piece :=
  [.value "--lab" labOpt lab, .switch "--json-errors" jsonErrorsOpt true]

/-- No text that becomes the value of an option looks like an option itself. -/
def HyphenSafe (lab : Option String) (t : Tool) (args : JsonValue) (out : String) : Prop :=
  ∀ v, some v ∈ lab :: t.spliced args out → isValue v = true

theorem all_isValue_iff {os : List (Option String)} :
    (os.all fun o => o.all isValue) = true ↔ ∀ v, some v ∈ os → isValue v = true := by
  rw [List.all_eq_true]
  constructor
  · exact fun h v hv => h (some v) hv
  · intro h o ho
    cases o with
    | none => rfl
    | some v => exact h v ho

/-- A path has one word or two. -/
theorem Tool.path_cases (t : Tool) : (∃ a, t.path = [a]) ∨ ∃ a b, t.path = [a, b] := by
  cases t with
  | powerState => exact .inl ⟨_, rfl⟩
  | powerCycle => exact .inl ⟨_, rfl⟩
  | _ => exact .inr ⟨_, _, rfl⟩

theorem Tool.isValue_path (t : Tool) : ∀ n ∈ t.path, isValue n = true := by
  cases t with
  | _ => decide

/-- The flags of the server count where the subcommand has none of its own. -/
theorem ofMatches_descent {t : Tool} {lv final : Level} {command : Command}
    (hlab : final.values "lab" = none) (hjson : final.switches "json_errors" = false)
    (hcommand : Command.ofLevel t.path final = some command) :
    ofMatches ⟨lv, CommandLine.descent ⟨final, []⟩ t.path⟩ =
      some ⟨lv.values "lab", lv.switches "json_errors", lv.values "plugin_path", command⟩ := by
  rcases t.path_cases with ⟨a, hpath⟩ | ⟨a, b, hpath⟩
  · rw [hpath] at hcommand ⊢
    change (Command.ofLevel [a] final).bind (fun command => some (Cli.mk
      ((final.values "lab").or (lv.values "lab"))
      (final.switches "json_errors" || lv.switches "json_errors") (lv.values "plugin_path")
      command)) = _
    rw [hcommand, hlab, hjson]
    rfl
  · rw [hpath] at hcommand ⊢
    change (Command.ofLevel [a, b] final).bind (fun command => some (Cli.mk
      ((final.values "lab").or (lv.values "lab"))
      (final.switches "json_errors" || lv.switches "json_errors") (lv.values "plugin_path")
      command)) = _
    rw [hcommand, hlab, hjson]
    rfl

/-- The parser takes the line for the command it is for, or refuses it. -/
theorem tryParseFrom_of_reads {t : Tool} {args : JsonValue} {out : String} {argv : List String}
    (h : t.Reads args out argv) (lab : Option String) :
    tryParseFrom (childArgs lab argv) =
      if (lab :: t.spliced args out).all fun v => v.all isValue then
        some ⟨lab, true, none, t.command args out⟩
      else none := by
  obtain ⟨hargv, hfits, final, hfinal, hlab, hjson, hcommand⟩ := h
  have hserver : childArgs lab argv = (serverPieces lab).flatMap Piece.args ++ argv := by
    cases lab with
    | none => rfl
    | some lab => rfl
  have hknown : ∀ p ∈ serverPieces lab, p.Known cli := by
    intro p hp
    simp only [serverPieces, List.mem_cons, List.not_mem_nil, or_false] at hp
    rcases hp with rfl | rfl
    · exact fun lv => rfl
    · exact fun lv => rfl
  have hids : ((serverPieces lab).map Piece.id).Nodup := by
    change ["lab", "json_errors"].Nodup
    decide
  have hverb : CommandLine.run t.verb .empty
      ((t.pieces args out).flatMap Piece.args ++ t.words args) =
        if (t.spliced args out).all fun v => v.all isValue then some ⟨final, []⟩ else none := by
    rw [CommandLine.run_pieces (t.known_pieces args out) (t.nodup_pieces args out)
      (fun p _ => CommandLine.Level.fresh_empty p.id),
      CommandLine.foldl_give_empty (t.nodup_pieces args out), hfits, hfinal]
  rw [tryParseFrom, hserver,
    CommandLine.run_pieces hknown hids fun p _ => CommandLine.Level.fresh_empty p.id,
    CommandLine.foldl_give_empty hids, hargv, List.all_cons]
  have hpath : CommandLine.run cli (.ofPieces (serverPieces lab))
      (t.path ++ ((t.pieces args out).flatMap Piece.args ++ t.words args)) =
        (if (t.spliced args out).all fun v => v.all isValue then some ⟨final, []⟩ else none).map
          fun m => ⟨.ofPieces (serverPieces lab), CommandLine.descent m t.path⟩ := by
    rw [← hverb]
    obtain ⟨name, path, hcons⟩ : ∃ name path, t.path = name :: path := by
      rcases t.path_cases with ⟨a, ha⟩ | ⟨a, b, hab⟩
      · exact ⟨a, [], ha⟩
      · exact ⟨a, [b], hab⟩
    have hplain := t.isValue_path
    have hfollow := t.follow_path
    rw [hcons] at hplain hfollow ⊢
    exact CommandLine.run_path hplain hfollow _ _
  have hall : (serverPieces lab).all Piece.fits = lab.all isValue := Bool.and_true _
  rw [hpath, hall]
  cases lab.all isValue with
  | false => rfl
  | true =>
      cases (t.spliced args out).all fun v => v.all isValue with
      | false => rfl
      | true => exact ofMatches_descent hlab hjson hcommand

/-- An accepted call is run as the command it names exactly if no text of it that becomes the
value of an option begins with a hyphen; otherwise the line is refused. -/
theorem runs_named_iff (lab : Option String) {tool out : String} {args : JsonValue}
    {argv : List String} (h : toolArgv tool args out = .ok argv) :
    ∃ t, Tool.ofName tool = some t ∧
      (tryParseFrom (childArgs lab argv) = some ⟨lab, true, none, t.command args out⟩ ↔
        HyphenSafe lab t args out) ∧
      (¬ HyphenSafe lab t args out → tryParseFrom (childArgs lab argv) = none) := by
  obtain ⟨t, ht, hreads⟩ := exists_reads h
  have hsafe : ((lab :: t.spliced args out).all fun v => v.all isValue) = true ↔
      HyphenSafe lab t args out := all_isValue_iff
  rw [tryParseFrom_of_reads hreads]
  refine ⟨t, ht, ?_, fun hnot => if_neg (mt hsafe.mp hnot)⟩
  constructor
  · intro hsome
    by_contra hnot
    rw [if_neg (mt hsafe.mp hnot)] at hsome
    cases hsome
  · exact fun hall => if_pos (hsafe.mpr hall)

/-- A dialogue at a boot prompt. -/
def promptArgs : JsonValue :=
  .obj [("target", .str "pi5"), ("text", .str "-v"), ("until", .str "> "), ("pace_ms", .nat 5)]

theorem runs_named_prompt :
    ∃ t, Tool.ofName "serial_transact" = some t ∧
      (tryParseFrom (childArgs none ["serial", "transact", "-t", "pi5", "--until", "> ",
          "--pace-ms", "5", "--", "-v"]) =
        some ⟨none, true, none, t.command promptArgs ""⟩ ↔ HyphenSafe none t promptArgs "") ∧
      (¬ HyphenSafe none t promptArgs "" →
        tryParseFrom (childArgs none ["serial", "transact", "-t", "pi5", "--until", "> ",
          "--pace-ms", "5", "--", "-v"]) = none) :=
  runs_named_iff none rfl

/-- The prompt of a pager begins with hyphens: the call is accepted and its command refused. -/
theorem pager_prompt_refused :
    ∃ args argv, toolArgv "serial_transact" args "" = .ok argv ∧
      strArg args "until" = some "--More--" ∧ tryParseFrom (childArgs none argv) = none := by
  refine ⟨.obj [("target", .str "pi5"), ("text", .str "show log"), ("until", .str "--More--")],
    ["serial", "transact", "-t", "pi5", "--until", "--More--", "--", "show log"], rfl, rfl, ?_⟩
  decide

end Cli

end Paniolo
