import Paniolo.Ch9329.Session

/-!
# The command lines of the CH9329 helper

`ch9329/src/proto.rs`: `executeLine` parses one command line and runs it
against the session. The verb is what stands before the first blank; it is
taken without regard to case.
-/

namespace Paniolo

namespace Ch9329

open Text Session

def versionReply : String := "1 ch9329/0.1.0 moveabs"

/-- `clamp_abs`. -/
def clampAbs (v : Int) : Int := clamp 0 logicalMax v

/-- `one_arg`. -/
def oneArg (rest : List Char) (verb : String) : Except String (List Char) :=
  match splitWhitespace rest with
  | arg :: _ => .ok arg
  | [] => .error (verb ++ " needs an argument")

/-- `two_ints`. -/
def twoInts (rest : List Char) (verb : String) : Except String (Int × Int) :=
  match splitWhitespace rest with
  | a :: b :: _ =>
      match parseI32 a, parseI32 b with
      | some x, some y => .ok (x, y)
      | _, _ => .error (verb ++ " needs two integer arguments: " ++ debugStr rest)
  | _ => .error (verb ++ " needs two integer arguments: " ++ debugStr rest)

/-- `button_or_default`. -/
def buttonOrDefault (rest : List Char) : List Char :=
  match splitWhitespace rest with
  | b :: _ => b
  | [] => "left".toList

/-- A pure result as a step. -/
def lift {α : Type} (r : Except String α) : WireM α :=
  match r with
  | .ok a => return a
  | .error e => throw e

def isNewline (c : Char) : Bool := c == '\r' || c == '\n'

/-- A command line as `execute_line` takes it apart: the line without its end
and its leading blanks, what stands before the first blank, and the rest. -/
structure Parts where
  line : List Char
  head : List Char
  rest : List Char
deriving DecidableEq, Repr

def splitLine (line : List Char) : Parts :=
  let line := trimStart (line.rdropWhile isNewline)
  match splitOnce (· == ' ') line with
  | some (head, rest) => ⟨line, head, trim rest⟩
  | none => ⟨line, line, []⟩

/-- The verb of a command line. -/
def verb (line : List Char) : List Char := toAsciiLowercase (splitLine line).head

/-- The names of a chord. -/
def chordOf : List (List Char) → Except String (List Key)
  | [] => .ok []
  | name :: names => do
      let key ← nameToKey name
      let keys ← chordOf names
      return key :: keys

def boolText (b : Bool) : String := if b then "true" else "false"

variable (env : Env)

/-- The `match` of `execute_line` on the verb. -/
def executeVerb (parts : Parts) : WireM String := do
  let rest := parts.rest
  let verb := String.ofList (toAsciiLowercase parts.head)
  if verb = "type" then
    let text := parts.line.drop parts.head.length
    typeText env (if text.head? = some ' ' then text.tail else [])
    return ""
  else if verb = "key" then
    let name ← lift (oneArg rest "key")
    tap env (← lift (nameToKey name))
    return ""
  else if verb = "combo" then
    let chord ← lift (chordOf (splitWhitespace rest))
    if chord.isEmpty then throw "combo needs at least one key name"
    combo env chord
    return ""
  else if verb = "down" then
    let name ← lift (oneArg rest "down")
    keyDown env (← lift (nameToKey name))
    return ""
  else if verb = "up" then
    let name ← lift (oneArg rest "up")
    keyUp env (← lift (nameToKey name))
    return ""
  else if verb = "releaseall" then
    releaseAll env
    return ""
  else if verb = "move" then
    let (dx, dy) ← lift (twoInts rest "move")
    moveRel env dx dy
    return ""
  else if verb = "moveabs" then
    let (x, y) ← lift (twoInts rest "moveabs")
    moveAbs env (clampAbs x) (clampAbs y)
    return ""
  else if verb = "click" then
    click env (buttonOrDefault rest)
    return ""
  else if verb = "mdown" then
    mouseDown env (buttonOrDefault rest)
    return ""
  else if verb = "mup" then
    mouseUp env (buttonOrDefault rest)
    return ""
  else if verb = "scroll" then
    let arg ← lift (oneArg rest "scroll")
    match parseI32 arg with
    | none => throw ("scroll amount must be an integer: " ++ debugStr rest)
    | some amount =>
        scroll env amount
        return ""
  else if verb = "ping" then
    let _ ← getInfo env
    return ""
  else if verb = "version" then return versionReply
  else if verb = "info" then
    let i ← getInfo env
    let s ← getSession
    return ("chip_version=" ++ hex04 i.chipVersion ++ " target_connected=" ++
      boolText i.targetConnected ++ " num_lock=" ++ boolText i.numLock ++ " caps_lock=" ++
      boolText i.capsLock ++ " scroll_lock=" ++ boolText i.scrollLock ++ " baud=" ++
      toString s.baud)
  else if verb = "baud" then
    let arg ← lift (oneArg rest "baud")
    match parseUnsigned (2 ^ 32) arg with
    | none => throw ("baud rate must be an integer: " ++ debugStr rest)
    | some rate =>
        let note ← setBaud env rate
        let reply := "link persisted to " ++ toString rate ++ " baud (CH9329 flash; auto-detect " ++
          "probes 115200, 57600, then 9600 — for other rates reconnect with -b " ++
          toString rate ++ ")"
        match note with
        | some n => return reply ++ "; " ++ n
        | none => return reply
  else if verb = "usb" then
    let arg ← lift (oneArg rest "usb")
    let side ←
      if arg = "state".toList then usbQuery env
      else if arg = "host".toList then usbSet env .host
      else if arg = "target".toList then usbSet env .target
      else throw ("usb takes host, target, or state (got " ++ debugStr arg ++ ")")
    return side.asStr
  else throw ("unknown command: " ++ verb)

/-- `execute_line`. -/
def executeLine (line : List Char) : WireM String :=
  let stripped := line.rdropWhile isNewline
  if stripped.any isNewline then throw ("command contains a newline: " ++ debugStr stripped)
  else executeVerb env (splitLine line)

end Ch9329

end Paniolo
