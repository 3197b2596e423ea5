import Paniolo.Library.Dialogue
import Paniolo.Jetkvm.Keys

/-!
# The session of the JetKVM helper

`jetkvm/hid.go`: keyboard and mouse reports composed on top of a JSON-RPC
transport. A session keeps what is held; each operation is a program that makes
calls, since between two calls everything else in the daemon may happen. The
reply to a call is its JSON text in compact form, or an error. Pauses are left
out.
-/

namespace Paniolo

namespace Jetkvm

open Text

def maxTypeChars : Nat := 4096
def maxRelTotal : Int := 32767
def absMax : Int := 32767
def maxKeys : Nat := 6

/-- The calls of a session. -/
inductive Rpc where
  | keyboardReport (modifier : UInt8) (keys : List UInt8)
  | relMouseReport (dx dy : Int) (buttons : UInt8)
  | absMouseReport (x y : Int) (buttons : UInt8)
  | wheelReport (wheelY wheelX : Int)
  | ping
  | getUSBState
  | getVideoState
  | getKeyboardLedState
deriving DecidableEq, Repr

/-- What a call returns. -/
abbrev Reply := Except String String

/-- `Session`: what is held. -/
structure Session where
  mods : UInt8
  held : List UInt8
  buttons : UInt8
deriving DecidableEq, Repr

/-- `NewSession`. -/
def Session.new : Session := ⟨0, [], 0⟩

/-- A step of the session: it makes calls, keeps what it changed, and may fail. -/
abbrev HidM := ExceptT String (StateT Session (Dialogue Rpc Reply))

def getSession : HidM Session := get

def modifySession (f : Session → Session) : HidM Unit := modify f

/-- A call, with its outcome as a value. -/
def call (rpc : Rpc) : HidM Reply :=
  ExceptT.lift (StateT.lift (Dialogue.ask rpc))

/-- An outcome as a step. -/
def lift {α : Type} (r : Except String α) : HidM α :=
  match r with
  | .ok a => return a
  | .error e => throw e

/-- A call that has to succeed. -/
def demand (rpc : Rpc) : HidM Unit := do
  let reply ← call rpc
  let _ ← lift reply

/-- `keyboardReport`. -/
def keyboardReport (mods : UInt8) (keys : List UInt8) : HidM Unit :=
  demand (.keyboardReport mods keys)

/-- `sendHeld`. -/
def sendHeld : HidM Unit := do
  let s ← getSession
  keyboardReport s.mods s.held

/-- `relMouse`. -/
def relMouse (dx dy : Int) : HidM Unit := do
  let s ← getSession
  demand (.relMouseReport dx dy s.buttons)

/-- `without`. -/
def without (keys : List UInt8) (k : UInt8) : List UInt8 := keys.filter (· != k)

/-- `keyDown`. -/
def keyDown (k : Key) : HidM Unit := do
  if k.modifier then
    modifySession fun s => { s with mods := s.mods ||| k.value }
    sendHeld
  else
    let s ← getSession
    if k.value ∉ s.held then
      if s.held.length ≥ maxKeys then
        throw ("cannot hold more than " ++ toString maxKeys ++ " keys at once")
      else
        modifySession fun s => { s with held := s.held ++ [k.value] }
        sendHeld
    else sendHeld

/-- `keyUp`. -/
def keyUp (k : Key) : HidM Unit := do
  modifySession fun s =>
    if k.modifier then { s with mods := s.mods &&& ~~~k.value }
    else { s with held := without s.held k.value }
  sendHeld

/-- `releaseAll`. -/
def releaseAll : HidM Unit := do
  modifySession fun _ => ⟨0, [], 0⟩
  sendHeld
  relMouse 0 0

/-- The loop of `combo`: the modifiers and usages of the chord on top of the held ones. -/
def chordOf : List Key → UInt8 → List UInt8 → UInt8 × List UInt8
  | [], mods, usages => (mods, usages)
  | k :: keys, mods, usages =>
      if k.modifier then chordOf keys (mods ||| k.value) usages
      else chordOf keys mods (if k.value ∉ usages then usages ++ [k.value] else usages)

/-- `combo`. -/
def combo (keys : List Key) : HidM Unit := do
  let s ← getSession
  let (mods, usages) := chordOf keys s.mods s.held
  if usages.length > maxKeys then
    throw ("combo needs " ++ toString usages.length ++ " key slots; a report has " ++
      toString maxKeys)
  else
    match ← call (.keyboardReport mods usages) with
    | .error e =>
        let s ← getSession
        let _ ← call (.keyboardReport s.mods s.held)
        throw e
    | .ok _ => sendHeld

/-- `tap`. -/
def tap (k : Key) : HidM Unit := combo [k]

/-- `checkTypeLen`. -/
def checkTypeLen (text : List Char) : Except String Unit :=
  if text.length > maxTypeChars then
    .error ("type text is " ++ toString text.length ++ " characters; the limit is " ++
      toString maxTypeChars)
  else .ok ()

/-- The strokes of a text, all of them or the first error. -/
def strokesOf : List Char → Except String (List (UInt8 × Bool))
  | [] => .ok []
  | c :: text => do
      let stroke ← charToUsage c
      let strokes ← strokesOf text
      return stroke :: strokes

/-- The press and the release of one stroke, the `i`th. -/
def pressStroke (i : Nat) (mods : UInt8) (keys : List UInt8) (usage : UInt8) : HidM Unit := do
  if keys.length ≥ maxKeys then
    throw ("cannot type with " ++ toString keys.length ++ " keys already held")
  else
    match ← call (.keyboardReport mods (keys ++ [usage])) with
    | .error e =>
        let s ← getSession
        let _ ← call (.keyboardReport s.mods s.held)
        throw ("typing character " ++ toString i ++ ": " ++ e)
    | .ok _ =>
        let s ← getSession
        match ← call (.keyboardReport s.mods s.held) with
        | .error e => throw ("typing character " ++ toString i ++ ": " ++ e)
        | .ok _ => return ()

/-- One round of the loop of `typeText`: a usage already held is released first. -/
def typeStroke (i : Nat) (usage : UInt8) (shift : Bool) : HidM Unit := do
  let s ← getSession
  let mods := if shift then s.mods ||| modLeftShift else s.mods
  if usage ∈ s.held then
    keyboardReport mods (without s.held usage)
    pressStroke i mods (without s.held usage) usage
  else pressStroke i mods s.held usage

/-- The loop of `typeText`. -/
def typeStrokes : Nat → List (UInt8 × Bool) → HidM Unit
  | _, [] => return ()
  | i, (usage, shift) :: strokes => do
      typeStroke i usage shift
      typeStrokes (i + 1) strokes

/-- `typeText`: the whole text is looked up first. -/
def typeText (text : List Char) : HidM Unit := do
  lift (checkTypeLen text)
  let strokes ← lift (strokesOf text)
  typeStrokes 1 strokes

/-- `buttonMask`. -/
def buttonMask (name : List Char) : Except String UInt8 :=
  let n := toLower name
  if n = "left".toList then .ok 0x01
  else if n = "right".toList then .ok 0x02
  else if n = "middle".toList then .ok 0x04
  else .error ("unknown mouse button: " ++ String.ofList name ++ " (left, right, middle)")

/-- A clamped value. -/
def clamp (lo hi v : Int) : Int := if v > hi then hi else if v < lo then lo else v

/-- `clampRelTotal`. -/
def clampRelTotal (v : Int) : Int := clamp (-maxRelTotal) maxRelTotal v

/-- `clampStep`. -/
def clampStep (v : Int) : Int := clamp (-127) 127 v

/-- The loop of `moveRel`; each round takes at least one unit off. -/
def moveLoop : Nat → Int → Int → HidM Unit
  | 0, _, _ => return ()
  | fuel + 1, dx, dy => do
      if dx ≠ 0 ∨ dy ≠ 0 then
        relMouse (clampStep dx) (clampStep dy)
        moveLoop fuel (dx - clampStep dx) (dy - clampStep dy)
      else return ()

/-- `moveRel`. -/
def moveRel (dx dy : Int) : HidM Unit :=
  let dx := clampRelTotal dx
  let dy := clampRelTotal dy
  moveLoop (dx.natAbs + dy.natAbs) dx dy

/-- `clampAbs`. -/
def clampAbs (v : Int) : Int := if v < 0 then 0 else if v > absMax then absMax else v

/-- `moveAbs`. -/
def moveAbs (x y : Int) : HidM Unit := do
  let s ← getSession
  demand (.absMouseReport (clampAbs x) (clampAbs y) s.buttons)

/-- `click`. -/
def click (button : List Char) : HidM Unit := do
  let mask ← lift (buttonMask button)
  let pressed := (← getSession).buttons
  modifySession fun s => { s with buttons := s.buttons ||| mask }
  match ← call (.relMouseReport 0 0 (pressed ||| mask)) with
  | .error e =>
      modifySession fun s => { s with buttons := pressed }
      throw e
  | .ok _ =>
      modifySession fun s => { s with buttons := pressed }
      relMouse 0 0

/-- `mouseDown`. -/
def mouseDown (button : List Char) : HidM Unit := do
  let mask ← lift (buttonMask button)
  modifySession fun s => { s with buttons := s.buttons ||| mask }
  relMouse 0 0

/-- `mouseUp`. -/
def mouseUp (button : List Char) : HidM Unit := do
  let mask ← lift (buttonMask button)
  modifySession fun s => { s with buttons := s.buttons &&& ~~~mask }
  relMouse 0 0

/-- The loop of `scroll`. -/
def scrollLoop : Nat → Int → HidM Unit
  | 0, _ => return ()
  | fuel + 1, amount => do
      if amount ≠ 0 then
        demand (.wheelReport (clampStep amount) 0)
        scrollLoop fuel (amount - clampStep amount)
      else return ()

/-- `scroll`. -/
def scroll (amount : Int) : HidM Unit :=
  let amount := clampRelTotal amount
  scrollLoop amount.natAbs amount

/-- One query of `info`. -/
def query (label method : String) (rpc : Rpc) : HidM String := do
  match ← call rpc with
  | .error e => throw (method ++ ": " ++ e)
  | .ok r => return label ++ "=" ++ r

/-- `info`. -/
def info : HidM String := do
  let usb ← query "usb" "getUSBState" .getUSBState
  let video ← query "video" "getVideoState" .getVideoState
  let leds ← query "leds" "getKeyboardLedState" .getKeyboardLedState
  return usb ++ " " ++ video ++ " " ++ leds

def versionReply : String := "1 jetkvm/0.1.0 moveabs"

/-- `oneArg`. -/
def oneArg (rest : List Char) (verb : String) : Except String (List Char) :=
  match splitWhitespace rest with
  | arg :: _ => .ok arg
  | [] => .error (verb ++ " needs an argument")

/-- `twoInts`. -/
def twoInts (rest : List Char) (verb : String) : Except String (Int × Int) :=
  match splitWhitespace rest with
  | a :: b :: _ =>
      match parseI32 a, parseI32 b with
      | some x, some y => .ok (x, y)
      | _, _ => .error (verb ++ " needs two integer arguments: " ++ quotedStr rest)
  | _ => .error (verb ++ " needs two integer arguments: " ++ quotedStr rest)

/-- `buttonOrDefault`. -/
def buttonOrDefault (rest : List Char) : List Char :=
  match splitWhitespace rest with
  | b :: _ => b
  | [] => "left".toList

/-- The names of a chord. -/
def namesToKeys : List (List Char) → Except String (List Key)
  | [] => .ok []
  | name :: names => do
      let k ← nameToKey name
      let keys ← namesToKeys names
      return k :: keys

def isNewline (c : Char) : Bool := c == '\r' || c == '\n'

/-- A bare `OK`. -/
def bare (step : HidM Unit) : HidM String := do
  step
  return ""

/-- The `switch` of `executeLine` on the verb. -/
def executeVerb (line head rest : List Char) : HidM String :=
  let verb := String.ofList (toLower head)
  if verb = "type" then
    let text := line.drop head.length
    bare (typeText (if text.head? = some ' ' then text.tail else text))
  else if verb = "key" then bare do
    let name ← lift (oneArg rest "key")
    let k ← lift (nameToKey name)
    tap k
  else if verb = "combo" then bare do
    let chord ← lift (namesToKeys (splitWhitespace rest))
    if chord.isEmpty then throw "combo needs at least one key name" else combo chord
  else if verb = "down" then bare do
    let name ← lift (oneArg rest "down")
    let k ← lift (nameToKey name)
    keyDown k
  else if verb = "up" then bare do
    let name ← lift (oneArg rest "up")
    let k ← lift (nameToKey name)
    keyUp k
  else if verb = "releaseall" ∨ verb = "release" then bare releaseAll
  else if verb = "move" then bare do
    let (dx, dy) ← lift (twoInts rest "move")
    moveRel dx dy
  else if verb = "moveabs" then bare do
    let (x, y) ← lift (twoInts rest "moveabs")
    moveAbs x y
  else if verb = "click" then bare (click (buttonOrDefault rest))
  else if verb = "mdown" then bare (mouseDown (buttonOrDefault rest))
  else if verb = "mup" then bare (mouseUp (buttonOrDefault rest))
  else if verb = "scroll" then bare do
    let arg ← lift (oneArg rest "scroll")
    match parseI32 arg with
    | none => throw ("scroll amount must be an integer: " ++ quotedStr rest)
    | some n => scroll n
  else if verb = "ping" then do
    let got ← lift (← call .ping)
    if got ≠ "\"pong\"" then throw ("unexpected ping reply: " ++ got) else return ""
  else if verb = "version" then return versionReply
  else if verb = "info" then info
  else throw ("unknown command: " ++ verb)

/-- `executeLine`. -/
def executeLine (line : List Char) : HidM String :=
  let line := line.rdropWhile isNewline
  if line.any isNewline then throw ("command contains a newline: " ++ quotedStr line)
  else
    let line := line.dropWhile fun c => c == ' ' || c == '\t'
    match splitOnce (· == ' ') line with
    | some (head, rest) => executeVerb line head (trim rest)
    | none => executeVerb line line []

section ComesTo

open Dialogue

variable {α β : Type} {answer : List Rpc → Reply} {f : Session → HidM α} {x : HidM α}
  {s s' : Session} {asked asked' : List Rpc} {r : Except String α}

theorem comesTo_getSession (h : ComesTo answer (f s) s asked r s' asked') :
    ComesTo answer (getSession >>= f) s asked r s' asked' := h

theorem comesTo_modifySession (g : Session → Session)
    (h : ComesTo answer x (g s) asked r s' asked') :
    ComesTo answer (modifySession g >>= fun _ => x) s asked r s' asked' := h

theorem comesTo_lift (r : Except String α) (s : Session) (asked : List Rpc) :
    ComesTo answer (lift r) s asked r s asked := by
  cases r <;> rfl

theorem comesTo_lift_bind {a : β} {g : β → HidM α} {r' : Except String β} (hr : r' = .ok a)
    (h : ComesTo answer (g a) s asked r s' asked') :
    ComesTo answer (lift r' >>= g) s asked r s' asked' := by
  rw [hr]
  exact h

/-- A call changes nothing, and its outcome is a value. -/
theorem comesTo_call (rpc : Rpc) {f : Reply → HidM α}
    (h : ComesTo answer (f (answer (asked ++ [rpc]))) s (asked ++ [rpc]) r s' asked') :
    ComesTo answer (call rpc >>= f) s asked r s' asked' := h

theorem comesTo_demand (answer : List Rpc → Reply) (rpc : Rpc) (s : Session) (asked : List Rpc) :
    ComesTo answer (demand rpc) s asked ((answer (asked ++ [rpc])).map fun _ => ()) s
      (asked ++ [rpc]) := by
  apply comesTo_call
  cases answer (asked ++ [rpc]) <;> rfl

end ComesTo

end Jetkvm

end Paniolo
