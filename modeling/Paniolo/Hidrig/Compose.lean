import Paniolo.Library.Text

/-!
# HID composition for the KB2040 rig

`hidrig/src/compose.rs`: the composer turns a command line into the frames to
send. It keeps what is held (keys, modifiers, buttons) and the virtual cursor;
the report of a tap or a chord is composed on top of it. A refused line changes
nothing.
-/

namespace Paniolo

namespace Hidrig

open Text

def fHid : UInt8 := 0x01
def fCtrl : UInt8 := 0x02
def ridKbd : UInt8 := 1
def ridMouse : UInt8 := 2
def cmdPing : UInt8 := 1
def cmdVersion : UInt8 := 2
def cmdPower : UInt8 := 3
def powerOff : UInt8 := 0
def powerOn : UInt8 := 1
def powerCycle : UInt8 := 2
def absMax : Int := 32767
def keySlots : Nat := 6
def maxTypeChars : Nat := 4096
def maxScrollTotal : Int := 32767

/-- A composed wire frame: type, selector, length, payload. -/
abbrev Frame := List UInt8

def frame (ftype b1 : UInt8) (payload : List UInt8) : Frame :=
  [ftype, b1, UInt8.ofNat payload.length] ++ payload

def clamp (lo hi v : Int) : Int := if v < lo then lo else if hi < v then hi else v

/-- `clamp_abs`. -/
def clampAbs (v : Int) : Int := clamp 0 absMax v

/-- `KeyKind`: a modifier bit or a key that takes a slot. -/
inductive KeyKind where
  | modifier (bit : UInt8)
  | key (u : UInt8)
deriving DecidableEq, Repr

/-- The modifier names of `key_kind`. -/
def modifierNames : List (String × UInt8) := [
  ("LEFT_CONTROL", 0x01), ("CONTROL", 0x01), ("CTRL", 0x01), ("LCTRL", 0x01),
  ("LEFT_SHIFT", 0x02), ("SHIFT", 0x02), ("LSHIFT", 0x02),
  ("LEFT_ALT", 0x04), ("ALT", 0x04), ("OPTION", 0x04), ("LALT", 0x04),
  ("LEFT_GUI", 0x08), ("GUI", 0x08), ("CMD", 0x08), ("COMMAND", 0x08), ("WINDOWS", 0x08),
  ("SUPER", 0x08), ("LGUI", 0x08),
  ("RIGHT_CONTROL", 0x10), ("RCTRL", 0x10), ("RIGHT_SHIFT", 0x20), ("RSHIFT", 0x20),
  ("RIGHT_ALT", 0x40), ("ALT_GR", 0x40), ("RALT", 0x40), ("RIGHT_GUI", 0x80), ("RGUI", 0x80)]

/-- The words of `named_key`. -/
def words : List (String × UInt8) := [
  ("ZERO", 0x27), ("ONE", 0x1e), ("TWO", 0x1f), ("THREE", 0x20), ("FOUR", 0x21), ("FIVE", 0x22),
  ("SIX", 0x23), ("SEVEN", 0x24), ("EIGHT", 0x25), ("NINE", 0x26),
  ("ENTER", 0x28), ("RETURN", 0x28), ("ESCAPE", 0x29), ("ESC", 0x29), ("BACKSPACE", 0x2a),
  ("TAB", 0x2b), ("SPACE", 0x2c), ("SPACEBAR", 0x2c), ("MINUS", 0x2d), ("EQUALS", 0x2e),
  ("LEFT_BRACKET", 0x2f), ("RIGHT_BRACKET", 0x30), ("BACKSLASH", 0x31), ("SEMICOLON", 0x33),
  ("QUOTE", 0x34), ("GRAVE_ACCENT", 0x35), ("COMMA", 0x36), ("PERIOD", 0x37),
  ("FORWARD_SLASH", 0x38), ("CAPS_LOCK", 0x39),
  ("F1", 0x3a), ("F2", 0x3b), ("F3", 0x3c), ("F4", 0x3d), ("F5", 0x3e), ("F6", 0x3f),
  ("F7", 0x40), ("F8", 0x41), ("F9", 0x42), ("F10", 0x43), ("F11", 0x44), ("F12", 0x45),
  ("INSERT", 0x49), ("HOME", 0x4a), ("PAGE_UP", 0x4b), ("DELETE", 0x4c), ("END", 0x4d),
  ("PAGE_DOWN", 0x4e), ("RIGHT_ARROW", 0x4f), ("LEFT_ARROW", 0x50), ("DOWN_ARROW", 0x51),
  ("UP_ARROW", 0x52), ("PRINT_SCREEN", 0x46), ("SCROLL_LOCK", 0x47), ("PAUSE", 0x48),
  ("NUM_LOCK", 0x53), ("KEYPAD_NUMLOCK", 0x53), ("APPLICATION", 0x65), ("MENU", 0x65)]

/-- `named_key`: a letter, a digit or a word. -/
def namedKey (n : List Char) : Option UInt8 :=
  let single : Option UInt8 :=
    match n with
    | [c] =>
        if 'A' ≤ c ∧ c ≤ 'Z' then some (0x04 + UInt8.ofNat (c.toNat - 'A'.toNat))
        else if '0' ≤ c ∧ c ≤ '9' then
          some (if c = '0' then 0x27 else 0x1e + UInt8.ofNat (c.toNat - '1'.toNat))
        else none
    | _ => none
  match single with
  | some u => some u
  | none => (words.find? fun e => e.1.toList == n).map (·.2)

/-- `key_kind`. -/
def keyKind (name : List Char) : Except String KeyKind :=
  let n := toAsciiUppercase name
  match modifierNames.find? (fun e => e.1.toList == n) with
  | some (_, bit) => .ok (.modifier bit)
  | none =>
      match namedKey n with
      | some u => .ok (.key u)
      | none => .error ("unknown key: " ++ String.ofList name)

/-- The punctuation of the US layout, with whether it needs Shift. -/
def punctuation : List (Char × UInt8 × Bool) := [
  ('0', 0x27, false), (' ', 0x2c, false), ('\t', 0x2b, false),
  ('!', 0x1e, true), ('@', 0x1f, true), ('#', 0x20, true), ('$', 0x21, true), ('%', 0x22, true),
  ('^', 0x23, true), ('&', 0x24, true), ('*', 0x25, true), ('(', 0x26, true), (')', 0x27, true),
  ('-', 0x2d, false), ('_', 0x2d, true), ('=', 0x2e, false), ('+', 0x2e, true),
  ('[', 0x2f, false), ('\x7b', 0x2f, true), (']', 0x30, false), ('\x7d', 0x30, true),
  ('\\', 0x31, false), ('|', 0x31, true), (';', 0x33, false), (':', 0x33, true),
  ('\'', 0x34, false), ('"', 0x34, true), ('\x60', 0x35, false), ('~', 0x35, true),
  (',', 0x36, false), ('<', 0x36, true), ('.', 0x37, false), ('>', 0x37, true),
  ('/', 0x38, false), ('?', 0x38, true)]

/-- `char_to_key`. -/
def charToKey (c : Char) : Option (UInt8 × Bool) :=
  if 'a' ≤ c ∧ c ≤ 'z' then some (0x04 + UInt8.ofNat (c.toNat - 'a'.toNat), false)
  else if 'A' ≤ c ∧ c ≤ 'Z' then some (0x04 + UInt8.ofNat (c.toNat - 'A'.toNat), true)
  else if '1' ≤ c ∧ c ≤ '9' then some (0x1e + UInt8.ofNat (c.toNat - '1'.toNat), false)
  else (punctuation.find? fun e => e.1 == c).map (·.2)

/-- `button_bit`. -/
def buttonBit (name : List Char) : Except String UInt8 :=
  let n := toAsciiLowercase name
  if n = "left".toList then .ok 1
  else if n = "right".toList then .ok 2
  else if n = "middle".toList then .ok 4
  else .error ("unknown button: " ++ String.ofList name)

/-- `Composer`: the cursor and what is held. -/
structure Composer where
  mx : Int
  my : Int
  buttons : UInt8
  heldMods : UInt8
  heldKeys : List UInt8
deriving DecidableEq, Repr

namespace Composer

def new : Composer := ⟨absMax / 2, absMax / 2, 0, 0, []⟩

variable (c : Composer)

/-- The report of `kbd`: held state plus transient modifiers and keys. -/
def kbdReport (extraMods : UInt8) (extraKeys : List UInt8) : List UInt8 :=
  let keys := (c.heldKeys ++ extraKeys).take keySlots
  [c.heldMods ||| extraMods, 0] ++ keys ++ List.replicate (keySlots - keys.length) 0

/-- `kbd`. -/
def kbd (extraMods : UInt8) (extraKeys : List UInt8) : Frame :=
  frame fHid ridKbd (c.kbdReport extraMods extraKeys)

/-- `mouse`. -/
def mouse (wheel : Int) : Frame :=
  let x := (clampAbs c.mx).toNat
  let y := (clampAbs c.my).toNat
  frame fHid ridMouse [c.buttons &&& 0x07, UInt8.ofNat x, UInt8.ofNat (x / 256), UInt8.ofNat y,
    UInt8.ofNat (y / 256), UInt8.ofNat (wheel % 256).toNat]

/-- The loop of `type_text`. -/
def typeChars : List Char → Except String (List Frame)
  | [] => .ok []
  | ch :: text =>
      match charToKey ch with
      | none =>
          .error ("cannot type character " ++ debugChar ch ++
            " (US layout only; use \x60key <NAME>\x60 for a named key)")
      | some (usage, shift) => do
          let out ← typeChars text
          return c.kbd (if shift then 0x02 else 0) [usage] :: c.kbd 0 [] :: out

/-- `type_text`: nothing is composed for a text that is refused. -/
def typeText (text : List Char) : Except String (List Frame) :=
  if text.length > maxTypeChars then
    .error ("type text is " ++ toString text.length ++ " characters; the limit is " ++
      toString maxTypeChars)
  else c.typeChars text

/-- `key`. -/
def key (name : List Char) : Except String (List Frame) := do
  match ← keyKind name with
  | .modifier bit => return [c.kbd bit [], c.kbd 0 []]
  | .key u => return [c.kbd 0 [u], c.kbd 0 []]

/-- The modifiers and the new keys of a chord. -/
def chord : List (List Char) → UInt8 → List UInt8 → Except String (UInt8 × List UInt8)
  | [], mods, keys => .ok (mods, keys)
  | name :: names, mods, keys => do
      match ← keyKind name with
      | .modifier bit => chord names (mods ||| bit) keys
      | .key u =>
          if u ∉ keys ∧ u ∉ c.heldKeys then chord names mods (keys ++ [u])
          else chord names mods keys

/-- `combo`: a chord that needs more than the six slots is refused. -/
def combo (names : List (List Char)) : Except String (List Frame) := do
  let (mods, keys) ← c.chord names 0 []
  let needed := c.heldKeys.length + keys.length
  if needed > keySlots then
    throw ("combo needs " ++ toString needed ++ " key slots but a report has " ++
      toString keySlots ++ " (" ++ toString c.heldKeys.length ++
      " already held); modifiers do not count")
  return [c.kbd mods keys, c.kbd 0 []]

/-- `down`: press and hold. -/
def down (name : List Char) : Except String (Composer × List Frame) := do
  let c' := match ← keyKind name with
    | .modifier bit => { c with heldMods := c.heldMods ||| bit }
    | .key u => if u ∉ c.heldKeys then { c with heldKeys := c.heldKeys ++ [u] } else c
  return (c', [c'.kbd 0 []])

/-- `up`: release a held key. -/
def up (name : List Char) : Except String (Composer × List Frame) := do
  let c' := match ← keyKind name with
    | .modifier bit => { c with heldMods := c.heldMods &&& ~~~bit }
    | .key u => { c with heldKeys := c.heldKeys.filter (· != u) }
  return (c', [c'.kbd 0 []])

/-- `releaseall`. -/
def releaseall : Composer × List Frame :=
  let c' := { c with heldMods := 0, heldKeys := [] }
  (c', [c'.kbd 0 []])

/-- `moveabs`. -/
def moveabs (x y : Int) : Composer × List Frame :=
  let c' := { c with mx := clampAbs x, my := clampAbs y }
  (c', [c'.mouse 0])

/-- `i32::saturating_add`. -/
def saturatingAdd (a b : Int) : Int := clamp (-2 ^ 31) (2 ^ 31 - 1) (a + b)

/-- `move_rel`. -/
def moveRel (dx dy : Int) : Composer × List Frame :=
  let c' := { c with mx := clampAbs (saturatingAdd c.mx dx), my := clampAbs (saturatingAdd c.my dy) }
  (c', [c'.mouse 0])

/-- `click`: press and release at the cursor. -/
def click (button : List Char) : Except String (Composer × List Frame) := do
  let b ← buttonBit button
  let pressed := { c with buttons := c.buttons ||| b }
  let released := { c with buttons := (c.buttons ||| b) &&& ~~~b }
  return (released, [pressed.mouse 0, released.mouse 0])

/-- `mdown`. -/
def mdown (button : List Char) : Except String (Composer × List Frame) := do
  let b ← buttonBit button
  let c' := { c with buttons := c.buttons ||| b }
  return (c', [c'.mouse 0])

/-- `mup`. -/
def mup (button : List Char) : Except String (Composer × List Frame) := do
  let b ← buttonBit button
  let c' := { c with buttons := c.buttons &&& ~~~b }
  return (c', [c'.mouse 0])

/-- The loop of `scroll`; each round takes at least one notch off. -/
def scrollLoop : Nat → Int → List Frame
  | 0, _ => []
  | fuel + 1, left =>
      if left = 0 then []
      else
        let step := clamp (-127) 127 left
        c.mouse step :: scrollLoop fuel (left - step)

/-- `scroll`. -/
def scroll (amount : Int) : List Frame :=
  let left := clamp (-maxScrollTotal) maxScrollTotal amount
  c.scrollLoop left.natAbs left

/-- `release_everything`. -/
def releaseEverything : Composer × List Frame :=
  let c' := { c with heldMods := 0, heldKeys := [], buttons := 0 }
  (c', [c'.kbd 0 [], c'.mouse 0])

def ping : Frame := frame fCtrl cmdPing []

def version : Frame := frame fCtrl cmdVersion []

/-- `power`: `secs` goes with `cycle` only. -/
def power (action : List Char) (secs : Option Nat) : Except String Frame :=
  let a := toAsciiLowercase action
  if a = "off".toList then .ok (frame fCtrl cmdPower [powerOff])
  else if a = "on".toList then .ok (frame fCtrl cmdPower [powerOn])
  else if a = "cycle".toList then
    match secs with
    | some s => .ok (frame fCtrl cmdPower [powerCycle, UInt8.ofNat s])
    | none => .ok (frame fCtrl cmdPower [powerCycle])
  else .error ("unknown power action: " ++ String.ofList a ++ " (use off|on|cycle)")

/-- `two_ints`. -/
def twoInts (s : List Char) : Except String (Int × Int) :=
  match splitWhitespace s with
  | a :: b :: _ =>
      match parseI32 a, parseI32 b with
      | some x, some y => .ok (x, y)
      | _, _ => .error ("expected two integers: " ++ debugStr s)
  | _ => .error ("expected two integers: " ++ debugStr s)

/-- The arguments of `power`. -/
def powerArgs (args : List Char) : Except String (List Char × Option Nat) :=
  match splitWhitespace args with
  | [] => .error "power needs an action: off|on|cycle"
  | [action] => .ok (action, none)
  | action :: t :: _ =>
      match parseUnsigned 256 t with
      | some secs => .ok (action, some secs)
      | none => .error "power cycle seconds must be 0..=255"

def isNewline (ch : Char) : Bool := ch == '\r' || ch == '\n'

/-- The verb of a line and what follows it: `dispatch` splits at the first
white space. -/
def splitLine (line : List Char) : List Char × List Char :=
  let line := trimStart (line.rdropWhile isNewline)
  (splitOnce isWhitespace line).getD (line, [])

/-- The `match` of `dispatch` on the verb. -/
def dispatchVerb (head rest : List Char) : Except String (Composer × List Frame) := do
  let args := trim rest
  let button := if args.isEmpty then "left".toList else args
  let verb := String.ofList (toAsciiLowercase head)
  if verb = "type" then return (c, ← c.typeText rest)
  else if verb = "key" then return (c, ← c.key args)
  else if verb = "combo" then return (c, ← c.combo (splitWhitespace args))
  else if verb = "down" then c.down args
  else if verb = "up" then c.up args
  else if verb = "releaseall" then return c.releaseall
  else if verb = "move" then
    let (dx, dy) ← twoInts args
    return c.moveRel dx dy
  else if verb = "moveabs" then
    let (x, y) ← twoInts args
    return c.moveabs x y
  else if verb = "click" then c.click button
  else if verb = "mdown" then c.mdown button
  else if verb = "mup" then c.mup button
  else if verb = "scroll" then
    match parseI32 args with
    | none => throw ("scroll needs an integer: " ++ debugStr args)
    | some n => return (c, c.scroll n)
  else if verb = "ping" then return (c, [ping])
  else if verb = "version" then return (c, [version])
  else if verb = "power" then
    let (action, secs) ← powerArgs args
    return (c, [← power action secs])
  else if verb = "" then return (c, [])
  else throw ("unknown command: " ++ verb)

/-- `dispatch`: the frames of one command line. -/
def dispatch (line : List Char) : Except String (Composer × List Frame) :=
  let stripped := line.rdropWhile isNewline
  if stripped.any isNewline then .error ("command contains a newline: " ++ debugStr stripped)
  else
    let (head, rest) := splitLine line
    c.dispatchVerb head rest

end Composer

end Hidrig

end Paniolo
