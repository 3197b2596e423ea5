import Paniolo.Library.Text

/-!
# Key names and characters of the JetKVM helper

`jetkvm/keys.go`: a resolved name is a modifier bit or a usage. Names are looked
up in upper case, as Go's `strings.ToUpper` gives it; of the letters beyond
ASCII only those count that become an ASCII letter.
-/

namespace Paniolo

namespace Jetkvm

open Text

def modLeftControl : UInt8 := 0x01
def modLeftShift : UInt8 := 0x02
def modLeftAlt : UInt8 := 0x04
def modLeftGUI : UInt8 := 0x08
def modRightControl : UInt8 := 0x10
def modRightShift : UInt8 := 0x20
def modRightAlt : UInt8 := 0x40
def modRightGUI : UInt8 := 0x80

/-- `key`: a modifier bit or a usage. -/
structure Key where
  modifier : Bool
  value : UInt8
deriving DecidableEq, Repr

def usage (v : UInt8) : Key := ⟨false, v⟩
def mod (v : UInt8) : Key := ⟨true, v⟩

/-- `strings.ToUpper`, beyond ASCII only for the letters with an ASCII upper case. -/
def toUpper (s : List Char) : List Char :=
  s.map fun c => if c = '\u0131' then 'I' else if c = '\u017f' then 'S' else c.toUpper

/-- `strings.ToLower`, beyond ASCII only for the letters with an ASCII lower case. -/
def toLower (s : List Char) : List Char :=
  s.map fun c => if c = '\u0130' then 'i' else if c = '\u212a' then 'k' else c.toLower

def namedKeys : List (String × Key) := [
  ("ZERO", usage 0x27), ("ONE", usage 0x1E), ("TWO", usage 0x1F),
  ("THREE", usage 0x20), ("FOUR", usage 0x21), ("FIVE", usage 0x22),
  ("SIX", usage 0x23), ("SEVEN", usage 0x24), ("EIGHT", usage 0x25),
  ("NINE", usage 0x26),
  ("ENTER", usage 0x28), ("RETURN", usage 0x28),
  ("ESCAPE", usage 0x29), ("ESC", usage 0x29),
  ("BACKSPACE", usage 0x2A), ("TAB", usage 0x2B),
  ("SPACE", usage 0x2C), ("SPACEBAR", usage 0x2C),
  ("DELETE", usage 0x4C), ("DEL", usage 0x4C),
  ("INSERT", usage 0x49), ("HOME", usage 0x4A), ("END", usage 0x4D),
  ("PAGE_UP", usage 0x4B), ("PAGE_DOWN", usage 0x4E),
  ("RIGHT_ARROW", usage 0x4F), ("LEFT_ARROW", usage 0x50),
  ("DOWN_ARROW", usage 0x51), ("UP_ARROW", usage 0x52),
  ("MINUS", usage 0x2D), ("EQUALS", usage 0x2E),
  ("LEFT_BRACKET", usage 0x2F), ("RIGHT_BRACKET", usage 0x30),
  ("BACKSLASH", usage 0x31), ("SEMICOLON", usage 0x33),
  ("QUOTE", usage 0x34), ("GRAVE_ACCENT", usage 0x35),
  ("COMMA", usage 0x36), ("PERIOD", usage 0x37),
  ("FORWARD_SLASH", usage 0x38),
  ("CAPS_LOCK", usage 0x39), ("PRINT_SCREEN", usage 0x46),
  ("SCROLL_LOCK", usage 0x47), ("PAUSE", usage 0x48),
  ("KEYPAD_NUMLOCK", usage 0x53), ("NUM_LOCK", usage 0x53),
  ("APPLICATION", usage 0x65), ("MENU", usage 0x65),
  ("F1", usage 0x3A), ("F2", usage 0x3B), ("F3", usage 0x3C),
  ("F4", usage 0x3D), ("F5", usage 0x3E), ("F6", usage 0x3F),
  ("F7", usage 0x40), ("F8", usage 0x41), ("F9", usage 0x42),
  ("F10", usage 0x43), ("F11", usage 0x44), ("F12", usage 0x45),
  ("LEFT_CONTROL", mod modLeftControl), ("CONTROL", mod modLeftControl),
  ("CTRL", mod modLeftControl),
  ("LEFT_SHIFT", mod modLeftShift), ("SHIFT", mod modLeftShift),
  ("LEFT_ALT", mod modLeftAlt), ("ALT", mod modLeftAlt),
  ("LEFT_GUI", mod modLeftGUI), ("GUI", mod modLeftGUI),
  ("WINDOWS", mod modLeftGUI), ("COMMAND", mod modLeftGUI),
  ("RIGHT_CONTROL", mod modRightControl), ("RIGHT_SHIFT", mod modRightShift),
  ("RIGHT_ALT", mod modRightAlt), ("RIGHT_GUI", mod modRightGUI)]

/-- The usage of a single letter `A`..`Z`. -/
def letterUsage : List Char → Option UInt8
  | [c] => if 'A' ≤ c ∧ c ≤ 'Z' then some (0x04 + UInt8.ofNat (c.toNat - 'A'.toNat)) else none
  | _ => none

/-- `nameToKey`. -/
def nameToKey (name : List Char) : Except String Key :=
  let n := toUpper name
  match letterUsage n with
  | some u => .ok (usage u)
  | none =>
      match namedKeys.find? (fun e => e.1.toList == n) with
      | some (_, k) => .ok k
      | none => .error ("unknown key name: " ++ String.ofList name)

def shiftedDigitRow : List (Char × UInt8) := [
  ('!', 0x1E), ('@', 0x1F), ('#', 0x20), ('$', 0x21), ('%', 0x22),
  ('^', 0x23), ('&', 0x24), ('*', 0x25), ('(', 0x26), (')', 0x27)]

def plainPunct : List (Char × UInt8) := [
  ('-', 0x2D), ('=', 0x2E), ('[', 0x2F), (']', 0x30), ('\\', 0x31), (';', 0x33),
  ('\'', 0x34), ('\x60', 0x35), (',', 0x36), ('.', 0x37), ('/', 0x38)]

def shiftedPunct : List (Char × UInt8) := [
  ('_', 0x2D), ('+', 0x2E), ('\x7b', 0x2F), ('\x7d', 0x30), ('|', 0x31), (':', 0x33),
  ('"', 0x34), ('~', 0x35), ('<', 0x36), ('>', 0x37), ('?', 0x38)]

/-- `charToUsage`: the usage of a character and whether it needs Shift. -/
def charToUsage (c : Char) : Except String (UInt8 × Bool) :=
  if c = '\n' then .ok (0x28, false)
  else if c = '\t' then .ok (0x2B, false)
  else if c = ' ' then .ok (0x2C, false)
  else if 'a' ≤ c ∧ c ≤ 'z' then .ok (0x04 + UInt8.ofNat (c.toNat - 'a'.toNat), false)
  else if 'A' ≤ c ∧ c ≤ 'Z' then .ok (0x04 + UInt8.ofNat (c.toNat - 'A'.toNat), true)
  else if '1' ≤ c ∧ c ≤ '9' then .ok (0x1E + UInt8.ofNat (c.toNat - '1'.toNat), false)
  else if c = '0' then .ok (0x27, false)
  else
    match plainPunct.lookup c with
    | some u => .ok (u, false)
    | none =>
        match shiftedDigitRow.lookup c with
        | some u => .ok (u, true)
        | none =>
            match shiftedPunct.lookup c with
            | some u => .ok (u, true)
            | none => .error ("cannot type character " ++ quotedChar c ++ " (US layout only)")

end Jetkvm

end Paniolo
