import Paniolo.Library.Text

/-!
# Key names and characters of the CH9329 helper

`ch9329/src/keys.rs`: the names that `key`, `combo`, `down` and `up` accept,
and the US layout that `type` assumes. A name is a modifier, which sets a bit
of the report's first byte, or a usage, which takes one of its six key slots.
-/

namespace Paniolo

namespace Ch9329

open Text

def modLeftControl : UInt8 := 0x01
def modLeftShift : UInt8 := 0x02
def modLeftAlt : UInt8 := 0x04
def modLeftGui : UInt8 := 0x08
def modRightControl : UInt8 := 0x10
def modRightShift : UInt8 := 0x20
def modRightAlt : UInt8 := 0x40
def modRightGui : UInt8 := 0x80

/-- `Key`: a resolved key name. -/
inductive Key where
  | modifier (bit : UInt8)
  | usage (u : UInt8)
deriving DecidableEq, Repr

/-- The named keys of `name_to_key`, letters apart. -/
def namedKeys : List (String × Key) := [
  ("ZERO", .usage 0x27), ("ONE", .usage 0x1E), ("TWO", .usage 0x1F), ("THREE", .usage 0x20),
  ("FOUR", .usage 0x21), ("FIVE", .usage 0x22), ("SIX", .usage 0x23), ("SEVEN", .usage 0x24),
  ("EIGHT", .usage 0x25), ("NINE", .usage 0x26),
  ("ENTER", .usage 0x28), ("RETURN", .usage 0x28), ("ESCAPE", .usage 0x29), ("ESC", .usage 0x29),
  ("BACKSPACE", .usage 0x2A), ("TAB", .usage 0x2B), ("SPACE", .usage 0x2C),
  ("SPACEBAR", .usage 0x2C), ("DELETE", .usage 0x4C), ("DEL", .usage 0x4C),
  ("INSERT", .usage 0x49), ("HOME", .usage 0x4A), ("END", .usage 0x4D), ("PAGE_UP", .usage 0x4B),
  ("PAGE_DOWN", .usage 0x4E),
  ("RIGHT_ARROW", .usage 0x4F), ("LEFT_ARROW", .usage 0x50), ("DOWN_ARROW", .usage 0x51),
  ("UP_ARROW", .usage 0x52),
  ("MINUS", .usage 0x2D), ("EQUALS", .usage 0x2E), ("LEFT_BRACKET", .usage 0x2F),
  ("RIGHT_BRACKET", .usage 0x30), ("BACKSLASH", .usage 0x31), ("SEMICOLON", .usage 0x33),
  ("QUOTE", .usage 0x34), ("GRAVE_ACCENT", .usage 0x35), ("COMMA", .usage 0x36),
  ("PERIOD", .usage 0x37), ("FORWARD_SLASH", .usage 0x38),
  ("CAPS_LOCK", .usage 0x39), ("PRINT_SCREEN", .usage 0x46), ("SCROLL_LOCK", .usage 0x47),
  ("PAUSE", .usage 0x48), ("KEYPAD_NUMLOCK", .usage 0x53), ("NUM_LOCK", .usage 0x53),
  ("APPLICATION", .usage 0x65), ("MENU", .usage 0x65),
  ("F1", .usage 0x3A), ("F2", .usage 0x3B), ("F3", .usage 0x3C), ("F4", .usage 0x3D),
  ("F5", .usage 0x3E), ("F6", .usage 0x3F), ("F7", .usage 0x40), ("F8", .usage 0x41),
  ("F9", .usage 0x42), ("F10", .usage 0x43), ("F11", .usage 0x44), ("F12", .usage 0x45),
  ("LEFT_CONTROL", .modifier modLeftControl), ("CONTROL", .modifier modLeftControl),
  ("CTRL", .modifier modLeftControl),
  ("LEFT_SHIFT", .modifier modLeftShift), ("SHIFT", .modifier modLeftShift),
  ("LEFT_ALT", .modifier modLeftAlt), ("ALT", .modifier modLeftAlt),
  ("LEFT_GUI", .modifier modLeftGui), ("GUI", .modifier modLeftGui),
  ("WINDOWS", .modifier modLeftGui), ("COMMAND", .modifier modLeftGui),
  ("RIGHT_CONTROL", .modifier modRightControl), ("RIGHT_SHIFT", .modifier modRightShift),
  ("RIGHT_ALT", .modifier modRightAlt), ("RIGHT_GUI", .modifier modRightGui)]

/-- The usage of a single letter `A`..`Z`. -/
def letterUsage : List Char → Option UInt8
  | [c] => if 'A' ≤ c ∧ c ≤ 'Z' then some (0x04 + UInt8.ofNat (c.toNat - 'A'.toNat)) else none
  | _ => none

/-- `name_to_key`: case-insensitive; an unknown name is an error. -/
def nameToKey (name : List Char) : Except String Key :=
  let n := toAsciiUppercase name
  match letterUsage n with
  | some u => .ok (.usage u)
  | none =>
      match namedKeys.find? (fun e => e.1.toList == n) with
      | some (_, key) => .ok key
      | none => .error ("unknown key name: " ++ String.ofList name)

/-- The punctuation of the US layout, with whether it needs Shift. -/
def punctuation : List (Char × UInt8 × Bool) := [
  ('\n', 0x28, false), ('\t', 0x2B, false), (' ', 0x2C, false), ('0', 0x27, false),
  ('-', 0x2D, false), ('=', 0x2E, false), ('[', 0x2F, false), (']', 0x30, false),
  ('\\', 0x31, false), (';', 0x33, false), ('\'', 0x34, false), ('\x60', 0x35, false),
  (',', 0x36, false), ('.', 0x37, false), ('/', 0x38, false),
  ('!', 0x1E, true), ('@', 0x1F, true), ('#', 0x20, true), ('$', 0x21, true), ('%', 0x22, true),
  ('^', 0x23, true), ('&', 0x24, true), ('*', 0x25, true), ('(', 0x26, true), (')', 0x27, true),
  ('_', 0x2D, true), ('+', 0x2E, true), ('\x7b', 0x2F, true), ('\x7d', 0x30, true),
  ('|', 0x31, true), (':', 0x33, true), ('"', 0x34, true), ('~', 0x35, true), ('<', 0x36, true),
  ('>', 0x37, true), ('?', 0x38, true)]

/-- `char_to_usage`: the usage of a character and whether it needs Shift. -/
def charToUsage (c : Char) : Except String (UInt8 × Bool) :=
  if 'a' ≤ c ∧ c ≤ 'z' then .ok (0x04 + UInt8.ofNat (c.toNat - 'a'.toNat), false)
  else if 'A' ≤ c ∧ c ≤ 'Z' then .ok (0x04 + UInt8.ofNat (c.toNat - 'A'.toNat), true)
  else if '1' ≤ c ∧ c ≤ '9' then .ok (0x1E + UInt8.ofNat (c.toNat - '1'.toNat), false)
  else
    match punctuation.find? (fun e => e.1 == c) with
    | some (_, u, shift) => .ok (u, shift)
    | none => .error ("cannot type character " ++ debugChar c ++ " (US layout only)")

end Ch9329

end Paniolo
