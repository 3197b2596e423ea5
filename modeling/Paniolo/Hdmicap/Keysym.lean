import Paniolo.HidProtocol.Typing

/-!
# Keysyms

`keysym.rs`: the keysyms of X11, which a client of the view sends, and the keys
of the HID vocabulary that they stand for. A shifted character stands for its
base key; several keysyms stand for one key.
-/

namespace Paniolo

namespace Hdmicap

namespace Keysym

/-- A key the HID vocabulary can press. -/
structure HidKey where
  name : String
  shifted : Bool
  isShift : Bool
deriving DecidableEq, Repr

def key (name : String) : HidKey := ⟨name, false, false⟩

def shifted (name : String) : HidKey := ⟨name, true, false⟩

def DIGITS : List String :=
  ["ZERO", "ONE", "TWO", "THREE", "FOUR", "FIVE", "SIX", "SEVEN", "EIGHT", "NINE"]

def LETTERS : List String :=
  ["A", "B", "C", "D", "E", "F", "G", "H", "I", "J", "K", "L", "M", "N", "O", "P", "Q", "R", "S",
    "T", "U", "V", "W", "X", "Y", "Z"]

def FUNCTION : List String :=
  ["F1", "F2", "F3", "F4", "F5", "F6", "F7", "F8", "F9", "F10", "F11", "F12"]

/-- A range of keysyms from `first` on, one for each name. -/
def range (first : Nat) (names : List String) (k : String → HidKey) : List (Nat × HidKey) :=
  names.zipIdx.map fun a => (first + a.2, k a.1)

/-- The arms of `lookup`. -/
def arms : List (Nat × HidKey) :=
  [(0x20, key "SPACE")] ++
  -- Digits and the shifted characters of the number row.
  range 0x30 DIGITS key ++
  [(0x21, shifted "ONE"), (0x40, shifted "TWO"), (0x23, shifted "THREE"), (0x24, shifted "FOUR"),
    (0x25, shifted "FIVE"), (0x5E, shifted "SIX"), (0x26, shifted "SEVEN"), (0x2A, shifted "EIGHT"),
    (0x28, shifted "NINE"), (0x29, shifted "ZERO")] ++
  -- Letters.
  range 0x61 LETTERS key ++ range 0x41 LETTERS shifted ++
  -- Punctuation.
  [(0x2D, key "MINUS"), (0x5F, shifted "MINUS"), (0x3D, key "EQUALS"), (0x2B, shifted "EQUALS"),
    (0x5B, key "LEFT_BRACKET"), (0x7B, shifted "LEFT_BRACKET"), (0x5D, key "RIGHT_BRACKET"),
    (0x7D, shifted "RIGHT_BRACKET"), (0x5C, key "BACKSLASH"), (0x7C, shifted "BACKSLASH"),
    (0x3B, key "SEMICOLON"), (0x3A, shifted "SEMICOLON"), (0x27, key "QUOTE"),
    (0x22, shifted "QUOTE"), (0x60, key "GRAVE_ACCENT"), (0x7E, shifted "GRAVE_ACCENT"),
    (0x2C, key "COMMA"), (0x3C, shifted "COMMA"), (0x2E, key "PERIOD"), (0x3E, shifted "PERIOD"),
    (0x2F, key "FORWARD_SLASH"), (0x3F, shifted "FORWARD_SLASH")] ++
  -- Editing and navigation.
  [(0xFF08, key "BACKSPACE"), (0xFF09, key "TAB"), (0xFE20, shifted "TAB"), (0xFF0D, key "ENTER"),
    (0xFF13, key "PAUSE"), (0xFF14, key "SCROLL_LOCK"), (0xFF1B, key "ESCAPE"),
    (0xFFFF, key "DELETE"), (0xFF50, key "HOME"), (0xFF51, key "LEFT_ARROW"),
    (0xFF52, key "UP_ARROW"), (0xFF53, key "RIGHT_ARROW"), (0xFF54, key "DOWN_ARROW"),
    (0xFF55, key "PAGE_UP"), (0xFF56, key "PAGE_DOWN"), (0xFF57, key "END"),
    (0xFF61, key "PRINT_SCREEN"), (0xFF63, key "INSERT"), (0xFF67, key "APPLICATION"),
    (0xFF7F, key "NUM_LOCK"), (0xFFE5, key "CAPS_LOCK")] ++
  -- Function keys. The vocabulary stops at F12.
  range 0xFFBE FUNCTION key ++
  -- Modifiers. Meta is treated as Alt, the X11 convention.
  [(0xFFE1, ⟨"LEFT_SHIFT", false, true⟩), (0xFFE2, ⟨"RIGHT_SHIFT", false, true⟩),
    (0xFFE3, key "LEFT_CONTROL"), (0xFFE4, key "RIGHT_CONTROL"), (0xFFE7, key "LEFT_ALT"),
    (0xFFE9, key "LEFT_ALT"), (0xFFE8, key "RIGHT_ALT"), (0xFFEA, key "RIGHT_ALT"),
    (0xFE03, key "RIGHT_ALT"), (0xFFEB, key "LEFT_GUI"), (0xFFEC, key "RIGHT_GUI")] ++
  -- Keypad: the main-block key that types the same character.
  [(0xFF89, key "TAB"), (0xFF8D, key "ENTER"), (0xFF95, key "HOME"), (0xFF96, key "LEFT_ARROW"),
    (0xFF97, key "UP_ARROW"), (0xFF98, key "RIGHT_ARROW"), (0xFF99, key "DOWN_ARROW"),
    (0xFF9A, key "PAGE_UP"), (0xFF9B, key "PAGE_DOWN"), (0xFF9C, key "END"),
    (0xFF9E, key "INSERT"), (0xFF9F, key "DELETE"), (0xFFAA, shifted "EIGHT"),
    (0xFFAB, shifted "EQUALS"), (0xFFAC, key "COMMA"), (0xFFAD, key "MINUS"),
    (0xFFAE, key "PERIOD"), (0xFFAF, key "FORWARD_SLASH")] ++
  range 0xFFB0 DIGITS key ++
  [(0xFFBD, key "EQUALS")]

/-- The HID key for a keysym, if the vocabulary can press it. -/
def lookup (sym : Nat) : Option HidKey := (arms.find? fun a => a.1 == sym).map Prod.snd

/-- What every arm says holds of every key that is found. -/
theorem of_lookup {P : HidKey → Prop} (h : ∀ a ∈ arms, P a.2) {sym : Nat} {k : HidKey}
    (hk : lookup sym = some k) : P k := by
  obtain ⟨a, ha, rfl⟩ := Option.map_eq_some_iff.mp hk
  exact h a (List.mem_of_find?_eq_some ha)

/-- The Shift key itself needs no Shift. -/
theorem not_shifted_of_leftShift {sym : Nat} {k : HidKey} (hk : lookup sym = some k)
    (hshifted : k.shifted = true) : k.name ≠ "LEFT_SHIFT" :=
  of_lookup (P := fun k => k.shifted = true → k.name ≠ "LEFT_SHIFT") (by decide +kernel) hk
    hshifted

/-- Every implementation of the serial protocol accepts the keys that the view presses. -/
theorem name_mem_requiredNames {sym : Nat} {k : HidKey} (hk : lookup sym = some k) :
    k.name ∈ HidProtocol.requiredNames :=
  of_lookup (P := fun k => k.name ∈ HidProtocol.requiredNames) (by decide +kernel) hk

end Keysym

end Hdmicap

end Paniolo
