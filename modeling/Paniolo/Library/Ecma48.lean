import Mathlib.Tactic

/-!
# Escape sequences of a terminal

The forms of ECMA-48 and ISO 2022: a control sequence with its parameters, a
command string with its payload, an escape with intermediate characters, and
one without. A line of output is made of characters and of such sequences.
-/

namespace Paniolo

namespace Ecma48

def ESC : Char := Char.ofNat 0x1b

def BEL : Char := Char.ofNat 0x07

/-- The code of a character lies between two bounds. -/
def Between (lo hi : Nat) (c : Char) : Prop := lo ≤ c.toNat ∧ c.toNat ≤ hi

instance (lo hi : Nat) (c : Char) : Decidable (Between lo hi c) :=
  inferInstanceAs (Decidable (_ ∧ _))

/-- The strings that only a terminator ends. -/
inductive StringKind where
  | osc
  | dcs
  | apc
  | pm
  | sos
deriving DecidableEq, Repr

def StringKind.opening : StringKind → Char
  | .osc => ']'
  | .dcs => 'P'
  | .apc => '_'
  | .pm => '^'
  | .sos => 'X'

/-- What ends a string. -/
inductive Terminator where
  | bel
  | st
deriving DecidableEq, Repr

def Terminator.chars : Terminator → List Char
  | .bel => [BEL]
  | .st => [ESC, '\\']

/-- A complete escape sequence. -/
inductive Sequence where
  | csi (parameters intermediates : List Char) (final : Char)
      (hparameters : ∀ c ∈ parameters, Between 0x30 0x3f c)
      (hintermediates : ∀ c ∈ intermediates, Between 0x20 0x2f c) (hfinal : Between 0x40 0x7e final)
  | string (kind : StringKind) (payload : List Char) (terminator : Terminator)
      (hpayload : ∀ c ∈ payload, c ≠ BEL ∧ c ≠ ESC)
  | designation (first : Char) (more : List Char) (final : Char)
      (hfirst : Between 0x20 0x2f first) (hmore : ∀ c ∈ more, Between 0x20 0x2f c)
      (hfinal : Between 0x30 0x7e final)
  | single (final : Char) (hfinal : Between 0x30 0x7e final) (hcsi : final ≠ '[')
      (hstring : ∀ kind : StringKind, final ≠ kind.opening)

/-- The characters of a sequence. -/
def Sequence.chars : Sequence → List Char
  | .csi parameters intermediates final _ _ _ =>
      ESC :: '[' :: (parameters ++ intermediates ++ [final])
  | .string kind payload terminator _ => ESC :: kind.opening :: (payload ++ terminator.chars)
  | .designation first more final _ _ _ => ESC :: first :: (more ++ [final])
  | .single final _ _ _ => [ESC, final]

/-- A character of the text, of those that count as text, or a sequence. -/
inductive Piece (Text : Char → Prop) where
  | char (c : Char) (h : Text c)
  | sequence (s : Sequence)

variable {Text : Char → Prop}

def Piece.chars : Piece Text → List Char
  | .char c _ => [c]
  | .sequence s => s.chars

/-- What a piece shows of the text. -/
def Piece.text : Piece Text → List Char
  | .char c _ => [c]
  | .sequence _ => []

/-- A sequence with intermediate characters right after the escape. -/
def Piece.IsDesignation : Piece Text → Prop
  | .sequence (.designation ..) => True
  | _ => False

/-- The characters of a line. -/
def chars (line : List (Piece Text)) : List Char := line.flatMap Piece.chars

/-- The text of a line. -/
def text (line : List (Piece Text)) : List Char := line.flatMap Piece.text

end Ecma48

end Paniolo
