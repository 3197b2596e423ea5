import Mathlib.Data.List.Infix
import Paniolo.Library.Hex

/-!
# XML elements

The syntax of XML elements: names, attributes, character data with its references, and content that
is text with elements in between. What is written down keeps all that a writer may choose, such as
the white space within tags; comments, CDATA sections and processing instructions are left out.
-/

namespace Paniolo

namespace Xml

/-! ### Characters and names -/

/-- `Char`. -/
def isChar (c : Char) : Bool :=
  c == '\t' || c == '\n' || c == '\r' ||
    (0x20 ≤ c.toNat && c.toNat != 0xFFFE && c.toNat != 0xFFFF)

/-- `S`, one of its characters. -/
def isSpace (c : Char) : Bool := c == ' ' || c == '\t' || c == '\r' || c == '\n'

/-- `NameStartChar`, without the colon. -/
def isNameStart (c : Char) : Bool :=
  let n := c.toNat
  (0x41 ≤ n && n ≤ 0x5A) || n == 0x5F || (0x61 ≤ n && n ≤ 0x7A) || (0xC0 ≤ n && n ≤ 0xD6) ||
    (0xD8 ≤ n && n ≤ 0xF6) || (0xF8 ≤ n && n ≤ 0x2FF) || (0x370 ≤ n && n ≤ 0x37D) ||
    (0x37F ≤ n && n ≤ 0x1FFF) || (0x200C ≤ n && n ≤ 0x200D) || (0x2070 ≤ n && n ≤ 0x218F) ||
    (0x2C00 ≤ n && n ≤ 0x2FEF) || (0x3001 ≤ n && n ≤ 0xD7FF) || (0xF900 ≤ n && n ≤ 0xFDCF) ||
    (0xFDF0 ≤ n && n ≤ 0xFFFD) || (0x10000 ≤ n && n ≤ 0xEFFFF)

/-- `NameChar`, without the colon. -/
def isNameChar (c : Char) : Bool :=
  let n := c.toNat
  isNameStart c || c == '-' || c == '.' || (0x30 ≤ n && n ≤ 0x39) || n == 0xB7 ||
    (0x300 ≤ n && n ≤ 0x36F) || (0x203F ≤ n && n ≤ 0x2040)

/-- `NCName`. -/
def isName : List Char → Bool
  | [] => false
  | c :: s => isNameStart c && s.all isNameChar

/-- A name with an optional prefix. -/
structure QName where
  pre : Option (List Char)
  loc : List Char
deriving DecidableEq

namespace QName

def raw (n : QName) : List Char :=
  match n.pre with
  | none => n.loc
  | some p => p ++ ':' :: n.loc

def WellFormed (n : QName) : Prop := (∀ p ∈ n.pre, isName p = true) ∧ isName n.loc = true

instance (n : QName) : Decidable n.WellFormed := inferInstanceAs (Decidable (_ ∧ _))

end QName

/-! ### Character data -/

inductive Entity where
  | lt
  | gt
  | amp
  | quot
  | apos
deriving DecidableEq

namespace Entity

def name : Entity → List Char
  | lt => ['l', 't']
  | gt => ['g', 't']
  | amp => ['a', 'm', 'p']
  | quot => ['q', 'u', 'o', 't']
  | apos => ['a', 'p', 'o', 's']

def value : Entity → Char
  | lt => '<'
  | gt => '>'
  | amp => '&'
  | quot => '"'
  | apos => '\''

end Entity

/-- A character as it stands in character data: by itself, or by a reference. -/
inductive Piece where
  | char (c : Char)
  | entity (e : Entity)
  | decimal (digits : List Char) (c : Char)
  | hex (digits : List Char) (c : Char)
deriving DecidableEq

namespace Piece

def raw : Piece → List Char
  | char c => [c]
  | entity e => '&' :: (e.name ++ [';'])
  | decimal digits _ => '&' :: '#' :: (digits ++ [';'])
  | hex digits _ => '&' :: '#' :: 'x' :: (digits ++ [';'])

/-- The character that it stands for. -/
def value : Piece → Char
  | char c => c
  | entity e => e.value
  | decimal _ c => c
  | hex _ c => c

def Legal : Piece → Prop
  | char c => isChar c = true ∧ c ≠ '<' ∧ c ≠ '&'
  | entity _ => True
  | decimal digits c => Text.parseDigits digits = some c.toNat ∧ isChar c = true
  | hex digits c =>
      digits ≠ [] ∧ Text.hexDigits 0 digits = some c.toNat ∧ isChar c = true

instance : (p : Piece) → Decidable p.Legal
  | char _ => inferInstanceAs (Decidable (_ ∧ _))
  | entity _ => inferInstanceAs (Decidable True)
  | decimal _ _ => inferInstanceAs (Decidable (_ ∧ _))
  | hex _ _ => inferInstanceAs (Decidable (_ ∧ _))

end Piece

/-- Character data as it is written. -/
def raw (t : List Piece) : List Char := t.flatMap Piece.raw

/-- Character data with its references resolved. -/
def unescaped (t : List Piece) : List Char := t.map Piece.value

/-- The text of an element. -/
structure IsText (t : List Piece) : Prop where
  legal : ∀ p ∈ t, p.Legal
  noEnd : ¬[']', ']', '>'] <:+: raw t

/-! ### Elements -/

structure Attr where
  space : List Char
  name : QName
  before : List Char
  after : List Char
  quote : Char
  value : List Piece

namespace Attr

def raw (a : Attr) : List Char :=
  a.space ++ a.name.raw ++ a.before ++ '=' :: a.after ++ a.quote :: Xml.raw a.value ++ [a.quote]

structure WellFormed (a : Attr) : Prop where
  apart : a.space ≠ []
  space : ∀ c ∈ a.space, isSpace c = true
  name : a.name.WellFormed
  before : ∀ c ∈ a.before, isSpace c = true
  after : ∀ c ∈ a.after, isSpace c = true
  quote : a.quote = '"' ∨ a.quote = '\''
  legal : ∀ p ∈ a.value, p.Legal
  unquoted : a.quote ∉ Xml.raw a.value

end Attr

/-- What a start tag and an empty-element tag have in common. -/
structure Tag where
  name : QName
  attrs : List Attr
  space : List Char

namespace Tag

def raw (t : Tag) : List Char := t.name.raw ++ (t.attrs.flatMap Attr.raw ++ t.space)

structure WellFormed (t : Tag) : Prop where
  name : t.name.WellFormed
  attrs : ∀ a ∈ t.attrs, a.WellFormed
  nodup : (t.attrs.map Attr.name).Nodup
  space : ∀ c ∈ t.space, isSpace c = true

end Tag

/-- Text, or text with an element behind it and more content behind that. -/
inductive Content where
  | text (t : List Piece)
  | empty (t : List Piece) (tag : Tag) (rest : Content)
  | element (t : List Piece) (tag : Tag) (inner : Content) (space : List Char) (rest : Content)

/-- An element of a document: its tag, the text up to its first child, and whether it has none. -/
structure Element where
  tag : Tag
  head : List Piece
  leaf : Bool

namespace Content

def raw : Content → List Char
  | text t => Xml.raw t
  | empty t tag rest => Xml.raw t ++ '<' :: (tag.raw ++ '/' :: '>' :: rest.raw)
  | element t tag inner space rest =>
      Xml.raw t ++ '<' :: (tag.raw ++ '>' :: (inner.raw ++ '<' :: '/' ::
        (tag.name.raw ++ (space ++ '>' :: rest.raw))))

def WellFormed : Content → Prop
  | text t => IsText t
  | empty t tag rest => IsText t ∧ tag.WellFormed ∧ rest.WellFormed
  | element t tag inner space rest =>
      IsText t ∧ tag.WellFormed ∧ inner.WellFormed ∧ (∀ c ∈ space, isSpace c = true) ∧
        rest.WellFormed

/-- The text up to the first element. -/
def head : Content → List Piece
  | text t => t
  | empty t _ _ => t
  | element t _ _ _ _ => t

def isLeaf : Content → Bool
  | text _ => true
  | _ => false

/-- All elements, in document order. -/
def nodes : Content → List Element
  | text _ => []
  | empty _ tag rest => ⟨tag, [], true⟩ :: rest.nodes
  | element _ tag inner _ rest => ⟨tag, inner.head, inner.isLeaf⟩ :: (inner.nodes ++ rest.nodes)

def Blank (t : List Piece) : Prop := ∀ c ∈ Xml.raw t, isSpace c = true

/-- One element, with white space around it. -/
def IsRoot : Content → Prop
  | empty t _ (text t') => Blank t ∧ Blank t'
  | element t _ _ _ (text t') => Blank t ∧ Blank t'
  | _ => False

end Content

/-- A document: an element, behind an XML declaration if there is one. -/
structure Document where
  declaration : Option (List Char)
  content : Content
  declared : ∀ d ∈ declaration, '<' ∉ d
  root : content.IsRoot
  wellFormed : content.WellFormed

namespace Document

def raw (d : Document) : List Char :=
  (match d.declaration with
    | none => []
    | some s => '<' :: '?' :: 'x' :: 'm' :: 'l' :: (s ++ ['?', '>'])) ++ d.content.raw

end Document

/-! ### What tags and text cannot contain -/

theorem not_of_isNameChar {c d : Char} (h : isNameChar c = true) (hd : isNameChar d = false) :
    c ≠ d := by
  rintro rfl
  rw [h] at hd
  cases hd

theorem isNameChar_of_mem {s : List Char} (h : isName s = true) {c : Char} (hc : c ∈ s) :
    isNameChar c = true := by
  cases s with
  | nil => cases h
  | cons d s =>
      rw [isName, Bool.and_eq_true] at h
      rcases List.mem_cons.mp hc with rfl | hc
      · rw [isNameChar, h.1]
        rfl
      · exact List.all_eq_true.mp h.2 c hc

/-- The characters of a name with its prefix. -/
theorem QName.mem_raw {n : QName} (h : n.WellFormed) {c : Char} (hc : c ∈ n.raw) :
    c = ':' ∨ isNameChar c = true := by
  rw [QName.raw] at hc
  cases hpre : n.pre with
  | none =>
      rw [hpre] at hc
      exact Or.inr (isNameChar_of_mem h.2 hc)
  | some p =>
      rw [hpre] at hc
      rcases List.mem_append.mp hc with hc | hc
      · exact Or.inr (isNameChar_of_mem (h.1 p hpre) hc)
      · rcases List.mem_cons.mp hc with rfl | hc
        · exact Or.inl rfl
        · exact Or.inr (isNameChar_of_mem h.2 hc)

theorem QName.head_raw {n : QName} (h : n.WellFormed) :
    ∃ c s, n.raw = c :: s ∧ isNameStart c = true := by
  have hname : ∀ s, isName s = true → ∃ c l, s = c :: l ∧ isNameStart c = true := by
    intro s hs
    cases s with
    | nil => cases hs
    | cons c l => exact ⟨c, l, rfl, (Bool.and_eq_true_iff.mp hs).1⟩
  rw [QName.raw]
  cases hpre : n.pre with
  | none => exact hname _ h.2
  | some p =>
      obtain ⟨c, l, rfl, hc⟩ := hname p (h.1 p hpre)
      exact ⟨c, l ++ ':' :: n.loc, rfl, hc⟩

theorem QName.notMem_raw {n : QName} (h : n.WellFormed) {c : Char} (hc : isNameChar c = false)
    (hcolon : c ≠ ':') : c ∉ n.raw := by
  intro hmem
  rcases n.mem_raw h hmem with h | h
  · exact hcolon h
  · rw [h] at hc
    cases hc

/-- A reference, unlike a character, begins with an ampersand and ends with a semicolon. -/
theorem Piece.raw_cases {p : Piece} (h : p.Legal) :
    (∃ c, p = .char c) ∨ ∃ s, p.raw = '&' :: (s ++ [';']) ∧ '<' ∉ s := by
  cases p with
  | char c => exact Or.inl ⟨c, rfl⟩
  | entity e => exact Or.inr ⟨e.name, rfl, by cases e <;> decide⟩
  | decimal digits c =>
      refine Or.inr ⟨'#' :: digits, rfl, fun hmem => ?_⟩
      rcases List.mem_cons.mp hmem with h' | hmem
      · cases h'
      · have hdigits := h.1
        rw [Text.parseDigits] at hdigits
        split at hdigits
        · next hall => exact absurd (List.all_eq_true.mp hall.2 _ hmem) (by decide)
        · cases hdigits
  | hex digits c =>
      refine Or.inr ⟨'#' :: 'x' :: digits, rfl, fun hmem => ?_⟩
      rcases List.mem_cons.mp hmem with h' | hmem
      · cases h'
      · rcases List.mem_cons.mp hmem with h' | hmem
        · cases h'
        · exact Text.notMem_of_hexDigits (by decide) h.2.1 hmem

theorem lt_notMem_raw {t : List Piece} (h : ∀ p ∈ t, p.Legal) : '<' ∉ raw t := by
  intro hmem
  obtain ⟨p, hp, hraw⟩ := List.mem_flatMap.mp hmem
  rcases Piece.raw_cases (h p hp) with ⟨c, rfl⟩ | ⟨s, hs, hlt⟩
  · rw [Piece.raw, List.mem_singleton] at hraw
    exact (h _ hp).2.1 hraw.symm
  · rw [hs] at hraw
    rcases List.mem_cons.mp hraw with h' | hraw
    · cases h'
    · rcases List.mem_append.mp hraw with hraw | hraw
      · exact hlt hraw
      · rw [List.mem_singleton] at hraw
        cases hraw

/-- The characters that legal pieces stand for. -/
theorem isChar_value {p : Piece} (h : p.Legal) : isChar p.value = true := by
  cases p with
  | char c => exact h.1
  | entity e => cases e <;> decide
  | decimal digits c => exact h.2
  | hex digits c => exact h.2.2

/-! ### Tags -/

/-- What stands behind the name. -/
def Tag.behind (t : Tag) : List Char := t.attrs.flatMap Attr.raw ++ t.space

theorem Tag.raw_eq (t : Tag) : t.raw = t.name.raw ++ t.behind := rfl

/-- A name is followed by white space, if by anything. -/
theorem Tag.behind_cases {t : Tag} (h : t.WellFormed) :
    t.behind = [] ∨ ∃ c s, t.behind = c :: s ∧ isSpace c = true := by
  rw [Tag.behind]
  cases hattrs : t.attrs with
  | nil =>
      cases hspace : t.space with
      | nil => exact Or.inl rfl
      | cons c s =>
          exact Or.inr ⟨c, s, rfl, h.space c (by rw [hspace]; exact List.mem_cons_self)⟩
  | cons a attrs =>
      have ha := h.attrs a (by rw [hattrs]; exact List.mem_cons_self)
      obtain ⟨c, s, hs⟩ := List.exists_cons_of_ne_nil ha.apart
      have hraw : ∃ l, a.raw = c :: l := by
        rw [Attr.raw, hs]
        exact ⟨_, rfl⟩
      obtain ⟨l, hl⟩ := hraw
      refine Or.inr ⟨c, l ++ attrs.flatMap Attr.raw ++ t.space, ?_,
        ha.space c (by rw [hs]; exact List.mem_cons_self)⟩
      rw [List.flatMap_cons, hl]
      rfl

theorem Attr.notMem_raw {a : Attr} (h : a.WellFormed) {c : Char} (hspace : isSpace c = false)
    (hname : isNameChar c = false) (hc : c ≠ ':' ∧ c ≠ '=' ∧ c ≠ '"' ∧ c ≠ '\'')
    (hvalue : c ∉ Xml.raw a.value) : c ∉ a.raw := by
  have hspaces : ∀ l : List Char, (∀ d ∈ l, isSpace d = true) → c ∉ l := by
    intro l hl hmem
    rw [hl c hmem] at hspace
    cases hspace
  have hquote : c ≠ a.quote := by
    rcases h.quote with hq | hq
    · rw [hq]
      exact hc.2.2.1
    · rw [hq]
      exact hc.2.2.2
  have hqname := a.name.notMem_raw h.name hname hc.1
  rw [Attr.raw]
  simp only [List.mem_append, List.mem_cons, List.not_mem_nil, or_false, not_or]
  exact ⟨⟨⟨⟨⟨hspaces _ h.space, hqname⟩, hspaces _ h.before⟩, hc.2.1, hspaces _ h.after⟩, hquote,
    hvalue⟩, hquote⟩

theorem Tag.gt_notMem_behind {t : Tag} (h : t.WellFormed)
    (hplain : ∀ a ∈ t.attrs, '>' ∉ Xml.raw a.value) : '>' ∉ t.behind := by
  intro hmem
  rcases List.mem_append.mp hmem with hmem | hmem
  · obtain ⟨a, ha, hraw⟩ := List.mem_flatMap.mp hmem
    exact Attr.notMem_raw (h.attrs a ha) (by decide) (by decide) (by decide) (hplain a ha) hraw
  · exact absurd (h.space _ hmem) (by decide)

/-- A start tag does not look like an empty-element tag. -/
theorem Tag.getLast?_raw {t : Tag} (h : t.WellFormed) (c : Char) :
    (c :: (t.name.raw ++ t.behind)).getLast? ≠ some '/' := by
  intro hlast
  rcases List.eq_nil_or_concat t.space with hspace | ⟨s, d, hspace⟩
  · rcases List.eq_nil_or_concat t.attrs with hattrs | ⟨l, a, hattrs⟩
    · obtain ⟨e, s, hs, -⟩ := t.name.head_raw h.name
      have hmem : '/' ∈ t.name.raw := by
        rw [Tag.behind, hspace, hattrs, List.flatMap_nil, List.append_nil, List.append_nil, hs,
          List.getLast?_cons_cons, ← hs] at hlast
        exact List.mem_of_getLast? hlast
      exact t.name.notMem_raw h.name (by decide) (by decide) hmem
    · rw [List.concat_eq_append] at hattrs
      have ha := h.attrs a (by rw [hattrs]; exact List.mem_append_right _ List.mem_cons_self)
      have hquote : a.quote = '/' := by
        rw [Tag.behind, hspace, hattrs, List.append_nil, List.flatMap_append, List.flatMap_singleton,
          Attr.raw, ← List.append_assoc, ← List.append_assoc, ← List.cons_append,
          List.getLast?_concat] at hlast
        exact Option.some.inj hlast
      rcases ha.quote with hq | hq <;> exact absurd (hq.symm.trans hquote) (by decide)
  · rw [List.concat_eq_append] at hspace
    rw [Tag.behind, hspace, ← List.append_assoc, ← List.append_assoc, ← List.cons_append,
      List.getLast?_concat] at hlast
    have hslash := h.space d (by rw [hspace]; exact List.mem_append_right _ List.mem_cons_self)
    rw [Option.some.inj hlast] at hslash
    exact absurd hslash (by decide)

/-! ### Content -/

/-- The text up to the first element ends at the next tag. -/
theorem Content.exists_raw (c : Content) (rest : List Char) :
    ∃ after, c.raw ++ '<' :: rest = Xml.raw c.head ++ '<' :: after := by
  cases c with
  | text t => exact ⟨rest, rfl⟩
  | empty t tag more => exact ⟨_, List.append_assoc ..⟩
  | element t tag inner space more => exact ⟨_, List.append_assoc ..⟩

theorem Content.WellFormed.head {c : Content} (h : c.WellFormed) : IsText c.head := by
  cases c with
  | text t => exact h
  | empty t tag more => exact h.1
  | element t tag inner space more => exact h.1

/-! ### Characters that XML does not have -/

theorem isChar_of_isDigit {c : Char} (h : c.isDigit = true) : isChar c = true := by
  have hrange : 48 ≤ c.toNat ∧ c.toNat ≤ 57 := Char.isDigit_iff_toNat.mp h
  rw [isChar, Bool.or_eq_true]
  right
  simp only [Bool.and_eq_true, decide_eq_true_eq, bne_iff_ne]
  omega

section NotChar

variable {c : Char} (hc : isChar c = false)

include hc

theorem ne_of_isChar {d : Char} (hd : isChar d = true) : c ≠ d := by
  rintro rfl
  rw [hd] at hc
  cases hc

theorem isNameChar_eq_false : isNameChar c = false := by
  by_contra hname
  rw [Bool.not_eq_false] at hname
  have hminus := ne_of_isChar hc (d := '-') (by decide)
  have hdot := ne_of_isChar hc (d := '.') (by decide)
  simp only [isNameChar, isNameStart, Bool.or_eq_true, Bool.and_eq_true, decide_eq_true_eq,
    beq_iff_eq, hminus, hdot, or_false] at hname
  simp only [isChar, Bool.or_eq_false_iff, Bool.and_eq_false_iff, decide_eq_false_iff_not,
    bne_eq_false_iff_eq] at hc
  omega

theorem isSpace_eq_false : isSpace c = false := by
  simp only [isSpace, Bool.or_eq_false_iff, beq_eq_false_iff_ne]
  exact ⟨⟨⟨ne_of_isChar hc (by decide), ne_of_isChar hc (by decide)⟩,
    ne_of_isChar hc (by decide)⟩, ne_of_isChar hc (by decide)⟩

theorem hexValue_eq_none : Text.hexValue c = none := by
  simp only [isChar, Bool.or_eq_false_iff, Bool.and_eq_false_iff, decide_eq_false_iff_not,
    bne_eq_false_iff_eq] at hc
  have hrange : c.toNat < 0x20 ∨ 0x7A < c.toNat := by omega
  have hdigit : ¬('0'.toNat ≤ c.toNat ∧ c.toNat ≤ '9'.toNat) := fun h => by
    have h0 : '0'.toNat = 48 := rfl
    have h9 : '9'.toNat = 57 := rfl
    omega
  have hlower : ¬('a'.toNat ≤ c.toNat ∧ c.toNat ≤ 'f'.toNat) := fun h => by
    have ha : 'a'.toNat = 97 := rfl
    have hf : 'f'.toNat = 102 := rfl
    omega
  have hupper : ¬('A'.toNat ≤ c.toNat ∧ c.toNat ≤ 'F'.toNat) := fun h => by
    have ha : 'A'.toNat = 65 := rfl
    have hf : 'F'.toNat = 70 := rfl
    omega
  rw [Text.hexValue, if_neg hdigit, if_neg hlower, if_neg hupper]

theorem Piece.notMem_raw {p : Piece} (h : p.Legal) : c ∉ p.raw := by
  have hamp := ne_of_isChar hc (d := '&') (by decide)
  have hsemi := ne_of_isChar hc (d := ';') (by decide)
  have hhash := ne_of_isChar hc (d := '#') (by decide)
  cases p with
  | char d =>
      rw [Piece.raw, List.mem_singleton]
      exact ne_of_isChar hc h.1
  | entity e =>
      have hname : e.name.all isChar = true := by cases e <;> rfl
      simp only [Piece.raw, List.mem_cons, List.mem_append, List.not_mem_nil, or_false, not_or]
      exact ⟨hamp, fun hmem => ne_of_isChar hc (List.all_eq_true.mp hname c hmem) rfl, hsemi⟩
  | decimal digits d =>
      have hdigits : c ∉ digits := by
        intro hmem
        have hparse := h.1
        rw [Text.parseDigits] at hparse
        split at hparse
        · next hall =>
            have hdigit := isChar_of_isDigit (List.all_eq_true.mp hall.2 c hmem)
            exact ne_of_isChar hc hdigit rfl
        · cases hparse
      simp only [Piece.raw, List.mem_cons, List.mem_append, List.not_mem_nil, or_false, not_or]
      exact ⟨hamp, hhash, hdigits, hsemi⟩
  | hex digits d =>
      simp only [Piece.raw, List.mem_cons, List.mem_append, List.not_mem_nil, or_false, not_or]
      exact ⟨hamp, hhash, ne_of_isChar hc (by decide),
        Text.notMem_of_hexDigits (hexValue_eq_none hc) h.2.1, hsemi⟩

theorem notMem_raw {t : List Piece} (h : ∀ p ∈ t, p.Legal) : c ∉ raw t := by
  intro hmem
  obtain ⟨p, hp, hraw⟩ := List.mem_flatMap.mp hmem
  exact Piece.notMem_raw hc (h p hp) hraw

theorem Tag.notMem_raw {t : Tag} (h : t.WellFormed) : c ∉ t.name.raw ∧ c ∉ t.raw := by
  have hname : c ∉ t.name.raw :=
    t.name.notMem_raw h.name (isNameChar_eq_false hc) (ne_of_isChar hc (by decide))
  refine ⟨hname, fun hmem => ?_⟩
  rcases List.mem_append.mp hmem with hmem | hmem
  · exact hname hmem
  · rcases List.mem_append.mp hmem with hmem | hmem
    · obtain ⟨a, ha, hraw⟩ := List.mem_flatMap.mp hmem
      exact Attr.notMem_raw (h.attrs a ha) (isSpace_eq_false hc) (isNameChar_eq_false hc)
        ⟨ne_of_isChar hc (by decide), ne_of_isChar hc (by decide), ne_of_isChar hc (by decide),
          ne_of_isChar hc (by decide)⟩ (Xml.notMem_raw hc (h.attrs a ha).legal) hraw
    · have hspace := h.space c hmem
      rw [isSpace_eq_false hc] at hspace
      cases hspace

/-- No well-formed content has the character in it, not even in its markup. -/
theorem Content.notMem_raw {e : Content} (h : e.WellFormed) : c ∉ e.raw := by
  have hlt := ne_of_isChar hc (d := '<') (by decide)
  have hgt := ne_of_isChar hc (d := '>') (by decide)
  have hslash := ne_of_isChar hc (d := '/') (by decide)
  induction e with
  | text t => exact Xml.notMem_raw hc h.legal
  | empty t tag rest ih =>
      obtain ⟨ht, htag, hrest⟩ := h
      simp only [Content.raw, List.mem_append, List.mem_cons, not_or]
      exact ⟨Xml.notMem_raw hc ht.legal, hlt, (Tag.notMem_raw hc htag).2, hslash, hgt, ih hrest⟩
  | element t tag inner space rest ihInner ihRest =>
      obtain ⟨ht, htag, hinner, hspace, hrest⟩ := h
      have hspaces : c ∉ space := by
        intro hmem
        have hsp := hspace c hmem
        rw [isSpace_eq_false hc] at hsp
        cases hsp
      simp only [Content.raw, List.mem_append, List.mem_cons, not_or]
      exact ⟨Xml.notMem_raw hc ht.legal, hlt, (Tag.notMem_raw hc htag).2, hgt, ihInner hinner, hlt,
        hslash, (Tag.notMem_raw hc htag).1, hspaces, hgt, ihRest hrest⟩

end NotChar

end Xml

end Paniolo
