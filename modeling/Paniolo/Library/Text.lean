import Mathlib.Algebra.Group.Int.Defs
import Mathlib.Algebra.GroupWithZero.Nat
import Mathlib.Data.List.DropRight

/-!
# Text

The string operations of the standard library that the parsers rest on, over
lists of characters: white space, lines, words, trimming and the parsing of
numbers.
-/

namespace Paniolo

namespace Text

/-- `char::is_whitespace`: the White_Space characters. -/
def isWhitespace (c : Char) : Bool :=
  let n := c.toNat
  (9 ≤ n && n ≤ 13) || n == 0x20 || n == 0x85 || n == 0xA0 || n == 0x1680 ||
    (0x2000 ≤ n && n ≤ 0x200A) || n == 0x2028 || n == 0x2029 || n == 0x202F || n == 0x205F ||
    n == 0x3000

/-- `str::split_whitespace`. -/
def splitWhitespace (s : List Char) : List (List Char) :=
  (s.splitOnP isWhitespace).filter (· ≠ [])

/-- `str::trim_start`. -/
def trimStart (s : List Char) : List Char := s.dropWhile isWhitespace

/-- `str::trim`. -/
def trim (s : List Char) : List Char := (trimStart s).rdropWhile isWhitespace

/-- `str::split_once` at the first character that `p` holds of. -/
def splitOnce (p : Char → Bool) (s : List Char) : Option (List Char × List Char) :=
  if s.any p then some (s.takeWhile fun c => !p c, (s.dropWhile fun c => !p c).tail) else none

/-- `str::rsplit_once` at the last character that `p` holds of. -/
def rsplitOnce (p : Char → Bool) (s : List Char) : Option (List Char × List Char) :=
  (splitOnce p s.reverse).map fun r => (r.2.reverse, r.1.reverse)

/-- `str::strip_prefix`. -/
def stripPrefix (k s : List Char) : Option (List Char) :=
  if k.isPrefixOf s then some (s.drop k.length) else none

/-- The line ending of `str::lines` is a line feed with an optional carriage
return before it. -/
def stripCr (line : List Char) : List Char :=
  if line.getLast? = some '\r' then line.dropLast else line

/-- `str::lines`: what follows the last line feed is a line only if it is not empty. -/
def lines (s : List Char) : List (List Char) :=
  let pieces := s.splitOn '\n'
  pieces.dropLast.map stripCr ++ pieces.getLast?.toList.filter (· ≠ [])

def toAsciiLowercase (s : List Char) : List Char := s.map Char.toLower

def toAsciiUppercase (s : List Char) : List Char := s.map Char.toUpper

def eqIgnoreAsciiCase (s t : List Char) : Bool := toAsciiLowercase s == toAsciiLowercase t

/-- Decimal digits, at least one. -/
def parseDigits (s : List Char) : Option Nat :=
  if s ≠ [] ∧ s.all Char.isDigit then
    some (s.foldl (fun n c => 10 * n + (c.toNat - '0'.toNat)) 0)
  else none

/-- `str::parse` of an unsigned integer below `bound`. -/
def parseUnsigned (bound : Nat) (s : List Char) : Option Nat :=
  (parseDigits (if s.head? = some '+' then s.tail else s)).filter (· < bound)

/-- `str::parse::<i32>`. -/
def parseI32 (s : List Char) : Option Int :=
  let n : Option Int :=
    if s.head? = some '-' then (parseDigits s.tail).map fun n => -(n : Int)
    else (parseDigits (if s.head? = some '+' then s.tail else s)).map fun n => (n : Int)
  n.filter fun n => -2 ^ 31 ≤ n && n < 2 ^ 31

/-- One character of a `{:?}` text, between the quotes `quote`. -/
def escapeDebug (quote c : Char) : List Char :=
  if c = '\n' then ['\\', 'n']
  else if c = '\r' then ['\\', 'r']
  else if c = '\t' then ['\\', 't']
  else if c = '\x00' then ['\\', '0']
  else if c = '\\' ∨ c = quote then ['\\', c]
  else [c]

/-- `{:?}` of a character; characters that do not print stand for themselves here. -/
def debugChar (c : Char) : String := String.ofList ('\'' :: escapeDebug '\'' c ++ ['\''])

/-- `{:?}` of a text. -/
def debugStr (s : List Char) : String := String.ofList ('"' :: s.flatMap (escapeDebug '"') ++ ['"'])

/-- `{:0width}` of a number that is not negative. -/
def zeroPadded (width n : Nat) : List Char :=
  List.replicate (width - (Nat.toDigits 10 n).length) '0' ++ Nat.toDigits 10 n

/-- `{:0width}`; a sign counts among the characters. -/
def zeroPaddedInt (width : Nat) : Int → List Char
  | .ofNat n => zeroPadded width n
  | .negSucc n => '-' :: zeroPadded (width - 1) (n + 1)

/-- The hexadecimal digit of a number below sixteen. -/
def hexDigitChar (n : Nat) : Char := if n < 10 then Char.ofNat (48 + n) else Char.ofNat (87 + n)

/-- One character of a Go `%q` text, between the quotes `quote`. -/
def escapeQuoted (quote c : Char) : List Char :=
  if c = quote ∨ c = '\\' then ['\\', c]
  else if c = '\x07' then ['\\', 'a']
  else if c = '\x08' then ['\\', 'b']
  else if c = '\x0c' then ['\\', 'f']
  else if c = '\n' then ['\\', 'n']
  else if c = '\r' then ['\\', 'r']
  else if c = '\t' then ['\\', 't']
  else if c = '\x0b' then ['\\', 'v']
  else if c.toNat < 32 ∨ c.toNat = 127 then
    ['\\', 'x', hexDigitChar (c.toNat / 16), hexDigitChar (c.toNat % 16)]
  else [c]

/-- `%q` of a character; beyond ASCII, those that do not print stand for themselves here. -/
def quotedChar (c : Char) : String := String.ofList ('\'' :: escapeQuoted '\'' c ++ ['\''])

/-- `%q` of a text. -/
def quotedStr (s : List Char) : String :=
  String.ofList ('"' :: s.flatMap (escapeQuoted '"') ++ ['"'])

/-- The last `k` decimal digits of a number. -/
def fixedDigits : Nat → Nat → List Char
  | 0, _ => []
  | k + 1, n => fixedDigits k (n / 10) ++ [Nat.digitChar (n % 10)]

theorem length_fixedDigits (k n : Nat) : (fixedDigits k n).length = k := by
  induction k generalizing n with
  | zero => rfl
  | succ k ih => rw [fixedDigits, List.length_append, ih, List.length_singleton]

theorem zeroPadded_succ {k : Nat} (hk : 0 < k) (n : Nat) :
    zeroPadded (k + 1) n = zeroPadded k (n / 10) ++ [Nat.digitChar (n % 10)] := by
  by_cases h : n < 10
  · have hzero : n / 10 = 0 := Nat.div_eq_of_lt h
    have hrep : List.replicate k '0' = List.replicate (k - 1) '0' ++ ['0'] := by
      rw [← List.replicate_succ', Nat.sub_add_cancel hk]
    rw [zeroPadded, zeroPadded, hzero, Nat.toDigits_zero, Nat.toDigits_of_lt_base h,
      Nat.mod_eq_of_lt h, List.length_singleton, List.length_singleton, Nat.add_sub_cancel, hrep]
  · have hdigits : Nat.toDigits 10 n = Nat.toDigits 10 (n / 10) ++ [Nat.digitChar (n % 10)] :=
      Nat.toDigits_of_base_le (by decide) (by omega)
    rw [zeroPadded, zeroPadded, hdigits, List.length_append, List.length_singleton,
      Nat.add_sub_add_right, List.append_assoc]

/-- A number that has no more digits than the width is printed in exactly that many. -/
theorem zeroPadded_eq {k n : Nat} (hn : n < 10 ^ (k + 1)) :
    zeroPadded (k + 1) n = fixedDigits (k + 1) n := by
  induction k generalizing n with
  | zero =>
      have h : n < 10 := by simpa using hn
      rw [zeroPadded, Nat.toDigits_of_lt_base h, fixedDigits, Nat.mod_eq_of_lt h]
      rfl
  | succ k ih =>
      have hdiv : n / 10 < 10 ^ (k + 1) := Nat.div_lt_of_lt_mul (by rw [pow_succ'] at hn; exact hn)
      rw [zeroPadded_succ (Nat.succ_pos k), ih hdiv]
      rfl

theorem takeWhile_append_of_neg {α : Type*} {p : α → Bool} (l : List α) {x : α}
    (hx : p x = false) (r : List α) : (l ++ x :: r).takeWhile p = l.takeWhile p := by
  induction l with
  | nil => rw [List.nil_append, List.takeWhile_cons_of_neg (by rw [hx]; simp), List.takeWhile_nil]
  | cons y l ih =>
      rw [List.cons_append, List.takeWhile_cons, List.takeWhile_cons, ih]

theorem takeWhile_stripCr (line : List Char) :
    (stripCr line).takeWhile (fun c => !isWhitespace c) =
      line.takeWhile fun c => !isWhitespace c := by
  rw [stripCr]
  split_ifs with h
  · obtain ⟨l, rfl⟩ := List.getLast?_eq_some_iff.mp h
    rw [List.dropLast_concat, takeWhile_append_of_neg l (by decide)]
  · rfl

/-- The first word of a text that starts with one. -/
theorem splitWhitespace_head {c : Char} (hc : isWhitespace c = false) (s : List Char) :
    (splitWhitespace (c :: s))[0]? = some ((c :: s).takeWhile fun c => !isWhitespace c) := by
  have hsplit : ∀ l : List Char, ∃ rest, l.splitOnP isWhitespace =
      (l.takeWhile fun c => !isWhitespace c) :: rest := by
    intro l
    induction l with
    | nil => exact ⟨[], rfl⟩
    | cons x l ih =>
        obtain ⟨rest, hrest⟩ := ih
        rw [List.splitOnP_cons_eq_if_modifyHead, List.takeWhile_cons]
        cases hx : isWhitespace x with
        | true => exact ⟨l.splitOnP isWhitespace, rfl⟩
        | false =>
            rw [hrest]
            exact ⟨rest, rfl⟩
  obtain ⟨rest, hrest⟩ := hsplit (c :: s)
  have hne : (c :: s).takeWhile (fun c => !isWhitespace c) ≠ [] := by
    rw [List.takeWhile_cons, hc]
    exact List.cons_ne_nil _ _
  rw [splitWhitespace, hrest, List.filter_cons_of_pos (by rw [decide_eq_true_eq]; exact hne)]
  rfl

theorem lines_head {line : List Char} (h : '\n' ∉ line) (rest : List Char) :
    (lines (line ++ '\n' :: rest))[0]? = some (stripCr line) := by
  have hsplit : (line ++ '\n' :: rest).splitOn '\n' = line :: rest.splitOn '\n' := by
    rw [List.splitOn]
    apply List.splitOnP_append_cons_of_forall_mem
    · intro x hx
      rw [beq_eq_false_iff_ne]
      rintro rfl
      exact h hx
    · rfl
  have hne : rest.splitOn '\n' ≠ [] := List.splitOnP_ne_nil _ _
  rw [lines, hsplit, List.dropLast_cons_of_ne_nil hne]
  rfl

theorem beq_of_notMem {c : Char} {s : List Char} (h : c ∉ s) : ∀ x ∈ s, (x == c) = false := by
  intro x hx
  rw [beq_eq_false_iff_ne]
  rintro rfl
  exact h hx

theorem lines_cons {line : List Char} (h : '\n' ∉ line) (rest : List Char) :
    lines (line ++ '\n' :: rest) = stripCr line :: lines rest := by
  have hsplit : (line ++ '\n' :: rest).splitOn '\n' = line :: rest.splitOn '\n' :=
    List.splitOnP_append_cons_of_forall_mem (beq_of_notMem h) '\n' (by decide) rest
  have hne : rest.splitOn '\n' ≠ [] := List.splitOnP_ne_nil _ _
  have hlast : (line :: rest.splitOn '\n').getLast? = (rest.splitOn '\n').getLast? := by
    rw [List.getLast?_cons, List.getLast?_eq_some_getLast hne]
    rfl
  rw [lines, lines, hsplit, hlast, List.dropLast_cons_of_ne_nil hne, List.map_cons, List.cons_append]

/-- A text of whole lines has these lines. -/
theorem lines_flatMap {ls : List (List Char)} (h : ∀ line ∈ ls, '\n' ∉ line) :
    lines (ls.flatMap fun line => line ++ ['\n']) = ls.map stripCr := by
  induction ls with
  | nil => rfl
  | cons line ls ih =>
      rw [List.flatMap_cons, List.append_assoc, List.singleton_append,
        lines_cons (h line List.mem_cons_self), ih fun l hl => h l (List.mem_cons_of_mem line hl),
        List.map_cons]

theorem stripCr_append (a : List Char) {s : List Char} (hs : s ≠ []) :
    stripCr (a ++ s) = a ++ stripCr s := by
  rw [stripCr, stripCr, List.getLast?_append_of_ne_nil a hs, List.dropLast_append_of_ne_nil hs]
  split_ifs <;> rfl

theorem splitWhitespace_cons (word : List Char) (hne : word ≠ [])
    (hword : ∀ c ∈ word, isWhitespace c = false) (s : List Char) :
    splitWhitespace (word ++ ' ' :: s) = word :: splitWhitespace s := by
  rw [splitWhitespace, List.splitOnP_append_cons_of_forall_mem hword ' ' (by decide),
    List.filter_cons_of_pos (by rw [decide_eq_true_eq]; exact hne)]
  rfl

/-- White space before the first word does not count. -/
theorem splitWhitespace_trimStart (s : List Char) :
    splitWhitespace (trimStart s) = splitWhitespace s := by
  induction s with
  | nil => rfl
  | cons c s ih =>
      rw [trimStart] at ih ⊢
      cases hc : isWhitespace c with
      | false => rw [List.dropWhile_cons_of_neg (by rw [hc]; simp)]
      | true =>
          rw [List.dropWhile_cons_of_pos hc, ih, splitWhitespace, splitWhitespace,
            List.splitOnP_cons_eq_if_modifyHead, if_pos hc, List.filter_cons_of_neg (by simp)]

/-- What trimming at the end takes off. -/
theorem exists_rdropWhile (p : Char → Bool) (s : List Char) :
    ∃ t, s = s.rdropWhile p ++ t ∧ ∀ c ∈ t, p c = true := by
  refine ⟨(s.reverse.takeWhile p).reverse, ?_, ?_⟩
  · rw [List.rdropWhile, ← List.reverse_append, List.takeWhile_append_dropWhile, List.reverse_reverse]
  · intro c hc
    rw [List.mem_reverse] at hc
    exact List.mem_takeWhile_imp hc

theorem splitOnce_eq_some {p : Char → Bool} {s a b : List Char} (h : splitOnce p s = some (a, b)) :
    ∃ c, p c = true ∧ s = a ++ c :: b ∧ ∀ x ∈ a, p x = false := by
  rw [splitOnce] at h
  split_ifs at h with hany
  rw [Option.some.injEq, Prod.mk.injEq] at h
  obtain ⟨rfl, rfl⟩ := h
  obtain ⟨x, hx, hpx⟩ := List.any_eq_true.mp hany
  have hne : s.dropWhile (fun c => !p c) ≠ [] := by
    intro hnil
    have := List.dropWhile_eq_nil_iff.mp hnil x hx
    rw [hpx] at this
    cases this
  obtain ⟨c, r, hcr⟩ := List.exists_cons_of_ne_nil hne
  refine ⟨c, ?_, ?_, ?_⟩
  · have := List.head_dropWhile_not (fun c => !p c) hne
    simp only [hcr, List.head_cons, Bool.not_eq_false'] at this
    exact this
  · rw [hcr, List.tail_cons, ← hcr, List.takeWhile_append_dropWhile]
  · intro x hx
    have := List.mem_takeWhile_imp hx
    rw [Bool.not_eq_true'] at this
    exact this

theorem splitOnce_eq_none {p : Char → Bool} {s : List Char} (h : splitOnce p s = none) :
    ∀ x ∈ s, p x = false := by
  rw [splitOnce] at h
  split_ifs at h with hany
  rw [Bool.not_eq_true, List.any_eq_false] at hany
  intro x hx
  exact Bool.not_eq_true _ ▸ hany x hx

theorem splitOnce_append {p : Char → Bool} {a : List Char} (ha : ∀ x ∈ a, p x = false) {c : Char}
    (hc : p c = true) (b : List Char) : splitOnce p (a ++ c :: b) = some (a, b) := by
  have hany : (a ++ c :: b).any p = true :=
    List.any_eq_true.mpr ⟨c, List.mem_append_right _ List.mem_cons_self, hc⟩
  have ha' : ∀ x ∈ a, (!p x) = true := fun x hx => by rw [ha x hx]; rfl
  rw [splitOnce, if_pos hany, List.takeWhile_append_of_pos ha', List.dropWhile_append_of_pos ha',
    List.takeWhile_cons, List.dropWhile_cons, hc]
  simp

theorem splitOnce_none {p : Char → Bool} {s : List Char} (h : ∀ x ∈ s, p x = false) :
    splitOnce p s = none := by
  rw [splitOnce, if_neg]
  rw [Bool.not_eq_true, List.any_eq_false]
  intro x hx
  rw [h x hx]
  exact Bool.false_ne_true

theorem rsplitOnce_eq_some {p : Char → Bool} {s a b : List Char}
    (h : rsplitOnce p s = some (a, b)) :
    ∃ c, p c = true ∧ s = a ++ c :: b ∧ ∀ x ∈ b, p x = false := by
  obtain ⟨⟨b', a'⟩, hsplit, heq⟩ := Option.map_eq_some_iff.mp h
  obtain ⟨c, hc, hs, hb⟩ := splitOnce_eq_some hsplit
  obtain ⟨rfl, rfl⟩ := Prod.mk.inj heq
  refine ⟨c, hc, ?_, fun x hx => hb x (List.mem_reverse.mp hx)⟩
  rw [← List.reverse_reverse s, hs, List.reverse_append, List.reverse_cons, List.append_assoc,
    List.singleton_append]

theorem rsplitOnce_append {p : Char → Bool} {b : List Char} (hb : ∀ x ∈ b, p x = false) {c : Char}
    (hc : p c = true) (a : List Char) : rsplitOnce p (a ++ c :: b) = some (a, b) := by
  have hrev : (a ++ c :: b).reverse = b.reverse ++ c :: a.reverse := by
    rw [List.reverse_append, List.reverse_cons, List.append_assoc, List.singleton_append]
  rw [rsplitOnce, hrev, splitOnce_append (fun x hx => hb x (List.mem_reverse.mp hx)) hc,
    Option.map_some, List.reverse_reverse, List.reverse_reverse]

theorem rsplitOnce_none {p : Char → Bool} {s : List Char} (h : ∀ x ∈ s, p x = false) :
    rsplitOnce p s = none := by
  rw [rsplitOnce, splitOnce_none fun x hx => h x (List.mem_reverse.mp hx), Option.map_none]

theorem parseDigits_toDigits (n : Nat) : parseDigits (Nat.toDigits 10 n) = some n := by
  have hdigits : ∀ c ∈ Nat.toDigits 10 n, c.isDigit = true := fun _ hc =>
    Nat.isDigit_of_mem_toDigits (by decide) (by decide) hc
  have hvalue := Nat.ofDigitChars_toDigits (b := 10) (n := n) (by decide) (by decide)
  rw [Nat.ofDigitChars_eq_foldl] at hvalue
  rw [parseDigits, if_pos ⟨Nat.toDigits_ne_nil, List.all_eq_true.mpr hdigits⟩, hvalue]

theorem head?_toDigits_ne {c : Char} (hc : c.isDigit = false) (n : Nat) :
    (Nat.toDigits 10 n).head? ≠ some c := by
  intro h
  have hdigit := Nat.isDigit_of_mem_toDigits (b := 10) (by decide) (by decide) (List.mem_of_head? h)
  rw [hc] at hdigit
  cases hdigit

/-- A number is read back from its digits when the type has it. -/
theorem parseUnsigned_toDigits (bound n : Nat) :
    parseUnsigned bound (Nat.toDigits 10 n) = if n < bound then some n else none := by
  rw [parseUnsigned, if_neg (head?_toDigits_ne (by decide) n), parseDigits_toDigits,
    Option.filter_some]
  simp only [decide_eq_true_eq]

/-- The digits of an integer, after a sign when it is negative. -/
theorem toList_toString_int (i : Int) :
    (0 ≤ i ∧ (toString i).toList = Nat.toDigits 10 i.toNat) ∨
      (i < 0 ∧ (toString i).toList = '-' :: Nat.toDigits 10 i.natAbs) := by
  cases i with
  | ofNat n =>
      refine .inl ⟨Int.natCast_nonneg n, ?_⟩
      change (toString n).toList = Nat.toDigits 10 n
      rw [Nat.toString_eq_ofList_toDigits, String.toList_ofList]
  | negSucc n =>
      refine .inr ⟨Int.negSucc_lt_zero n, ?_⟩
      change ("-" ++ toString (n + 1)).toList = '-' :: Nat.toDigits 10 (n + 1)
      rw [String.toList_append, Nat.toString_eq_ofList_toDigits, String.toList_ofList,
        String.toList_ofList]
      rfl

theorem isDigit_or_sign_of_mem_toString {i : Int} {c : Char} (h : c ∈ (toString i).toList) :
    c.isDigit = true ∨ c = '-' := by
  have hdigits : ∀ n : Nat, c ∈ Nat.toDigits 10 n → c.isDigit = true := fun n hmem =>
    Nat.isDigit_of_mem_toDigits (by decide) (by decide) hmem
  rcases toList_toString_int i with ⟨-, htext⟩ | ⟨-, htext⟩
  · rw [htext] at h
    exact .inl (hdigits _ h)
  · rw [htext] at h
    rcases List.mem_cons.mp h with rfl | h
    · exact .inr rfl
    · exact .inl (hdigits _ h)

theorem notMem_toString_int (i : Int) {c : Char} (hc : c.isDigit = false) (hsign : c ≠ '-') :
    c ∉ (toString i).toList := by
  intro h
  rcases isDigit_or_sign_of_mem_toString h with hdigit | heq
  · rw [hc] at hdigit
    cases hdigit
  · exact hsign heq

theorem toString_int_ne_nil (i : Int) : (toString i).toList ≠ [] := by
  rcases toList_toString_int i with ⟨-, htext⟩ | ⟨-, htext⟩
  · rw [htext]
    exact Nat.toDigits_ne_nil
  · rw [htext]
    exact List.cons_ne_nil _ _

theorem parseI32_toString {i : Int} (h : -2 ^ 31 ≤ i ∧ i < 2 ^ 31) :
    parseI32 (toString i).toList = some i := by
  have hrange : (decide (-2 ^ 31 ≤ i) && decide (i < 2 ^ 31)) = true := by
    rw [decide_eq_true h.1, decide_eq_true h.2]
    rfl
  rcases toList_toString_int i with ⟨hpos, htext⟩ | ⟨hneg, htext⟩
  · have hcast : ((i.toNat : Nat) : Int) = i := Int.toNat_of_nonneg hpos
    rw [htext, parseI32, if_neg (head?_toDigits_ne (by decide) _),
      if_neg (head?_toDigits_ne (by decide) _), parseDigits_toDigits]
    change Option.filter _ (some ((i.toNat : Nat) : Int)) = some i
    rw [hcast, Option.filter_some, if_pos hrange]
  · have hcast : -((i.natAbs : Nat) : Int) = i := by omega
    have hhead : ('-' :: Nat.toDigits 10 i.natAbs).head? = some '-' := rfl
    rw [htext, parseI32, if_pos hhead, List.tail_cons, parseDigits_toDigits]
    change Option.filter _ (some (-((i.natAbs : Nat) : Int))) = some i
    rw [hcast, Option.filter_some, if_pos hrange]

theorem stripPrefix_append (k s : List Char) : stripPrefix k (k ++ s) = some s := by
  rw [stripPrefix, if_pos (List.isPrefixOf_iff_prefix.mpr (List.prefix_append k s)),
    List.drop_left]

theorem stripPrefix_eq_some {k s r : List Char} : stripPrefix k s = some r ↔ s = k ++ r := by
  constructor
  · intro h
    rw [stripPrefix] at h
    split_ifs at h with hpre
    obtain ⟨t, rfl⟩ := List.isPrefixOf_iff_prefix.mp hpre
    rw [List.drop_left] at h
    rw [Option.some.inj h]
  · rintro rfl
    exact stripPrefix_append k r

/-- Only letters are changed, and into letters. -/
theorem eq_of_toLower {c d : Char} (h : c.toLower = d) (hd : d.toNat < 97 ∨ 122 < d.toNat) :
    c = d := by
  delta Char.toLower at h
  split at h
  · next hc =>
      have hlo : 65 ≤ c.toNat := hc.1
      have hhi : c.toNat ≤ 90 := hc.2
      have hval : d.toNat = (c.toNat + 32) % 2 ^ 32 := by
        rw [← h]
        rfl
      omega
  · exact h

theorem rdropWhile_eq_self {p : Char → Bool} {s : List Char} (h : ∀ c ∈ s, p c = false) :
    s.rdropWhile p = s := by
  rw [List.rdropWhile, List.dropWhile_eq_self_iff.mpr, List.reverse_reverse]
  intro hpos
  have hmem := List.getElem_mem (l := s.reverse) hpos
  rw [List.mem_reverse] at hmem
  rw [h _ hmem]
  simp

theorem trimStart_cons {c : Char} (hc : isWhitespace c = false) (s : List Char) :
    trimStart (c :: s) = c :: s := by
  rw [trimStart, List.dropWhile_cons_of_neg (by rw [hc]; simp)]

theorem toLower_of_isWhitespace {c : Char} (h : isWhitespace c = true) : c.toLower = c := by
  have hn : ¬(65 ≤ c.toNat ∧ c.toNat ≤ 90) := by
    intro hc
    simp only [isWhitespace, Bool.or_eq_true, Bool.and_eq_true, decide_eq_true_eq, beq_iff_eq] at h
    omega
  exact dif_neg hn

theorem not_isWhitespace_of_isDigit {c : Char} (h : c.isDigit = true) : isWhitespace c = false := by
  rw [Char.isDigit, Bool.and_eq_true, decide_eq_true_eq, decide_eq_true_eq] at h
  have hlo : 48 ≤ c.toNat := h.1
  have hhi : c.toNat ≤ 57 := h.2
  by_contra hw
  rw [Bool.not_eq_false] at hw
  simp only [isWhitespace, Bool.or_eq_true, Bool.and_eq_true, decide_eq_true_eq, beq_iff_eq] at hw
  omega

/-- A word. -/
def IsWord (w : List Char) : Prop := w ≠ [] ∧ ∀ c ∈ w, isWhitespace c = false

theorem isWord_of_all {w : List Char} (hne : w.isEmpty = false)
    (h : (w.all fun c => !isWhitespace c) = true) : IsWord w := by
  rw [List.all_eq_true] at h
  exact ⟨List.isEmpty_eq_false_iff.mp hne, fun c hc => Bool.not_eq_true' _ ▸ h c hc⟩

theorem IsWord.trim {w : List Char} (h : IsWord w) : Text.trim w = w := by
  obtain ⟨c, w', rfl⟩ := List.exists_cons_of_ne_nil h.1
  rw [Text.trim, trimStart_cons (h.2 c List.mem_cons_self), rdropWhile_eq_self h.2]

theorem IsWord.splitWhitespace {w : List Char} (h : IsWord w) : Text.splitWhitespace w = [w] := by
  rw [Text.splitWhitespace, List.splitOnP_eq_singleton h.2,
    List.filter_cons_of_pos (by rw [decide_eq_true_eq]; exact h.1), List.filter_nil]

/-- White space after the last word does not count. -/
theorem splitWhitespace_append_of_isWhitespace (s : List Char) {t : List Char}
    (ht : ∀ c ∈ t, isWhitespace c = true) : splitWhitespace (s ++ t) = splitWhitespace s := by
  induction t generalizing s with
  | nil => rw [List.append_nil]
  | cons c t ih =>
      have hc := ht c List.mem_cons_self
      have hone : splitWhitespace (s ++ [c]) = splitWhitespace s := by
        rw [splitWhitespace, List.splitOnP_append_cons s [] hc, List.filter_append]
        simp [splitWhitespace]
      rw [List.append_cons, ih _ fun x hx => ht x (List.mem_cons_of_mem _ hx), hone]

theorem splitWhitespace_trim (s : List Char) : splitWhitespace (trim s) = splitWhitespace s := by
  obtain ⟨t, ht, hws⟩ := exists_rdropWhile isWhitespace (trimStart s)
  rw [← splitWhitespace_trimStart s, ht, trim]
  exact (splitWhitespace_append_of_isWhitespace _ hws).symm

end Text

end Paniolo
