import Mathlib.Algebra.GroupWithZero.Nat
import Mathlib.Data.List.Basic

/-!
# Pieces of JSON text

Numbers, strings and arrays of numbers as JSON text, and readers that give
back what was written together with the text behind it. Characters of a string
that are not plain are written as a number, so that braces and newlines never
occur inside a value.
-/

namespace Paniolo

namespace JsonText

/-- Take `k` off the front. -/
def expect (k s : List Char) : Option (List Char) :=
  if k.isPrefixOf s then some (s.drop k.length) else none

@[simp] theorem expect_append (k s : List Char) : expect k (k ++ s) = some s := by
  have hpre : k.isPrefixOf (k ++ s) = true := List.isPrefixOf_iff_prefix.mpr (List.prefix_append k s)
  rw [expect, if_pos hpre, List.drop_left]

/-! ### Numbers -/

def showNat (n : Nat) : List Char := Nat.toDigits 10 n

def readNat (s : List Char) : Option (Nat × List Char) :=
  let ds := s.takeWhile Char.isDigit
  if ds.isEmpty then none else some (Nat.ofDigitChars 10 ds 0, s.dropWhile Char.isDigit)

/-- The text goes on with something that is no digit. -/
def NoDigit (s : List Char) : Prop := ∀ ch ∈ s.head?, ch.isDigit = false

theorem isDigit_of_mem_showNat {n : Nat} {ch : Char} (h : ch ∈ showNat n) : ch.isDigit = true :=
  Nat.isDigit_of_mem_toDigits (by decide) (by decide) h

theorem readNat_showNat (n : Nat) {s : List Char} (hs : NoDigit s) :
    readNat (showNat n ++ s) = some (n, s) := by
  have hall : ∀ ch ∈ showNat n, ch.isDigit = true := fun _ => isDigit_of_mem_showNat
  have htake : s.takeWhile Char.isDigit = [] := by
    cases s with
    | nil => rfl
    | cons ch s => simp [hs ch (by simp)]
  have hdrop : s.dropWhile Char.isDigit = s := by
    cases s with
    | nil => rfl
    | cons ch s => simp [hs ch (by simp)]
  have hne : (showNat n).isEmpty = false := by
    rw [List.isEmpty_eq_false_iff]
    exact Nat.toDigits_ne_nil
  rw [readNat, List.takeWhile_append_of_pos hall, List.dropWhile_append_of_pos hall, htake, hdrop,
    List.append_nil]
  simp only [hne]
  rw [showNat, Nat.ofDigitChars_toDigits (by decide) (by decide)]
  rfl

theorem length_showNat_le {n k : Nat} (hk : 0 < k) (h : n < 10 ^ k) : (showNat n).length ≤ k :=
  (Nat.length_toDigits_le_iff (by decide) hk).mpr h

/-! ### Strings -/

/-- Printable, and neither a quote, a backslash nor a brace. -/
def plain (ch : Char) : Bool :=
  32 ≤ ch.toNat && ch.toNat ≤ 126 && ch != '\"' && ch != '\\' && ch != '\x7b' && ch != '\x7d'

def escapeChar (ch : Char) : List Char :=
  if plain ch then [ch] else '\\' :: (showNat ch.toNat ++ [';'])

def quote (s : List Char) : List Char := '\"' :: (s.flatMap escapeChar ++ ['\"'])

def readChars : Nat → List Char → Option (List Char × List Char)
  | 0, _ => none
  | _ + 1, [] => none
  | fuel + 1, ch :: s =>
      if ch = '\"' then some ([], s)
      else if ch = '\\' then do
        let (v, s) ← readNat s
        let s ← expect [';'] s
        let (cs, s) ← readChars fuel s
        some (Char.ofNat v :: cs, s)
      else do
        let (cs, s) ← readChars fuel s
        some (ch :: cs, s)

def readQuoted (s : List Char) : Option (List Char × List Char) := do
  let s ← expect ['\"'] s
  readChars (s.length + 1) s

theorem readChars_escape (cs rest : List Char) :
    ∀ fuel, cs.length < fuel →
      readChars fuel (cs.flatMap escapeChar ++ '\"' :: rest) = some (cs, rest) := by
  induction cs with
  | nil =>
      intro fuel hfuel
      obtain ⟨fuel, rfl⟩ := Nat.exists_eq_succ_of_ne_zero (Nat.ne_of_gt hfuel)
      rfl
  | cons ch cs ih =>
      intro fuel hfuel
      obtain ⟨fuel, rfl⟩ := Nat.exists_eq_succ_of_ne_zero (Nat.ne_of_gt (Nat.lt_of_le_of_lt
        (Nat.zero_le _) hfuel))
      have hrest := ih fuel (Nat.lt_of_succ_lt_succ hfuel)
      rw [List.flatMap_cons, escapeChar]
      by_cases hplain : plain ch = true
      · have hq : ch ≠ '\"' ∧ ch ≠ '\\' := by
          simp only [plain, Bool.and_eq_true, bne_iff_ne] at hplain
          exact ⟨hplain.1.1.1.2, hplain.1.1.2⟩
        rw [if_pos hplain, List.singleton_append, List.cons_append, readChars, if_neg hq.1,
          if_neg hq.2, hrest]
        rfl
      · have hshow : ∀ s : List Char, readNat (showNat ch.toNat ++ (';' :: s)) =
            some (ch.toNat, ';' :: s) := fun s => readNat_showNat _ (by intro x hx; cases hx; rfl)
        have hsplit : '\\' :: (showNat ch.toNat ++ [';']) ++ cs.flatMap escapeChar ++ '\"' :: rest =
            '\\' :: (showNat ch.toNat ++ (';' :: (cs.flatMap escapeChar ++ '\"' :: rest))) := by
          simp
        have hsemi : expect [';'] (';' :: (cs.flatMap escapeChar ++ '\"' :: rest)) =
            some (cs.flatMap escapeChar ++ '\"' :: rest) := expect_append [';'] _
        rw [if_neg hplain, hsplit, readChars, if_neg (by decide), if_pos rfl, hshow]
        simp only [Option.bind_eq_bind, Option.bind_some, hsemi, hrest, Char.ofNat_toNat]

theorem length_le_escape (cs : List Char) : cs.length ≤ (cs.flatMap escapeChar).length := by
  induction cs with
  | nil => exact Nat.le_refl 0
  | cons ch cs ih =>
      have hpos : 0 < (escapeChar ch).length := by
        rw [escapeChar]
        split <;> simp
      rw [List.flatMap_cons, List.length_append, List.length_cons]
      omega

theorem readQuoted_quote (cs rest : List Char) :
    readQuoted (quote cs ++ rest) = some (cs, rest) := by
  have hq : quote cs ++ rest = ['\"'] ++ (cs.flatMap escapeChar ++ '\"' :: rest) := by
    simp [quote]
  have hlen := length_le_escape cs
  rw [readQuoted, hq, expect_append]
  exact readChars_escape cs rest _ (by rw [List.length_append]; omega)

/-! ### Arrays of numbers -/

def showNats : List Nat → List Char
  | [] => ['[', ']']
  | n :: ns => '[' :: (showNat n ++ ns.flatMap (fun m => ',' :: showNat m) ++ [']'])

def readMore : Nat → List Char → Option (List Nat × List Char)
  | 0, _ => none
  | _ + 1, [] => none
  | fuel + 1, ch :: s =>
      if ch = ']' then some ([], s)
      else if ch = ',' then do
        let (n, s) ← readNat s
        let (ns, s) ← readMore fuel s
        some (n :: ns, s)
      else none

def readNats (s : List Char) : Option (List Nat × List Char) := do
  let s ← expect ['['] s
  match s with
  | ']' :: s => some ([], s)
  | s => do
      let (n, s) ← readNat s
      let (ns, s) ← readMore (s.length + 1) s
      some (n :: ns, s)

theorem noDigit_more (ns : List Nat) (rest : List Char) :
    NoDigit (ns.flatMap (fun m => ',' :: showNat m) ++ ']' :: rest) := by
  intro ch hch
  cases ns with
  | nil =>
      cases hch
      rfl
  | cons m ns =>
      cases hch
      rfl

theorem readMore_show (ns : List Nat) (rest : List Char) :
    ∀ fuel, ns.length < fuel →
      readMore fuel (ns.flatMap (fun m => ',' :: showNat m) ++ ']' :: rest) = some (ns, rest) := by
  induction ns with
  | nil =>
      intro fuel hfuel
      obtain ⟨fuel, rfl⟩ := Nat.exists_eq_succ_of_ne_zero (Nat.ne_of_gt hfuel)
      rfl
  | cons n ns ih =>
      intro fuel hfuel
      obtain ⟨fuel, rfl⟩ := Nat.exists_eq_succ_of_ne_zero (Nat.ne_of_gt (Nat.lt_of_le_of_lt
        (Nat.zero_le _) hfuel))
      rw [List.flatMap_cons, List.cons_append, List.cons_append, readMore, if_neg (by decide),
        if_pos rfl, List.append_assoc, readNat_showNat n (noDigit_more ns rest)]
      simp only [Option.bind_eq_bind, Option.bind_some]
      rw [ih fuel (Nat.lt_of_succ_lt_succ hfuel)]
      rfl

theorem length_le_more (ns : List Nat) :
    ns.length ≤ (ns.flatMap fun m => ',' :: showNat m).length := by
  induction ns with
  | nil => exact Nat.le_refl 0
  | cons n ns ih =>
      rw [List.flatMap_cons, List.length_append, List.length_cons, List.length_cons]
      omega

theorem readNats_showNats (ns : List Nat) (rest : List Char) :
    readNats (showNats ns ++ rest) = some (ns, rest) := by
  cases ns with
  | nil => rfl
  | cons n ns =>
      have hsplit : showNats (n :: ns) ++ rest =
          ['['] ++ (showNat n ++ (ns.flatMap (fun m => ',' :: showNat m) ++ ']' :: rest)) := by
        simp [showNats]
      have hlen := length_le_more ns
      have hnat := readNat_showNat n (noDigit_more ns rest)
      have hmore := readMore_show ns rest
        ((ns.flatMap (fun m => ',' :: showNat m) ++ ']' :: rest).length + 1)
        (by rw [List.length_append]; omega)
      rw [readNats, hsplit, expect_append]
      cases hn : showNat n with
      | nil => exact absurd hn Nat.toDigits_ne_nil
      | cons ch ds =>
          have hdigit : ch.isDigit = true := isDigit_of_mem_showNat (n := n) (by simp [hn])
          rw [hn] at hnat
          simp only [Option.bind_eq_bind, Option.bind_some, List.cons_append]
          split
          · rename_i heq
            cases heq
            cases hdigit
          · rw [List.cons_append] at hnat
            rw [hnat]
            simp only [Option.bind_some]
            rw [hmore]
            rfl

/-! ### Characters inside a value -/

/-- ASCII, and neither a brace nor a newline. -/
def inner (ch : Char) : Bool :=
  ch.toNat < 128 && ch != '\x7b' && ch != '\x7d' && ch != '\n'

theorem inner_of_isDigit {ch : Char} (h : ch.isDigit = true) : inner ch = true := by
  have hrange : 48 ≤ ch.toNat ∧ ch.toNat ≤ 57 := Char.isDigit_iff_toNat.mp h
  have hne : ∀ d : Char, d.toNat < 48 ∨ 57 < d.toNat → ch ≠ d := by
    rintro d hd rfl
    omega
  have hlt : ch.toNat < 128 := by omega
  simp [inner, hlt, hne '\x7b' (by decide), hne '\x7d' (by decide), hne '\n' (by decide)]

theorem inner_of_mem_showNat {n : Nat} {ch : Char} (h : ch ∈ showNat n) : inner ch = true :=
  inner_of_isDigit (isDigit_of_mem_showNat h)

theorem inner_of_plain {ch : Char} (h : plain ch = true) : inner ch = true := by
  simp only [plain, Bool.and_eq_true, bne_iff_ne, decide_eq_true_eq] at h
  obtain ⟨⟨⟨⟨⟨hlow, hhigh⟩, -⟩, -⟩, hopen⟩, hclose⟩ := h
  have hnl : ch ≠ '\n' := by
    rintro rfl
    revert hlow
    decide
  have hlt : ch.toNat < 128 := by omega
  simp [inner, hlt, hopen, hclose, hnl]

theorem inner_of_mem_quote {cs : List Char} {ch : Char} (h : ch ∈ quote cs) : inner ch = true := by
  rw [quote, List.mem_cons, List.mem_append, List.mem_flatMap, List.mem_singleton] at h
  rcases h with rfl | ⟨d, -, hd⟩ | rfl
  · rfl
  · rw [escapeChar] at hd
    split at hd
    · rename_i hplain
      rw [List.mem_singleton.mp hd]
      exact inner_of_plain hplain
    · rw [List.mem_cons, List.mem_append, List.mem_singleton] at hd
      rcases hd with rfl | hd | rfl
      · rfl
      · exact inner_of_mem_showNat hd
      · rfl
  · rfl

theorem inner_of_mem_showNats {ns : List Nat} {ch : Char} (h : ch ∈ showNats ns) :
    inner ch = true := by
  cases ns with
  | nil =>
      rw [showNats] at h
      revert h
      simp only [List.mem_cons, List.not_mem_nil, or_false]
      rintro (rfl | rfl) <;> rfl
  | cons n ns =>
      rw [showNats, List.mem_cons, List.mem_append, List.mem_append, List.mem_flatMap,
        List.mem_singleton] at h
      rcases h with rfl | (h | ⟨m, -, hm⟩) | rfl
      · rfl
      · exact inner_of_mem_showNat h
      · rcases List.mem_cons.mp hm with rfl | hm
        · rfl
        · exact inner_of_mem_showNat hm
      · rfl

/-! ### Lengths -/

theorem length_escapeChar_le (ch : Char) : (escapeChar ch).length ≤ 9 := by
  have hlt : ch.toNat < 10 ^ 7 := by
    have hvalid : ch.toNat < 0xd800 ∨ 0xdfff < ch.toNat ∧ ch.toNat < 0x110000 := ch.valid
    omega
  have hshow := length_showNat_le (by decide) hlt
  rw [escapeChar]
  split
  · simp
  · simp only [List.length_cons, List.length_append, List.length_nil]
    omega

theorem length_quote_le (cs : List Char) : (quote cs).length ≤ 9 * cs.length + 2 := by
  have hflat : (cs.flatMap escapeChar).length ≤ 9 * cs.length := by
    induction cs with
    | nil => exact Nat.le_refl 0
    | cons ch cs ih =>
        have hch := length_escapeChar_le ch
        rw [List.flatMap_cons, List.length_append, List.length_cons]
        omega
  simp only [quote, List.length_cons, List.length_append, List.length_nil]
  omega

theorem length_showNats_le {ns : List Nat} {k : Nat} (hk : 0 < k) (h : ∀ n ∈ ns, n < 10 ^ k) :
    (showNats ns).length ≤ (k + 1) * ns.length + 2 := by
  cases ns with
  | nil => simp [showNats]
  | cons n ns =>
      have hone := length_showNat_le hk (h n (by simp))
      have hflat : ∀ ms : List Nat, (∀ m ∈ ms, m < 10 ^ k) →
          (ms.flatMap fun m => ',' :: showNat m).length ≤ (k + 1) * ms.length := by
        intro ms
        induction ms with
        | nil => exact fun _ => Nat.zero_le _
        | cons m ms ih =>
            intro hms
            have hm := length_showNat_le hk (hms m (by simp))
            have hrest := ih fun x hx => hms x (List.mem_cons_of_mem m hx)
            rw [List.flatMap_cons, List.length_append, List.length_cons, List.length_cons,
              Nat.mul_succ]
            omega
      have hrest := hflat ns fun x hx => h x (List.mem_cons_of_mem n hx)
      simp only [showNats, List.length_cons, List.length_append, List.length_nil, Nat.mul_succ]
      omega

end JsonText

end Paniolo
