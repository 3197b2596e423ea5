import Mathlib.Algebra.GroupWithZero.Nat
import Mathlib.Data.List.Basic
import Mathlib.Algebra.Order.BigOperators.Group.List
import Mathlib.Algebra.Order.Group.Nat

/-!
# Decoding UTF-8 with replacement

`head` classifies the sequence a byte string starts with, as the standard
validator does: a character with its width, an ill-formed sequence with the
number of bytes that cannot start any character, or a character that the end
of the input cuts short. `lossy` replaces every ill-formed sequence, and a cut
one at the end, by U+FFFD, and keeps everything else.

Encoded text is read back as it was whatever bytes follow it
(`decode_encode_append`), and decoding never makes an ASCII character that no
byte stood for (`weight_decode_le`).
-/

namespace Paniolo

namespace Utf8

/-- The sequence at the head of a byte string. -/
inductive Head where
  | char (c : Char) (width : Nat)
  | invalid (width : Nat)
  | cut
deriving DecidableEq, Repr

def isContinuation (b : UInt8) : Bool := 0x80 ≤ b && b ≤ 0xBF

/-- The six low bits of a continuation byte. -/
def low (b : UInt8) : Nat := b.toNat % 64

/-- The second byte of a three-byte character is restricted by the first: no
overlong forms and no surrogates. -/
def secondOfThree (b c : UInt8) : Bool :=
  if b = 0xE0 then 0xA0 ≤ c && c ≤ 0xBF
  else if b = 0xED then 0x80 ≤ c && c ≤ 0x9F
  else isContinuation c

/-- The second byte of a four-byte character: no overlong forms, nothing past
U+10FFFF. -/
def secondOfFour (b c : UInt8) : Bool :=
  if b = 0xF0 then 0x90 ≤ c && c ≤ 0xBF
  else if b = 0xF4 then 0x80 ≤ c && c ≤ 0x8F
  else isContinuation c

def headTwo (b : UInt8) : List UInt8 → Head
  | [] => .cut
  | c :: _ =>
      if isContinuation c then .char (Char.ofNat (b.toNat % 32 * 64 + low c)) 2
      else .invalid 1

def headThree (b : UInt8) : List UInt8 → Head
  | [] => .cut
  | c :: l =>
      if secondOfThree b c then
        match l with
        | [] => .cut
        | d :: _ =>
            if isContinuation d then
              .char (Char.ofNat (b.toNat % 16 * 4096 + low c * 64 + low d)) 3
            else .invalid 2
      else .invalid 1

def headFour (b : UInt8) : List UInt8 → Head
  | [] => .cut
  | c :: l =>
      if secondOfFour b c then
        match l with
        | [] => .cut
        | d :: l =>
            if isContinuation d then
              match l with
              | [] => .cut
              | e :: _ =>
                  if isContinuation e then
                    .char (Char.ofNat
                      (b.toNat % 8 * 262144 + low c * 4096 + low d * 64 + low e)) 4
                  else .invalid 3
            else .invalid 2
      else .invalid 1

/-- What a nonempty byte string `b :: l` starts with. -/
def head (b : UInt8) (l : List UInt8) : Head :=
  if b < 0x80 then .char (Char.ofNat b.toNat) 1
  else if 0xC2 ≤ b ∧ b ≤ 0xDF then headTwo b l
  else if 0xE0 ≤ b ∧ b ≤ 0xEF then headThree b l
  else if 0xF0 ≤ b ∧ b ≤ 0xF4 then headFour b l
  else .invalid 1

def replacement : Char := Char.ofNat 0xFFFD

/-- The loop of `lossy`; each round consumes at least one byte, so the length
of the input is enough fuel. -/
def lossyLoop : Nat → List UInt8 → List Char
  | 0, _ => []
  | _ + 1, [] => []
  | fuel + 1, b :: l =>
      match head b l with
      | .char c n => c :: lossyLoop fuel ((b :: l).drop n)
      | .invalid n => replacement :: lossyLoop fuel ((b :: l).drop n)
      | .cut => [replacement]

/-- `String::from_utf8_lossy`. -/
def lossy (l : List UInt8) : String := String.ofList (lossyLoop l.length l)

/-- The bytes of a string. -/
def bytes (s : String) : List UInt8 := s.toUTF8.data.toList

/-- The bytes of a list of characters. -/
def encode (cs : List Char) : List UInt8 := cs.flatMap String.utf8EncodeChar

@[simp]
theorem encode_nil : encode [] = [] := rfl

theorem encode_cons (c : Char) (cs : List Char) :
    encode (c :: cs) = String.utf8EncodeChar c ++ encode cs := List.flatMap_cons

theorem encode_append (cs ds : List Char) : encode (cs ++ ds) = encode cs ++ encode ds :=
  List.flatMap_append

/-- The bytes of an encoded character: one below 0x80, or several from 0x80 on. -/
theorem utf8EncodeChar_cases (c : Char) :
    (c.toNat < 0x80 ∧ String.utf8EncodeChar c = [UInt8.ofNat c.toNat]) ∨
      (0x80 ≤ c.toNat ∧ ∀ b ∈ String.utf8EncodeChar c, 0x80 ≤ b.toNat) := by
  have hv : c.val.toNat = c.toNat := rfl
  by_cases h1 : c.toNat ≤ 0x7f
  · left
    refine ⟨by omega, ?_⟩
    rw [String.utf8EncodeChar, hv, if_pos h1]
  · right
    refine ⟨by omega, fun b hb => ?_⟩
    rw [String.utf8EncodeChar, hv, if_neg h1] at hb
    split_ifs at hb
    all_goals
      simp only [List.mem_cons, List.not_mem_nil, or_false] at hb
      rcases hb with rfl | rfl | rfl | rfl
    all_goals
      simp only [UInt8.toNat_ofNat']
      omega

theorem head_ascii {c : Char} (h : c.toNat ≤ 0x7f) (rest : List UInt8) :
    head (UInt8.ofNat c.toNat) rest = .char c 1 := by
  have hb : (UInt8.ofNat c.toNat).toNat = c.toNat := by
    rw [UInt8.toNat_ofNat']
    omega
  have hlt : UInt8.ofNat c.toNat < 0x80 := by
    rw [UInt8.lt_iff_toNat_lt, hb]
    exact Nat.lt_succ_of_le h
  rw [head, if_pos hlt, hb, Char.ofNat_toNat]

theorem isContinuation_of_toNat {b : UInt8} {n : Nat} (h : b.toNat = n % 64 + 0x80) :
    isContinuation b = true := by
  rw [isContinuation, Bool.and_eq_true, decide_eq_true_eq, decide_eq_true_eq,
    UInt8.le_iff_toNat_le, UInt8.le_iff_toNat_le, h]
  constructor
  · change 128 ≤ n % 64 + 0x80
    omega
  · change n % 64 + 0x80 ≤ 191
    omega

theorem low_of_toNat {b : UInt8} {n : Nat} (h : b.toNat = n % 64 + 0x80) : low b = n % 64 := by
  rw [low, h]
  omega

theorem head_two {c : Char} {b d : UInt8} {rest : List UInt8} (h1 : 0x80 ≤ c.toNat)
    (h2 : c.toNat ≤ 0x7ff) (hb : b.toNat = c.toNat / 64 % 0x20 + 0xc0)
    (hd : d.toNat = c.toNat % 64 + 0x80) : head b (d :: rest) = .char c 2 := by
  have hlt : ¬b < 0x80 := by
    rw [UInt8.lt_iff_toNat_lt, hb]
    change ¬_ < 128
    omega
  have hrange : 0xC2 ≤ b ∧ b ≤ 0xDF := by
    rw [UInt8.le_iff_toNat_le, UInt8.le_iff_toNat_le, hb]
    change 194 ≤ _ ∧ _ ≤ 223
    omega
  rw [head, if_neg hlt, if_pos hrange, headTwo, if_pos (isContinuation_of_toNat hd),
    low_of_toNat hd, hb]
  have : (c.toNat / 64 % 0x20 + 0xc0) % 32 * 64 + c.toNat % 64 = c.toNat := by omega
  rw [this, Char.ofNat_toNat]

theorem head_three {c : Char} {b d e : UInt8} {rest : List UInt8} (h1 : 0x7ff < c.toNat)
    (h2 : c.toNat ≤ 0xffff) (hb : b.toNat = c.toNat / 4096 % 0x10 + 0xe0)
    (hd : d.toNat = c.toNat / 64 % 64 + 0x80) (he : e.toNat = c.toNat % 64 + 0x80) :
    head b (d :: e :: rest) = .char c 3 := by
  have hvalid : c.toNat < 0xd800 ∨ 0xdfff < c.toNat ∧ c.toNat < 0x110000 := c.valid
  have hlt : ¬b < 0x80 := by
    rw [UInt8.lt_iff_toNat_lt, hb]
    change ¬_ < 128
    omega
  have htwo : ¬(0xC2 ≤ b ∧ b ≤ 0xDF) := by
    rw [UInt8.le_iff_toNat_le, UInt8.le_iff_toNat_le, hb]
    change ¬(194 ≤ _ ∧ _ ≤ 223)
    omega
  have hrange : 0xE0 ≤ b ∧ b ≤ 0xEF := by
    rw [UInt8.le_iff_toNat_le, UInt8.le_iff_toNat_le, hb]
    change 224 ≤ _ ∧ _ ≤ 239
    omega
  have hsecond : secondOfThree b d = true := by
    rw [secondOfThree]
    split_ifs with hE0 hED
    · have h0 : b.toNat = 224 := by rw [hE0]; rfl
      rw [Bool.and_eq_true, decide_eq_true_eq, decide_eq_true_eq, UInt8.le_iff_toNat_le,
        UInt8.le_iff_toNat_le, hd]
      change 160 ≤ _ ∧ _ ≤ 191
      omega
    · have h0 : b.toNat = 237 := by rw [hED]; rfl
      rw [Bool.and_eq_true, decide_eq_true_eq, decide_eq_true_eq, UInt8.le_iff_toNat_le,
        UInt8.le_iff_toNat_le, hd]
      change 128 ≤ _ ∧ _ ≤ 159
      omega
    · exact isContinuation_of_toNat hd
  rw [head, if_neg hlt, if_neg htwo, if_pos hrange]
  simp only [headThree, hsecond, isContinuation_of_toNat he, if_true, low_of_toNat hd,
    low_of_toNat he, hb]
  have : (c.toNat / 4096 % 0x10 + 0xe0) % 16 * 4096 + c.toNat / 64 % 64 * 64 + c.toNat % 64 =
      c.toNat := by omega
  rw [this, Char.ofNat_toNat]

theorem head_four {c : Char} {b d e f : UInt8} {rest : List UInt8} (h1 : 0xffff < c.toNat)
    (hb : b.toNat = c.toNat / 262144 % 8 + 0xf0) (hd : d.toNat = c.toNat / 4096 % 64 + 0x80)
    (he : e.toNat = c.toNat / 64 % 64 + 0x80) (hf : f.toNat = c.toNat % 64 + 0x80) :
    head b (d :: e :: f :: rest) = .char c 4 := by
  have hvalid : c.toNat < 0xd800 ∨ 0xdfff < c.toNat ∧ c.toNat < 0x110000 := c.valid
  have hlt : ¬b < 0x80 := by
    rw [UInt8.lt_iff_toNat_lt, hb]
    change ¬_ < 128
    omega
  have htwo : ¬(0xC2 ≤ b ∧ b ≤ 0xDF) := by
    rw [UInt8.le_iff_toNat_le, UInt8.le_iff_toNat_le, hb]
    change ¬(194 ≤ _ ∧ _ ≤ 223)
    omega
  have hthree : ¬(0xE0 ≤ b ∧ b ≤ 0xEF) := by
    rw [UInt8.le_iff_toNat_le, UInt8.le_iff_toNat_le, hb]
    change ¬(224 ≤ _ ∧ _ ≤ 239)
    omega
  have hrange : 0xF0 ≤ b ∧ b ≤ 0xF4 := by
    rw [UInt8.le_iff_toNat_le, UInt8.le_iff_toNat_le, hb]
    change 240 ≤ _ ∧ _ ≤ 244
    omega
  have hsecond : secondOfFour b d = true := by
    rw [secondOfFour]
    split_ifs with hF0 hF4
    · have h0 : b.toNat = 240 := by rw [hF0]; rfl
      rw [Bool.and_eq_true, decide_eq_true_eq, decide_eq_true_eq, UInt8.le_iff_toNat_le,
        UInt8.le_iff_toNat_le, hd]
      change 144 ≤ _ ∧ _ ≤ 191
      omega
    · have h0 : b.toNat = 244 := by rw [hF4]; rfl
      rw [Bool.and_eq_true, decide_eq_true_eq, decide_eq_true_eq, UInt8.le_iff_toNat_le,
        UInt8.le_iff_toNat_le, hd]
      change 128 ≤ _ ∧ _ ≤ 143
      omega
    · exact isContinuation_of_toNat hd
  rw [head, if_neg hlt, if_neg htwo, if_neg hthree, if_pos hrange]
  simp only [headFour, hsecond, isContinuation_of_toNat he, isContinuation_of_toNat hf, if_true,
    low_of_toNat hd, low_of_toNat he, low_of_toNat hf, hb]
  have : (c.toNat / 262144 % 8 + 0xf0) % 8 * 262144 + c.toNat / 4096 % 64 * 4096 +
      c.toNat / 64 % 64 * 64 + c.toNat % 64 = c.toNat := by omega
  rw [this, Char.ofNat_toNat]

/-- An encoded character is read back, whatever follows it. -/
theorem exists_head_utf8EncodeChar (c : Char) (rest : List UInt8) :
    ∃ b l, String.utf8EncodeChar c ++ rest = b :: l ∧
      head b l = .char c (String.utf8EncodeChar c).length := by
  have hv : c.val.toNat = c.toNat := rfl
  have hvalid : c.toNat < 0xd800 ∨ 0xdfff < c.toNat ∧ c.toNat < 0x110000 := c.valid
  rw [String.utf8EncodeChar, hv]
  split_ifs with h1 h2 h3
  · exact ⟨_, _, rfl, head_ascii h1 rest⟩
  · refine ⟨_, _, rfl, head_two (by omega) h2 ?_ ?_⟩
    all_goals
      rw [UInt8.toNat_ofNat']
      omega
  · refine ⟨_, _, rfl, head_three (by omega) h3 ?_ ?_ ?_⟩
    all_goals
      rw [UInt8.toNat_ofNat']
      omega
  · refine ⟨_, _, rfl, head_four (by omega) ?_ ?_ ?_ ?_⟩
    all_goals
      rw [UInt8.toNat_ofNat']
      omega

/-- A value past ASCII is not read as an ASCII character; zero is what
`Char.ofNat` makes of a value out of range. -/
theorem toNat_ofNat_of_le {v : Nat} (hv : 0x80 ≤ v) :
    (Char.ofNat v).toNat = 0 ∨ 0x80 ≤ (Char.ofNat v).toNat := by
  by_cases h : v.isValidChar
  · right
    rw [Char.ofNat, dif_pos h]
    exact hv
  · left
    rw [Char.ofNat, dif_neg h]
    rfl

/-- What the head of a byte string is, when it is not one ASCII byte. -/
def Head.Wide : Head → Prop
  | .char c n => 1 ≤ n ∧ (c.toNat = 0 ∨ 0x80 ≤ c.toNat)
  | .invalid n => 1 ≤ n
  | .cut => True

theorem wide_headTwo {b : UInt8} (hb : 0xC2 ≤ b.toNat ∧ b.toNat ≤ 0xDF) (l : List UInt8) :
    (headTwo b l).Wide := by
  cases l with
  | nil => trivial
  | cons c l =>
      rw [headTwo]
      split_ifs
      · exact ⟨by decide, toNat_ofNat_of_le (by omega)⟩
      · exact Nat.le_refl 1

theorem toNat_of_secondOfThree {b c : UInt8} (hb : 0xE0 ≤ b.toNat)
    (h : secondOfThree b c = true) : 0xE1 ≤ b.toNat ∨ 0xA0 ≤ c.toNat ∧ c.toNat ≤ 0xBF := by
  rw [secondOfThree] at h
  by_cases h0 : b = 0xE0
  · rw [if_pos h0, Bool.and_eq_true, decide_eq_true_eq, decide_eq_true_eq,
      UInt8.le_iff_toNat_le, UInt8.le_iff_toNat_le] at h
    exact Or.inr h
  · have hne : b.toNat ≠ 0xE0 := fun h => h0 (UInt8.toNat_inj.mp h)
    exact Or.inl (by omega)

theorem toNat_of_secondOfFour {b c : UInt8} (hb : 0xF0 ≤ b.toNat)
    (h : secondOfFour b c = true) : 0xF1 ≤ b.toNat ∨ 0x90 ≤ c.toNat ∧ c.toNat ≤ 0xBF := by
  rw [secondOfFour] at h
  by_cases h0 : b = 0xF0
  · rw [if_pos h0, Bool.and_eq_true, decide_eq_true_eq, decide_eq_true_eq,
      UInt8.le_iff_toNat_le, UInt8.le_iff_toNat_le] at h
    exact Or.inr h
  · have hne : b.toNat ≠ 0xF0 := fun h => h0 (UInt8.toNat_inj.mp h)
    exact Or.inl (by omega)

theorem wide_headThree {b : UInt8} (hb : 0xE0 ≤ b.toNat ∧ b.toNat ≤ 0xEF) (l : List UInt8) :
    (headThree b l).Wide := by
  rcases l with _ | ⟨c, _ | ⟨d, l⟩⟩
  · trivial
  · simp only [headThree]
    split_ifs
    · trivial
    · exact Nat.le_refl 1
  · simp only [headThree]
    split_ifs with hc
    · have := toNat_of_secondOfThree hb.1 hc
      refine ⟨by decide, toNat_ofNat_of_le ?_⟩
      rw [low, low]
      omega
    · exact Nat.le_succ 1
    · exact Nat.le_refl 1

theorem wide_headFour {b : UInt8} (hb : 0xF0 ≤ b.toNat ∧ b.toNat ≤ 0xF4) (l : List UInt8) :
    (headFour b l).Wide := by
  rcases l with _ | ⟨c, _ | ⟨d, _ | ⟨e, l⟩⟩⟩
  · trivial
  · simp only [headFour]
    split_ifs
    · trivial
    · exact Nat.le_refl 1
  · simp only [headFour]
    split_ifs
    · trivial
    · exact Nat.le_succ 1
    · exact Nat.le_refl 1
  · simp only [headFour]
    split_ifs with hc
    · have := toNat_of_secondOfFour hb.1 hc
      refine ⟨by decide, toNat_ofNat_of_le ?_⟩
      rw [low, low, low]
      omega
    · exact show 1 ≤ 3 by decide
    · exact Nat.le_succ 1
    · exact Nat.le_refl 1

/-- A byte string starts with one ASCII byte or with something wide. -/
theorem head_cases (b : UInt8) (l : List UInt8) :
    b.toNat < 0x80 ∧ head b l = .char (Char.ofNat b.toNat) 1 ∨ (head b l).Wide := by
  rw [head]
  split_ifs with h1 h2 h3 h4
  · exact Or.inl ⟨UInt8.lt_iff_toNat_lt.mp h1, rfl⟩
  · exact Or.inr (wide_headTwo h2 l)
  · exact Or.inr (wide_headThree h3 l)
  · exact Or.inr (wide_headFour h4 l)
  · exact Or.inr (Nat.le_refl 1)

/-- How many bytes the head takes. -/
def Head.width : Head → Nat
  | .char _ n => n
  | .invalid n => n
  | .cut => 1

theorem one_le_width (b : UInt8) (l : List UInt8) : 1 ≤ (head b l).width := by
  rcases head_cases b l with ⟨-, h⟩ | h
  · rw [h]
    exact Nat.le_refl 1
  · cases hh : head b l with
    | char c n =>
        rw [hh] at h
        exact h.1
    | invalid n =>
        rw [hh] at h
        exact h
    | cut => exact Nat.le_refl 1

/-- Once there is fuel for every byte, more of it changes nothing. -/
theorem lossyLoop_eq (f g : Nat) {l : List UInt8} (hf : l.length ≤ f) (hg : l.length ≤ g) :
    lossyLoop f l = lossyLoop g l := by
  induction f generalizing g l with
  | zero =>
      obtain rfl := List.length_eq_zero_iff.mp (Nat.le_zero.mp hf)
      cases g <;> rfl
  | succ f ih =>
      cases l with
      | nil => cases g <;> rfl
      | cons b l =>
          obtain ⟨g, rfl⟩ := Nat.exists_eq_succ_of_ne_zero (Nat.ne_of_gt (Nat.lt_of_lt_of_le (Nat.succ_pos _) hg))
          have hdrop : ((b :: l).drop (head b l).width).length ≤ l.length := by
            have := one_le_width b l
            rw [List.length_drop, List.length_cons]
            omega
          have hl : l.length ≤ f := Nat.le_of_succ_le_succ hf
          have hl' : l.length ≤ g := Nat.le_of_succ_le_succ hg
          rw [lossyLoop, lossyLoop]
          have hrest := ih g (Nat.le_trans hdrop hl) (Nat.le_trans hdrop hl')
          cases hh : head b l with
          | char c n =>
              rw [hh] at hrest
              exact congrArg (c :: ·) hrest
          | invalid n =>
              rw [hh] at hrest
              exact congrArg (replacement :: ·) hrest
          | cut => rfl

/-- The decoded characters of `lossy`. -/
def decode (l : List UInt8) : List Char := lossyLoop l.length l

theorem lossyLoop_drop (b : UInt8) (l : List UInt8) :
    lossyLoop l.length ((b :: l).drop (head b l).width) =
      decode ((b :: l).drop (head b l).width) := by
  apply lossyLoop_eq _ _ _ (Nat.le_refl _)
  have := one_le_width b l
  rw [List.length_drop, List.length_cons]
  omega

/-- Encoded text is read back as it was, whatever bytes follow it. -/
theorem decode_encode_append (cs : List Char) (rest : List UInt8) :
    decode (encode cs ++ rest) = cs ++ decode rest := by
  induction cs with
  | nil => rfl
  | cons c cs ih =>
      obtain ⟨b, l, hbl, hh⟩ := exists_head_utf8EncodeChar c (encode cs ++ rest)
      have hdrop : (b :: l).drop (head b l).width = encode cs ++ rest := by
        rw [hh, ← hbl]
        exact List.drop_left
      have hrest := lossyLoop_drop b l
      rw [hdrop, ih] at hrest
      rw [hh, Head.width] at hdrop
      rw [encode_cons, List.append_assoc, hbl, decode, List.length_cons, lossyLoop, hh]
      dsimp only
      rw [hdrop, hrest]
      rfl

section Weight

/-! A weight on characters that only ASCII ones carry. -/

variable {w : Char → Nat} (hw : ∀ c : Char, c.toNat = 0 ∨ 0x80 ≤ c.toNat → w c = 0)

include hw

theorem weight_byte_eq_zero {b : UInt8} (hb : 0x80 ≤ b.toNat) : w (Char.ofNat b.toNat) = 0 :=
  hw _ (toNat_ofNat_of_le hb)

/-- The bytes of a text weigh what its characters weigh. -/
theorem weight_encode (cs : List Char) :
    ((encode cs).map fun b => w (Char.ofNat b.toNat)).sum = (cs.map w).sum := by
  induction cs with
  | nil => rfl
  | cons c cs ih =>
      rw [encode_cons, List.map_append, List.sum_append, ih, List.map_cons, List.sum_cons]
      congr 1
      rcases utf8EncodeChar_cases c with ⟨hc, he⟩ | ⟨hc, he⟩
      · have hb : (UInt8.ofNat c.toNat).toNat = c.toNat := by
          rw [UInt8.toNat_ofNat']
          omega
        rw [he, List.map_singleton, List.sum_singleton, hb, Char.ofNat_toNat]
      · rw [hw c (Or.inr hc)]
        apply List.sum_eq_zero
        intro n hn
        obtain ⟨b, hb, rfl⟩ := List.mem_map.mp hn
        exact weight_byte_eq_zero hw (he b hb)

/-- Decoding adds no weight: an ASCII character comes from its own byte, and
no replacement or wide character weighs anything. -/
theorem weight_decode_le (l : List UInt8) :
    ((decode l).map w).sum ≤ (l.map fun b => w (Char.ofNat b.toNat)).sum := by
  induction hn : l.length using Nat.strongRecOn generalizing l with
  | _ n ih =>
      cases l with
      | nil => exact Nat.le_refl 0
      | cons b l =>
          have hlt : ((b :: l).drop (head b l).width).length < n := by
            have := one_le_width b l
            rw [← hn, List.length_drop, List.length_cons]
            omega
          have hrest := ih _ hlt _ rfl
          have htail : (((b :: l).drop (head b l).width).map
              fun b => w (Char.ofNat b.toNat)).sum ≤ (l.map fun b => w (Char.ofNat b.toNat)).sum := by
            obtain ⟨k, hk⟩ := Nat.exists_eq_add_of_le' (one_le_width b l)
            rw [hk, List.drop_succ_cons]
            exact ((List.drop_sublist k l).map _).sum_le_sum fun _ _ => Nat.zero_le _
          have hdrop := lossyLoop_drop b l
          have hwide := head_cases b l
          rw [decode, List.length_cons, lossyLoop, List.map_cons, List.sum_cons]
          cases hh : head b l with
          | char c n =>
              rw [hh] at hrest hdrop htail hwide
              have hc : w c ≤ w (Char.ofNat b.toNat) := by
                rcases hwide with ⟨-, h⟩ | h
                · rw [(Head.char.inj h).1]
                · rw [hw c h.2]
                  exact Nat.zero_le _
              dsimp only [Head.width] at hdrop htail hrest ⊢
              rw [hdrop, List.map_cons, List.sum_cons]
              exact Nat.add_le_add hc (hrest.trans htail)
          | invalid n =>
              rw [hh] at hrest hdrop htail
              dsimp only [Head.width] at hdrop htail hrest ⊢
              rw [hdrop, List.map_cons, List.sum_cons, hw replacement (Or.inr (by decide)),
                Nat.zero_add]
              exact (hrest.trans htail).trans (Nat.le_add_left _ _)
          | cut =>
              dsimp only
              rw [List.map_singleton, List.sum_singleton, hw replacement (Or.inr (by decide))]
              exact Nat.zero_le _

end Weight

end Utf8

end Paniolo
