import Paniolo.Library.Text

/-!
# Hexadecimal numbers

Reading and printing numbers in base sixteen, as the standard library does: either case and a plus
sign are read, lower-case digits with leading zeros are printed.
-/

namespace Paniolo

namespace Text

/-- `char::to_digit(16)`. -/
def hexValue (c : Char) : Option Nat :=
  if '0'.toNat ≤ c.toNat ∧ c.toNat ≤ '9'.toNat then some (c.toNat - '0'.toNat)
  else if 'a'.toNat ≤ c.toNat ∧ c.toNat ≤ 'f'.toNat then some (c.toNat - 'a'.toNat + 10)
  else if 'A'.toNat ≤ c.toNat ∧ c.toNat ≤ 'F'.toNat then some (c.toNat - 'A'.toNat + 10)
  else none

/-- The number read so far, with the digits `s` after it. -/
def hexDigits (n : Nat) : List Char → Option Nat
  | [] => some n
  | c :: s => (hexValue c).bind fun d => hexDigits (16 * n + d) s

/-- `from_str_radix(s, 16)` of an unsigned integer below `bound`. -/
def fromHex (bound : Nat) (s : List Char) : Option Nat :=
  let digits := if s.head? = some '+' then s.tail else s
  if digits = [] then none else (hexDigits 0 digits).filter (· < bound)

/-- `{:0width$x}`. -/
def lowerHex (width n : Nat) : List Char :=
  List.replicate (width - (Nat.toDigits 16 n).length) '0' ++ Nat.toDigits 16 n

theorem hexValue_digitChar {d : Nat} (hd : d < 16) : hexValue (Nat.digitChar d) = some d := by
  have hall : ∀ d < 16, hexValue (Nat.digitChar d) = some d := by decide
  exact hall d hd

theorem hexDigits_append (n : Nat) (s t : List Char) :
    hexDigits n (s ++ t) = (hexDigits n s).bind fun m => hexDigits m t := by
  induction s generalizing n with
  | nil => rfl
  | cons c s ih =>
      rw [List.cons_append, hexDigits, hexDigits]
      cases hexValue c with
      | none => rfl
      | some d => exact ih (16 * n + d)

/-- All characters of a hexadecimal number are digits. -/
theorem notMem_of_hexDigits {c : Char} (hc : hexValue c = none) {n m : Nat} {s : List Char}
    (h : hexDigits n s = some m) : c ∉ s := by
  induction s generalizing n with
  | nil => exact List.not_mem_nil
  | cons d s ih =>
      obtain ⟨v, hv, hrest⟩ := Option.bind_eq_some_iff.mp h
      intro hmem
      rcases List.mem_cons.mp hmem with rfl | hmem
      · rw [hc] at hv
        cases hv
      · exact ih hrest hmem

theorem hexDigits_replicate_zero (k : Nat) (s : List Char) :
    hexDigits 0 (List.replicate k '0' ++ s) = hexDigits 0 s := by
  induction k with
  | zero => rfl
  | succ k ih => exact ih

theorem hexDigits_toDigits (n : Nat) : hexDigits 0 (Nat.toDigits 16 n) = some n := by
  induction n using Nat.strong_induction_on with
  | _ n ih =>
      by_cases h : n < 16
      · rw [Nat.toDigits_of_lt_base h, hexDigits, hexValue_digitChar h]
        exact congrArg some (Nat.zero_add n)
      · have hdiv : n / 16 < n := Nat.div_lt_self (by omega) (by decide)
        rw [Nat.toDigits_of_base_le (by decide) (by omega), hexDigits_append, ih _ hdiv,
          Option.bind_some, hexDigits, hexValue_digitChar (Nat.mod_lt n (by decide))]
        exact congrArg some (Nat.div_add_mod n 16)

theorem ne_plus_of_mem_toDigits {c : Char} {n : Nat} (h : c ∈ Nat.toDigits 16 n) :
    c ≠ '+' := by
  induction n using Nat.strong_induction_on with
  | _ n ih =>
      have hdigit : ∀ d < 16, Nat.digitChar d ≠ '+' := by decide
      by_cases hn : n < 16
      · rw [Nat.toDigits_of_lt_base hn, List.mem_singleton] at h
        rw [h]
        exact hdigit n hn
      · rw [Nat.toDigits_of_base_le (by decide) (by omega), List.mem_append,
          List.mem_singleton] at h
        rcases h with h | rfl
        · exact ih _ (Nat.div_lt_self (by omega) (by decide)) h
        · exact hdigit _ (Nat.mod_lt n (by decide))

theorem lowerHex_ne_nil (width n : Nat) : lowerHex width n ≠ [] := by
  rw [lowerHex]
  exact List.append_ne_nil_of_right_ne_nil _ Nat.toDigits_ne_nil

theorem plus_notMem_lowerHex (width n : Nat) : '+' ∉ lowerHex width n := by
  intro h
  rw [lowerHex, List.mem_append, List.mem_replicate] at h
  rcases h with ⟨-, h⟩ | h
  · cases h
  · exact ne_plus_of_mem_toDigits h rfl

/-- A printed number is read back. -/
theorem fromHex_lowerHex {bound n : Nat} (hn : n < bound) (width : Nat) :
    fromHex bound (lowerHex width n) = some n := by
  have hhead : (lowerHex width n).head? ≠ some '+' := fun h =>
    plus_notMem_lowerHex width n (List.mem_of_head? h)
  rw [fromHex, if_neg hhead, if_neg (lowerHex_ne_nil width n), lowerHex, hexDigits_replicate_zero,
    hexDigits_toDigits, Option.filter_some, if_pos (decide_eq_true hn)]

end Text

end Paniolo
