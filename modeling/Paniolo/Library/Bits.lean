import Mathlib.Data.List.Basic
import Mathlib.Tactic.Ring

/-!
# Bit strings

The syntax elements of a bit stream: fixed-length numbers, Exp-Golomb codes and the bits that fill
up the last byte. Bits are listed with the most significant one first, also within a byte.
-/

namespace Paniolo

namespace Bits

/-- `u(n)`: the last `n` bits of a number. -/
def u : Nat → Nat → List Bool
  | 0, _ => []
  | n + 1, v => v.testBit n :: u n v

def ofByte (b : UInt8) : List Bool := u 8 b.toNat

def ofBytes (l : List UInt8) : List Bool := l.flatMap ofByte

/-- The number read so far, with the bits after it. -/
def value (n : Nat) : List Bool → Nat
  | [] => n
  | b :: l => value (2 * n + b.toNat) l

/-- The first `n` bytes of a bit string. -/
def bytes : Nat → List Bool → List UInt8
  | 0, _ => []
  | n + 1, l => UInt8.ofNat (value 0 (l.take 8)) :: bytes n (l.drop 8)

/-- The bytes of a bit string; bits that do not fill a byte are left out. -/
def toBytes (l : List Bool) : List UInt8 := bytes (l.length / 8) l

/-- `ue(v)`: as many zeros as there are bits after the first of `k + 1`. -/
def ue (k : Nat) : List Bool :=
  List.replicate (k + 1).log2 false ++ u ((k + 1).log2 + 1) (k + 1)

/-- The number that `se(v)` codes a signed number by. -/
def codeNum (z : Int) : Nat := if 0 < z then (2 * z - 1).toNat else (-2 * z).toNat

/-- `se(v)`. -/
def se (z : Int) : List Bool := ue (codeNum z)

/-- `rbsp_trailing_bits` behind `n` bits: a one, and zeros up to the next byte. -/
def trailing (n : Nat) : List Bool := true :: List.replicate (7 - n % 8) false

theorem length_u (n v : Nat) : (u n v).length = n := by
  induction n with
  | zero => rfl
  | succ n ih => exact congrArg (· + 1) ih

theorem getElem?_u {n i : Nat} (v : Nat) (hi : i < n) :
    (u n v)[i]? = some (v.testBit (n - 1 - i)) := by
  induction n generalizing i with
  | zero => exact absurd hi (Nat.not_lt_zero i)
  | succ n ih =>
      cases i with
      | zero => rfl
      | succ i =>
          rw [u, List.getElem?_cons_succ, ih (Nat.lt_of_succ_lt_succ hi)]
          congr 2
          omega

theorem length_ofBytes (l : List UInt8) : (ofBytes l).length = 8 * l.length := by
  induction l with
  | nil => rfl
  | cons b l ih =>
      rw [ofBytes, List.flatMap_cons, List.length_append, ofByte, length_u]
      change 8 + (ofBytes l).length = _
      rw [ih, List.length_cons]
      omega

theorem getElem?_ofBytes (l : List UInt8) (p : Nat) :
    (ofBytes l)[p]? = l[p / 8]?.map fun b => b.toNat.testBit (7 - p % 8) := by
  induction l generalizing p with
  | nil => rfl
  | cons b l ih =>
      have hsplit : ofBytes (b :: l) = ofByte b ++ ofBytes l := rfl
      by_cases hp : p < 8
      · rw [hsplit, List.getElem?_append_left (by rw [ofByte, length_u]; exact hp), ofByte,
          getElem?_u _ hp, Nat.div_eq_of_lt hp, Nat.mod_eq_of_lt hp]
        rfl
      · have hdiv : p / 8 = (p - 8) / 8 + 1 := by omega
        have hmod : p % 8 = (p - 8) % 8 := by omega
        rw [hsplit, List.getElem?_append_right (by rw [ofByte, length_u]; omega), ofByte, length_u,
          ih, hdiv, hmod, List.getElem?_cons_succ]

theorem ofByte_value {l : List Bool} (h : l.length = 8) :
    ofByte (UInt8.ofNat (value 0 l)) = l := by
  have hall : ∀ b₇ b₆ b₅ b₄ b₃ b₂ b₁ b₀,
      ofByte (UInt8.ofNat (value 0 [b₇, b₆, b₅, b₄, b₃, b₂, b₁, b₀])) =
        [b₇, b₆, b₅, b₄, b₃, b₂, b₁, b₀] := by decide
  have htake : (l.take 4).length = 4 := by
    rw [List.length_take, h]
    rfl
  have hdrop : (l.drop 4).length = 4 := by rw [List.length_drop, h]
  obtain ⟨b₇, b₆, b₅, b₄, hhigh⟩ := List.length_eq_four.mp htake
  obtain ⟨b₃, b₂, b₁, b₀, hlow⟩ := List.length_eq_four.mp hdrop
  rw [← List.take_append_drop 4 l, hhigh, hlow]
  exact hall ..

theorem ofBytes_bytes {n : Nat} {l : List Bool} (h : l.length = 8 * n) :
    ofBytes (bytes n l) = l := by
  induction n generalizing l with
  | zero => exact (List.eq_nil_of_length_eq_zero h).symm
  | succ n ih =>
      have htake : (l.take 8).length = 8 := by
        rw [List.length_take, h]
        omega
      have hdrop : (l.drop 8).length = 8 * n := by
        rw [List.length_drop, h]
        omega
      have hsplit : ofBytes (bytes (n + 1) l) =
          ofByte (UInt8.ofNat (value 0 (l.take 8))) ++ ofBytes (bytes n (l.drop 8)) := rfl
      rw [hsplit, ofByte_value htake, ih hdrop, List.take_append_drop]

/-- A string of whole bytes is the bits of its bytes. -/
theorem ofBytes_toBytes {l : List Bool} (h : 8 ∣ l.length) : ofBytes (toBytes l) = l :=
  ofBytes_bytes (Nat.mul_div_cancel' h).symm

theorem length_bytes (n : Nat) (l : List Bool) : (bytes n l).length = n := by
  induction n generalizing l with
  | zero => rfl
  | succ n ih => exact congrArg (· + 1) (ih (l.drop 8))

/-- The trailing bits fill the last byte. -/
theorem length_trailing (l : List Bool) :
    (l ++ trailing l.length).length = 8 * (l.length / 8 + 1) := by
  rw [List.length_append, trailing, List.length_cons, List.length_replicate]
  omega

theorem ofBytes_trailing (l : List Bool) :
    ofBytes (toBytes (l ++ trailing l.length)) = l ++ trailing l.length :=
  ofBytes_toBytes ⟨_, length_trailing l⟩

/-- The last byte holds the one of the trailing bits. -/
theorem getLast?_trailing (l : List Bool) :
    ∃ x, (toBytes (l ++ trailing l.length)).getLast? = some x ∧ x ≠ 0 := by
  have hlen : (toBytes (l ++ trailing l.length)).length = l.length / 8 + 1 := by
    rw [toBytes, length_bytes, length_trailing, Nat.mul_div_cancel_left _ (by decide)]
  have hbit := getElem?_ofBytes (toBytes (l ++ trailing l.length)) l.length
  rw [ofBytes_trailing, List.getElem?_append_right (Nat.le_refl _), Nat.sub_self, trailing,
    List.getElem?_cons_zero] at hbit
  obtain ⟨x, hx, hone⟩ := Option.map_eq_some_iff.mp hbit.symm
  refine ⟨x, ?_, ?_⟩
  · rw [List.getLast?_eq_getElem?, hlen, Nat.add_sub_cancel]
    exact hx
  · rintro rfl
    rw [UInt8.toNat_zero, Nat.zero_testBit] at hone
    cases hone

/-- Reading on from `m` puts the bits of a number behind it. -/
theorem value_u (m n v : Nat) : value m (u n v) = 2 ^ n * m + v % 2 ^ n := by
  induction n generalizing m with
  | zero => rw [u, value, Nat.pow_zero, Nat.mod_one, Nat.one_mul, Nat.add_zero]
  | succ n ih =>
      have hbit : v % 2 ^ (n + 1) = v % 2 ^ n + 2 ^ n * (v.testBit n).toNat := by
        rw [Nat.mod_pow_succ, Nat.toNat_testBit]
      rw [u, value, ih, hbit]
      ring

/-- The code number of `se(v)` says which number it was. -/
theorem codeNum_eq (z : Int) : (codeNum z % 2 = 1 ∧ 0 < z ∧ (codeNum z : Int) = 2 * z - 1) ∨
    (codeNum z % 2 = 0 ∧ z ≤ 0 ∧ (codeNum z : Int) = -2 * z) := by
  rw [codeNum]
  split <;> omega

end Bits

end Paniolo
