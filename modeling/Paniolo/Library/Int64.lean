import Mathlib.Tactic

/-!
# Signed 64-bit arithmetic

Arithmetic that may not leave the 64-bit range. The operations are those of
the integers, with division towards zero, and a result out of range is an
overflow, which every later operation passes on.
-/

namespace Paniolo

/-- A value a signed 64-bit integer can have. -/
def InI64 (x : Int) : Prop := -9223372036854775808 ≤ x ∧ x < 9223372036854775808

instance : DecidablePred InI64 := fun _ => inferInstanceAs (Decidable (_ ∧ _))

/-- A 64-bit integer, or none after an overflow. -/
def I64 : Type := Option Int

namespace I64

def checked (x : Int) : I64 := if InI64 x then some x else none

def lift₂ (f : Int → Int → Int) (a b : I64) : I64 :=
  Option.bind a fun x => Option.bind b fun y => checked (f x y)

instance instOfNat (n : Nat) : OfNat I64 n := ⟨checked n⟩

instance : Add I64 := ⟨lift₂ (· + ·)⟩

instance : Sub I64 := ⟨lift₂ (· - ·)⟩

instance : Mul I64 := ⟨lift₂ (· * ·)⟩

instance : Div I64 := ⟨lift₂ Int.tdiv⟩

instance : Mod I64 := ⟨lift₂ Int.tmod⟩

def divEuclid : I64 → I64 → I64 := lift₂ (· / ·)

def remEuclid : I64 → I64 → I64 := lift₂ (· % ·)

/-- A comparison; false after an overflow. -/
def test (r : Int → Int → Bool) (a b : I64) : Bool :=
  (Option.bind a fun x => Option.map (r x) b).getD false

def ble : I64 → I64 → Bool := test (decide <| · ≤ ·)

def blt : I64 → I64 → Bool := test (decide <| · < ·)

/-- Going on with the integer. -/
def andThen {α : Type} (a : I64) (f : Int → Option α) : Option α := Option.bind a f

/-- `a as u32`. -/
def asU32 (a : I64) : Option Nat := Option.map (fun x => (x % 4294967296).toNat) a

/-- The integer of a value in range. -/
def val (x : Int) : I64 := some x

theorem val_andThen {α : Type} (x : Int) (f : Int → Option α) : (val x).andThen f = f x := rfl

theorem checked_eq {x : Int} (h : InI64 x) : checked x = val x := if_pos h

theorem checked_eq_none {x : Int} (h : ¬ InI64 x) : checked x = none := if_neg h

theorem ofNat_eq (n : Nat) (h : n < 9223372036854775808) :
    (@OfNat.ofNat I64 n (instOfNat n)) = val n :=
  checked_eq ⟨by omega, by omega⟩

theorem val_add {x y : Int} (h : -9223372036854775808 ≤ x + y ∧ x + y < 9223372036854775808) :
    val x + val y = val (x + y) := checked_eq h

theorem val_sub {x y : Int} (h : -9223372036854775808 ≤ x - y ∧ x - y < 9223372036854775808) :
    val x - val y = val (x - y) := checked_eq h

theorem val_mul {x y : Int} (h : -9223372036854775808 ≤ x * y ∧ x * y < 9223372036854775808) :
    val x * val y = val (x * y) := checked_eq h

/-- On a dividend that is not negative, division towards zero rounds down. -/
theorem val_div {x y : Int} (h : 0 ≤ x ∧ x < 9223372036854775808) (hy : 0 < y) :
    val x / val y = val (x / y) := by
  have hle : x / y ≤ x := Int.ediv_le_self y h.1
  have hpos : 0 ≤ x / y := Int.ediv_nonneg h.1 hy.le
  have hdiv : x.tdiv y = x / y := Int.tdiv_eq_ediv_of_nonneg h.1
  change checked (x.tdiv y) = val (x / y)
  rw [hdiv]
  exact checked_eq ⟨by omega, by omega⟩

theorem val_div_of_neg {x y : Int} (h : -9223372036854775808 ≤ x ∧ x < 0) (hy : 1 < y) :
    val x / val y = val (-(-x / y)) := by
  have hlt : -x / y < -x := Int.ediv_lt_self_of_pos_of_ne_one (by omega) (by omega)
  have hpos : 0 ≤ -x / y := Int.ediv_nonneg (by omega) (by omega)
  have hdiv : x.tdiv y = -(-x / y) := by
    have hneg : (- -x).tdiv y = -((-x).tdiv y) := Int.neg_tdiv (-x) y
    rwa [neg_neg, Int.tdiv_eq_ediv_of_nonneg (show 0 ≤ -x by omega)] at hneg
  change checked (x.tdiv y) = val (-(-x / y))
  rw [hdiv]
  exact checked_eq ⟨by omega, by omega⟩

theorem val_mod {x y : Int} (h : 0 ≤ x ∧ x < 9223372036854775808) (hy : 0 < y) :
    val x % val y = val (x % y) := by
  have hsplit : x % y + y * (x / y) = x := Int.emod_add_mul_ediv x y
  have hquot : 0 ≤ y * (x / y) := Int.mul_nonneg hy.le (Int.ediv_nonneg h.1 hy.le)
  have hpos : 0 ≤ x % y := Int.emod_nonneg x hy.ne'
  have hmod : x.tmod y = x % y := Int.tmod_eq_emod_of_nonneg h.1
  change checked (x.tmod y) = val (x % y)
  rw [hmod]
  exact checked_eq ⟨by omega, by omega⟩

theorem val_divEuclid {x y : Int} (h : 0 ≤ x ∧ x < 9223372036854775808) (hy : 0 < y) :
    divEuclid (val x) (val y) = val (x / y) := by
  have hle : x / y ≤ x := Int.ediv_le_self y h.1
  have hpos : 0 ≤ x / y := Int.ediv_nonneg h.1 hy.le
  have hin : InI64 (x / y) := ⟨by omega, by omega⟩
  exact checked_eq hin

theorem val_remEuclid {x y : Int} (hy : 0 < y ∧ y < 9223372036854775808) :
    remEuclid (val x) (val y) = val (x % y) := by
  have hlt : x % y < y := Int.emod_lt_of_pos x hy.1
  have hpos : 0 ≤ x % y := Int.emod_nonneg x hy.1.ne'
  have hin : InI64 (x % y) := ⟨by omega, by omega⟩
  exact checked_eq hin

theorem val_ble (x y : Int) : ble (val x) (val y) = decide (x ≤ y) := rfl

theorem val_blt (x y : Int) : blt (val x) (val y) = decide (x < y) := rfl

theorem val_asU32 {x : Int} (h : 0 ≤ x ∧ x < 4294967296) : asU32 (val x) = some x.toNat := by
  change some (x % 4294967296).toNat = some x.toNat
  rw [Int.emod_eq_of_lt h.1 h.2]

end I64

/-! ### Wrapping arithmetic

The operations of `Int64` wrap around; on values within the range they are those of the integers.
-/

theorem bmod_of_inI64 {x : Int} (h : InI64 x) : x.bmod (2 ^ 64) = x :=
  Int.bmod_eq_of_le_mul_two (by have := h.1; omega) (by have := h.2; omega)

theorem toInt_add {a b : Int64} {x y : Int} (ha : a.toInt = x) (hb : b.toInt = y)
    (h : InI64 (x + y)) : (a + b).toInt = x + y := by
  rw [Int64.toInt_add, ha, hb, bmod_of_inI64 h]

theorem toInt_sub {a b : Int64} {x y : Int} (ha : a.toInt = x) (hb : b.toInt = y)
    (h : InI64 (x - y)) : (a - b).toInt = x - y := by
  rw [Int64.toInt_sub, ha, hb, bmod_of_inI64 h]

theorem toInt_mul {a b : Int64} {x y : Int} (ha : a.toInt = x) (hb : b.toInt = y)
    (h : InI64 (x * y)) : (a * b).toInt = x * y := by
  rw [Int64.toInt_mul, ha, hb, bmod_of_inI64 h]

theorem toInt_toInt64 {x : UInt64} (h : x.toNat < 2 ^ 63) : x.toInt64.toInt = x.toNat := by
  have hbits : x.toInt64.toInt = x.toBitVec.toInt := rfl
  rw [hbits, BitVec.toInt_eq_toNat_of_lt]
  · rfl
  · change 2 * x.toNat < 2 ^ 64
    omega

end Paniolo
