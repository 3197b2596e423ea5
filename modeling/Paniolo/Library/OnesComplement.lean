import Paniolo.Library.BigEndian

/-!
# Ones' complement sums

The checksum of the internet protocols: the big-endian words of some bytes are
added, carries are added back until there are none, and the complement is taken.
With its complement added, a sum that is not zero comes to all ones.
-/

namespace Paniolo

namespace OnesComplement

/-- The sum of the words; an odd last byte is the high byte of its word. -/
def wordSum : List UInt8 → Nat
  | [] => 0
  | [b] => b.toNat * 256
  | a :: b :: rest => ofBe16 a b + wordSum rest

/-- The carries out of 16 bits are added back until there are none. -/
def fold (sum : Nat) : Nat :=
  if sum / 65536 = 0 then sum else fold (sum % 65536 + sum / 65536)
termination_by sum
decreasing_by omega

theorem fold_lt (sum : Nat) : fold sum < 65536 := by
  induction sum using fold.induct with
  | case1 sum h =>
      rw [fold, if_pos h]
      omega
  | case2 sum h ih =>
      rw [fold, if_neg h]
      exact ih

/-- A carry has the weight of the lowest bit. -/
theorem fold_mod (sum : Nat) : fold sum % 65535 = sum % 65535 := by
  induction sum using fold.induct with
  | case1 sum h => rw [fold, if_pos h]
  | case2 sum h ih =>
      rw [fold, if_neg h, ih]
      omega

theorem fold_eq_zero_iff (sum : Nat) : fold sum = 0 ↔ sum = 0 := by
  induction sum using fold.induct with
  | case1 sum h => rw [fold, if_pos h]
  | case2 sum h ih =>
      rw [fold, if_neg h, ih]
      omega

/-- All ones are the sums that are multiples of it, apart from zero. -/
theorem fold_eq_allOnes_iff (sum : Nat) : fold sum = 65535 ↔ 0 < sum ∧ 65535 ∣ sum := by
  have hlt := fold_lt sum
  have hmod := fold_mod sum
  have hzero := fold_eq_zero_iff sum
  constructor
  · intro h
    rw [h] at hmod hzero
    refine ⟨Nat.pos_of_ne_zero fun hsum => ?_, Nat.dvd_of_mod_eq_zero hmod.symm⟩
    exact absurd (hzero.mpr hsum) (by decide)
  · rintro ⟨hpos, hdvd⟩
    rw [Nat.mod_eq_zero_of_dvd hdvd] at hmod
    omega

/-- The sum and its complement come to all ones. -/
theorem fold_add_complement {sum : Nat} (h : 0 < sum) :
    fold (sum + (65535 - fold sum)) = 65535 := by
  have hlt := fold_lt sum
  have hmod := fold_mod sum
  rw [fold_eq_allOnes_iff]
  omega

/-- An even number of bytes are whole words. -/
theorem wordSum_append (k : Nat) {xs : List UInt8} (h : xs.length = 2 * k) (ys : List UInt8) :
    wordSum (xs ++ ys) = wordSum xs + wordSum ys := by
  induction xs using wordSum.induct generalizing k with
  | case1 => rw [List.nil_append, wordSum, Nat.zero_add]
  | case2 b =>
      rw [List.length_singleton] at h
      omega
  | case3 a b rest ih =>
      have hrest : rest.length = 2 * (k - 1) := by
        rw [List.length_cons, List.length_cons] at h
        omega
      rw [List.cons_append, List.cons_append, wordSum, wordSum, ih (k - 1) hrest, Nat.add_assoc]

theorem wordSum_be16 {n : Nat} (h : n < 65536) : wordSum (be16 n) = n := by
  rw [be16, wordSum, wordSum, ofBe16_ofNat, Nat.mod_eq_of_lt h, Nat.add_zero]

theorem wordSum_le (data : List UInt8) : wordSum data ≤ 65535 * ((data.length + 1) / 2) := by
  induction data using wordSum.induct with
  | case1 => exact Nat.zero_le _
  | case2 b =>
      have hb := b.toNat_lt
      rw [wordSum, List.length_singleton]
      omega
  | case3 a b rest ih =>
      have hab := ofBe16_lt a b
      rw [wordSum, List.length_cons, List.length_cons]
      omega

end OnesComplement

end Paniolo
