import Paniolo.Jetkvm.Sps
import Paniolo.Library.Bits
import Paniolo.Library.Int64

/-!
# Reading what was written

What the bit reader makes of the codes of a bit stream. A read that takes exactly the bits `l` and
has the result `a` does so wherever they stand, so reads follow one another as the codes do.
-/

namespace Paniolo

namespace Jetkvm

namespace Sps

/-- The bits that are still to be read. -/
def BitReader.rest (r : BitReader) : List Bool := (Bits.ofBytes r.b).drop r.pos

/-- From the bits `l`, and whatever follows them, `m` reads `a`. -/
def Reads {α : Type} (m : Read α) (l : List Bool) (a : α) : Prop :=
  ∀ r rest, r.err = none → r.rest = l ++ rest → m r = some (a, { r with pos := r.pos + l.length })

section Reads

variable {α β : Type}

theorem reads_pure (a : α) : Reads (pure a) [] a := fun _ _ _ _ => rfl

theorem reads_ok : Reads ok [] true := by
  intro r rest herr _
  have hgood : r.err.isNone = true := by rw [herr]; rfl
  exact congrArg (fun good => some (good, r)) hgood

theorem Reads.bind {m : Read α} {f : α → Read β} {l l' : List Bool} {a : α} {b : β}
    (hm : Reads m l a) (hf : Reads (f a) l' b) : Reads (m >>= f) (l ++ l') b := by
  intro r rest herr hrest
  have hfirst := hm r (l' ++ rest) herr (hrest.trans (List.append_assoc ..))
  have hbehind : BitReader.rest { r with pos := r.pos + l.length } = l' ++ rest := by
    change (Bits.ofBytes r.b).drop (r.pos + l.length) = _
    rw [← List.drop_drop]
    change r.rest.drop l.length = _
    rw [hrest, List.append_assoc, List.drop_left]
  change ((m r).bind fun p => f p.1 p.2) = _
  rw [hfirst, Option.bind_some, hf { r with pos := r.pos + l.length } rest herr hbehind,
    List.length_append, ← Nat.add_assoc]

/-- A read of nothing in front. -/
theorem Reads.next {m : Read α} {f : α → Read β} {l : List Bool} {a : α} {b : β}
    (hm : Reads m [] a) (hf : Reads (f a) l b) : Reads (m >>= f) l b := hm.bind hf

theorem reads_ite_pos {c : Prop} [Decidable c] {m m' : Read α} {l : List Bool} {a : α} (hc : c)
    (h : Reads m l a) : Reads (if c then m else m') l a := by
  rwa [if_pos hc]

theorem reads_ite_neg {c : Prop} [Decidable c] {m m' : Read α} {l : List Bool} {a : α} (hc : ¬c)
    (h : Reads m' l a) : Reads (if c then m else m') l a := by
  rwa [if_neg hc]

end Reads

theorem reads_bit (b : Bool) : Reads bit [b] (UInt64.ofNat b.toNat) := by
  intro r rest _ hrest
  have hat : (Bits.ofBytes r.b)[r.pos]? = some b := by
    have hhead : r.rest[0]? = some b := by rw [hrest]; rfl
    rwa [BitReader.rest, List.getElem?_drop, Nat.add_zero] at hhead
  rw [Bits.getElem?_ofBytes] at hat
  obtain ⟨x, hx, hbit⟩ := Option.map_eq_some_iff.mp hat
  have hlt := (List.getElem?_eq_some_iff.mp hx).1
  rw [bit, if_neg (Nat.not_le.mpr hlt), hx]
  have hvalue : x.toNat >>> (7 - r.pos % 8) &&& 1 = b.toNat := by
    rw [← hbit, Nat.toNat_testBit, Nat.shiftRight_eq_div_pow, Nat.and_one_is_mod]
  dsimp only
  rw [hvalue]
  rfl

/-- The bits of a number go behind `v`. -/
theorem reads_bitsFrom (l : List Bool) {v : UInt64} (hv : 2 ^ l.length * (v.toNat + 1) ≤ 2 ^ 64) :
    Reads (bitsFrom l.length v) l (UInt64.ofNat (Bits.value v.toNat l)) := by
  induction l generalizing v with
  | nil =>
      have hofNat : UInt64.ofNat (Bits.value v.toNat []) = v := UInt64.ofNat_toNat
      rw [hofNat]
      exact reads_pure v
  | cons b l ih =>
      have hpos : 0 < 2 ^ l.length := Nat.two_pow_pos _
      have hroom : 2 * (v.toNat + 1) ≤ 2 ^ 64 := by
        rw [List.length_cons, Nat.pow_succ, Nat.mul_assoc] at hv
        exact (Nat.le_mul_of_pos_left _ hpos).trans hv
      have hbit : (UInt64.ofNat b.toNat).toNat = b.toNat := by cases b <;> rfl
      have hle : b.toNat ≤ 1 := Bool.toNat_le b
      have hvalue : (v <<< 1 ||| UInt64.ofNat b.toNat).toNat = 2 * v.toNat + b.toNat := by
        rw [toNat_shift_or (by omega) (by omega), hbit]
      have hrest := ih (v := v <<< 1 ||| UInt64.ofNat b.toNat) <| by
        rw [hvalue]
        rw [List.length_cons, Nat.pow_succ, Nat.mul_assoc] at hv
        exact (Nat.mul_le_mul_left _ (by omega)).trans hv
      rw [hvalue] at hrest
      exact (reads_bit b).bind hrest

theorem reads_bits {n : Nat} (hn : n ≤ 64) (v : Nat) :
    Reads (bits n) (Bits.u n v) (UInt64.ofNat (v % 2 ^ n)) := by
  have hlen := Bits.length_u n v
  have hread := reads_bitsFrom (Bits.u n v) (v := 0) <| by
    rw [hlen, UInt64.toNat_zero, Nat.zero_add, Nat.mul_one]
    exact Nat.pow_le_pow_right (by decide) hn
  rw [hlen, UInt64.toNat_zero, Bits.value_u, Nat.mul_zero, Nat.zero_add] at hread
  exact hread

/-- With `zeros` zeros still to come, of at most 32 in all. -/
theorem reads_ueFrom {zeros left : Nat} (hzeros : zeros ≤ left) (hleft : left ≤ 32) (v : Nat) :
    Reads (ueFrom left)
      (List.replicate zeros false ++ true :: Bits.u (32 - left + zeros) v)
      (UInt64.ofNat (2 ^ (32 - left + zeros) - 1 + v % 2 ^ (32 - left + zeros))) := by
  induction zeros generalizing left with
  | zero =>
      have hpow : 2 ^ (32 - left) ≤ 2 ^ 32 := Nat.pow_le_pow_right (by decide) (by omega)
      have hmod : v % 2 ^ (32 - left) < 2 ^ (32 - left) := Nat.mod_lt _ (Nat.two_pow_pos _)
      have htoNat : (UInt64.ofNat (v % 2 ^ (32 - left))).toNat = v % 2 ^ (32 - left) :=
        UInt64.toNat_ofNat_of_lt' (by change _ < 2 ^ 64; omega)
      have hcode : (1 <<< UInt64.ofNat (32 - left)) - 1 + UInt64.ofNat (v % 2 ^ (32 - left)) =
          UInt64.ofNat (2 ^ (32 - left) - 1 + v % 2 ^ (32 - left)) := by
        rw [← UInt64.toNat_inj, toNat_code (by omega) (by rw [htoNat]; exact hmod), htoNat,
          UInt64.toNat_ofNat_of_lt' (by change _ < 2 ^ 64; omega)]
      have hrest := (reads_bits (by omega : 32 - left ≤ 64) v).bind
        (f := fun v => pure ((1 <<< UInt64.ofNat (32 - left)) - 1 + v)) (reads_pure _)
      rw [List.append_nil, hcode] at hrest
      have hstop : ¬(UInt64.ofNat true.toNat = 0 ∧ true = true) := fun h => absurd h.1 (by decide)
      unfold ueFrom
      exact (reads_bit true).bind (reads_ok.next (reads_ite_neg hstop hrest))
  | succ zeros ih =>
      cases left with
      | zero => exact absurd hzeros (Nat.not_succ_le_zero _)
      | succ left =>
          have hsum : 32 - (left + 1) + (zeros + 1) = 32 - left + zeros := by omega
          rw [ueFrom, hsum]
          exact (reads_bit false).bind
            (reads_ok.next (reads_ite_pos ⟨rfl, rfl⟩ (ih (by omega) (by omega))))

theorem reads_ue {k : Nat} (hk : k + 1 < 2 ^ 33) : Reads ue (Bits.ue k) (UInt64.ofNat k) := by
  have hle : 2 ^ (k + 1).log2 ≤ k + 1 := Nat.log2_self_le (Nat.succ_ne_zero k)
  have hlt : k + 1 < 2 ^ ((k + 1).log2 + 1) := Nat.lt_log2_self
  have hlog : (k + 1).log2 ≤ 32 := by
    by_contra hmore
    have hpow : 2 ^ 33 ≤ 2 ^ (k + 1).log2 := Nat.pow_le_pow_right (by decide) (by omega)
    omega
  have hmod : (k + 1) % 2 ^ (k + 1).log2 = k + 1 - 2 ^ (k + 1).log2 := by
    rw [Nat.mod_eq_sub_mod hle, Nat.mod_eq_of_lt]
    rw [Nat.pow_succ] at hlt
    omega
  have hread := reads_ueFrom hlog (Nat.le_refl 32) (k + 1)
  have hvalue : 2 ^ (k + 1).log2 - 1 + (k + 1 - 2 ^ (k + 1).log2) = k := by
    have hpos : 0 < 2 ^ (k + 1).log2 := Nat.two_pow_pos _
    omega
  rw [Nat.sub_self, Nat.zero_add, hmod, hvalue] at hread
  rw [Bits.ue, Bits.u, Nat.testBit_log2 (Nat.succ_ne_zero k)]
  exact hread

theorem reads_se {z : Int} (hz : -2 ^ 31 < z ∧ z < 2 ^ 31) :
    Reads se (Bits.se z) (Int64.ofInt z) := by
  have hk : Bits.codeNum z + 1 < 2 ^ 33 := by
    rcases Bits.codeNum_eq z with ⟨-, -, h⟩ | ⟨-, -, h⟩ <;> omega
  have htoNat : (UInt64.ofNat (Bits.codeNum z)).toNat = Bits.codeNum z :=
    UInt64.toNat_ofNat_of_lt' (by change _ < 2 ^ 64; omega)
  have hodd : (UInt64.ofNat (Bits.codeNum z) &&& 1 = 1) ↔ Bits.codeNum z % 2 = 1 := by
    rw [← UInt64.toNat_inj, UInt64.toNat_and, htoNat, UInt64.toNat_one, Nat.and_one_is_mod]
  have hz64 : (Int64.ofInt z).toInt = z := Int64.toInt_ofInt_of_le (by omega) (by omega)
  rw [se, ← List.append_nil (Bits.se z)]
  refine (reads_ue hk).bind ?_
  rcases Bits.codeNum_eq z with ⟨hmod, hpos, hcode⟩ | ⟨hmod, hneg, hcode⟩
  · have hhalf : ((UInt64.ofNat (Bits.codeNum z) + 1) / 2).toNat = (Bits.codeNum z + 1) / 2 := by
      rw [UInt64.toNat_div, UInt64.toNat_add, htoNat, UInt64.toNat_one, Nat.mod_eq_of_lt (by omega)]
      rfl
    have hvalue : ((UInt64.ofNat (Bits.codeNum z) + 1) / 2).toInt64 = Int64.ofInt z := by
      rw [← Int64.toInt_inj, toInt_toInt64 (by omega), hhalf, hz64]
      omega
    refine reads_ite_pos (hodd.mpr hmod) ?_
    rw [hvalue]
    exact reads_pure _
  · have hhalf : (UInt64.ofNat (Bits.codeNum z) / 2).toNat = Bits.codeNum z / 2 := by
      rw [UInt64.toNat_div, htoNat]
      rfl
    have hvalue : -(UInt64.ofNat (Bits.codeNum z) / 2).toInt64 = Int64.ofInt z := by
      rw [← Int64.toInt_inj, Int64.toInt_neg, toInt_toInt64 (by omega), hhalf, hz64,
        bmod_of_inI64 ⟨by omega, by omega⟩]
      omega
    refine reads_ite_neg (fun h => ?_) ?_
    · have hone := hodd.mp h
      omega
    · rw [hvalue]
      exact reads_pure _

end Sps

end Jetkvm

end Paniolo
