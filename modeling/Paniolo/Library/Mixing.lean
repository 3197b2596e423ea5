import Mathlib.Data.List.Basic
import Mathlib.Data.Nat.Digits.Defs
import Mathlib.Data.Nat.ModEq
import Mathlib.Data.Nat.Prime.Basic

/-!
# Mixing

What a hash made of invertible steps tells apart. A step that is injective in the state and in the
word that it takes in carries a difference of one word to the end, whatever words follow; and the
operations that such steps are made of on 64-bit words are injective.
-/

namespace Paniolo

namespace Mixing

open Function

section Fold

variable {σ α : Type*} {f : σ → α → σ}

theorem foldl_injective (hstate : ∀ x, Injective fun s => f s x) (l : List α) :
    Injective fun s => l.foldl f s := by
  induction l with
  | nil => exact injective_id
  | cons x l ih => exact ih.comp (hstate x)

/-- One word in which the inputs differ makes the states differ. -/
theorem foldl_ne (hstate : ∀ x, Injective fun s => f s x) (hword : ∀ s, Injective (f s)) {x y : α}
    (hxy : x ≠ y) (s : σ) (before after : List α) :
    (before ++ x :: after).foldl f s ≠ (before ++ y :: after).foldl f s := by
  rw [List.foldl_append, List.foldl_append, List.foldl_cons, List.foldl_cons]
  intro heq
  exact hxy (hword _ (foldl_injective hstate after heq))

theorem foldl_ne_of_getElem? (hstate : ∀ x, Injective fun s => f s x)
    (hword : ∀ s, Injective (f s)) {l l' : List α} {k : Nat} (hne : l[k]? ≠ l'[k]?)
    (hsame : ∀ i ≠ k, l[i]? = l'[i]?) (hlen : l.length = l'.length) (s : σ) :
    l.foldl f s ≠ l'.foldl f s := by
  have hk : k < l.length := by
    by_contra hk
    rw [List.getElem?_eq_none (Nat.le_of_not_lt hk),
      List.getElem?_eq_none (hlen ▸ Nat.le_of_not_lt hk)] at hne
    exact hne rfl
  have htake : l.take k = l'.take k := by
    refine List.ext_getElem? fun i => ?_
    rw [List.getElem?_take, List.getElem?_take]
    split
    · next hi => exact hsame i (Nat.ne_of_lt hi)
    · rfl
  have hdrop : l.drop (k + 1) = l'.drop (k + 1) := by
    refine List.ext_getElem? fun i => ?_
    rw [List.getElem?_drop, List.getElem?_drop]
    exact hsame _ (by omega)
  have hk' : k < l'.length := hlen ▸ hk
  rw [List.getElem?_eq_getElem hk, List.getElem?_eq_getElem hk'] at hne
  rw [← List.take_append_drop k l, ← List.take_append_drop k l', List.drop_eq_getElem_cons hk,
    List.drop_eq_getElem_cons hk', htake, hdrop]
  exact foldl_ne hstate hword (fun h => hne (congrArg some h)) s _ _

end Fold

/-! ### Operations on words -/

/-- `u64::rotate_left`. -/
def rotateLeft (x : UInt64) (k : Nat) : UInt64 := ⟨x.toBitVec.rotateLeft k⟩

/-- `u64::from_le_bytes`. -/
def ofLeBytes (l : List UInt8) : UInt64 := UInt64.ofNat (Nat.ofDigits 256 (l.map UInt8.toNat))

theorem rotateLeft_injective (k : Nat) : Injective fun x => rotateLeft x k := by
  intro x y h
  have hbits : x.toBitVec.rotateLeft k = y.toBitVec.rotateLeft k := congrArg UInt64.toBitVec h
  have hmod : k % 64 < 64 := Nat.mod_lt _ (by decide)
  refine UInt64.toBitVec_inj.mp (BitVec.eq_of_getElem_eq fun i hi => ?_)
  -- the bit `i` goes to the place `i + k`, counted around the word
  by_cases hwrap : i + k % 64 < 64
  · have hat := congrArg (fun v : BitVec 64 => v[i + k % 64]) hbits
    rw [BitVec.getElem_rotateLeft, BitVec.getElem_rotateLeft, dif_neg (by omega),
      dif_neg (by omega)] at hat
    simpa only [Nat.add_sub_cancel] using hat
  · have hat := congrArg (fun v : BitVec 64 => v[i + k % 64 - 64]) hbits
    rw [BitVec.getElem_rotateLeft, BitVec.getElem_rotateLeft, dif_pos (by omega),
      dif_pos (by omega)] at hat
    have hback : 64 - k % 64 + (i + k % 64 - 64) = i := by omega
    simpa only [hback] using hat

/-- An odd factor has an inverse. -/
theorem mul_injective {k : UInt64} (hk : Odd k.toNat) : Injective fun x => x * k := by
  intro x y h
  have hmod : x.toNat * k.toNat ≡ y.toNat * k.toNat [MOD 2 ^ 64] := by
    have htoNat := congrArg UInt64.toNat h
    rwa [UInt64.toNat_mul, UInt64.toNat_mul] at htoNat
  have hcoprime : Nat.Coprime (2 ^ 64) k.toNat :=
    Nat.Coprime.pow_left 64 (Nat.coprime_two_left.mpr hk)
  have hequal := Nat.ModEq.cancel_right_of_coprime hcoprime hmod
  exact UInt64.toNat_inj.mp (hequal.eq_of_lt_of_lt x.toNat_lt y.toNat_lt)

theorem xor_injective (x : UInt64) : Injective fun y => x ^^^ y := by
  intro y z h
  exact (UInt64.xor_right_inj x).mp h

/-- A shift by half of the word or more is undone by itself. -/
theorem xorShift_injective {k : UInt64} (hk : 32 ≤ k.toNat ∧ k.toNat < 64) :
    Injective fun x : UInt64 => x ^^^ (x >>> k) := by
  have hback : ∀ x : UInt64, (x ^^^ (x >>> k)) ^^^ ((x ^^^ (x >>> k)) >>> k) = x := by
    intro x
    have hgone : x >>> k >>> k = 0 := by
      rw [← UInt64.toNat_inj, UInt64.toNat_shiftRight, UInt64.toNat_shiftRight,
        Nat.mod_eq_of_lt hk.2, ← Nat.shiftRight_add, Nat.shiftRight_eq_div_pow, UInt64.toNat_zero]
      have hpow : 2 ^ 64 ≤ 2 ^ (k.toNat + k.toNat) := Nat.pow_le_pow_right (by decide) (by omega)
      exact Nat.div_eq_of_lt (x.toNat_lt.trans_le hpow)
    rw [UInt64.shiftRight_xor, hgone, UInt64.xor_zero, UInt64.xor_assoc, UInt64.xor_self,
      UInt64.xor_zero]
  exact LeftInverse.injective (g := fun y => y ^^^ (y >>> k)) hback

theorem ofLeBytes_inj {l l' : List UInt8} (hlen : l.length = l'.length) (hle : l.length ≤ 8) :
    ofLeBytes l = ofLeBytes l' ↔ l = l' := by
  have hdigit : ∀ (l : List UInt8), ∀ d ∈ l.map UInt8.toNat, d < 256 := by
    intro l d hd
    obtain ⟨b, -, rfl⟩ := List.mem_map.mp hd
    exact b.toNat_lt
  have htoNat : ∀ l : List UInt8, l.length ≤ 8 →
      (ofLeBytes l).toNat = Nat.ofDigits 256 (l.map UInt8.toNat) := by
    intro l hl
    have hlt := Nat.ofDigits_lt_base_pow_length (by decide) (hdigit l)
    rw [List.length_map] at hlt
    refine UInt64.toNat_ofNat_of_lt' (hlt.trans_le ?_)
    exact Nat.pow_le_pow_right (by decide : 0 < 256) hl
  refine ⟨fun h => ?_, fun h => by rw [h]⟩
  have hdigits : Nat.ofDigits 256 (l.map UInt8.toNat) = Nat.ofDigits 256 (l'.map UInt8.toNat) := by
    rw [← htoNat l hle, ← htoNat l' (hlen ▸ hle), h]
  have hmap := Nat.ofDigits_inj_of_len_eq (by decide)
    (by rw [List.length_map, List.length_map, hlen]) (hdigit l) (hdigit l') hdigits
  exact List.map_injective_iff.mpr (fun a b h => UInt8.toNat_inj.mp h) hmap

end Mixing

end Paniolo
