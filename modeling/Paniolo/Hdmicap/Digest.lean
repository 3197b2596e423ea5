import Paniolo.Library.Chunks
import Paniolo.Library.Mixing

/-!
# The frame hash

`digest` of `frame.rs`, and the hashes that `classify_nv12`, `classify_gray` and `classify_rgb` take
with it. Two buffers get different digests where they differ in one of the pieces that are mixed in
at a time; so one changed pixel changes the hash.
-/

namespace Paniolo

namespace Hdmicap

namespace Digest

open Mixing

def K : UInt64 := 0x9e3779b97f4a7c15

/-- The FxHash step. -/
def mix (acc word : UInt64) : UInt64 := (rotateLeft acc 5 ^^^ word) * K

/-- The murmur3 finalizer. -/
def finalize (acc : UInt64) : UInt64 :=
  let acc := acc ^^^ (acc >>> 33)
  let acc := acc * 0xff51afd7ed558ccd
  let acc := acc ^^^ (acc >>> 33)
  let acc := acc * 0xc4ceb9fe1a85ec53
  acc ^^^ (acc >>> 33)

/-- An exact digest of the first `len` bytes, with the dimensions. -/
def digest (bytes : List UInt8) (len : Nat) (w h : UInt32) : UInt64 :=
  let bytes := bytes.take (min len bytes.length)
  let acc := ((w.toUInt64 <<< 32) ||| h.toUInt64) * K
  let (words, rest) := asChunks 8 bytes
  let acc := words.foldl (fun acc word => mix acc (ofLeBytes word)) acc
  let acc := rest.foldl (fun acc b => mix acc b.toUInt64) acc
  finalize (mix acc (UInt64.ofNat bytes.length))

/-- The hash that the `classify` functions return, of a frame with `channels` bytes per pixel; their
test for a black screen is not modelled. -/
def frameHash (channels : Nat) (bytes : List UInt8) (w h : UInt32) : UInt64 :=
  if w = 0 ∨ h = 0 then 0 else digest bytes (w.toNat * h.toNat * channels) w h

def classifyNv12 (y : List UInt8) (w h : UInt32) : UInt64 := frameHash 1 y w h

def classifyGray (y : List UInt8) (w h : UInt32) : UInt64 := frameHash 1 y w h

def classifyRgb (rgb : List UInt8) (w h : UInt32) : UInt64 := frameHash 3 rgb w h

/-- The positions of what is mixed in at a time, of `n` bytes: an aligned word, or a byte behind the
last word. -/
inductive Piece (n : Nat) : Nat → Nat → Prop
  | word (k : Nat) (hk : 8 * k + 8 ≤ n) : Piece n (8 * k) (8 * k + 8)
  | rest (i : Nat) (hi : 8 * (n / 8) ≤ i ∧ i < n) : Piece n i (i + 1)

/-- Two buffers of equal length that differ, but only from `lo` up to `hi`. -/
structure DifferWithin (l l' : List UInt8) (lo hi : Nat) : Prop where
  length_eq : l.length = l'.length
  ne : l ≠ l'
  outside : ∀ i, i < lo ∨ hi ≤ i → l[i]? = l'[i]?

/-- Two buffers differ within one piece only. -/
def LocalChange (l l' : List UInt8) : Prop :=
  ∃ lo hi, Piece l.length lo hi ∧ DifferWithin l l' lo hi

/-! ### Every step is injective -/

theorem mix_injective_left (word : UInt64) : Function.Injective fun acc => mix acc word := by
  intro a b h
  exact rotateLeft_injective 5 ((UInt64.xor_left_inj word).mp (mul_injective (by decide) h))

theorem mix_injective_right (acc : UInt64) : Function.Injective (mix acc) := by
  intro a b h
  exact xor_injective _ (mul_injective (by decide) h)

theorem finalize_injective : Function.Injective finalize := by
  have hshift : Function.Injective fun x : UInt64 => x ^^^ (x >>> 33) :=
    xorShift_injective (by decide)
  have hmul₁ : Function.Injective fun x : UInt64 => x * 0xff51afd7ed558ccd :=
    mul_injective (by decide)
  have hmul₂ : Function.Injective fun x : UInt64 => x * 0xc4ceb9fe1a85ec53 :=
    mul_injective (by decide)
  exact hshift.comp (hmul₂.comp (hshift.comp (hmul₁.comp hshift)))

/-! ### A local change is seen -/

/-- The words of a buffer. -/
def words (l : List UInt8) : List UInt64 := (asChunks 8 l).1.map ofLeBytes

/-- The bytes behind the words. -/
def rest (l : List UInt8) : List UInt64 := (asChunks 8 l).2.map UInt8.toUInt64

theorem digest_eq (bytes : List UInt8) (len : Nat) (w h : UInt32) :
    digest bytes len w h =
      finalize (mix ((rest (bytes.take len)).foldl mix ((words (bytes.take len)).foldl mix
        (((w.toUInt64 <<< 32) ||| h.toUInt64) * K))) (UInt64.ofNat (bytes.take len).length)) := by
  have htake : bytes.take (min len bytes.length) = bytes.take len := by
    rcases Nat.le_total len bytes.length with hle | hle
    · rw [Nat.min_eq_left hle]
    · rw [Nat.min_eq_right hle, List.take_of_length_le hle, List.take_of_length_le (Nat.le_refl _)]
  rw [words, rest, List.foldl_map, List.foldl_map, ← htake]
  rfl

theorem length_words (l : List UInt8) : (words l).length = l.length / 8 := by
  rw [words, asChunks, List.length_map, List.length_map, List.length_range]

theorem getElem?_words {l : List UInt8} {k : Nat} (hk : k < l.length / 8) :
    (words l)[k]? = some (ofLeBytes ((l.drop (8 * k)).take 8)) := by
  rw [words, asChunks, List.getElem?_map, List.getElem?_map, List.getElem?_range hk]
  rfl

theorem getElem?_rest (l : List UInt8) (i : Nat) :
    (rest l)[i]? = l[8 * (l.length / 8) + i]?.map UInt8.toUInt64 := by
  rw [rest, asChunks, List.getElem?_map, List.getElem?_drop]

theorem length_rest (l : List UInt8) : (rest l).length = l.length - 8 * (l.length / 8) := by
  rw [rest, asChunks, List.length_map, List.length_drop]

namespace DifferWithin

variable {l l' : List UInt8} {lo hi : Nat}

/-- A part that holds all differences differs. -/
theorem part_ne (h : DifferWithin l l' lo hi) {n : Nat} (hn : hi ≤ lo + n) :
    (l.drop lo).take n ≠ (l'.drop lo).take n := by
  intro hpart
  refine h.ne (List.ext_getElem? fun i => ?_)
  by_cases hi : lo ≤ i ∧ i < lo + n
  · rw [← getElem?_part l hi, ← getElem?_part l' hi, hpart]
  · exact h.outside i (by omega)

/-- Words that have none of the differences are the same. -/
theorem word_eq (h : DifferWithin l l' lo hi) {k : Nat}
    (hk : k < l.length / 8 → 8 * k + 8 ≤ lo ∨ hi ≤ 8 * k) : (words l)[k]? = (words l')[k]? := by
  by_cases hlt : k < l.length / 8
  · have hout := hk hlt
    rw [getElem?_words hlt, getElem?_words (h.length_eq ▸ hlt),
      part_congr fun i hlo hhi => h.outside i (by omega)]
  · rw [List.getElem?_eq_none (by rw [length_words]; omega),
      List.getElem?_eq_none (by rw [length_words, ← h.length_eq]; omega)]

theorem rest_eq (h : DifferWithin l l' lo hi) {i : Nat}
    (hi : 8 * (l.length / 8) + i < lo ∨ hi ≤ 8 * (l.length / 8) + i) :
    (rest l)[i]? = (rest l')[i]? := by
  rw [getElem?_rest, getElem?_rest, ← h.length_eq, h.outside _ hi]

end DifferWithin

/-- The state behind all bytes of the buffer. -/
theorem state_ne {l l' : List UInt8} (h : LocalChange l l') (s : UInt64) :
    (rest l).foldl mix ((words l).foldl mix s) ≠ (rest l').foldl mix ((words l').foldl mix s) := by
  obtain ⟨lo, hi, hpiece, hchange⟩ := h
  cases hpiece with
  | word k hk =>
      have hlt : k < l.length / 8 := by omega
      have hrest : rest l = rest l' := List.ext_getElem? fun i => hchange.rest_eq (by omega)
      have hlen : (words l).length = (words l').length := by
        rw [length_words, length_words, hchange.length_eq]
      have hword : (words l)[k]? ≠ (words l')[k]? := by
        rw [getElem?_words hlt, getElem?_words (hchange.length_eq ▸ hlt), ne_eq, Option.some.injEq,
          ofLeBytes_inj _ (List.length_take_le _ _)]
        · exact hchange.part_ne (Nat.le_refl _)
        · rw [List.length_take, List.length_take, List.length_drop, List.length_drop,
            hchange.length_eq]
      have hwords := foldl_ne_of_getElem? mix_injective_left mix_injective_right hword
        (fun i hi => hchange.word_eq (by omega)) hlen s
      rw [hrest]
      exact fun heq => hwords (foldl_injective mix_injective_left _ heq)
  | rest _ hlo =>
      have hwords : words l = words l' := List.ext_getElem? fun k => hchange.word_eq (by omega)
      have hlen : (rest l).length = (rest l').length := by
        rw [length_rest, length_rest, hchange.length_eq]
      have hbyte : (rest l)[lo - 8 * (l.length / 8)]? ≠ (rest l')[lo - 8 * (l.length / 8)]? := by
        rw [getElem?_rest, getElem?_rest, ← hchange.length_eq, Nat.add_sub_cancel' hlo.1]
        intro heq
        refine hchange.ne (List.ext_getElem? fun j => ?_)
        by_cases hj : j = lo
        · rw [hj]
          exact Option.map_injective (fun a b h => UInt8.toUInt64_inj.mp h) heq
        · exact hchange.outside j (by omega)
      rw [hwords]
      exact foldl_ne_of_getElem? mix_injective_left mix_injective_right hbyte
        (fun j hj => hchange.rest_eq (by omega)) hlen _

/-- The digest sees every local change of the bytes that it is taken of. -/
theorem digest_sees {bytes bytes' : List UInt8} {len : Nat}
    (hchange : LocalChange (bytes.take len) (bytes'.take len)) (w h : UInt32) :
    digest bytes len w h ≠ digest bytes' len w h := by
  have hlen : (bytes.take len).length = (bytes'.take len).length := by
    obtain ⟨lo, hi, -, hdiffer⟩ := hchange
    exact hdiffer.length_eq
  rw [digest_eq, digest_eq, ← hlen]
  intro heq
  exact state_ne hchange _ (mix_injective_left _ (finalize_injective heq))

/-- A change of one byte is local. -/
theorem localChange_set {l : List UInt8} {i : Nat} {v : UInt8} (hi : i < l.length)
    (hv : l[i]? ≠ some v) : LocalChange l (l.set i v) := by
  have hpiece : ∃ lo hi, Piece l.length lo hi ∧ lo ≤ i ∧ i < hi := by
    by_cases hword : i < 8 * (l.length / 8)
    · exact ⟨_, _, .word (i / 8) (by omega), by omega, by omega⟩
    · exact ⟨_, _, .rest i ⟨Nat.le_of_not_lt hword, hi⟩, Nat.le_refl i, Nat.lt_succ_self i⟩
  obtain ⟨lo, hi', hpiece, hlo, hhi⟩ := hpiece
  refine ⟨lo, hi', hpiece, (List.length_set ..).symm, fun heq => hv ?_, fun j hj => ?_⟩
  · have hat := congrArg (fun l : List UInt8 => l[i]?) heq
    exact hat.trans (List.getElem?_set_self hi)
  · exact (List.getElem?_set_ne (by omega)).symm

theorem digest_sees_last_byte :
    digest [1, 2, 3, 4, 5, 6, 7, 8, 9] 9 3 3 ≠ digest [1, 2, 3, 4, 5, 6, 7, 8, 10] 9 3 3 :=
  @digest_sees [1, 2, 3, 4, 5, 6, 7, 8, 9] [1, 2, 3, 4, 5, 6, 7, 8, 10] 9
    (localChange_set (l := [1, 2, 3, 4, 5, 6, 7, 8, 9]) (i := 8) (v := 10) (by decide) (by decide))
    3 3

/-- One changed byte of a frame changes its hash. -/
theorem frameHash_set {channels : Nat} {bytes : List UInt8} {w h : UInt32} (hw : w ≠ 0) (hh : h ≠ 0)
    {i : Nat} {v : UInt8} (hi : i < w.toNat * h.toNat * channels ∧ i < bytes.length)
    (hv : bytes[i]? ≠ some v) :
    frameHash channels (bytes.set i v) w h ≠ frameHash channels bytes w h := by
  have hdims : ¬(w = 0 ∨ h = 0) := by
    rintro (h₀ | h₀)
    · exact hw h₀
    · exact hh h₀
  have hlen : i < (bytes.take (w.toNat * h.toNat * channels)).length := by
    rw [List.length_take]
    exact Nat.lt_min.mpr hi
  have hchange := localChange_set hlen (v := v) (by rwa [List.getElem?_take_of_lt hi.1])
  rw [← List.take_set] at hchange
  rw [frameHash, frameHash, if_neg hdims, if_neg hdims]
  exact (digest_sees hchange w h).symm

end Digest

end Hdmicap

end Paniolo
