import Mathlib.Order.MinMax
import Paniolo.Library.Chunks

/-!
# Settling

`Settler` of `frame.rs`: the hash published for a frame, which ignores noise.
The settler compares a frame with the last one it accepted, in blocks of 64
pixels, and skips the comparison when the digest tells the answer. It is set
against its plain definition, which knows only the reference frame and looks at
every pixel.
-/

namespace Paniolo

namespace Hdmicap

namespace Settling

/-- The pixels a frame offers for the comparison. -/
inductive Samples where
  | luma (l : List UInt8)
  | rgb (px : List UInt8)
deriving DecidableEq

/-- Integer Rec. 601 weights. -/
def rgbLuma (p : UInt8 × UInt8 × UInt8) : UInt8 :=
  UInt8.ofNat ((p.1.toNat * 77 + p.2.1.toNat * 150 + p.2.2.toNat * 29) / 256)

def absDiff (x y : UInt8) : Nat := max x.toNat y.toNat - min x.toNat y.toNat

def BLOCK : Nat := 64

namespace Samples

def intoLuma : Samples → List UInt8
  | .luma l => l
  | .rgb px => (asChunks3 px).map rgbLuma

def len : Samples → Nat
  | .luma l => l.length
  | .rgb px => px.length / 3

/-- Does any pixel's luma differ from the reference by more than the threshold? -/
def exceeds (s : Samples) (reference : List UInt8) (threshold : UInt8) : Bool :=
  match s with
  | .luma l =>
      ((chunks BLOCK l).zip (chunks BLOCK reference)).any fun c =>
        decide ((((c.1.zip c.2).map fun q => absDiff q.1 q.2).max?.getD 0) > threshold.toNat)
  | .rgb px =>
      ((chunks (BLOCK * 3) px).zip (chunks BLOCK reference)).any fun c =>
        decide (((((asChunks3 c.1).zip c.2).map fun q => absDiff (rgbLuma q.1) q.2).max?.getD 0) >
          threshold.toNat)

end Samples

structure Reference where
  hash : UInt64
  width : Nat
  height : Nat
  luma : List UInt8

structure Settler where
  threshold : UInt8
  reference : Option Reference
  lastNoise : Option UInt64
  compares : Nat

/-- A frame with its exact digest. -/
structure Frame where
  digest : UInt64
  w : Nat
  h : Nat
  samples : Option Samples
deriving DecidableEq

namespace Settler

def new (threshold : UInt8) : Settler := ⟨threshold, none, none, 0⟩

/-- Make a frame the reference. -/
def accept (s : Settler) (f : Frame) (samples : Samples) : UInt64 × Settler :=
  (f.digest, { s with
    reference := some ⟨f.digest, f.w, f.h, samples.intoLuma⟩
    lastNoise := none })

/-- The hash to publish for a frame. -/
def settle (s : Settler) (f : Frame) : UInt64 × Settler :=
  if s.threshold = 0 then (f.digest, s)
  else
    match f.samples with
    | none => (f.digest, s)
    | some samples =>
        match s.reference with
        | none => s.accept f samples
        | some r =>
            if r.hash = f.digest ∨ s.lastNoise = some f.digest then (r.hash, s)
            else if (r.width, r.height) = (f.w, f.h) ∧ r.luma.length = samples.len then
              let s := { s with compares := s.compares + 1 }
              if samples.exceeds r.luma s.threshold = false then
                (r.hash, { s with lastNoise := some f.digest })
              else s.accept f samples
            else s.accept f samples

/-- The hashes of a sequence of frames. -/
def settleAll : Settler → List Frame → List UInt64
  | _, [] => []
  | s, f :: fs => (s.settle f).1 :: (s.settle f).2.settleAll fs

end Settler

/-! ### The plain definition -/

/-- The frame agrees with the reference: dimensions, number of samples, and every pixel's luma up
to the threshold. -/
def Near (threshold : UInt8) (r : Reference) (f : Frame) (samples : Samples) : Prop :=
  r.width = f.w ∧ r.height = f.h ∧ r.luma.length = samples.intoLuma.length ∧
    ∀ (i : Nat) (a b : UInt8), samples.intoLuma[i]? = some a → r.luma[i]? = some b → absDiff a b ≤ threshold.toNat

open Classical in
/-- The published hash and the reference after it, by a comparison with the reference alone. -/
noncomputable def plain (threshold : UInt8) (r : Option Reference) (f : Frame) :
    UInt64 × Option Reference :=
  match f.samples with
  | none => (f.digest, r)
  | some samples =>
      match r with
      | none => (f.digest, some ⟨f.digest, f.w, f.h, samples.intoLuma⟩)
      | some r =>
          if Near threshold r f samples then (r.hash, some r)
          else (f.digest, some ⟨f.digest, f.w, f.h, samples.intoLuma⟩)

noncomputable def plainAll (threshold : UInt8) : Option Reference → List Frame → List UInt64
  | _, [] => []
  | r, f :: fs => (plain threshold r f).1 :: plainAll threshold (plain threshold r f).2 fs

/-! ### The comparison -/

theorem Samples.length_intoLuma (s : Samples) : s.intoLuma.length = s.len := by
  cases s with
  | luma l => rfl
  | rgb px => rw [Samples.intoLuma, List.length_map, length_asChunks3, Samples.len]

theorem lt_max?_getD {l : List Nat} {t : Nat} : l.max?.getD 0 > t ↔ ∃ d ∈ l, d > t := by
  cases hmax : l.max? with
  | none =>
      rw [List.max?_eq_none_iff.mp hmax]
      exact ⟨fun h => absurd h (Nat.not_lt_zero t), nofun⟩
  | some m =>
      have hle := List.max?_le_iff hmax (x := t)
      rw [Option.getD_some, gt_iff_lt, ← not_le, hle, not_forall]
      simp only [Classical.not_imp, not_le, gt_iff_lt]

theorem any_max {α : Type} (l : List α) (d : α → Nat) (t : Nat) :
    decide ((l.map d).max?.getD 0 > t) = l.any fun a => decide (d a > t) := by
  rw [Bool.eq_iff_iff, decide_eq_true_eq, lt_max?_getD, List.any_eq_true]
  simp only [List.mem_map, exists_exists_and_eq_and, decide_eq_true_eq]

/-- The blocks do not matter. -/
theorem Samples.exceeds_eq (s : Samples) (reference : List UInt8) (threshold : UInt8) :
    s.exceeds reference threshold =
      (s.intoLuma.zip reference).any fun q => decide (absDiff q.1 q.2 > threshold.toNat) := by
  cases s with
  | luma l =>
      simp only [Samples.exceeds, any_max]
      have h := any_chunks (p := fun q : UInt8 × UInt8 => decide (absDiff q.1 q.2 > threshold.toNat))
        (strided_id (α := UInt8)) Nat.one_pos (by decide : 0 < BLOCK) l reference
      rw [Nat.one_mul] at h
      exact h
  | rgb px =>
      simp only [Samples.exceeds, any_max]
      have h := any_chunks
        (p := fun q : (UInt8 × UInt8 × UInt8) × UInt8 =>
          decide (absDiff (rgbLuma q.1) q.2 > threshold.toNat))
        (strided_asChunks3 (α := UInt8)) (by decide : 0 < 3) (by decide : 0 < BLOCK) px reference
      rw [Nat.mul_comm 3] at h
      rw [h, Samples.intoLuma, List.zip_map_left, List.any_map]
      rfl

theorem near_iff {threshold : UInt8} {r : Reference} {f : Frame} {samples : Samples} :
    Near threshold r f samples ↔
      ((r.width, r.height) = (f.w, f.h) ∧ r.luma.length = samples.len) ∧
        samples.exceeds r.luma threshold = false := by
  rw [Near, Samples.length_intoLuma, Prod.mk.injEq, Samples.exceeds_eq, and_assoc, and_assoc]
  refine and_congr_right fun _ => and_congr_right fun _ => and_congr_right fun _ => ?_
  rw [List.any_eq_false]
  constructor
  · intro h q hq hgt
    obtain ⟨i, hi⟩ := List.mem_iff_getElem?.mp hq
    rw [List.getElem?_zip_eq_some] at hi
    exact absurd (of_decide_eq_true hgt) (not_lt.mpr (h i q.1 q.2 hi.1 hi.2))
  · intro h i a b ha hb
    have hmem : (a, b) ∈ samples.intoLuma.zip r.luma :=
      List.mem_iff_getElem?.mpr ⟨i, List.getElem?_zip_eq_some.mpr ⟨ha, hb⟩⟩
    have hle := h (a, b) hmem
    rw [decide_eq_true_eq] at hle
    exact not_lt.mp hle

/-! ### The shortcuts -/

/-- What is known of a settler after the frames `seen`: the reference is one of them, and so is the
noise, which is near the reference. -/
structure Settler.Knows (s : Settler) (seen : List Frame) : Prop where
  reference : ∀ r, s.reference = some r → ∃ f ∈ seen, ∃ samples, f.samples = some samples ∧
    r = ⟨f.digest, f.w, f.h, samples.intoLuma⟩
  noise : ∀ d, s.lastNoise = some d → ∃ r f samples, s.reference = some r ∧ f ∈ seen ∧
    f.digest = d ∧ f.samples = some samples ∧ Near s.threshold r f samples

/-- Equal digests mean equal frames, as far as there are samples. -/
def Faithful (fs : List Frame) : Prop :=
  ∀ f ∈ fs, ∀ g ∈ fs, f.samples.isSome → g.samples.isSome → f.digest = g.digest → f = g

instance (fs : List Frame) : Decidable (Faithful fs) :=
  inferInstanceAs (Decidable (∀ f ∈ fs, ∀ g ∈ fs, f.samples.isSome → g.samples.isSome →
    f.digest = g.digest → f = g))

theorem near_self (threshold : UInt8) (f : Frame) (samples : Samples) :
    Near threshold ⟨f.digest, f.w, f.h, samples.intoLuma⟩ f samples := by
  refine ⟨rfl, rfl, rfl, fun i a b ha hb => ?_⟩
  cases ha.symm.trans hb
  rw [absDiff, max_self, min_self, Nat.sub_self]
  exact Nat.zero_le _

theorem Settler.Knows.mono {s : Settler} {seen : List Frame} (h : s.Knows seen) (f : Frame) :
    s.Knows (seen ++ [f]) := by
  refine ⟨fun r hr => ?_, fun d hd => ?_⟩
  · obtain ⟨g, hg, rest⟩ := h.reference r hr
    exact ⟨g, List.mem_append_left [f] hg, rest⟩
  · obtain ⟨r, g, samples, hr, hg, rest⟩ := h.noise d hd
    exact ⟨r, g, samples, hr, List.mem_append_left [f] hg, rest⟩

/-- A frame that is accepted. -/
theorem Settler.knows_accept (s : Settler) (seen : List Frame) {f : Frame} {samples : Samples}
    (hf : f.samples = some samples) : (s.accept f samples).2.Knows (seen ++ [f]) := by
  refine ⟨fun r hr => ?_, nofun⟩
  cases hr
  exact ⟨f, List.mem_append_right seen (List.mem_singleton_self f), samples, hf, rfl⟩

/-- A digest that is the reference's, or that of the last noise, is of a frame near the
reference. -/
theorem Settler.Knows.near {s : Settler} {seen : List Frame} (h : s.Knows seen) {f : Frame}
    {samples : Samples} (hsamples : f.samples = some samples) (hf : Faithful (seen ++ [f]))
    {r : Reference} (hr : s.reference = some r)
    (hd : r.hash = f.digest ∨ s.lastNoise = some f.digest) : Near s.threshold r f samples := by
  have hmem : f ∈ seen ++ [f] := List.mem_append_right seen (List.mem_singleton_self f)
  have hsome : f.samples.isSome := by
    rw [hsamples]
    rfl
  rcases hd with hd | hd
  · obtain ⟨g, hg, samples', hg', rfl⟩ := h.reference r hr
    have heq : g = f := hf g (List.mem_append_left [f] hg) f hmem (by rw [hg']; rfl) hsome hd
    subst heq
    cases hsamples.symm.trans hg'
    exact near_self s.threshold g samples
  · obtain ⟨r', g, samples', hr', hg, hdigest, hg', hnear⟩ := h.noise _ hd
    have heq : g = f := hf g (List.mem_append_left [f] hg) f hmem (by rw [hg']; rfl) hsome hdigest
    subst heq
    cases hsamples.symm.trans hg'
    cases hr.symm.trans hr'
    exact hnear

/-- One frame: the answer and the reference are those of the plain definition. -/
theorem Settler.Knows.settle_spec {s : Settler} {seen : List Frame} {f : Frame} (hs : s.Knows seen)
    (ht : s.threshold ≠ 0) (hf : Faithful (seen ++ [f])) :
    ((s.settle f).1, (s.settle f).2.reference) = plain s.threshold s.reference f ∧
      (s.settle f).2.threshold = s.threshold ∧ (s.settle f).2.Knows (seen ++ [f]) := by
  rw [Settler.settle, if_neg ht, plain]
  cases hsamples : f.samples with
  | none => exact ⟨rfl, rfl, hs.mono f⟩
  | some samples =>
      cases hr : s.reference with
      | none => exact ⟨rfl, rfl, s.knows_accept seen hsamples⟩
      | some r =>
          dsimp only
          split
          · next hd =>
              rw [if_pos (hs.near hsamples hf hr hd)]
              exact ⟨by rw [hr], rfl, hs.mono f⟩
          · split
            · next hdims =>
                split
                · next hnear =>
                    have hclose : Near s.threshold r f samples := near_iff.mpr ⟨hdims, hnear⟩
                    rw [if_pos hclose]
                    refine ⟨rfl, rfl, fun r' hr' => ?_, fun d hd => ?_⟩
                    · cases hr'
                      exact (hs.mono f).reference r hr
                    cases hd
                    exact ⟨r, f, samples, rfl, List.mem_append_right seen (List.mem_singleton_self f),
                      rfl, hsamples, hclose⟩
                · next hfar =>
                    rw [if_neg fun h => hfar (near_iff.mp h).2]
                    exact ⟨rfl, rfl, Settler.knows_accept _ seen hsamples⟩
            · next hdims =>
                rw [if_neg fun h => hdims (near_iff.mp h).1]
                exact ⟨rfl, rfl, s.knows_accept seen hsamples⟩

theorem Settler.Knows.settleAll_eq {s : Settler} {seen : List Frame} (hs : s.Knows seen)
    (ht : s.threshold ≠ 0) (fs : List Frame) (hf : Faithful (seen ++ fs)) :
    s.settleAll fs = plainAll s.threshold s.reference fs := by
  induction fs generalizing s seen with
  | nil => rfl
  | cons f fs ih =>
      have happend : seen ++ f :: fs = seen ++ [f] ++ fs := by rw [List.append_assoc]; rfl
      rw [happend] at hf
      obtain ⟨hplain, hthreshold, hknows⟩ := hs.settle_spec ht
        fun a ha b hb => hf a (List.mem_append_left fs ha) b (List.mem_append_left fs hb)
      have hrest := ih hknows (hthreshold ▸ ht) hf
      rw [Settler.settleAll, plainAll, ← hplain, hrest, hthreshold]

/-- For a positive threshold and digests that tell frames apart, what a settler publishes is what
its plain definition publishes. -/
theorem settleAll_eq_plainAll (threshold : UInt8) (ht : threshold ≠ 0) (fs : List Frame)
    (hf : Faithful fs) : (Settler.new threshold).settleAll fs = plainAll threshold none fs := by
  have hknows : (Settler.new threshold).Knows [] := ⟨nofun, nofun⟩
  exact hknows.settleAll_eq ht fs hf

/-- Noise, the same noise again, and a frame that moves a pixel too far. -/
theorem settleAll_noise :
    (Settler.new 16).settleAll [⟨1, 2, 1, some (.luma [100, 7])⟩, ⟨2, 2, 1, some (.luma [116, 7])⟩,
        ⟨2, 2, 1, some (.luma [116, 7])⟩, ⟨3, 2, 1, some (.luma [117, 7])⟩] = [1, 1, 1, 3] ∧
      plainAll 16 none [⟨1, 2, 1, some (.luma [100, 7])⟩, ⟨2, 2, 1, some (.luma [116, 7])⟩,
        ⟨2, 2, 1, some (.luma [116, 7])⟩, ⟨3, 2, 1, some (.luma [117, 7])⟩] = [1, 1, 1, 3] := by
  refine ⟨by decide, ?_⟩
  rw [← settleAll_eq_plainAll 16 (by decide) _ (by decide)]
  decide

end Settling

end Hdmicap

end Paniolo
