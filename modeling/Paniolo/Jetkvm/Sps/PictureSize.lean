import Paniolo.Jetkvm.Rfb
import Paniolo.Jetkvm.Sps
import Paniolo.Library.Int64

/-!
# The picture size

What `startDecoder` makes of the size that `parseSPS` returns, the frames that its reader stores,
and the rows in which `sendFrame` takes a frame apart. The size is bounded by a product that may
wrap around.
-/

namespace Paniolo

namespace Jetkvm

namespace Sps

def maxFrameBytes : Int64 := 7680 * 4320 * 4

structure Decoder where
  w : Int64
  h : Int64

/-- The check of `startDecoder`; the subprocess that it starts then is not modelled. -/
def startDecoder (w h : Int64) : Except String Decoder :=
  if w ≤ 0 ∨ h ≤ 0 ∨ w * h * 4 > maxFrameBytes then .error s!"unsupported picture size {w}x{h}"
  else .ok ⟨w, h⟩

/-- `Set`: the newest frame, after `cur`. -/
def set (cur : Rfb.Frame) (w h : Int64) (pix : List UInt8) : Rfb.Frame :=
  ⟨cur.seq + 1, w.toInt.toNat, h.toInt.toNat, pix⟩

/-- The frames that the decoder's reader stores in its first `n` rounds, from what the subprocess
writes; a buffer of negative size cannot be made. -/
def storedFrames (d : Decoder) : Nat → Rfb.Frame → List UInt8 → Option (List Rfb.Frame)
  | 0, _, _ => some []
  | n + 1, cur, stdout =>
      let size := d.w * d.h * 4
      if size < 0 then none
      else if stdout.length < size.toInt.toNat then some []
      else
        let f := set cur d.w d.h (stdout.take size.toInt.toNat)
        (storedFrames d n f (stdout.drop size.toInt.toNat)).map (f :: ·)

/-- The size that the fields code, over the unbounded integers. -/
def Fields.codedSize (f : Fields) : Int × Int :=
  let w : Int := 16 * (f.widthMinus1.toNat + 1)
  let h : Int := (2 - f.frameMbsOnly.toNat) * (f.heightMinus1.toNat + 1) * 16
  match f.crop with
  | none => (w, h)
  | some c => (w - (c.l.toNat + c.rt.toNat) * f.cropUnits.1.toInt,
      h - (c.t.toNat + c.b.toNat) * f.cropUnits.2.toInt)

/-- The frames of this size have more bytes than allowed, and the bytes wrap around to no more. -/
def WrapsAround (s : Int × Int) : Prop :=
  0 < s.1 ∧ 0 < s.2 ∧ maxFrameBytes.toInt < 4 * (s.1 * s.2) ∧
    (4 * (s.1 * s.2)).bmod (2 ^ 64) ≤ maxFrameBytes.toInt

theorem frame_factor {v : UInt64} (hv : v.toNat ≤ 1) : (2 - v.toInt64).toInt = 2 - v.toNat := by
  have hcases : v = 0 ∨ v = 1 := by
    rcases Nat.le_one_iff_eq_zero_or_eq_one.mp hv with h | h
    · exact Or.inl (UInt64.toNat_inj.mp h)
    · exact Or.inr (UInt64.toNat_inj.mp h)
  rcases hcases with rfl | rfl <;> rfl

theorem cropUnits_bounds {f : Fields} (hf : f.frameMbsOnly.toNat ≤ 1) :
    (1 ≤ f.cropUnits.1.toInt ∧ f.cropUnits.1.toInt ≤ 2) ∧
      1 ≤ f.cropUnits.2.toInt ∧ f.cropUnits.2.toInt ≤ 4 := by
  have hcases : f.frameMbsOnly = 0 ∨ f.frameMbsOnly = 1 := by
    rcases Nat.le_one_iff_eq_zero_or_eq_one.mp hf with h | h
    · exact Or.inl (UInt64.toNat_inj.mp h)
    · exact Or.inr (UInt64.toNat_inj.mp h)
  rw [Fields.cropUnits]
  rcases hcases with h | h <;> rw [h] <;> split_ifs <;> decide

/-- What is cut off one dimension. -/
theorem toInt_cut {a b : UInt64} {unit : Int64} (ha : a.toNat ≤ maxCode) (hb : b.toNat ≤ maxCode)
    (hunit : 1 ≤ unit.toInt ∧ unit.toInt ≤ 4) :
    ((a.toInt64 + b.toInt64) * unit).toInt = (a.toNat + b.toNat) * unit.toInt ∧
      0 ≤ ((a.toNat : Int) + b.toNat) * unit.toInt ∧
        ((a.toNat : Int) + b.toNat) * unit.toInt ≤ 2 ^ 36 := by
  rw [maxCode] at ha hb
  have hsum : (a.toInt64 + b.toInt64).toInt = a.toNat + b.toNat :=
    toInt_add (toInt_toInt64 (by omega)) (toInt_toInt64 (by omega)) ⟨by omega, by omega⟩
  have hpos : 0 ≤ ((a.toNat : Int) + b.toNat) * unit.toInt :=
    Int.mul_nonneg (by omega) (by omega)
  have hle : ((a.toNat : Int) + b.toNat) * unit.toInt ≤ 2 ^ 34 * 4 :=
    Int.mul_le_mul (by omega) hunit.2 (by omega) (by decide)
  exact ⟨toInt_mul hsum rfl ⟨by omega, by omega⟩, hpos, by omega⟩

/-- The size is computed without an overflow. -/
theorem toInt_size {f : Fields} (hf : f.Coded) :
    (f.size.1.toInt, f.size.2.toInt) = f.codedSize := by
  obtain ⟨hx, hy⟩ := cropUnits_bounds hf.frameMbsOnly
  have hw := hf.widthMinus1
  have hh := hf.heightMinus1
  have hfo := hf.frameMbsOnly
  rw [maxCode] at hw hh
  have hmbW : (f.widthMinus1.toInt64 + 1).toInt = f.widthMinus1.toNat + 1 :=
    toInt_add (toInt_toInt64 (by omega)) rfl ⟨by omega, by omega⟩
  have hmapH : (f.heightMinus1.toInt64 + 1).toInt = f.heightMinus1.toNat + 1 :=
    toInt_add (toInt_toInt64 (by omega)) rfl ⟨by omega, by omega⟩
  have hwidth : ((f.widthMinus1.toInt64 + 1) * 16).toInt = (f.widthMinus1.toNat + 1) * 16 :=
    toInt_mul hmbW rfl ⟨by omega, by omega⟩
  have hfactor : 0 ≤ (2 - (f.frameMbsOnly.toNat : Int)) ∧ 2 - (f.frameMbsOnly.toNat : Int) ≤ 2 := by
    omega
  have hrows : 0 ≤ (2 - (f.frameMbsOnly.toNat : Int)) * (f.heightMinus1.toNat + 1) ∧
      (2 - (f.frameMbsOnly.toNat : Int)) * (f.heightMinus1.toNat + 1) ≤ 2 * 2 ^ 33 :=
    ⟨Int.mul_nonneg hfactor.1 (by omega), Int.mul_le_mul hfactor.2 (by omega) (by omega) (by decide)⟩
  have hmbH : ((2 - f.frameMbsOnly.toInt64) * (f.heightMinus1.toInt64 + 1)).toInt =
      (2 - f.frameMbsOnly.toNat) * (f.heightMinus1.toNat + 1) :=
    toInt_mul (frame_factor hfo) hmapH ⟨by omega, by omega⟩
  have hheight : ((2 - f.frameMbsOnly.toInt64) * (f.heightMinus1.toInt64 + 1) * 16).toInt =
      (2 - f.frameMbsOnly.toNat) * (f.heightMinus1.toNat + 1) * 16 :=
    toInt_mul hmbH rfl ⟨by omega, by omega⟩
  rw [Fields.size, Fields.codedSize]
  cases hc : f.crop with
  | none => exact Prod.ext (hwidth.trans (Int.mul_comm ..)) hheight
  | some c =>
      have hcoded := hf.crop c hc
      obtain ⟨hcutx, hx₀, hx₁⟩ := toInt_cut hcoded.l hcoded.rt ⟨hx.1, hx.2.trans (by decide)⟩
      obtain ⟨hcuty, hy₀, hy₁⟩ := toInt_cut hcoded.t hcoded.b hy
      refine Prod.ext ?_ ?_
      · exact (toInt_sub hwidth hcutx ⟨by omega, by omega⟩).trans (by rw [Int.mul_comm 16])
      · exact toInt_sub hheight hcuty ⟨by omega, by omega⟩

theorem convertRow_isSome {src : List UInt8} {n : Nat} (h : 4 * n ≤ src.length)
    (pf : Rfb.PixelFormat) : ∃ row, Rfb.PixelFormat.convertRow src n pf = some row := by
  rw [Rfb.PixelFormat.convertRow]
  split
  · rw [if_neg (by omega)]
    exact ⟨_, rfl⟩
  · rw [if_neg (by omega)]
    exact ⟨_, rfl⟩

/-- The rows of a frame that has all of its bytes stay inside it. -/
theorem rows_isSome {f : Rfb.Frame} (h : f.pix.length = 4 * f.w * f.h) (pf : Rfb.PixelFormat) :
    ∃ body, Rfb.Session.rows f pf = some body := by
  have hrow : ∀ y ∈ List.range f.h, ∃ row,
      Rfb.PixelFormat.convertRow (f.pix.drop (y * 4 * f.w)) f.w pf = some row := by
    intro y hy
    have hlt : y + 1 ≤ f.h := List.mem_range.mp hy
    have hmul := Nat.mul_le_mul_left (4 * f.w) hlt
    have hstart : y * 4 * f.w = 4 * f.w * y := by ring
    refine convertRow_isSome ?_ pf
    rw [List.length_drop, h, hstart]
    rw [Nat.mul_add, Nat.mul_one] at hmul
    omega
  have hall : (List.range f.h).mapM
      (fun y => Rfb.PixelFormat.convertRow (f.pix.drop (y * 4 * f.w)) f.w pf) =
        some ((List.range f.h).map
          fun y => (Rfb.PixelFormat.convertRow (f.pix.drop (y * 4 * f.w)) f.w pf).getD []) := by
    refine Rfb.mapM_eq_some _ fun y hy => ?_
    obtain ⟨row, hrow⟩ := hrow y hy
    rw [hrow]
    rfl
  rw [Rfb.Session.rows, hall]
  exact ⟨_, rfl⟩

/-- The size of a frame that can exist: it fits, and the decoder's frames have as many bytes as the
rows that `sendFrame` takes out of them. -/
structure Possible (w h : Int64) : Prop where
  positive : 0 < 4 * (w.toInt * h.toInt)
  bounded : 4 * (w.toInt * h.toInt) ≤ maxFrameBytes.toInt
  stored : ∀ n cur stdout, ∃ fs, storedFrames ⟨w, h⟩ n cur stdout = some fs ∧
    ∀ f ∈ fs, (f.pix.length : Int) = 4 * (w.toInt * h.toInt) ∧
      ∀ pf, ∃ body, Rfb.Session.rows f pf = some body

/-- The product of the check, as it wraps around. -/
theorem toInt_area (w h : Int64) :
    (w * h * 4).toInt = (4 * (w.toInt * h.toInt)).bmod (2 ^ 64) := by
  rw [Int64.toInt_mul, Int64.toInt_mul, Int.bmod_mul_bmod, Int.mul_comm 4]
  rfl

theorem startDecoder_eq_ok {w h : Int64} {d : Decoder} :
    startDecoder w h = .ok d ↔ (0 < w.toInt ∧ 0 < h.toInt ∧
      (4 * (w.toInt * h.toInt)).bmod (2 ^ 64) ≤ maxFrameBytes.toInt) ∧ d = ⟨w, h⟩ := by
  have hbad : (w ≤ 0 ∨ h ≤ 0 ∨ w * h * 4 > maxFrameBytes) ↔ ¬(0 < w.toInt ∧ 0 < h.toInt ∧
      (4 * (w.toInt * h.toInt)).bmod (2 ^ 64) ≤ maxFrameBytes.toInt) := by
    rw [Int64.le_iff_toInt_le, Int64.le_iff_toInt_le, gt_iff_lt, Int64.lt_iff_toInt_lt, toInt_area,
      Int64.toInt_zero]
    omega
  rw [startDecoder]
  split
  · next h₀ => exact ⟨nofun, fun h₁ => absurd h₁.1 (hbad.mp h₀)⟩
  · next h₀ =>
      refine ⟨fun hd => ?_, fun hd => by rw [hd.2]⟩
      cases hd
      exact ⟨not_not.mp fun h₁ => h₀ (hbad.mpr h₁), rfl⟩

theorem checkSize_eq_ok {w h : Int64} {s : Int64 × Int64} :
    checkSize w h = .ok s ↔ (0 < w.toInt ∧ 0 < h.toInt) ∧ s = (w, h) := by
  have hbad : (w ≤ 0 ∨ h ≤ 0) ↔ ¬(0 < w.toInt ∧ 0 < h.toInt) := by
    rw [Int64.le_iff_toInt_le, Int64.le_iff_toInt_le, Int64.toInt_zero]
    omega
  rw [checkSize]
  split
  · next h₀ => exact ⟨nofun, fun h₁ => absurd h₁.1 (hbad.mp h₀)⟩
  · next h₀ =>
      refine ⟨fun hs => ?_, fun hs => by rw [hs.2]⟩
      cases hs
      exact ⟨not_not.mp fun h₁ => h₀ (hbad.mpr h₁), rfl⟩

theorem possible_of_le {w h : Int64} (hw : 0 < w.toInt) (hh : 0 < h.toInt)
    (hle : 4 * (w.toInt * h.toInt) ≤ maxFrameBytes.toInt) : Possible w h := by
  have hpos : 0 < 4 * (w.toInt * h.toInt) := Int.mul_pos (by decide) (Int.mul_pos hw hh)
  have hmax : maxFrameBytes.toInt = 132710400 := rfl
  have harea : (w * h * 4).toInt = 4 * (w.toInt * h.toInt) := by
    rw [toInt_area, bmod_of_inI64 ⟨by omega, by omega⟩]
  have hnat : (w * h * 4).toInt.toNat = 4 * w.toInt.toNat * h.toInt.toNat := by
    rw [harea, Int.toNat_mul (by decide) (Int.mul_pos hw hh).le, Int.toNat_mul hw.le hh.le,
      Nat.mul_assoc]
    rfl
  refine ⟨hpos, hle, fun n => ?_⟩
  induction n with
  | zero => exact fun _ _ => ⟨[], rfl, nofun⟩
  | succ n ih =>
      intro cur stdout
      have hneg : ¬w * h * 4 < 0 := by
        rw [Int64.lt_iff_toInt_lt, harea, Int64.toInt_zero]
        omega
      rw [storedFrames]
      dsimp only
      rw [if_neg hneg]
      split
      · exact ⟨[], rfl, nofun⟩
      · next hlen =>
          have hbytes : (stdout.take (w * h * 4).toInt.toNat).length =
              4 * w.toInt.toNat * h.toInt.toNat := by
            rw [List.length_take, Nat.min_eq_left (Nat.le_of_not_lt hlen), hnat]
          obtain ⟨fs, hfs, hall⟩ := ih (set cur w h (stdout.take (w * h * 4).toInt.toNat))
            (stdout.drop (w * h * 4).toInt.toNat)
          rw [hfs]
          refine ⟨_, rfl, fun f hf => ?_⟩
          rcases List.mem_cons.mp hf with rfl | hf
          · refine ⟨?_, rows_isSome hbytes⟩
            change ((stdout.take (w * h * 4).toInt.toNat).length : Int) = _
            rw [List.length_take, Nat.min_eq_left (Nat.le_of_not_lt hlen), harea]
            exact Int.toNat_of_nonneg hpos.le
          · exact hall f hf

/-- The size that is returned is the one that is coded. -/
theorem parseSPS_eq_ok {nal : List UInt8} {w h : Int64} :
    parseSPS nal = some (.ok (w, h)) ↔ ∃ f, parseFields nal = some (.ok f) ∧
      f.codedSize = (w.toInt, h.toInt) ∧ 0 < w.toInt ∧ 0 < h.toInt := by
  obtain ⟨r, hr, hcoded⟩ := parseFields_isSome nal
  rw [parseSPS, hr, Option.map_some, Option.some.injEq]
  cases r with
  | error e =>
      constructor
      · intro h
        cases h
      · rintro ⟨f, hf, -⟩
        cases hf
  | ok f =>
      have hsize := toInt_size (hcoded f rfl)
      change checkSize f.size.1 f.size.2 = _ ↔ _
      rw [checkSize_eq_ok]
      constructor
      · rintro ⟨hpos, hs⟩
        cases hs
        exact ⟨f, rfl, hsize.symm, hpos⟩
      · rintro ⟨g, hg, hcodes, hpos⟩
        cases hg
        rw [← hsize, Prod.mk.injEq] at hcodes
        rw [hcodes.1, hcodes.2]
        exact ⟨hpos, Prod.ext (Int64.toInt_inj.mp hcodes.1.symm) (Int64.toInt_inj.mp hcodes.2.symm)⟩

/-- A coded size that is positive is returned. -/
theorem parseSPS_of_fields {nal : List UInt8} {f : Fields} (hf : parseFields nal = some (.ok f))
    (hpos : 0 < f.codedSize.1 ∧ 0 < f.codedSize.2) :
    ∃ w h, parseSPS nal = some (.ok (w, h)) ∧ f.codedSize = (w.toInt, h.toInt) := by
  obtain ⟨r, hr, hcoded⟩ := parseFields_isSome nal
  cases hf.symm.trans hr
  have hsize := toInt_size (hcoded f rfl)
  refine ⟨f.size.1, f.size.2, parseSPS_eq_ok.mpr ⟨f, hf, hsize.symm, ?_⟩, hsize.symm⟩
  rw [← hsize] at hpos
  exact hpos

/-- Every picture size that is admitted can exist, except where the bytes of a frame wrap around. -/
theorem admitted_possible_iff (nal : List UInt8) :
    (∀ w h d, parseSPS nal = some (.ok (w, h)) → startDecoder w h = .ok d → Possible w h) ↔
      ∀ f, parseFields nal = some (.ok f) → ¬WrapsAround f.codedSize := by
  constructor
  · rintro hpossible f hf ⟨hw, hh, hmore, hwraps⟩
    obtain ⟨w, h, hsps, hsize⟩ := parseSPS_of_fields hf ⟨hw, hh⟩
    rw [hsize] at hw hh hmore hwraps
    have hle := (hpossible w h ⟨w, h⟩ hsps
      (startDecoder_eq_ok.mpr ⟨⟨hw, hh, hwraps⟩, rfl⟩)).bounded
    exact absurd hle (Int.not_le.mpr hmore)
  · intro hwraps w h d hsps hd
    obtain ⟨f, hf, hsize, -⟩ := parseSPS_eq_ok.mp hsps
    obtain ⟨⟨hw, hh, hle⟩, -⟩ := startDecoder_eq_ok.mp hd
    have hnot := hwraps f hf
    rw [hsize] at hnot
    exact possible_of_le hw hh (Int.not_lt.mp fun hmore => hnot ⟨hw, hh, hmore, hle⟩)

/-- An SPS of 2^28 by 2^28 macroblocks: its frames have 2^66 bytes, which wrap around to none. -/
def hugeSPS : List UInt8 :=
  [0x67, 0x42, 0, 0x1e, 0xdc, 0, 0, 3, 0, 0x10, 0, 0, 3, 0, 0, 3, 0, 0, 8, 0, 0, 3, 0, 0x44]

theorem hugeSPS_admitted :
    parseSPS hugeSPS = some (.ok (4294967296, 4294967296)) ∧
      startDecoder 4294967296 4294967296 = .ok ⟨4294967296, 4294967296⟩ ∧
      ¬Possible 4294967296 4294967296 :=
  ⟨by decide +kernel, startDecoder_eq_ok.mpr ⟨by decide, rfl⟩,
    fun h => absurd h.bounded (by decide)⟩

end Sps

end Jetkvm

end Paniolo
