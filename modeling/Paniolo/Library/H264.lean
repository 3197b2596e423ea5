import Paniolo.Library.AnnexB
import Paniolo.Library.Bits

/-!
# Sequence parameter sets

The syntax of H.264's sequence parameter set, with all its conditional fields up to the cropping
rectangle, and the cropped picture size that it stands for. Numbers that are coded with `ue(v)` and
`se(v)` may have any value that these codes have; the standard allows fewer.
-/

namespace Paniolo

namespace H264

/-- What `ue(v)` codes. -/
abbrev Ue := Fin (2 ^ 32 - 1)

/-- What `se(v)` codes. -/
abbrev Se := { z : Int // -2 ^ 31 < z ∧ z < 2 ^ 31 }

/-- The differences that code `n` more entries of a scaling list after the scale `last`: all of
them, or so many that the next scale is zero. -/
inductive Deltas : Nat → Int → List Int → Prop
  | full (last : Int) : Deltas 0 last []
  | stop {n : Nat} {last d : Int} (hd : -128 ≤ d ∧ d ≤ 127) (hzero : (last + d + 256) % 256 = 0) :
      Deltas (n + 1) last [d]
  | next {n : Nat} {last d : Int} {ds : List Int} (hd : -128 ≤ d ∧ d ≤ 127)
      (hne : (last + d + 256) % 256 ≠ 0) (hds : Deltas n ((last + d + 256) % 256) ds) :
      Deltas (n + 1) last (d :: ds)

/-- The number of entries of the `i`th scaling list. -/
def scalingListSize (i : Nat) : Nat := if i < 6 then 16 else 64

/-- The scaling lists from the `i`th on: each one is coded or left out. -/
inductive ScalingLists : Nat → List (Option (List Int)) → Prop
  | nil (i : Nat) : ScalingLists i []
  | absent {i : Nat} {l : List (Option (List Int))} (hl : ScalingLists (i + 1) l) :
      ScalingLists i (none :: l)
  | present {i : Nat} {ds : List Int} {l : List (Option (List Int))}
      (hds : Deltas (scalingListSize i) 8 ds) (hl : ScalingLists (i + 1) l) :
      ScalingLists i (some ds :: l)

/-- The profiles whose parameter sets have the fields of `ChromaFields`. -/
def highProfiles : List UInt8 := [100, 110, 122, 244, 44, 83, 86, 118, 128, 138, 139, 134, 135]

structure ChromaFields where
  chromaFormatIdc : Fin 4
  /-- Coded with `chroma_format_idc` 3 only. -/
  separateColourPlane : Bool
  bitDepthLumaMinus8 : Ue
  bitDepthChromaMinus8 : Ue
  qpprimeYZeroTransformBypass : Bool
  scalingMatrix : Option (List (Option (List Int)))
  lists : ∀ l ∈ scalingMatrix, ScalingLists 0 l ∧ l.length = if chromaFormatIdc = 3 then 12 else 8

inductive PicOrderCnt where
  | type0 (log2MaxLsbMinus4 : Ue)
  | type1 (deltaAlwaysZero : Bool) (offsetForNonRefPic offsetForTopToBottomField : Se)
      (offsetsForRefFrame : List Se) (hlength : offsetsForRefFrame.length < 2 ^ 32 - 1)
  | type2

structure Cropping where
  left : Ue
  right : Ue
  top : Ue
  bottom : Ue

/-- `ChromaArrayType`; without the chroma fields the format is 4:2:0. -/
def chromaArrayType : Option ChromaFields → Nat
  | none => 1
  | some c => if c.chromaFormatIdc = 3 ∧ c.separateColourPlane then 0 else c.chromaFormatIdc

/-- `SubWidthC` and `SubHeightC`, or one where there are no chroma samples of their own. -/
def subsampling : Nat → Nat × Nat
  | 1 => (2, 2)
  | 2 => (2, 1)
  | _ => (1, 1)

structure SeqParameterSet where
  profileIdc : UInt8
  constraintFlags : UInt8
  levelIdc : UInt8
  id : Ue
  chroma : Option ChromaFields
  log2MaxFrameNumMinus4 : Ue
  picOrderCnt : PicOrderCnt
  maxNumRefFrames : Ue
  gapsInFrameNumAllowed : Bool
  picWidthInMbsMinus1 : Ue
  picHeightInMapUnitsMinus1 : Ue
  frameMbsOnly : Bool
  /-- Coded unless `frameMbsOnly`. -/
  mbAdaptiveFrameField : Bool
  direct8x8Inference : Bool
  cropping : Option Cropping
  /-- The bits behind the cropping rectangle. -/
  rest : List Bool
  chroma_iff : chroma.isSome ↔ profileIdc ∈ highProfiles
  cropping_lt : ∀ c ∈ cropping,
    (subsampling (chromaArrayType chroma)).1 * (c.left + c.right : Nat) <
        16 * (picWidthInMbsMinus1 + 1) ∧
      (subsampling (chromaArrayType chroma)).2 * (2 - frameMbsOnly.toNat) *
          (c.top + c.bottom : Nat) <
        16 * ((2 - frameMbsOnly.toNat) * (picHeightInMapUnitsMinus1 + 1))

open Bits

def scalingListBits : Option (List Int) → List Bool
  | none => [false]
  | some ds => true :: ds.flatMap se

namespace ChromaFields

def matrixBits (c : ChromaFields) : List Bool :=
  match c.scalingMatrix with
  | none => [false]
  | some l => true :: l.flatMap scalingListBits

def bits (c : ChromaFields) : List Bool :=
  ue c.chromaFormatIdc ++ (if c.chromaFormatIdc = 3 then [c.separateColourPlane] else []) ++
    ue c.bitDepthLumaMinus8 ++ ue c.bitDepthChromaMinus8 ++ [c.qpprimeYZeroTransformBypass] ++
    c.matrixBits

end ChromaFields

namespace PicOrderCnt

def bits : PicOrderCnt → List Bool
  | type0 lsb => ue 0 ++ ue lsb
  | type1 zero nonRef topBottom offsets _ =>
      ue 1 ++ zero :: (se nonRef ++ se topBottom ++ ue offsets.length ++
        offsets.flatMap fun z : Se => se z)
  | type2 => ue 2

end PicOrderCnt

def croppingBits : Option Cropping → List Bool
  | none => [false]
  | some c => true :: (ue c.left ++ ue c.right ++ ue c.top ++ ue c.bottom)

namespace SeqParameterSet

variable (s : SeqParameterSet)

/-- The fields up to the cropping rectangle. -/
def fieldBits : List Bool :=
  u 8 s.profileIdc.toNat ++ u 8 s.constraintFlags.toNat ++ u 8 s.levelIdc.toNat ++ ue s.id ++
    s.chroma.toList.flatMap ChromaFields.bits ++ ue s.log2MaxFrameNumMinus4 ++ s.picOrderCnt.bits ++
    ue s.maxNumRefFrames ++ [s.gapsInFrameNumAllowed] ++ ue s.picWidthInMbsMinus1 ++
    ue s.picHeightInMapUnitsMinus1 ++ [s.frameMbsOnly] ++
    (if s.frameMbsOnly then [] else [s.mbAdaptiveFrameField]) ++ [s.direct8x8Inference] ++
    croppingBits s.cropping

/-- All bits of the payload, with those that fill the last byte. -/
def payloadBits : List Bool :=
  s.fieldBits ++ s.rest ++ trailing (s.fieldBits ++ s.rest).length

def payload : List UInt8 := toBytes s.payloadBits

/-- The width of the picture that is shown. -/
def croppedWidth : Nat :=
  16 * (s.picWidthInMbsMinus1 + 1) - s.cropping.elim 0 fun c =>
    (subsampling (chromaArrayType s.chroma)).1 * (c.left + c.right : Nat)

/-- The height of the picture that is shown. -/
def croppedHeight : Nat :=
  16 * ((2 - s.frameMbsOnly.toNat) * (s.picHeightInMapUnitsMinus1 + 1)) - s.cropping.elim 0 fun c =>
    (subsampling (chromaArrayType s.chroma)).2 * (2 - s.frameMbsOnly.toNat) *
      (c.top + c.bottom : Nat)

theorem croppedWidth_pos : 0 < s.croppedWidth := by
  have hlt := s.cropping_lt
  rw [croppedWidth]
  cases hc : s.cropping with
  | none => exact Nat.mul_pos (by decide) (Nat.succ_pos _)
  | some c => exact Nat.sub_pos_of_lt (hlt c hc).1

theorem croppedHeight_pos : 0 < s.croppedHeight := by
  have hlt := s.cropping_lt
  have hflag := Bool.toNat_le s.frameMbsOnly
  rw [croppedHeight]
  cases hc : s.cropping with
  | none => exact Nat.mul_pos (by decide) (Nat.mul_pos (by omega) (Nat.succ_pos _))
  | some c => exact Nat.sub_pos_of_lt (hlt c hc).2

/-- The NAL unit of the parameter set. -/
def nalUnit (refIdc : Fin 4) : AnnexB.NalUnit :=
  .escaped (UInt8.ofNat (32 * refIdc + 7)) s.payload (by revert refIdc; decide)
    (getLast?_trailing _)

end SeqParameterSet

end H264

end Paniolo
