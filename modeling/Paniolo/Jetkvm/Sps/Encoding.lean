import Paniolo.Jetkvm.Sps.PictureSize
import Paniolo.Jetkvm.Sps.Reads
import Paniolo.Library.H264

/-!
# Parsing an encoded parameter set

`parseSPS` against the syntax of the standard: the fields are read as they are coded, and the NAL
units of a byte stream are found again.
-/

namespace Paniolo

namespace Jetkvm

namespace Sps

open H264

theorem reads_ue' (k : Ue) : Reads ue (Bits.ue k) (UInt64.ofNat k) := by
  have hk := k.isLt
  exact reads_ue (by omega)

theorem reads_se' (z : Se) : Reads se (Bits.se z) (Int64.ofInt z) := reads_se z.property

theorem reads_skipSe (offsets : List Se) :
    Reads (skipSe offsets.length) (offsets.flatMap fun z : Se => Bits.se z) () := by
  induction offsets with
  | nil => exact reads_pure ()
  | cons z offsets ih => exact reads_ok.next (reads_ite_pos rfl ((reads_se' z).bind ih))

/-- Behind a scale of zero nothing is coded. -/
theorem reads_scalingFrom_zero (n : Nat) (last : Int64) : Reads (scalingFrom n last 0) [] () := by
  induction n with
  | zero => exact reads_pure ()
  | succ n ih => exact reads_ok.next (reads_ite_pos rfl (reads_ite_neg (fun h => h rfl) ih))

/-- The next scale. -/
theorem toInt_scale {last : Int} {l : Int64} (hl : l.toInt = last) (hlast : 0 ≤ last ∧ last ≤ 255)
    {d : Int} (hd : -128 ≤ d ∧ d ≤ 127) :
    ((l + Int64.ofInt d + 256) % 256).toInt = (last + d + 256) % 256 := by
  have hdelta : (Int64.ofInt d).toInt = d := Int64.toInt_ofInt_of_le (by omega) (by omega)
  have hsum : (l + Int64.ofInt d).toInt = last + d := toInt_add hl hdelta ⟨by omega, by omega⟩
  have hpos : (l + Int64.ofInt d + 256).toInt = last + d + 256 :=
    toInt_add hsum rfl ⟨by omega, by omega⟩
  rw [Int64.toInt_mod, hpos]
  exact Int.tmod_eq_emod_of_nonneg (by omega)

theorem reads_scalingFrom {n : Nat} {last : Int} {ds : List Int} (h : Deltas n last ds)
    (hlast : 0 ≤ last ∧ last ≤ 255) {l next : Int64} (hl : l.toInt = last) (hnext : next ≠ 0) :
    Reads (scalingFrom n l next) (ds.flatMap Bits.se) () := by
  induction h generalizing l next with
  | full last => exact reads_pure ()
  | @stop n last d hd hzero =>
      have hscale : (l + Int64.ofInt d + 256) % 256 = 0 :=
        Int64.toInt_inj.mp ((toInt_scale hl hlast hd).trans hzero)
      refine reads_ok.next (reads_ite_pos rfl (reads_ite_pos hnext ?_))
      refine (reads_se ⟨by omega, by omega⟩).bind ?_
      rw [hscale]
      exact reads_scalingFrom_zero _ _
  | @next n last d ds hd hne hds ih =>
      have htoInt := toInt_scale hl hlast hd
      have hscale : (l + Int64.ofInt d + 256) % 256 ≠ 0 := by
        intro hzero
        rw [hzero] at htoInt
        exact hne htoInt.symm
      refine reads_ok.next (reads_ite_pos rfl (reads_ite_pos hnext ?_))
      refine (reads_se ⟨by omega, by omega⟩).bind ?_
      dsimp only
      rw [if_pos hscale]
      exact ih ⟨by omega, by omega⟩ htoInt hscale

theorem reads_scalingLists {i : Nat} {l : List (Option (List Int))} (h : ScalingLists i l) :
    Reads (scalingLists l.length i) (l.flatMap scalingListBits) () := by
  have hsize : ∀ i, (if 6 ≤ i then 64 else 16) = scalingListSize i := by
    intro i
    rw [scalingListSize]
    split <;> split <;> omega
  induction h with
  | nil i => exact reads_pure ()
  | absent hl ih =>
      exact (reads_bit false).bind (reads_ite_neg (fun h => absurd h (by decide)) ih)
  | @present i ds l hds hl ih =>
      have hlist : Reads (scalingFrom (scalingListSize i) 8 8) (ds.flatMap Bits.se) () :=
        reads_scalingFrom hds (by decide) rfl (by decide)
      rw [← hsize] at hlist
      have hboth := (reads_bit true).bind
        (f := fun b => if b = 1 then
          scalingFrom (if 6 ≤ i then 64 else 16) 8 8 >>= fun _ => scalingLists l.length (i + 1)
          else scalingLists l.length (i + 1)) (reads_ite_pos rfl (hlist.bind ih))
      exact hboth

/-- `chroma_format_idc`, which is one where it is not coded. -/
def chromaFormatIdc : Option ChromaFields → Nat
  | none => 1
  | some c => c.chromaFormatIdc

theorem mem_highProfiles (p : UInt8) :
    UInt64.ofNat p.toNat ∈ highProfiles ↔ p ∈ H264.highProfiles := by
  have hmap : highProfiles = H264.highProfiles.map fun p => UInt64.ofNat p.toNat := rfl
  rw [hmap]
  refine List.mem_map_of_injective fun p q h => ?_
  have htoNat : ∀ p : UInt8, (UInt64.ofNat p.toNat).toNat = p.toNat := fun p =>
    UInt64.toNat_ofNat_of_lt' (p.toNat_lt.trans (by decide))
  have heq := congrArg UInt64.toNat h
  rw [htoNat, htoNat] at heq
  exact UInt8.toNat_inj.mp heq

/-- The chroma fields behind `chroma_format_idc` and the flag that goes with it. -/
theorem reads_chromaRest (c : ChromaFields) (chroma : UInt64) {n : Nat}
    (hn : n = if c.chromaFormatIdc = 3 then 12 else 8) :
    Reads (do
        let _ ← ue
        let _ ← ue
        let _ ← bit
        if (← bit) = 1 then scalingLists n 0
        pure chroma)
      (Bits.ue c.bitDepthLumaMinus8 ++ (Bits.ue c.bitDepthChromaMinus8 ++
        ([c.qpprimeYZeroTransformBypass] ++ c.matrixBits))) chroma := by
  refine (reads_ue' _).bind ((reads_ue' _).bind ((reads_bit _).bind ?_))
  rw [ChromaFields.matrixBits]
  cases hmatrix : c.scalingMatrix with
  | none => exact (reads_bit false).bind (reads_ite_neg (by decide) (reads_pure chroma))
  | some l =>
      obtain ⟨hl, hlen⟩ := c.lists l hmatrix
      have hlists := reads_scalingLists hl
      rw [hlen, ← hn] at hlists
      have hread := hlists.bind (f := fun _ => pure chroma) (reads_pure chroma)
      rw [List.append_nil] at hread
      exact (reads_bit true).bind (reads_ite_pos rfl hread)

theorem reads_chromaFields (c : ChromaFields) {profile : UInt64}
    (hprofile : profile ∈ highProfiles) :
    Reads (chromaFormat profile) c.bits (UInt64.ofNat c.chromaFormatIdc) := by
  have hthree : UInt64.ofNat c.chromaFormatIdc = 3 ↔ c.chromaFormatIdc = 3 := by
    generalize c.chromaFormatIdc = idc
    revert idc
    decide
  have hread : Reads ue (Bits.ue c.chromaFormatIdc) (UInt64.ofNat c.chromaFormatIdc) :=
    reads_ue (by omega)
  rw [ChromaFields.bits]
  refine reads_ite_pos hprofile ?_
  simp only [List.append_assoc]
  refine hread.bind ?_
  by_cases hidc : c.chromaFormatIdc = 3
  · rw [if_pos hidc]
    have hrest := reads_chromaRest c (UInt64.ofNat c.chromaFormatIdc) (n := 12) (if_pos hidc).symm
    refine reads_ite_pos (hthree.mpr hidc) ((reads_bit _).bind ?_)
    rw [if_pos (hthree.mpr hidc)]
    exact hrest
  · rw [if_neg hidc, List.nil_append]
    have hrest := reads_chromaRest c (UInt64.ofNat c.chromaFormatIdc) (n := 8) (if_neg hidc).symm
    refine reads_ite_neg (fun h => hidc (hthree.mp h)) ?_
    rw [if_neg fun h => hidc (hthree.mp h)]
    exact hrest

theorem reads_chromaFormat {s : SeqParameterSet} :
    Reads (chromaFormat (UInt64.ofNat s.profileIdc.toNat)) (s.chroma.toList.flatMap (·.bits))
      (UInt64.ofNat (chromaFormatIdc s.chroma)) := by
  have hiff := s.chroma_iff
  rw [← mem_highProfiles] at hiff
  cases hc : s.chroma with
  | none =>
      rw [hc] at hiff
      exact reads_ite_neg (fun h => nomatch hiff.mpr h) (reads_pure 1)
  | some c =>
      rw [hc] at hiff
      have hread := reads_chromaFields c (hiff.mp rfl)
      rw [← List.flatMap_singleton (fun c : ChromaFields => c.bits) c] at hread
      exact hread

theorem reads_picOrderCnt (t : PicOrderCnt) : Reads picOrderCnt t.bits () := by
  cases t with
  | type0 lsb =>
      rw [PicOrderCnt.bits, ← List.append_nil (Bits.ue lsb)]
      exact (reads_ue (by decide)).bind
        (reads_ite_pos rfl ((reads_ue' lsb).bind (reads_pure ())))
  | type1 zero nonRef topBottom offsets hlength =>
      have hn : (UInt64.ofNat offsets.length).toNat = offsets.length :=
        UInt64.toNat_ofNat_of_lt' (by change _ < 2 ^ 64; omega)
      have hskip := reads_skipSe offsets
      rw [← hn] at hskip
      rw [PicOrderCnt.bits]
      simp only [List.append_assoc]
      refine (reads_ue (by decide)).bind (reads_ite_neg (by decide) (reads_ite_pos rfl ?_))
      exact (reads_bit zero).bind ((reads_se' nonRef).bind ((reads_se' topBottom).bind
        ((reads_ue (by omega)).bind hskip)))
  | type2 =>
      rw [PicOrderCnt.bits, ← List.append_nil (Bits.ue 2)]
      exact (reads_ue (by decide)).bind
        (reads_ite_neg (by decide) (reads_ite_neg (by decide) (reads_pure ())))

/-- The offsets as they are read. -/
def cropOf (c : Cropping) : Crop :=
  ⟨UInt64.ofNat c.left, UInt64.ofNat c.right, UInt64.ofNat c.top, UInt64.ofNat c.bottom⟩

theorem reads_cropping (c : Option Cropping) :
    Reads cropping (croppingBits c) (c.map cropOf) := by
  cases c with
  | none => exact (reads_bit false).bind (reads_ite_neg (by decide) (reads_pure none))
  | some c =>
      rw [croppingBits]
      simp only [List.append_assoc]
      rw [← List.append_nil (Bits.ue c.bottom)]
      exact (reads_bit true).bind (reads_ite_pos rfl ((reads_ue' _).bind ((reads_ue' _).bind
        ((reads_ue' _).bind ((reads_ue' _).bind (reads_pure _))))))

/-- The fields as they are read. -/
def fieldsOf (s : SeqParameterSet) : Fields :=
  ⟨UInt64.ofNat (chromaFormatIdc s.chroma), UInt64.ofNat s.picWidthInMbsMinus1,
    UInt64.ofNat s.picHeightInMapUnitsMinus1, UInt64.ofNat s.frameMbsOnly.toNat,
    s.cropping.map cropOf⟩

theorem reads_byte (b : UInt8) : Reads (bits 8) (Bits.u 8 b.toNat) (UInt64.ofNat b.toNat) := by
  have hread := reads_bits (by decide : 8 ≤ 64) b.toNat
  rwa [Nat.mod_eq_of_lt b.toNat_lt] at hread

theorem reads_fields (s : SeqParameterSet) : Reads fields s.fieldBits (fieldsOf s) := by
  have hcrop := (reads_cropping s.cropping).bind
    (f := fun crop => pure (Fields.mk (UInt64.ofNat (chromaFormatIdc s.chroma))
      (UInt64.ofNat s.picWidthInMbsMinus1) (UInt64.ofNat s.picHeightInMapUnitsMinus1)
      (UInt64.ofNat s.frameMbsOnly.toNat) crop)) (reads_pure _)
  rw [List.append_nil] at hcrop
  have hlast := (reads_bit s.direct8x8Inference).bind (f := fun _ => cropping >>= fun crop =>
    pure (Fields.mk (UInt64.ofNat (chromaFormatIdc s.chroma))
      (UInt64.ofNat s.picWidthInMbsMinus1) (UInt64.ofNat s.picHeightInMapUnitsMinus1)
      (UInt64.ofNat s.frameMbsOnly.toNat) crop)) hcrop
  rw [SeqParameterSet.fieldBits]
  simp only [List.append_assoc]
  refine (reads_byte _).bind ((reads_byte _).bind ((reads_byte _).bind ((reads_ue' _).bind ?_)))
  refine reads_chromaFormat.bind ((reads_ue' _).bind ((reads_picOrderCnt _).bind ?_))
  refine (reads_ue' _).bind ((reads_bit _).bind ((reads_ue' _).bind ((reads_ue' _).bind ?_)))
  refine (reads_bit s.frameMbsOnly).bind ?_
  rw [fieldsOf]
  generalize s.frameMbsOnly = frameMbsOnly at hlast
  cases frameMbsOnly with
  | false => exact reads_ite_pos rfl ((reads_bit _).bind hlast)
  | true => exact reads_ite_neg (by decide) hlast

theorem removeEmulation_escape (zeros : Nat) (l : List UInt8) :
    removeEmulation zeros (AnnexB.escape zeros l) = l := by
  induction l generalizing zeros with
  | nil => rfl
  | cons b l ih =>
      rw [AnnexB.escape]
      split
      · next hescaped =>
          rw [removeEmulation, if_pos ⟨hescaped.1, rfl⟩, removeEmulation,
            if_neg fun h => absurd h.1 (by decide), ih]
      · next hplain =>
          have hthree : ¬(2 ≤ zeros ∧ b = 3) := by
            rintro ⟨hzeros, rfl⟩
            exact hplain ⟨hzeros, by decide⟩
          rw [removeEmulation, if_neg hthree, ih]

theorem ofBytes_payload (s : SeqParameterSet) : Bits.ofBytes s.payload = s.payloadBits :=
  Bits.ofBytes_trailing _

theorem three_le_payload (s : SeqParameterSet) : 3 ≤ s.payload.length := by
  have hlen := congrArg List.length (ofBytes_payload s)
  have hfields : 24 ≤ s.fieldBits.length := by
    rw [SeqParameterSet.fieldBits]
    simp only [List.length_append, Bits.length_u]
    omega
  rw [Bits.length_ofBytes, SeqParameterSet.payloadBits, List.length_append,
    List.length_append] at hlen
  omega

/-- The fields of an encoded parameter set are read back. -/
theorem parseFields_nalUnit (s : SeqParameterSet) (refIdc : Fin 4) :
    parseFields (s.nalUnit refIdc).bytes = some (.ok (fieldsOf s)) := by
  have hheader : ∀ refIdc : Fin 4, UInt8.ofNat (32 * refIdc + 7) &&& 0x1f = 7 := by decide
  have hlen : ¬(s.nalUnit refIdc).bytes.length < 4 := by
    have hescape := AnnexB.length_le_escape 0 s.payload
    have hthree := three_le_payload s
    change ¬(AnnexB.escape 0 s.payload).length + 1 < 4
    omega
  have hrest : BitReader.rest ⟨s.payload, 0, none⟩ =
      s.fieldBits ++ (s.rest ++ Bits.trailing (s.fieldBits ++ s.rest).length) := by
    rw [← List.append_assoc]
    exact ofBytes_payload s
  have hread := reads_fields s ⟨s.payload, 0, none⟩ _ rfl hrest
  rw [parseFields, if_neg hlen]
  change (some (UInt8.ofNat (32 * refIdc + 7))).bind _ = _
  rw [Option.bind_some, if_neg (not_not.mpr (hheader refIdc))]
  change (fields ⟨removeEmulation 0 (AnnexB.escape 0 s.payload), 0, none⟩).map _ = _
  rw [removeEmulation_escape, hread]
  rfl

theorem cropUnits_fieldsOf (s : SeqParameterSet) :
    (fieldsOf s).cropUnits.1.toInt = (subsampling (chromaArrayType s.chroma)).1 ∧
      (fieldsOf s).cropUnits.2.toInt =
        ((subsampling (chromaArrayType s.chroma)).2 * (2 - s.frameMbsOnly.toNat) : Nat) := by
  have hchroma : (fieldsOf s).chroma = UInt64.ofNat (chromaFormatIdc s.chroma) := rfl
  have hframe : (fieldsOf s).frameMbsOnly = UInt64.ofNat s.frameMbsOnly.toNat := rfl
  rw [Fields.cropUnits, hchroma, hframe]
  generalize s.frameMbsOnly = frameMbsOnly
  cases s.chroma with
  | none =>
      revert frameMbsOnly
      decide
  | some c =>
      rw [chromaFormatIdc, chromaArrayType]
      generalize c.chromaFormatIdc = idc
      generalize c.separateColourPlane = separate
      revert idc separate frameMbsOnly
      decide

/-- The size of the fields is the one of the standard. -/
theorem codedSize_fieldsOf (s : SeqParameterSet) :
    (fieldsOf s).codedSize = ((s.croppedWidth : Int), (s.croppedHeight : Int)) := by
  have hofNat : ∀ k : Ue, (UInt64.ofNat k).toNat = k := fun k =>
    UInt64.toNat_ofNat_of_lt' (by change _ < 2 ^ 64; omega)
  have hflag : (UInt64.ofNat s.frameMbsOnly.toNat).toNat = s.frameMbsOnly.toNat := by
    cases s.frameMbsOnly <;> rfl
  have hle := Bool.toNat_le s.frameMbsOnly
  obtain ⟨hx, hy⟩ := cropUnits_fieldsOf s
  have hfactor : ((2 - s.frameMbsOnly.toNat : Nat) : Int) = 2 - s.frameMbsOnly.toNat := by omega
  have hlt := s.cropping_lt
  rw [Fields.codedSize, hx, hy, SeqParameterSet.croppedWidth, SeqParameterSet.croppedHeight,
    fieldsOf]
  dsimp only
  rw [hofNat, hofNat, hflag, ← hfactor]
  cases hc : s.cropping with
  | none =>
      refine Prod.ext ?_ ?_
      · rfl
      · exact Int.mul_comm ..
  | some c =>
      rw [hc] at hlt
      obtain ⟨hw, hh⟩ := hlt c rfl
      change (_ - ((UInt64.ofNat c.left).toNat + (UInt64.ofNat c.right).toNat : Int) * _,
        _ - ((UInt64.ofNat c.top).toNat + (UInt64.ofNat c.bottom).toNat : Int) * _) = _
      rw [hofNat, hofNat, hofNat, hofNat]
      refine Prod.ext ?_ ?_
      · dsimp only [Option.elim]
        rw [Int.natCast_sub hw.le]
        push_cast
        ring
      · dsimp only [Option.elim]
        rw [Int.natCast_sub hh.le]
        push_cast
        ring

end Sps

end Jetkvm

end Paniolo
