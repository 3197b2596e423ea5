import Paniolo.Jetkvm.Sps.Encoding

/-!
# Parameter sets in a byte stream

`splitAnnexB` against the byte stream format: the units come out as they were put in, wherever they
stand and however many zero bytes are between them. With the encoding of a parameter set this says
that the picture size is found.
-/

namespace Paniolo

namespace Jetkvm

namespace Sps

open AnnexB H264

/-- The loop at a start code, and where there is none. -/
theorem splitFrom_eq (b : List UInt8) (i : Nat) (start : Option Nat) (out : List (List UInt8)) :
    splitFrom b i start out =
      if i + 2 < b.length then
        if StartsAt b i then
          (closeUnit b start i out).bind fun out => splitFrom b (i + 3) (some (i + 3)) out
        else splitFrom b (i + 1) start out
      else some (start, out) := by
  rw [splitFrom]
  split
  · next hi =>
      have hx := List.getElem?_eq_getElem (by omega : i < b.length)
      have hy := List.getElem?_eq_getElem (by omega : i + 1 < b.length)
      have hz := List.getElem?_eq_getElem hi
      have hiff : StartsAt b i ↔ b[i] = 0 ∧ b[i + 1] = 0 ∧ b[i + 2] = 1 := by
        rw [StartsAt, hx, hy, hz, Option.some.injEq, Option.some.injEq, Option.some.injEq]
      rw [hx, hy, hz]
      exact (if_congr hiff rfl rfl).symm
  · rfl

theorem splitFrom_end {b : List UInt8} {i : Nat} (hi : b.length ≤ i + 2) (start : Option Nat)
    (out : List (List UInt8)) : splitFrom b i start out = some (start, out) := by
  rw [splitFrom_eq, if_neg (Nat.not_lt.mpr hi)]

/-- The loop moves on to the next start code. -/
theorem splitFrom_skip {b : List UInt8} {i k : Nat} (h : ∀ j < k, ¬StartsAt b (i + j))
    (start : Option Nat) (out : List (List UInt8)) :
    splitFrom b i start out = splitFrom b (i + k) start out := by
  induction k generalizing i with
  | zero => rfl
  | succ k ih =>
      by_cases hi : i + 2 < b.length
      · have hrest := ih (i := i + 1) fun j hj => by
          rw [Nat.add_assoc, Nat.add_comm 1]
          exact h (j + 1) (Nat.succ_lt_succ hj)
        have hhere : ¬StartsAt b i := h 0 (Nat.succ_pos k)
        rw [splitFrom_eq, if_pos hi, if_neg hhere, hrest, Nat.add_assoc, Nat.add_comm 1]
      · rw [splitFrom_end (by omega), splitFrom_end (by omega)]

theorem splitFrom_startsAt {b : List UInt8} {i : Nat} (h : StartsAt b i) (start : Option Nat)
    (out : List (List UInt8)) :
    splitFrom b i start out =
      (closeUnit b start i out).bind fun out => splitFrom b (i + 3) (some (i + 3)) out := by
  have hi : i + 2 < b.length := (List.getElem?_eq_some_iff.mp h.2.2).1
  rw [splitFrom_eq, if_pos hi, if_pos h]

theorem slice_append (a l rest : List UInt8) :
    slice (a ++ (l ++ rest)) a.length (a.length + l.length) = some l := by
  have hlen : a.length + l.length ≤ (a ++ (l ++ rest)).length := by
    rw [List.length_append, List.length_append]
    omega
  rw [slice, if_pos ⟨Nat.le_add_right .., hlen⟩, List.take_length_add_append, List.take_left,
    List.drop_left]

/-- Zero bytes behind a unit are trimmed. -/
theorem trimZeros_unit (n : NalUnit) (zeros : Nat) :
    trimZeros (n.bytes ++ List.replicate zeros 0) = n.bytes := by
  obtain ⟨x, hlast, hx⟩ := n.last_ne_zero
  induction zeros with
  | zero =>
      rw [List.replicate_zero, List.append_nil, trimZeros, List.rdropWhile_eq_self_iff]
      intro hne
      rw [List.getLast?_eq_some_getLast hne] at hlast
      rw [Option.some.inj hlast, beq_iff_eq]
      exact hx
  | succ zeros ih =>
      rw [List.replicate_succ', ← List.append_assoc, trimZeros,
        List.rdropWhile_concat_pos (fun x => x == 0) _ _ rfl]
      exact ih

theorem closeUnit_unit (a : List UInt8) (n : NalUnit) (zeros : Nat) (rest : List UInt8)
    (out : List (List UInt8)) :
    closeUnit (a ++ (n.bytes ++ (List.replicate zeros 0 ++ rest))) (some a.length)
      (a.length + (n.bytes.length + zeros)) out = some (out ++ [n.bytes]) := by
  have hslice := slice_append a (n.bytes ++ List.replicate zeros 0) rest
  rw [List.length_append, List.length_replicate, List.append_assoc] at hslice
  rw [closeUnit, hslice, Option.map_some, trimZeros_unit]

/-- Behind the start code of a unit, the loop adds it and all that follow. -/
theorem splitFrom_unit (a : List UInt8) (n : NalUnit) (units : List (Nat × NalUnit)) (zeros : Nat)
    (out : List (List UInt8)) : ∃ s out',
      splitFrom (a ++ (n.bytes ++ byteStream units zeros)) a.length (some a.length) out =
          some (some s, out') ∧
        s < (a ++ (n.bytes ++ byteStream units zeros)).length ∧
        closeUnit (a ++ (n.bytes ++ byteStream units zeros)) (some s)
            (a ++ (n.bytes ++ byteStream units zeros)).length out' =
          some (out ++ n.bytes :: units.map fun u => u.2.bytes) := by
  induction units generalizing a n out with
  | nil =>
      have hstream : byteStream [] zeros = List.replicate zeros 0 ++ [] := (List.append_nil _).symm
      have hskip := splitFrom_skip (b := a ++ (n.bytes ++ (List.replicate zeros 0 ++ [])))
        (i := a.length) (k := n.bytes.length + zeros) (fun j hj => by
          rw [startsAt_append_left]
          exact n.not_startsAt (fun j _ => by
            rw [List.append_nil]
            exact not_startsAt_replicate zeros j) hj) (some a.length) out
      have hlen : (a ++ (n.bytes ++ (List.replicate zeros 0 ++ []))).length =
          a.length + (n.bytes.length + zeros) := by
        rw [List.append_nil, List.length_append, List.length_append, List.length_replicate]
      have hpos := n.length_pos
      rw [hstream, hlen]
      refine ⟨a.length, out, ?_, by omega, closeUnit_unit a n zeros [] out⟩
      rw [hskip]
      exact splitFrom_end (by omega) _ _
  | cons u units ih =>
      obtain ⟨z, m⟩ := u
      obtain ⟨s, out', hsplit, hs, hclose⟩ :=
        ih (a ++ (n.bytes ++ (List.replicate z 0 ++ [0, 0, 1]))) m (out ++ [n.bytes])
      have hstream : a ++ (n.bytes ++ byteStream ((z, m) :: units) zeros) =
          a ++ (n.bytes ++ (List.replicate z 0 ++ [0, 0, 1])) ++
            (m.bytes ++ byteStream units zeros) := by
        rw [byteStream_cons]
        simp only [List.append_assoc, List.cons_append, List.nil_append]
      have hskip := splitFrom_skip (b := a ++ (n.bytes ++ (List.replicate z 0 ++
          0 :: 0 :: 1 :: (m.bytes ++ byteStream units zeros))))
        (i := a.length) (k := n.bytes.length + z) (fun j hj => by
          rw [startsAt_append_left]
          exact n.not_startsAt (fun j hj => not_startsAt_zeros hj _) hj) (some a.length) out
      have hstart : StartsAt (a ++ (n.bytes ++ (List.replicate z 0 ++
          0 :: 0 :: 1 :: (m.bytes ++ byteStream units zeros))))
          (a.length + (n.bytes.length + z)) := by
        rw [startsAt_append_left, startsAt_append_left]
        exact startsAt_zeros z _
      have hlen : (a ++ (n.bytes ++ (List.replicate z 0 ++ [0, 0, 1]))).length =
          a.length + (n.bytes.length + z) + 3 := by
        simp only [List.length_append, List.length_replicate, List.length_cons, List.length_nil]
        omega
      rw [hlen] at hsplit
      rw [← hstream] at hsplit hs hclose
      refine ⟨s, out', ?_, hs, ?_⟩
      · rw [byteStream_cons] at hsplit ⊢
        rw [hskip, splitFrom_startsAt hstart, closeUnit_unit, Option.bind_some]
        exact hsplit
      · rw [List.append_assoc] at hclose
        exact hclose

/-- The units of a byte stream are found, in their order. -/
theorem splitAnnexB_byteStream (units : List (Nat × NalUnit)) (zeros : Nat) :
    splitAnnexB (byteStream units zeros) = some (units.map fun u => u.2.bytes) := by
  have hne : ∀ l ∈ units.map fun u => u.2.bytes, decide (l ≠ []) = true := by
    intro l hl
    obtain ⟨u, -, rfl⟩ := List.mem_map.mp hl
    exact decide_eq_true (List.ne_nil_of_length_pos u.2.length_pos)
  cases units with
  | nil =>
      have hskip := splitFrom_skip (b := byteStream [] zeros) (i := 0)
        (k := (byteStream [] zeros).length) (fun j _ => not_startsAt_replicate zeros _) none []
      have hend := splitFrom_end (b := byteStream [] zeros)
        (i := 0 + (byteStream [] zeros).length) (by omega) none []
      rw [splitAnnexB, hskip.trans hend]
      rfl
  | cons u units =>
      obtain ⟨z, n⟩ := u
      obtain ⟨s, out, hsplit, hs, hclose⟩ :=
        splitFrom_unit (List.replicate z 0 ++ [0, 0, 1]) n units zeros []
      have hstream : byteStream ((z, n) :: units) zeros =
          List.replicate z 0 ++ [0, 0, 1] ++ (n.bytes ++ byteStream units zeros) := by
        rw [byteStream_cons]
        simp only [List.append_assoc, List.cons_append, List.nil_append]
      have hskip := splitFrom_skip (b := List.replicate z 0 ++
          0 :: 0 :: 1 :: (n.bytes ++ byteStream units zeros)) (i := 0) (k := z)
        (fun j hj => by
          rw [Nat.zero_add]
          exact not_startsAt_zeros hj _) none []
      have hstart : StartsAt (List.replicate z 0 ++
          0 :: 0 :: 1 :: (n.bytes ++ byteStream units zeros)) (0 + z) := by
        rw [Nat.zero_add]
        exact startsAt_zeros z _
      have hfirst : splitFrom (byteStream ((z, n) :: units) zeros) 0 none [] =
          some (some s, out) := by
        rw [← hstream, List.length_append, List.length_replicate] at hsplit
        rw [byteStream_cons] at hsplit ⊢
        rw [hskip, splitFrom_startsAt hstart, Nat.zero_add]
        exact hsplit
      rw [← hstream] at hs hclose
      rw [splitAnnexB, hfirst]
      have hkept : (some s).filter (· < (byteStream ((z, n) :: units) zeros).length) = some s :=
        Option.filter_some_pos (decide_eq_true hs)
      change (closeUnit _ ((some s).filter (· < (byteStream ((z, n) :: units) zeros).length))
        _ out).bind _ = _
      rw [hkept, hclose]
      change some ((((z, n) :: units).map fun u => u.2.bytes).filter (· ≠ [])) = _
      rw [List.filter_eq_self.mpr hne]

/-- The picture size of an encoded parameter set. -/
theorem parseSPS_nalUnit (s : SeqParameterSet) (refIdc : Fin 4) : ∃ w h,
    parseSPS (s.nalUnit refIdc).bytes = some (.ok (w, h)) ∧
      w.toInt = s.croppedWidth ∧ h.toInt = s.croppedHeight := by
  have hsize := codedSize_fieldsOf s
  have hpos : 0 < (fieldsOf s).codedSize.1 ∧ 0 < (fieldsOf s).codedSize.2 := by
    rw [hsize]
    exact ⟨Int.natCast_pos.mpr s.croppedWidth_pos, Int.natCast_pos.mpr s.croppedHeight_pos⟩
  obtain ⟨w, h, hsps, hwh⟩ := parseSPS_of_fields (parseFields_nalUnit s refIdc) hpos
  rw [hsize, Prod.mk.injEq] at hwh
  exact ⟨w, h, hsps, hwh.1.symm, hwh.2.symm⟩

/-- A parameter set among other units is found, and its picture size with it; every other byte
string has a result as well. -/
theorem picture_size_found (s : SeqParameterSet) (refIdc : Fin 4)
    (before after : List (Nat × NalUnit)) (zeros trailing : Nat) :
    (splitAnnexB (byteStream (before ++ (zeros, s.nalUnit refIdc) :: after) trailing) =
        some (before.map (·.2.bytes) ++ (s.nalUnit refIdc).bytes :: after.map (·.2.bytes)) ∧
      ∃ w h, parseSPS (s.nalUnit refIdc).bytes = some (.ok (w, h)) ∧
        w.toInt = s.croppedWidth ∧ h.toInt = s.croppedHeight) ∧
      ∀ b, (∃ nals, splitAnnexB b = some nals) ∧ ∃ r, parseSPS b = some r := by
  refine ⟨⟨?_, parseSPS_nalUnit s refIdc⟩, fun b => ⟨splitAnnexB_isSome b, parseSPS_isSome b⟩⟩
  rw [splitAnnexB_byteStream, List.map_append, List.map_cons]

end Sps

end Jetkvm

end Paniolo
