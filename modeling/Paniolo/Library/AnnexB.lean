import Mathlib.Data.List.Basic

/-!
# Byte streams of NAL units

The byte stream format of H.264, Annex B, as an encoder writes it: each NAL unit stands behind a
start code, an escape byte keeps start codes out of the units, and zero bytes may be put between
them.
-/

namespace Paniolo

namespace AnnexB

/-- The start code prefix stands at position `i`. -/
def StartsAt (b : List UInt8) (i : Nat) : Prop :=
  b[i]? = some 0 ∧ b[i + 1]? = some 0 ∧ b[i + 2]? = some 1

instance (b : List UInt8) (i : Nat) : Decidable (StartsAt b i) := instDecidableAnd

/-- A NAL unit: its last byte is not zero, and no start code stands in it. -/
structure NalUnit where
  bytes : List UInt8
  last_ne_zero : ∃ x, bytes.getLast? = some x ∧ x ≠ 0
  clean : ∀ i, ¬StartsAt bytes i

/-- A NAL unit behind its start code, with `zeros` zero bytes before that. -/
def delimited (zeros : Nat) (n : NalUnit) : List UInt8 :=
  List.replicate zeros 0 ++ 0 :: 0 :: 1 :: n.bytes

/-- A byte stream that ends with `zeros` zero bytes. -/
def byteStream (units : List (Nat × NalUnit)) (zeros : Nat) : List UInt8 :=
  units.flatMap (fun u => delimited u.1 u.2) ++ List.replicate zeros 0

/-- Emulation prevention, behind `zeros` zero bytes: a three is put in front of a byte that would
go on to a start code or to another three. -/
def escape : Nat → List UInt8 → List UInt8
  | _, [] => []
  | zeros, b :: l =>
      if 2 ≤ zeros ∧ b ≤ 3 then 3 :: b :: escape (if b = 0 then 1 else 0) l
      else b :: escape (if b = 0 then zeros + 1 else 0) l

/-- Behind `zeros` zero bytes, no start code is completed. -/
def Scanned : Nat → List UInt8 → Prop
  | _, [] => True
  | zeros, b :: l => ¬(2 ≤ zeros ∧ b = 1) ∧ Scanned (if b = 0 then zeros + 1 else 0) l

theorem startsAt_append_left {a : List UInt8} (b : List UInt8) (i : Nat) :
    StartsAt (a ++ b) (a.length + i) ↔ StartsAt b i := by
  rw [StartsAt, StartsAt, Nat.add_assoc, Nat.add_assoc,
    List.getElem?_append_right (Nat.le_add_right ..),
    List.getElem?_append_right (Nat.le_add_right ..),
    List.getElem?_append_right (Nat.le_add_right ..), Nat.add_sub_cancel_left,
    Nat.add_sub_cancel_left, Nat.add_sub_cancel_left]

theorem startsAt_cons {x : UInt8} (b : List UInt8) (i : Nat) :
    StartsAt (x :: b) (i + 1) ↔ StartsAt b i := by
  rw [Nat.add_comm]
  exact startsAt_append_left (a := [x]) b i

theorem not_startsAt_cons {x : UInt8} (hx : x ≠ 0) (b : List UInt8) : ¬StartsAt (x :: b) 0 :=
  fun h => hx (Option.some.inj h.1)

theorem not_startsAt_replicate (zeros i : Nat) : ¬StartsAt (List.replicate zeros 0) i := by
  intro h
  have hone := List.eq_of_mem_replicate (List.mem_of_getElem? h.2.2)
  cases hone

/-- Zero bytes do not start a start code that does not follow them at once. -/
theorem not_startsAt_zeros {zeros i : Nat} (hi : i < zeros) (rest : List UInt8) :
    ¬StartsAt (List.replicate zeros 0 ++ 0 :: 0 :: rest) i := by
  have hzeros : List.replicate zeros 0 ++ 0 :: 0 :: rest =
      List.replicate (zeros + 2) (0 : UInt8) ++ rest := by
    rw [← List.replicate_append_replicate, List.append_assoc]
    rfl
  intro h
  have hthird := h.2.2
  rw [hzeros, List.getElem?_append_left (by rw [List.length_replicate]; omega)] at hthird
  have hone := List.eq_of_mem_replicate (List.mem_of_getElem? hthird)
  cases hone

/-- A start code follows the zero bytes before it. -/
theorem startsAt_zeros (zeros : Nat) (rest : List UInt8) :
    StartsAt (List.replicate zeros 0 ++ 0 :: 0 :: 1 :: rest) zeros := by
  have hhere := startsAt_append_left (a := List.replicate zeros 0) (0 :: 0 :: 1 :: rest) 0
  rw [List.length_replicate, Nat.add_zero] at hhere
  exact hhere.mpr ⟨rfl, rfl, rfl⟩

theorem byteStream_cons (z : Nat) (n : NalUnit) (units : List (Nat × NalUnit)) (zeros : Nat) :
    byteStream ((z, n) :: units) zeros =
      List.replicate z 0 ++ 0 :: 0 :: 1 :: (n.bytes ++ byteStream units zeros) := by
  rw [byteStream, List.flatMap_cons, delimited, byteStream]
  simp only [List.append_assoc, List.cons_append]

/-- No start code stands in scanned bytes, or begins in the zero bytes before them. -/
theorem Scanned.not_startsAt {zeros : Nat} {l : List UInt8} (h : Scanned zeros l) (i : Nat) :
    ¬StartsAt (List.replicate zeros 0 ++ l) i := by
  induction l generalizing zeros i with
  | nil =>
      rw [List.append_nil]
      exact not_startsAt_replicate zeros i
  | cons b l ih =>
      obtain ⟨hb, hrest⟩ := h
      by_cases hzero : b = 0
      · subst hzero
        rw [if_pos rfl] at hrest
        have hsplit : List.replicate zeros 0 ++ 0 :: l =
            List.replicate (zeros + 1) (0 : UInt8) ++ l := by
          rw [List.replicate_succ', List.append_assoc]
          rfl
        rw [hsplit]
        exact ih hrest i
      · rw [if_neg hzero] at hrest
        have hat : (List.replicate zeros 0 ++ b :: l)[zeros]? = some b := by
          rw [List.getElem?_append_right (Nat.le_of_eq List.length_replicate),
            List.length_replicate, Nat.sub_self]
          rfl
        rintro ⟨h₀, h₁, h₂⟩
        rcases Nat.lt_trichotomy (i + 2) zeros with hi | hi | hi
        · rw [List.getElem?_append_left (by rw [List.length_replicate]; exact hi)] at h₂
          have hone := List.eq_of_mem_replicate (List.mem_of_getElem? h₂)
          cases hone
        · rw [hi, hat] at h₂
          exact hb ⟨by omega, Option.some.inj h₂⟩
        · by_cases hi₁ : i + 1 = zeros
          · rw [hi₁, hat] at h₁
            exact hzero (Option.some.inj h₁)
          · by_cases hi₀ : i = zeros
            · rw [hi₀, hat] at h₀
              exact hzero (Option.some.inj h₀)
            · have hstart : StartsAt (List.replicate zeros 0 ++ b :: l)
                  ((List.replicate zeros (0 : UInt8)).length + (i - zeros - 1 + 1)) := by
                rw [List.length_replicate, show zeros + (i - zeros - 1 + 1) = i by omega]
                exact ⟨h₀, h₁, h₂⟩
              exact ih hrest _ ((startsAt_cons l _).mp ((startsAt_append_left _ _).mp hstart))

theorem scanned_escape (zeros : Nat) (l : List UInt8) : Scanned zeros (escape zeros l) := by
  induction l generalizing zeros with
  | nil => trivial
  | cons b l ih =>
      rw [escape]
      split
      · refine ⟨fun h => absurd h.2 (by decide), ?_⟩
        rw [if_neg (by decide)]
        exact ⟨fun h => absurd h.1 (by decide), ih _⟩
      · next hb =>
          refine ⟨fun h => hb ⟨h.1, ?_⟩, ih _⟩
          rw [h.2]
          decide

theorem getLast?_escape (zeros : Nat) (l : List UInt8) :
    (escape zeros l).getLast? = l.getLast? := by
  induction l generalizing zeros with
  | nil => rfl
  | cons b l ih =>
      rw [escape]
      split
      · rw [List.getLast?_cons_cons, List.getLast?_cons, List.getLast?_cons, ih]
      · rw [List.getLast?_cons, List.getLast?_cons, ih]

theorem length_le_escape (zeros : Nat) (l : List UInt8) : l.length ≤ (escape zeros l).length := by
  induction l generalizing zeros with
  | nil => exact Nat.le_refl 0
  | cons b l ih =>
      rw [escape]
      split
      · exact Nat.le_succ_of_le (Nat.succ_le_succ (ih _))
      · exact Nat.succ_le_succ (ih _)

/-- The NAL unit of a header byte and a payload that does not end with a zero byte. -/
def NalUnit.escaped (header : UInt8) (payload : List UInt8) (hheader : header ≠ 0)
    (hlast : ∃ x, payload.getLast? = some x ∧ x ≠ 0) : NalUnit where
  bytes := header :: escape 0 payload
  last_ne_zero := by
    obtain ⟨x, hx, hne⟩ := hlast
    refine ⟨x, ?_, hne⟩
    rw [List.getLast?_cons, getLast?_escape, hx]
    rfl
  clean i := by
    have hscanned : Scanned 0 (header :: escape 0 payload) :=
      ⟨fun h => absurd h.1 (by decide), by rw [if_neg hheader]; exact scanned_escape 0 payload⟩
    exact hscanned.not_startsAt i

theorem NalUnit.length_pos (n : NalUnit) : 0 < n.bytes.length := by
  obtain ⟨x, hlast, -⟩ := n.last_ne_zero
  exact List.length_pos_of_mem (List.mem_of_getLast? hlast)

/-- A start code begins neither in a NAL unit nor in the zero bytes that follow it. -/
theorem NalUnit.not_startsAt (n : NalUnit) {zeros i : Nat} {rest : List UInt8}
    (hzeros : ∀ j < zeros, ¬StartsAt (List.replicate zeros 0 ++ rest) j)
    (hi : i < n.bytes.length + zeros) :
    ¬StartsAt (n.bytes ++ (List.replicate zeros 0 ++ rest)) i := by
  obtain ⟨x, hlast, hx⟩ := n.last_ne_zero
  rw [List.getLast?_eq_getElem?] at hlast
  have hpos := n.length_pos
  have hleft : ∀ {j : Nat}, j < n.bytes.length →
      (n.bytes ++ (List.replicate zeros 0 ++ rest))[j]? = n.bytes[j]? :=
    fun hj => List.getElem?_append_left hj
  by_cases hbehind : n.bytes.length ≤ i
  · obtain ⟨j, rfl⟩ := Nat.exists_eq_add_of_le hbehind
    rw [startsAt_append_left]
    exact hzeros j (by omega)
  · rintro ⟨h₀, h₁, h₂⟩
    by_cases hfirst : i = n.bytes.length - 1
    · rw [hleft (by omega), hfirst, hlast] at h₀
      exact hx (Option.some.inj h₀)
    · by_cases hsecond : i + 1 = n.bytes.length - 1
      · rw [hleft (by omega), hsecond, hlast] at h₁
        exact hx (Option.some.inj h₁)
      · rw [hleft (by omega)] at h₀ h₁ h₂
        exact n.clean i ⟨h₀, h₁, h₂⟩

end AnnexB

end Paniolo
