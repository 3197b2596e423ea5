import Paniolo.Library.Text
import Paniolo.Library.Utf8

/-!
# Positions in a text

Texts are sliced at byte positions, and only where a character begins. The positions here are the
lengths of what is before them, in UTF-8; a slice at any other position is a panic.
-/

namespace Paniolo

namespace Str

/-- `str::len`. -/
def len (s : List Char) : Nat := (Utf8.encode s).length

/-- `str::split_at_checked`. -/
def splitAt? : List Char → Nat → Option (List Char × List Char)
  | s, 0 => some ([], s)
  | [], _ + 1 => none
  | c :: s, i + 1 =>
      if c.utf8Size ≤ i + 1 then
        (splitAt? s (i + 1 - c.utf8Size)).map fun p => (c :: p.1, p.2)
      else none

/-- `&s[a..b]`; none is a panic. -/
def slice? (s : List Char) (a b : Nat) : Option (List Char) := do
  let (front, _) ← splitAt? s b
  let (_, part) ← splitAt? front a
  pure part

/-- `str::find` of a character. -/
def find? (c : Char) (s : List Char) : Option Nat :=
  (Text.splitOnce (· == c) s).map fun p => len p.1

theorem len_nil : len [] = 0 := rfl

theorem len_cons (c : Char) (s : List Char) : len (c :: s) = c.utf8Size + len s := by
  rw [len, Utf8.encode_cons, List.length_append, String.length_utf8EncodeChar, len]

theorem len_append (s t : List Char) : len (s ++ t) = len s + len t := by
  rw [len, Utf8.encode_append, List.length_append, len, len]

theorem length_le_len (s : List Char) : s.length ≤ len s := by
  induction s with
  | nil => exact Nat.le_refl 0
  | cons c s ih =>
      have hpos := c.utf8Size_pos
      rw [len_cons, List.length_cons]
      omega

theorem splitAt?_append (a b : List Char) : splitAt? (a ++ b) (len a) = some (a, b) := by
  induction a with
  | nil =>
      rw [List.nil_append, len_nil]
      cases b <;> rfl
  | cons c a ih =>
      have hpos := c.utf8Size_pos
      obtain ⟨n, hn⟩ : ∃ n, len (c :: a) = n + 1 := by
        rw [len_cons]
        exact Nat.exists_eq_succ_of_ne_zero (by omega)
      have hrest : n + 1 - c.utf8Size = len a := by
        rw [← hn, len_cons, Nat.add_sub_cancel_left]
      have hle : c.utf8Size ≤ n + 1 := by
        rw [← hn, len_cons]
        exact Nat.le_add_right ..
      rw [hn, List.cons_append, splitAt?, if_pos hle, hrest, ih]
      rfl

/-- A slice between the ends of two parts. -/
theorem slice?_append (a part b : List Char) :
    slice? (a ++ part ++ b) (len a) (len (a ++ part)) = some part := by
  rw [slice?, splitAt?_append]
  change (splitAt? (a ++ part) (len a)).bind _ = _
  rw [splitAt?_append]
  rfl

theorem slice?_to_end (a part : List Char) :
    slice? (a ++ part) (len a) (len (a ++ part)) = some part := by
  have hslice := slice?_append a part []
  rwa [List.append_nil] at hslice

theorem find?_eq_none {c : Char} {s : List Char} (h : Text.splitOnce (· == c) s = none) :
    find? c s = none := by
  rw [find?, h]
  rfl

theorem find?_eq_some {c : Char} {s a b : List Char} (h : Text.splitOnce (· == c) s = some (a, b)) :
    find? c s = some (len a) := by
  rw [find?, h]
  rfl

/-! ### Bytes that are characters -/

/-- A byte of a character is an ASCII byte only where it is that character. -/
theorem byte_eq_iff {c d : Char} (hd : d.toNat < 0x80) {b : UInt8}
    (hb : b ∈ String.utf8EncodeChar c) : b = UInt8.ofNat d.toNat ↔ c = d := by
  have hbyte : (UInt8.ofNat d.toNat).toNat = d.toNat := by
    rw [UInt8.toNat_ofNat']
    omega
  rcases Utf8.utf8EncodeChar_cases c with ⟨hlt, henc⟩ | ⟨hge, henc⟩
  · rw [henc, List.mem_singleton] at hb
    rw [hb, ← UInt8.toNat_inj, hbyte, UInt8.toNat_ofNat', Nat.mod_eq_of_lt (by omega)]
    exact Char.toNat_inj
  · have hwide := henc b hb
    refine ⟨fun h => ?_, fun h => ?_⟩
    · rw [h, hbyte] at hwide
      omega
    · rw [h] at hge
      omega

theorem utf8EncodeChar_ne_nil (c : Char) : String.utf8EncodeChar c ≠ [] := by
  refine List.ne_nil_of_length_pos ?_
  rw [String.length_utf8EncodeChar]
  exact c.utf8Size_pos

/-- The byte at which a character begins. -/
theorem getElem?_len (a : List Char) (c : Char) (b : List Char) :
    ∃ x, (Utf8.encode (a ++ c :: b))[len a]? = some x ∧ x ∈ String.utf8EncodeChar c := by
  obtain ⟨x, l, hx⟩ := List.exists_cons_of_ne_nil (utf8EncodeChar_ne_nil c)
  refine ⟨x, ?_, by rw [hx]; exact List.mem_cons_self⟩
  rw [len, Utf8.encode_append, Utf8.encode_cons, hx, List.getElem?_append_right (Nat.le_refl _),
    Nat.sub_self]
  rfl

/-- The byte before the end of a character. -/
theorem getElem?_len_pred (a : List Char) (c : Char) (b : List Char) :
    ∃ x, (Utf8.encode (a ++ c :: b))[len (a ++ [c]) - 1]? = some x ∧
      x ∈ String.utf8EncodeChar c := by
  obtain ⟨l, x, hx⟩ := (List.eq_nil_or_concat (String.utf8EncodeChar c)).resolve_left
    (utf8EncodeChar_ne_nil c)
  rw [List.concat_eq_append] at hx
  refine ⟨x, ?_, by rw [hx]; exact List.mem_append_right _ List.mem_cons_self⟩
  have hlen : len (a ++ [c]) - 1 = (Utf8.encode a ++ l).length := by
    rw [len_append, len, len, Utf8.encode_cons, hx, Utf8.encode_nil, List.append_nil,
      List.length_append, List.length_append, List.length_singleton]
    rfl
  rw [hlen, Utf8.encode_append, Utf8.encode_cons, hx, List.append_assoc, ← List.append_assoc,
    List.getElem?_append_right (Nat.le_refl _), Nat.sub_self]
  rfl

/-- A loop over bytes that looks for ASCII characters stops where the one over characters does. -/
theorem length_takeWhile_encode {p : UInt8 → Bool} {q : Char → Bool}
    (h : ∀ c, ∀ b ∈ String.utf8EncodeChar c, p b = q c) (s : List Char) :
    ((Utf8.encode s).takeWhile p).length = len (s.takeWhile q) := by
  induction s with
  | nil => rfl
  | cons c s ih =>
      rw [Utf8.encode_cons]
      by_cases hq : q c = true
      · rw [List.takeWhile_append_of_pos fun b hb => (h c b hb).trans hq,
          List.takeWhile_cons_of_pos hq, List.length_append, ih, len_cons,
          String.length_utf8EncodeChar]
      · obtain ⟨b, l, hb⟩ := List.exists_cons_of_ne_nil (utf8EncodeChar_ne_nil c)
        have hp : ¬p b = true := by
          rw [h c b (by rw [hb]; exact List.mem_cons_self)]
          exact hq
        rw [hb, List.cons_append, List.takeWhile_cons_of_neg hp, List.takeWhile_cons_of_neg hq]
        rfl

end Str

end Paniolo
