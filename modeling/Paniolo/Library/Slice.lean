import Paniolo.Library.BigEndian

/-!
# Checked indexing

Indexing and slicing with the bounds checked at run time: `none` is a panic.
-/

namespace Paniolo

variable {α β : Type}

/-- `&l[a..b]`. -/
def slice? (l : List α) (a b : Nat) : Option (List α) :=
  if a ≤ b ∧ b ≤ l.length then some ((l.drop a).take (b - a)) else none

theorem slice?_eq {l : List α} {a b : Nat} (hab : a ≤ b) (hb : b ≤ l.length) :
    slice? l a b = some ((l.drop a).take (b - a)) := by
  rw [slice?, if_pos ⟨hab, hb⟩]

theorem getElem?_eq_getD {l : List α} {i : Nat} (h : i < l.length) (d : α) :
    l[i]? = some (l.getD i d) := by
  rw [List.getD_eq_getElem?_getD, List.getElem?_eq_getElem h, Option.getD_some]

/-- `u16::from_be_bytes([l[i], l[i + 1]])`. -/
def be16At? (l : List UInt8) (i : Nat) : Option Nat :=
  match l[i]?, l[i + 1]? with
  | some a, some b => some (ofBe16 a b)
  | _, _ => none

/-- `u32::from_be_bytes([l[i], l[i + 1], l[i + 2], l[i + 3]])`. -/
def be32At? (l : List UInt8) (i : Nat) : Option Nat :=
  match l[i]?, l[i + 1]?, l[i + 2]?, l[i + 3]? with
  | some a, some b, some c, some d => some (ofBe32 a b c d)
  | _, _, _, _ => none

/-- `i32::from_be_bytes([l[i], l[i + 1], l[i + 2], l[i + 3]])`. -/
def beI32At? (l : List UInt8) (i : Nat) : Option Int :=
  match l[i]?, l[i + 1]?, l[i + 2]?, l[i + 3]? with
  | some a, some b, some c, some d => some (ofBeI32 a b c d)
  | _, _, _, _ => none

variable {l : List UInt8} {i : Nat}

theorem be16At?_eq (h : i + 2 ≤ l.length) :
    be16At? l i = some (ofBe16 (l.getD i 0) (l.getD (i + 1) 0)) := by
  rw [be16At?, getElem?_eq_getD (by omega) 0, getElem?_eq_getD (by omega) 0]

theorem be32At?_eq (h : i + 4 ≤ l.length) :
    be32At? l i =
      some (ofBe32 (l.getD i 0) (l.getD (i + 1) 0) (l.getD (i + 2) 0) (l.getD (i + 3) 0)) := by
  rw [be32At?, getElem?_eq_getD (by omega) 0, getElem?_eq_getD (by omega) 0,
    getElem?_eq_getD (by omega) 0, getElem?_eq_getD (by omega) 0]

theorem beI32At?_eq (h : i + 4 ≤ l.length) :
    beI32At? l i =
      some (ofBeI32 (l.getD i 0) (l.getD (i + 1) 0) (l.getD (i + 2) 0) (l.getD (i + 3) 0)) := by
  rw [beI32At?, getElem?_eq_getD (by omega) 0, getElem?_eq_getD (by omega) 0,
    getElem?_eq_getD (by omega) 0, getElem?_eq_getD (by omega) 0]

/-- A slice of two bytes, read as a number. -/
theorem slice?_be16At? (h : i + 2 ≤ l.length) :
    (slice? l i (i + 2)).bind (fun b => be16At? b 0) =
      some (ofBe16 (l.getD i 0) (l.getD (i + 1) 0)) := by
  rw [slice?_eq (Nat.le_add_right i 2) h, Option.bind_some, be16At?_eq]
  · simp only [List.getD_eq_getElem?_getD, List.getElem?_take, List.getElem?_drop,
      Nat.add_sub_cancel_left, Nat.add_zero, Nat.zero_add]
    rfl
  · rw [List.length_take, List.length_drop]
    omega

/-! ### Fields one after another -/

section Fields

variable {fields : List (List α)} {k a b : Nat} {field : List α}

theorem flatten_split (hk : fields[k]? = some field) :
    fields.flatten = (fields.take k).flatten ++ (field ++ (fields.drop (k + 1)).flatten) := by
  obtain ⟨hlt, rfl⟩ := List.getElem?_eq_some_iff.mp hk
  rw [← List.flatten_cons, ← List.drop_eq_getElem_cons hlt, ← List.flatten_append,
    List.take_append_drop]

/-- A field is found where those before it end. -/
theorem slice?_flatten (hk : fields[k]? = some field) (ha : (fields.take k).flatten.length = a)
    (hb : a + field.length = b) : slice? fields.flatten a b = some field := by
  rw [flatten_split hk, slice?_eq (by omega), List.drop_left' ha, List.take_left' (by omega)]
  rw [List.length_append, List.length_append]
  omega

theorem getElem?_flatten {x : α} {rest : List α} (hk : fields[k]? = some (x :: rest))
    (ha : (fields.take k).flatten.length = a) : fields.flatten[a]? = some x := by
  rw [flatten_split hk, List.getElem?_append_right (Nat.le_of_eq ha), ha, Nat.sub_self]
  rfl

theorem be16At?_flatten {fields : List (List UInt8)} {n : Nat} (hk : fields[k]? = some (be16 n))
    (ha : (fields.take k).flatten.length = a) (hn : n < 65536) :
    be16At? fields.flatten a = some n := by
  have hsecond : fields.flatten[a + 1]? = some (UInt8.ofNat n) := by
    rw [flatten_split hk, List.getElem?_append_right (by omega), ha, Nat.add_sub_cancel_left]
    rfl
  rw [be16At?, getElem?_flatten hk ha, hsecond]
  simp only
  rw [ofBe16_ofNat, Nat.mod_eq_of_lt hn]

end Fields

theorem mapM_eq_some_map {f : α → Option β} {g : α → β} {as : List α}
    (h : ∀ a ∈ as, f a = some (g a)) : as.mapM f = some (as.map g) := by
  induction as with
  | nil => rfl
  | cons a as ih =>
      rw [List.mapM_cons, h a List.mem_cons_self,
        ih fun b hb => h b (List.mem_cons_of_mem a hb)]
      rfl

end Paniolo
