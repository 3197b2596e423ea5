import Mathlib.Data.List.Basic
import Mathlib.Data.Nat.ModEq
import Mathlib.Tactic.Ring

/-!
# Row-major grids

A grid keeps its cells in one list, row after row, as a framebuffer does.
Cells are read by their coordinates and written a row segment at a time.
Each operation has one lemma that says which cell it leaves where, and the
layout of the list is not used outside this module.
-/

namespace Paniolo

/-- Write `src` over `l` from position `o` on; what would stand behind the end is dropped. -/
def overwrite {α : Type*} (l : List α) (o : Nat) (src : List α) : List α :=
  l.mapIdx fun i a => if o ≤ i then (src[i - o]?).getD a else a

@[simp] theorem length_overwrite {α : Type*} (l : List α) (o : Nat) (src : List α) :
    (overwrite l o src).length = l.length := by
  simp [overwrite]

theorem getElem?_overwrite {α : Type*} (l : List α) (o : Nat) (src : List α) (i : Nat)
    (hi : i < l.length) :
    (overwrite l o src)[i]? =
      if o ≤ i ∧ i < o + src.length then src[i - o]? else l[i]? := by
  rw [overwrite, List.getElem?_mapIdx, List.getElem?_eq_getElem hi, Option.map_some]
  by_cases ho : o ≤ i
  · by_cases hs : i < o + src.length
    · have hlt : i - o < src.length := by omega
      simp [ho, hs, List.getElem?_eq_getElem hlt]
    · have hge : src.length ≤ i - o := by omega
      simp [ho, hs, List.getElem?_eq_none hge]
  · simp [ho]

/-! ### Blocks of one length -/

theorem length_flatMap_blocks {α : Type*} {f : Nat → List α} {n h : Nat}
    (hf : ∀ i < h, (f i).length = n) : ((List.range h).flatMap f).length = h * n := by
  induction h with
  | zero => simp
  | succ h ih =>
      rw [List.range_succ, List.flatMap_append, List.length_append,
        ih fun i hi => hf i (by omega), Nat.succ_mul]
      simp [hf h (by omega)]

/-- Block `i` of `h` blocks of length `n` written one after the other. -/
theorem slice_flatMap_blocks {α : Type*} {f : Nat → List α} {n h i : Nat}
    (hf : ∀ i < h, (f i).length = n) (hi : i < h) :
    (((List.range h).flatMap f).drop (i * n)).take n = f i := by
  induction h with
  | zero => omega
  | succ h ih =>
      have hlen := length_flatMap_blocks (f := f) (n := n) (h := h) fun i hi => hf i (by omega)
      rw [List.range_succ, List.flatMap_append]
      by_cases hlt : i < h
      · have hle : (i + 1) * n ≤ h * n := Nat.mul_le_mul_right _ hlt
        rw [Nat.succ_mul] at hle
        rw [List.drop_append_of_le_length (by omega), List.take_append_of_le_length]
        · exact ih (fun i hi => hf i (by omega)) hlt
        · rw [List.length_drop]
          omega
      · have heq : i = h := by omega
        subst heq
        rw [← hlen, List.drop_left]
        simp [List.take_of_length_le (hf i hi).le]

/-- Cutting a list into blocks of one length loses nothing. -/
theorem flatten_blocks {α : Type*} (n : Nat) : ∀ (h : Nat) (l : List α), l.length = h * n →
    ((List.range h).map fun i => (l.drop (i * n)).take n).flatten = l := by
  intro h
  induction h with
  | zero =>
      intro l hl
      simp [List.length_eq_zero_iff.mp (by simpa using hl)]
  | succ h ih =>
      intro l hl
      rw [Nat.succ_mul] at hl
      have hdrop : (l.drop n).length = h * n := by
        rw [List.length_drop]
        omega
      rw [List.range_succ_eq_map, List.map_cons, List.map_map, List.flatten_cons]
      have hrest := ih (l.drop n) hdrop
      simp only [List.drop_drop] at hrest
      have hmap : (List.range h).map ((fun i => (l.drop (i * n)).take n) ∘ Nat.succ) =
          (List.range h).map fun i => (l.drop (n + i * n)).take n := by
        apply List.map_congr_left
        intro i _
        simp only [Function.comp_apply, Nat.succ_mul, Nat.add_comm]
      rw [hmap, hrest, Nat.zero_mul, List.drop_zero, List.take_append_drop]

/-- Cells of type `α` in `h` rows of `w`. -/
structure Grid (α : Type*) where
  w : Nat
  h : Nat
  cells : List α
  size : cells.length = w * h

namespace Grid

variable {α : Type*}

def fill (w h : Nat) (a : α) : Grid α where
  w := w
  h := h
  cells := List.replicate (w * h) a
  size := by simp

def cell (g : Grid α) (x y : Nat) : Option α :=
  if x < g.w then g.cells[y * g.w + x]? else none

/-- The `n` cells of row `y` from column `x` on. -/
def row (g : Grid α) (x y n : Nat) : List α :=
  (g.cells.drop (y * g.w + x)).take n

def putRow (g : Grid α) (x y : Nat) (src : List α) : Grid α where
  w := g.w
  h := g.h
  cells := overwrite g.cells (y * g.w + x) src
  size := by rw [length_overwrite, g.size]

def putCell (g : Grid α) (x y : Nat) (a : α) : Grid α :=
  g.putRow x y [a]

/-- The cells of one rectangle, row after row. -/
def cut (g : Grid α) (x y w h : Nat) : List α :=
  (List.range h).flatMap fun i => g.row x (y + i) w

/-- Copy the rows of one rectangle from `f`, which has the same layout. -/
def copyFrom (g f : Grid α) (x y w h : Nat) : Grid α :=
  (List.range' y h).foldl (fun g' r => g'.putRow x r (f.row x r w)) g

@[simp] theorem putRow_w (g : Grid α) (x y : Nat) (src : List α) : (g.putRow x y src).w = g.w := rfl

@[simp] theorem putRow_h (g : Grid α) (x y : Nat) (src : List α) : (g.putRow x y src).h = g.h := rfl

@[simp] theorem fill_w (w h : Nat) (a : α) : (fill w h a).w = w := rfl

@[simp] theorem fill_h (w h : Nat) (a : α) : (fill w h a).h = h := rfl

theorem index_lt (g : Grid α) {x y : Nat} (hx : x < g.w) (hy : y < g.h) :
    y * g.w + x < g.cells.length := by
  rw [g.size]
  calc y * g.w + x < y * g.w + g.w := by omega
    _ = (y + 1) * g.w := by ring
    _ ≤ g.h * g.w := Nat.mul_le_mul_right _ hy
    _ = g.w * g.h := Nat.mul_comm _ _

theorem index_inj {w x y a b : Nat} (hx : x < w) (ha : a < w) (h : b * w + a = y * w + x) :
    b = y ∧ a = x := by
  have hmod : a = x := by
    have := congrArg (· % w) h
    simpa [Nat.mul_add_mod', Nat.mod_eq_of_lt hx, Nat.mod_eq_of_lt ha] using this
  refine ⟨?_, hmod⟩
  subst hmod
  have hpos : 0 < w := by omega
  exact Nat.eq_of_mul_eq_mul_right hpos (by omega)

theorem cell_eq_none {g : Grid α} {x y : Nat} (h : ¬(x < g.w ∧ y < g.h)) : g.cell x y = none := by
  by_cases hx : x < g.w
  · have hy : g.h ≤ y := by
      by_contra hlt
      exact h ⟨hx, by omega⟩
    have hle : g.w * g.h ≤ y * g.w + x := by
      calc g.w * g.h ≤ g.w * y := Nat.mul_le_mul_left _ hy
        _ = y * g.w := Nat.mul_comm _ _
        _ ≤ y * g.w + x := Nat.le_add_right _ _
    rw [cell, if_pos hx, List.getElem?_eq_none (by rw [g.size]; exact hle)]
  · rw [cell, if_neg hx]

theorem cell_isSome {g : Grid α} {x y : Nat} (hx : x < g.w) (hy : y < g.h) :
    ∃ a, g.cell x y = some a := by
  rw [cell, if_pos hx]
  exact ⟨_, List.getElem?_eq_getElem (g.index_lt hx hy)⟩

theorem lt_of_cell {g : Grid α} {x y : Nat} {a : α} (h : g.cell x y = some a) :
    x < g.w ∧ y < g.h := by
  by_contra hlt
  rw [cell_eq_none hlt] at h
  cases h

@[simp] theorem cell_fill (w h : Nat) (a : α) (x y : Nat) :
    (fill w h a).cell x y = if x < w ∧ y < h then some a else none := by
  by_cases hxy : x < w ∧ y < h
  · have hlt := (fill w h a).index_lt (x := x) (y := y) hxy.1 hxy.2
    rw [if_pos hxy, cell, if_pos (by exact hxy.1), List.getElem?_eq_getElem hlt]
    simp [fill]
  · rw [if_neg hxy]
    exact cell_eq_none hxy

theorem getElem?_row (g : Grid α) {x y n i : Nat} (hn : x + n ≤ g.w) (hi : i < n) :
    (g.row x y n)[i]? = g.cell (x + i) y := by
  rw [row, List.getElem?_take_of_lt hi, List.getElem?_drop, cell, if_pos (by omega)]
  congr 1
  omega

theorem length_row (g : Grid α) {x y n : Nat} (hn : x + n ≤ g.w) (hy : y < g.h) :
    (g.row x y n).length = n := by
  rw [row, List.length_take, List.length_drop]
  cases n with
  | zero => simp
  | succ n =>
      have hlt := g.index_lt (x := x + n) (y := y) (by omega) hy
      omega

theorem length_cut (g : Grid α) {x y w h : Nat} (hx : x + w ≤ g.w) (hy : y + h ≤ g.h) :
    (g.cut x y w h).length = h * w :=
  length_flatMap_blocks fun i hi => g.length_row hx (by omega)

theorem getElem?_cut (g : Grid α) {x y w h i j : Nat} (hx : x + w ≤ g.w) (hy : y + h ≤ g.h)
    (hi : i < h) (hj : j < w) : (g.cut x y w h)[i * w + j]? = g.cell (x + j) (y + i) := by
  rw [← g.getElem?_row hx hj, ← slice_flatMap_blocks (f := fun i => g.row x (y + i) w) (n := w)
    (fun i hi => g.length_row hx (by omega)) hi, List.getElem?_take_of_lt hj, List.getElem?_drop]
  rfl

theorem cell_putRow (g : Grid α) {x y : Nat} {src : List α} (hx : x + src.length ≤ g.w)
    (hy : y < g.h) (a b : Nat) :
    (g.putRow x y src).cell a b =
      if b = y ∧ x ≤ a ∧ a < x + src.length then src[a - x]? else g.cell a b := by
  by_cases hab : a < g.w ∧ b < g.h
  · obtain ⟨ha, hb⟩ := hab
    have hlt := g.index_lt ha hb
    have hput : (g.putRow x y src).cell a b =
        (overwrite g.cells (y * g.w + x) src)[b * g.w + a]? := if_pos ha
    rw [hput, getElem?_overwrite _ _ _ _ hlt, cell, if_pos ha]
    by_cases hin : b = y ∧ x ≤ a ∧ a < x + src.length
    · obtain ⟨rfl, hxa, hax⟩ := hin
      rw [if_pos (by omega), if_pos ⟨rfl, hxa, hax⟩]
      congr 1
      omega
    · rw [if_neg hin, if_neg]
      intro hwin
      have hi : b * g.w + a = y * g.w + (x + (b * g.w + a - (y * g.w + x))) := by omega
      obtain ⟨rfl, hax⟩ := index_inj (by omega) ha hi
      exact hin ⟨rfl, by omega, by omega⟩
  · rw [cell_eq_none (by simpa using hab), if_neg, cell_eq_none hab]
    rintro ⟨rfl, -, hlt⟩
    exact hab ⟨by omega, hy⟩

theorem cell_putCell (g : Grid α) {x y : Nat} (hx : x < g.w) (hy : y < g.h) (c : α) (a b : Nat) :
    (g.putCell x y c).cell a b = if b = y ∧ a = x then some c else g.cell a b := by
  rw [putCell, cell_putRow g (by simp; omega) hy]
  by_cases h : b = y ∧ a = x
  · obtain ⟨rfl, rfl⟩ := h
    simp
  · rw [if_neg h, if_neg]
    rintro ⟨rfl, hxa, hax⟩
    exact h ⟨rfl, by simp at hax; omega⟩

@[simp] theorem putCell_w (g : Grid α) (x y : Nat) (c : α) : (g.putCell x y c).w = g.w := rfl

@[simp] theorem putCell_h (g : Grid α) (x y : Nat) (c : α) : (g.putCell x y c).h = g.h := rfl

theorem foldl_putRow_dims (f : Grid α) (x w : Nat) (rows : List Nat) (g : Grid α) :
    (rows.foldl (fun g' r => g'.putRow x r (f.row x r w)) g).w = g.w ∧
      (rows.foldl (fun g' r => g'.putRow x r (f.row x r w)) g).h = g.h := by
  induction rows generalizing g with
  | nil => exact ⟨rfl, rfl⟩
  | cons r rows ih =>
      rw [List.foldl_cons]
      exact ih _

@[simp] theorem copyFrom_w (g f : Grid α) (x y w h : Nat) : (g.copyFrom f x y w h).w = g.w :=
  (foldl_putRow_dims f x w _ g).1

@[simp] theorem copyFrom_h (g f : Grid α) (x y w h : Nat) : (g.copyFrom f x y w h).h = g.h :=
  (foldl_putRow_dims f x w _ g).2

theorem cell_copyFrom (g f : Grid α) {x y w h : Nat} (hw : f.w = g.w) (hh : f.h = g.h)
    (hx : x + w ≤ g.w) (hy : y + h ≤ g.h) (a b : Nat) :
    (g.copyFrom f x y w h).cell a b =
      if (x ≤ a ∧ a < x + w) ∧ (y ≤ b ∧ b < y + h) then f.cell a b else g.cell a b := by
  induction h with
  | zero =>
      rw [copyFrom, if_neg (by omega)]
      rfl
  | succ h ih =>
      have hlen : (f.row x (y + h) w).length = w := f.length_row (by omega) (by omega)
      have hstep : g.copyFrom f x y w (h + 1) =
          (g.copyFrom f x y w h).putRow x (y + h) (f.row x (y + h) w) := by
        rw [copyFrom, copyFrom, List.range'_1_concat, List.foldl_append]
        rfl
      rw [hstep, cell_putRow _ (by simp [hlen]; omega) (by simp; omega), hlen, ih (by omega)]
      by_cases hrow : b = y + h ∧ x ≤ a ∧ a < x + w
      · obtain ⟨rfl, hxa, hax⟩ := hrow
        rw [if_pos ⟨rfl, hxa, hax⟩, if_pos (by omega), f.getElem?_row (by omega) (by omega)]
        congr 1
        omega
      · rw [if_neg hrow]
        by_cases hin : (x ≤ a ∧ a < x + w) ∧ y ≤ b ∧ b < y + h
        · rw [if_pos hin, if_pos (by omega)]
        · rw [if_neg hin, if_neg (by omega)]

theorem row_eq_row_iff (g f : Grid α) {x y n : Nat} (hw : f.w = g.w) (hh : f.h = g.h)
    (hn : x + n ≤ g.w) (hy : y < g.h) :
    g.row x y n = f.row x y n ↔ ∀ a, x ≤ a → a < x + n → g.cell a y = f.cell a y := by
  constructor
  · intro h a hxa han
    have hi : a - x < n := by omega
    have hax : x + (a - x) = a := by omega
    have hcell : (g.row x y n)[a - x]? = (f.row x y n)[a - x]? := by rw [h]
    rwa [g.getElem?_row hn hi, f.getElem?_row (by omega) hi, hax] at hcell
  · intro h
    apply List.ext_getElem?
    intro i
    by_cases hi : i < n
    · rw [g.getElem?_row hn hi, f.getElem?_row (by omega) hi]
      exact h _ (by omega) (by omega)
    · rw [List.getElem?_eq_none (by rw [g.length_row hn hy]; omega),
        List.getElem?_eq_none (by rw [f.length_row (by omega) (by omega)]; omega)]

/-- The part of a grid inside one rectangle, as a grid of its own. -/
def sub (g : Grid α) (x y w h : Nat) (hx : x + w ≤ g.w) (hy : y + h ≤ g.h) : Grid α where
  w := w
  h := h
  cells := g.cut x y w h
  size := by rw [g.length_cut hx hy, Nat.mul_comm]

section Sub

variable (g : Grid α) {x y w h : Nat} (hx : x + w ≤ g.w) (hy : y + h ≤ g.h)

@[simp] theorem sub_w : (g.sub x y w h hx hy).w = w := rfl

@[simp] theorem sub_h : (g.sub x y w h hx hy).h = h := rfl

theorem cell_sub {a b : Nat} (ha : a < w) (hb : b < h) :
    (g.sub x y w h hx hy).cell a b = g.cell (x + a) (y + b) := by
  rw [← g.getElem?_cut hx hy hb ha]
  exact if_pos ha

theorem row_sub {a b n : Nat} (ha : a + n ≤ w) (hb : b < h) :
    (g.sub x y w h hx hy).row a b n = g.row (x + a) (y + b) n := by
  apply List.ext_getElem?
  intro i
  by_cases hi : i < n
  · rw [Grid.getElem?_row _ (by simpa using ha) hi, g.getElem?_row (by omega) hi,
      g.cell_sub hx hy (by omega) hb, Nat.add_assoc]
  · rw [List.getElem?_eq_none (by rw [Grid.length_row _ (by simpa using ha) (by simpa using hb)]; omega),
      List.getElem?_eq_none (by rw [g.length_row (by omega) (by omega)]; omega)]

theorem cut_sub {a b n m : Nat} (ha : a + n ≤ w) (hb : b + m ≤ h) :
    (g.sub x y w h hx hy).cut a b n m = g.cut (x + a) (y + b) n m := by
  rw [cut, cut]
  apply List.flatMap_congr
  intro i hi
  have hlt : i < m := List.mem_range.mp hi
  rw [g.row_sub hx hy ha (by omega), Nat.add_assoc]

end Sub

theorem ext_cell {g f : Grid α} (hw : g.w = f.w) (hh : g.h = f.h)
    (h : ∀ x y, x < g.w → y < g.h → g.cell x y = f.cell x y) : g = f := by
  cases g with
  | mk gw gh gc gs =>
  cases f with
  | mk fw fh fc fs =>
      dsimp only at hw hh
      subst hw hh
      have hcells : gc = fc := by
        apply List.ext_getElem?
        intro i
        by_cases hi : i < gw * gh
        · have hpos : 0 < gw := Nat.pos_of_mul_pos_right (by omega : 0 < gw * gh)
          have hx : i % gw < gw := Nat.mod_lt _ hpos
          have hy : i / gw < gh := Nat.div_lt_of_lt_mul hi
          have hc := h (i % gw) (i / gw) hx hy
          simp only [cell] at hc
          rw [if_pos hx, if_pos hx] at hc
          have hidx : i / gw * gw + i % gw = i := Nat.div_add_mod' i gw
          rwa [hidx] at hc
        · rw [List.getElem?_eq_none (by omega), List.getElem?_eq_none (by omega)]
      subst hcells
      rfl

end Grid

end Paniolo
