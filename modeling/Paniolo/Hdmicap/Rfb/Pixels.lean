import Paniolo.Library.Result
import Paniolo.Hdmicap.Rfb.Session

/-!
# The framebuffer in memory

`Rfb.Fb` is a grid of pixels; the program keeps them in one vector, three bytes
each. Here the two are set side by side: what the grid does to its pixels, the
program does to their bytes, and an update that is read into the grid is read
into the vector.
-/

namespace Paniolo

namespace Hdmicap

namespace Rfb

namespace Session

open RfbServe (ENC_RAW ENC_DESKTOP_SIZE Rect)
open Reader (Conn bytes put state slice index copyFromSlice)

/-- The bytes of a pixel. -/
def rgbOf (p : Px) : List UInt8 := [p.r, p.g, p.b]

def flat (px : List Px) : List UInt8 := px.flatMap rgbOf

/-- The vector that stands for a grid. -/
def Fb.ofGrid (fb : Rfb.Fb) : Fb := ⟨fb.rgb.w, fb.rgb.h, flat fb.rgb.cells⟩

theorem flat_append (a b : List Px) : flat (a ++ b) = flat a ++ flat b := List.flatMap_append

theorem length_flat (px : List Px) : (flat px).length = px.length * 3 := by
  induction px with
  | nil => rfl
  | cons p px ih =>
      rw [flat] at ih
      rw [flat, List.flatMap_cons, List.length_append, ih, List.length_cons, Nat.succ_mul,
        Nat.add_comm]
      rfl

theorem take_flat (n : Nat) (px : List Px) : (flat px).take (n * 3) = flat (px.take n) := by
  rcases Nat.lt_or_ge px.length n with hlt | hge
  · rw [List.take_of_length_le (by rw [length_flat]; omega), List.take_of_length_le hlt.le]
  · have hlen : (flat (px.take n)).length = n * 3 := by
      rw [length_flat, List.length_take, Nat.min_eq_left hge]
    conv_lhs => rw [← List.take_append_drop n px, flat_append, ← hlen, List.take_left]

theorem drop_flat (n : Nat) (px : List Px) : (flat px).drop (n * 3) = flat (px.drop n) := by
  rcases Nat.lt_or_ge px.length n with hlt | hge
  · rw [List.drop_of_length_le (by rw [length_flat]; omega), List.drop_of_length_le hlt.le]
    rfl
  · have hlen : (flat (px.take n)).length = n * 3 := by
      rw [length_flat, List.length_take, Nat.min_eq_left hge]
    conv_lhs => rw [← List.take_append_drop n px, flat_append, ← hlen, List.drop_left]

theorem overwrite_eq {α : Type} {l src : List α} {o : Nat} (h : o + src.length ≤ l.length) :
    overwrite l o src = l.take o ++ src ++ l.drop (o + src.length) := by
  apply List.ext_getElem?
  intro i
  by_cases hi : i < l.length
  · rw [getElem?_overwrite l o src i hi, List.append_assoc]
    by_cases ho : i < o
    · rw [if_neg (by omega), List.getElem?_append_left (by rw [List.length_take]; omega),
        List.getElem?_take_of_lt ho]
    · have htake : (l.take o).length = o := by rw [List.length_take]; omega
      rw [List.getElem?_append_right (by omega), htake]
      by_cases hs : i < o + src.length
      · rw [if_pos (by omega), List.getElem?_append_left (by omega)]
      · rw [if_neg (by omega), List.getElem?_append_right (by omega), List.getElem?_drop]
        congr 1
        omega
  · rw [List.getElem?_eq_none (by rw [length_overwrite]; omega), List.getElem?_eq_none]
    simp only [List.length_append, List.length_take, List.length_drop]
    omega

section

variable {σ : Type}

theorem done_bind {α β : Type} (a : α) (f : α → Prog σ β) : (Reader.done a >>= f) = f a := rfl

/-- A loop whose rounds all go through. -/
theorem foldlM_done {α β γ : Type} {e : α → β} {f : β → γ → Prog σ β} {g : α → γ → α}
    {P : α → Prop} (l : List γ) (hg : ∀ x ∈ l, ∀ a, P a → P (g a x))
    (hf : ∀ x ∈ l, ∀ a, P a → f (e a) x = .done (e (g a x))) :
    ∀ {a : α}, P a →
      l.foldlM f (e a) = .done (e (l.foldl g a)) ∧ P (l.foldl g a) := by
  induction l with
  | nil => exact fun ha => ⟨rfl, ha⟩
  | cons x l ih =>
      intro a ha
      rw [List.foldlM_cons, hf x List.mem_cons_self a ha, done_bind, List.foldl_cons]
      exact ih (fun y hy => hg y (List.mem_cons_of_mem x hy))
        (fun y hy => hf y (List.mem_cons_of_mem x hy)) (hg x List.mem_cons_self a ha)

theorem slice_eq {l : List UInt8} {a b : Nat} (hab : a ≤ b) (hb : b ≤ l.length) :
    (slice l a b : Prog σ (List UInt8)) = .done ((l.take b).drop a) := by
  rw [slice, if_pos ⟨hab, hb⟩]

/-- Pixels copied over pixels. -/
theorem copyFromSlice_flat {cells src : List Px} {o w : Nat} (hsrc : src.length = w)
    (ho : o + w ≤ cells.length) :
    (copyFromSlice (flat cells) (o * 3) (w * 3) (flat src) : Prog σ (List UInt8)) =
      .done (flat (overwrite cells o src)) := by
  have hlen : (flat cells).length = cells.length * 3 := length_flat cells
  rw [copyFromSlice, slice_eq (by omega) (by omega), done_bind, if_pos]
  · rw [overwrite_eq (by omega), flat_append, flat_append, hsrc, take_flat, ← Nat.add_mul,
      drop_flat]
  · rw [List.length_drop, List.length_take, length_flat src, hsrc]
    omega

/-- A row of a grid. -/
theorem copyFromSlice_putRow {g : Grid Px} {x y w : Nat} {src : List Px} (hsrc : src.length = w)
    (h : y * g.w + x + w ≤ g.w * g.h) :
    (copyFromSlice (flat g.cells) ((y * g.w + x) * 3) (w * 3) (flat src) :
      Prog σ (List UInt8)) = .done (flat (g.putRow x y src).cells) :=
  copyFromSlice_flat hsrc (by rwa [g.size])

/-- Some of the pixels, read. -/
theorem slice_flat {px : List Px} {o w : Nat} (h : o + w ≤ px.length) :
    (slice (flat px) (o * 3) ((o + w) * 3) : Prog σ (List UInt8)) =
      .done (flat ((px.drop o).take w)) := by
  have hlen := length_flat px
  rw [slice_eq (Nat.mul_le_mul_right 3 (Nat.le_add_right o w)) (by omega), take_flat, drop_flat,
    List.drop_take, Nat.add_sub_cancel_left]

theorem slice_row {g : Grid Px} {x y w : Nat} (h : y * g.w + x + w ≤ g.w * g.h) :
    (slice (flat g.cells) ((y * g.w + x) * 3) ((y * g.w + x) * 3 + w * 3) :
      Prog σ (List UInt8)) = .done (flat (g.row x y w)) := by
  rw [← Nat.add_mul]
  exact slice_flat (by rwa [g.size])

theorem swap_eq (w : Nat) : ∀ px out : List UInt8, px.length = w * 4 → out.length = w * 3 →
    Fb.swap px out = flat (Rfb.Fb.bgrPixels px) := by
  induction w with
  | zero =>
      intro px out hpx hout
      rw [Nat.zero_mul, List.length_eq_zero_iff] at hpx hout
      rw [hpx, hout]
      rfl
  | succ w ih =>
      intro px out hpx hout
      rcases px with _ | ⟨b, _ | ⟨g, _ | ⟨r, _ | ⟨pad, px⟩⟩⟩⟩
      all_goals simp only [List.length_cons, List.length_nil] at hpx
      any_goals omega
      rcases out with _ | ⟨o1, _ | ⟨o2, _ | ⟨o3, out⟩⟩⟩
      all_goals simp only [List.length_cons, List.length_nil] at hout
      any_goals omega
      rw [Fb.swap, ih px out (by omega) (by omega)]
      rfl

theorem inBounds_ofGrid (fb : Rfb.Fb) (x y w h : Nat) :
    (Fb.ofGrid fb).inBounds x y w h = fb.inBounds x y w h := rfl

/-- A row within the bounds is within the cells. -/
theorem row_le_cells {fb : Rfb.Fb} {x y w h row : Nat} (hin : fb.inBounds x y w h = true)
    (hrow : row < h) : (y + row) * fb.rgb.w + x + w ≤ fb.rgb.w * fb.rgb.h := by
  rw [Rfb.Fb.inBounds, Bool.and_eq_true, decide_eq_true_eq, decide_eq_true_eq] at hin
  have hlines : (y + row + 1) * fb.rgb.w ≤ fb.rgb.h * fb.rgb.w :=
    Nat.mul_le_mul_right fb.rgb.w (by omega)
  rw [Nat.succ_mul, Nat.mul_comm fb.rgb.h] at hlines
  omega

/-- Grids of the size of a framebuffer. -/
def SameSize (fb : Rfb.Fb) (g : Grid Px) : Prop := g.w = fb.rgb.w ∧ g.h = fb.rgb.h

theorem blitRow_ofGrid {fb : Rfb.Fb} {x y w h row : Nat} {src : List UInt8} {g : Grid Px}
    (hin : fb.inBounds x y w h = true) (hsrc : src.length = w * h * 4) (hrow : row < h)
    (hg : SameSize fb g) :
    ((Fb.ofGrid fb).blitRow x y w src (flat g.cells) row : Prog σ (List UInt8)) =
      .done (flat (g.putRow x (y + row)
        (Rfb.Fb.bgrPixels ((src.drop (row * w * 4)).take (w * 4)))).cells) := by
  have hcells := row_le_cells hin hrow
  rw [← hg.1, ← hg.2] at hcells
  have hs : row * w * 4 + w * 4 ≤ src.length := by
    have hlines : (row + 1) * w ≤ h * w := Nat.mul_le_mul_right w hrow
    rw [Nat.succ_mul, Nat.mul_comm h] at hlines
    omega
  have hpx : ((src.drop (row * w * 4)).take (w * 4)).length = w * 4 := by
    rw [List.length_take, List.length_drop]
    omega
  have hslice : ((src.take (row * w * 4 + w * 4)).drop (row * w * 4)) =
      (src.drop (row * w * 4)).take (w * 4) := by
    rw [List.drop_take, Nat.add_sub_cancel_left]
  have hwidth : (Fb.ofGrid fb).w = g.w := hg.1.symm
  have hold : (flat (g.row x (y + row) w)).length = w * 3 := by
    rw [length_flat, Grid.row, List.length_take, List.length_drop, g.size]
    omega
  rw [Fb.blitRow, hwidth, slice_eq (Nat.le_add_right _ _) hs, done_bind, hslice,
    slice_row hcells, done_bind, swap_eq w _ _ hpx hold]
  exact copyFromSlice_putRow (length_bgrPixels w _ (by omega)) hcells

theorem blitRaw_ofGrid {fb fb' : Rfb.Fb} {x y w h : Nat} {src : List UInt8}
    (hsrc : src.length = w * h * 4) (h' : fb.blitRaw x y w h src = .ok fb') :
    ((Fb.ofGrid fb).blitRaw x y w h src : Prog σ Fb) = .done (Fb.ofGrid fb') := by
  rw [Rfb.Fb.blitRaw] at h'
  split at h'
  · next hin =>
      cases h'
      obtain ⟨hloop, hw, hh⟩ := foldlM_done (σ := σ) (e := fun g : Grid Px => flat g.cells)
        (P := SameSize fb) (f := (Fb.ofGrid fb).blitRow x y w src)
        (g := fun g row => g.putRow x (y + row)
          (Rfb.Fb.bgrPixels ((src.drop (row * w * 4)).take (w * 4))))
        (List.range h) (fun _ _ g hg => hg)
        (fun row hrow g hg => blitRow_ofGrid hin hsrc (List.mem_range.mp hrow) hg)
        (a := fb.rgb) ⟨rfl, rfl⟩
      have hrgb : (Fb.ofGrid fb).rgb = flat fb.rgb.cells := rfl
      rw [Fb.blitRaw, inBounds_ofGrid, hin, if_neg Bool.noConfusion, hrgb, hloop, done_bind]
      rw [Fb.ofGrid, Fb.ofGrid, hw, hh]
      rfl
  · cases h'

theorem readRow_ofGrid {fb : Rfb.Fb} {sx sy w h row : Nat} (hin : fb.inBounds sx sy w h = true)
    (hrow : row < h) (tmp : List Px) :
    ((Fb.ofGrid fb).readRow sx sy w (flat tmp) row : Prog σ (List UInt8)) =
      .done (flat (tmp ++ fb.rgb.row sx (sy + row) w)) := by
  have hrgb : (Fb.ofGrid fb).rgb = flat fb.rgb.cells := rfl
  have hwidth : (Fb.ofGrid fb).w = fb.rgb.w := rfl
  rw [Fb.readRow, hrgb, hwidth, slice_row (row_le_cells hin hrow), done_bind, flat_append]
  rfl

theorem writeRow_ofGrid {fb : Rfb.Fb} {x y w h row : Nat} {tmp : List Px} {g : Grid Px}
    (hin : fb.inBounds x y w h = true) (htmp : tmp.length = h * w) (hrow : row < h)
    (hg : SameSize fb g) :
    ((Fb.ofGrid fb).writeRow x y w (flat tmp) (flat g.cells) row : Prog σ (List UInt8)) =
      .done (flat (g.putRow x (y + row) ((tmp.drop (row * w)).take w)).cells) := by
  have hcells := row_le_cells hin hrow
  rw [← hg.1, ← hg.2] at hcells
  have hlines : row * w + w ≤ tmp.length := by
    have hle : (row + 1) * w ≤ h * w := Nat.mul_le_mul_right w hrow
    rw [Nat.succ_mul] at hle
    omega
  have hwidth : (Fb.ofGrid fb).w = g.w := hg.1.symm
  have hlen : ((tmp.drop (row * w)).take w).length = w := by
    rw [List.length_take, List.length_drop]
    omega
  rw [Fb.writeRow, hwidth, Nat.succ_mul, slice_flat hlines, done_bind]
  exact copyFromSlice_putRow hlen hcells

theorem copyRect_ofGrid {fb fb' : Rfb.Fb} {x y w h sx sy : Nat}
    (h' : fb.copyRect x y w h sx sy = .ok fb') :
    ((Fb.ofGrid fb).copyRect x y w h sx sy : Prog σ Fb) = .done (Fb.ofGrid fb') := by
  rw [Rfb.Fb.copyRect] at h'
  split at h'
  · next hin =>
      cases h'
      obtain ⟨hdst, hsrc⟩ := Bool.and_eq_true_iff.mp hin
      obtain ⟨hread, -⟩ := foldlM_done (σ := σ) (e := flat) (P := fun _ => True)
        (f := (Fb.ofGrid fb).readRow sx sy w) (g := fun tmp row => tmp ++ fb.rgb.row sx (sy + row) w)
        (List.range h) (fun _ _ _ _ => trivial)
        (fun row hrow tmp _ => readRow_ofGrid hsrc (List.mem_range.mp hrow) tmp) (a := []) trivial
      rw [← List.flatMap_eq_foldl] at hread
      have htmp : (fb.rgb.cut sx sy w h).length = h * w := by
        rw [Rfb.Fb.inBounds, Bool.and_eq_true, decide_eq_true_eq, decide_eq_true_eq] at hsrc
        exact fb.rgb.length_cut hsrc.1 hsrc.2
      obtain ⟨hwrite, hw, hh⟩ := foldlM_done (σ := σ) (e := fun g : Grid Px => flat g.cells)
        (P := SameSize fb) (f := (Fb.ofGrid fb).writeRow x y w (flat (fb.rgb.cut sx sy w h)))
        (g := fun g row => g.putRow x (y + row) (((fb.rgb.cut sx sy w h).drop (row * w)).take w))
        (List.range h) (fun _ _ g hg => hg)
        (fun row hrow g hg => writeRow_ofGrid hdst htmp (List.mem_range.mp hrow) hg)
        (a := fb.rgb) ⟨rfl, rfl⟩
      have hrgb : (Fb.ofGrid fb).rgb = flat fb.rgb.cells := rfl
      have hnil : ([] : List UInt8) = flat [] := rfl
      rw [Fb.copyRect, inBounds_ofGrid, inBounds_ofGrid, hin, if_neg Bool.noConfusion, hnil, hread,
        done_bind, ← Grid.cut, hrgb, hwrite, done_bind]
      rw [Fb.ofGrid, Fb.ofGrid, hw, hh]
      rfl
  · cases h'

theorem flat_black (n : Nat) : flat (List.replicate n Px.black) = List.replicate (n * 3) 0 := by
  induction n with
  | zero => rfl
  | succ n ih =>
      rw [flat] at ih
      rw [List.replicate_succ, Nat.succ_mul, flat, List.flatMap_cons, ih]
      rfl

theorem new_ofGrid {fb : Rfb.Fb} {w h : Nat} (h' : Rfb.Fb.new w h = .ok fb) :
    (Fb.new w h : Prog σ Fb) = .done (Fb.ofGrid fb) := by
  rw [Rfb.Fb.new] at h'
  split at h'
  · cases h'
  · next hok =>
      cases h'
      rw [Fb.new, if_neg hok, ← flat_black]
      rfl

/-! ### Updates -/

/-- Some bytes by their places. -/
theorem window_eq {l : List UInt8} {i n : Nat} (h : i + n ≤ l.length) :
    (l.take (i + n)).drop i = (List.range n).map fun j => l.getD (i + j) 0 := by
  apply List.ext_getElem
  · rw [List.length_drop, List.length_take, List.length_map, List.length_range]
    omega
  · intro j hj _
    rw [List.length_drop, List.length_take] at hj
    rw [List.getElem_drop, List.getElem_take, List.getElem_map, List.getElem_range,
      List.getD_eq_getElem?_getD, List.getElem?_eq_getElem (by omega), Option.getD_some]

theorem be16At_eq {l : List UInt8} {i : Nat} (h : i + 2 ≤ l.length) :
    (be16At l i : Prog σ Nat) = .done (ofBe16 (l.getD i 0) (l.getD (i + 1) 0)) := by
  rw [be16At, slice_eq (Nat.le_add_right i 2) h, done_bind, window_eq h]
  rfl

theorem beI32At_eq {α : Type} {f : Int → Prog σ α} {l : List UInt8} {i : Nat}
    (h : i + 4 ≤ l.length) :
    (slice l i (i + 4) >>= fun four => beI32Of four >>= f) =
      f (ofBeI32 (l.getD i 0) (l.getD (i + 1) 0) (l.getD (i + 2) 0) (l.getD (i + 3) 0)) := by
  rw [slice_eq (Nat.le_add_right i 4) h, done_bind, window_eq h]
  rfl


end

section

variable {writes : Nat → Option String}

theorem length_of_take {n : Nat} {buf a rest : List UInt8} (h : Rfb.take n buf = .ok (a, rest)) :
    a.length = n := by
  rw [Rfb.take] at h
  split at h
  · cases h
  · next hlong =>
      cases h
      rw [List.length_take, Nat.min_eq_left (Nat.le_of_not_lt hlong)]

/-- Bytes that have come are read. -/
theorem resume_bytes {σ α : Type} {n : Nat} {f : List UInt8 → Prog σ α} {s : σ}
    {buf a rest : List UInt8} {sent : List (List UInt8)} (h : Rfb.take n buf = .ok (a, rest)) :
    (bytes n >>= f).resume writes ⟨s, buf, sent⟩ = (f a).resume writes ⟨s, rest, sent⟩ := by
  rw [Rfb.take] at h
  split at h
  · cases h
  · next hlong =>
      cases h
      change (Reader.take n fun b => f b).resume writes ⟨s, buf, sent⟩ = _
      rw [Reader.resume, if_neg hlong]

theorem resume_state {σ α : Type} (f : σ → Prog σ α) (s : σ) (buf : List UInt8)
    (sent : List (List UInt8)) :
    (Reader.state >>= f).resume writes ⟨s, buf, sent⟩ = (f s).resume writes ⟨s, buf, sent⟩ := rfl

/-- The state of a session whose framebuffer stands for a grid. -/
def World.ofGrid (s : World) (fb : Rfb.Fb) : World := { s with fb := Fb.ofGrid fb }

theorem resume_readRect {fb fb' : Rfb.Fb} {s : World} {buf rest : List UInt8}
    {sent : List (List UInt8)} (h : Rfb.readRect fb buf = .ok (fb', rest)) :
    readRect.resume writes ⟨s.ofGrid fb, buf, sent⟩ = (.done (), ⟨s.ofGrid fb', rest, sent⟩) := by
  rw [Rfb.readRect] at h
  obtain ⟨⟨⟨r, enc⟩, body⟩, hhead, h⟩ := bind_eq_ok.mp h
  rw [readRectHead] at hhead
  obtain ⟨⟨l, body'⟩, htake, hhead⟩ := bind_eq_ok.mp hhead
  cases hhead
  have hlen := length_of_take htake
  rw [readRect, resume_bytes htake, be16At_eq (by omega), done_bind, be16At_eq (by omega), done_bind,
    be16At_eq (by omega), done_bind, be16At_eq (by omega), done_bind, beI32At_eq (by omega),
    resume_state]
  dsimp only at h
  have hfb : (s.ofGrid fb).fb = Fb.ofGrid fb := rfl
  rw [hfb]
  split at h
  · next henc =>
      rw [if_pos henc]
      split at h
      · cases h
      · next hmax =>
          split at h
          · cases h
          · next hin =>
              obtain ⟨⟨data, rest'⟩, hdata, h⟩ := bind_eq_ok.mp h
              obtain ⟨fb1, hblit, h⟩ := bind_eq_ok.mp h
              cases h
              rw [if_neg hmax, inBounds_ofGrid, if_neg hin, resume_bytes hdata,
                blitRaw_ofGrid (length_of_take hdata) hblit]
              rfl
  · next henc =>
      rw [if_neg henc]
      split at h
      · next hcopy =>
          obtain ⟨⟨src, rest'⟩, hsrc, h⟩ := bind_eq_ok.mp h
          obtain ⟨fb1, hcopied, h⟩ := bind_eq_ok.mp h
          cases h
          have hslen := length_of_take hsrc
          rw [if_pos hcopy, resume_bytes hsrc, be16At_eq (by omega), done_bind, be16At_eq (by omega), done_bind,
            copyRect_ofGrid hcopied]
          rfl
      · next hcopy =>
          rw [if_neg hcopy]
          split at h
          · next hsize =>
              obtain ⟨fb1, hnew, h⟩ := bind_eq_ok.mp h
              cases h
              rw [if_pos hsize, new_ofGrid hnew]
              rfl
          · cases h

theorem resume_readRects {s : World} {sent : List (List UInt8)} (n : Nat) :
    ∀ {fb fb' : Rfb.Fb} {buf rest : List UInt8} (changed : Bool),
      Rfb.readRects n fb buf = .ok (fb', rest) →
        (readRects n changed).resume writes ⟨s.ofGrid fb, buf, sent⟩ =
          (.done (changed || n ≠ 0), ⟨s.ofGrid fb', rest, sent⟩) := by
  induction n with
  | zero =>
      intro fb fb' buf rest changed h
      cases h
      rw [decide_eq_false (not_not.mpr rfl), Bool.or_false]
      rfl
  | succ n ih =>
      intro fb fb' buf rest changed h
      rw [Rfb.readRects] at h
      obtain ⟨⟨fb1, buf1⟩, hone, h⟩ := bind_eq_ok.mp h
      rw [readRects, Reader.resume_bind (resume_readRect hone), ih true h]
      simp

/-- An update that is read into a grid of pixels is read into the vector that stands for it. -/
theorem resume_readUpdate {fb fb' : Rfb.Fb} {s : World} {changed : Bool} {buf rest : List UInt8}
    {sent : List (List UInt8)} (h : Rfb.readUpdate fb buf = .ok (fb', changed, rest)) :
    readUpdate.resume writes ⟨s.ofGrid fb, buf, sent⟩ =
      (.done changed, ⟨s.ofGrid fb', rest, sent⟩) := by
  rw [Rfb.readUpdate] at h
  obtain ⟨⟨head, body⟩, htake, h⟩ := bind_eq_ok.mp h
  obtain ⟨⟨fb1, buf1⟩, hrects, h⟩ := bind_eq_ok.mp h
  cases h
  obtain ⟨b0, b1, b2, b3, rfl⟩ := List.length_eq_four.mp (length_of_take htake)
  rw [readUpdate, resume_bytes htake]
  exact resume_readRects _ false hrects

end

end Session

end Rfb

end Hdmicap

end Paniolo
