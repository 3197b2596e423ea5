import Paniolo.Library.Grid
import Paniolo.Hdmicap.PixelFormat

/-!
# The client framebuffer

`ClientFb` is what the server remembers of one client: the pixels it was sent
and, for each 64x64 tile, whether the whole tile was sent at least once. The
loops of `dirty_regions` and `commit` are followed as they stand; the results
of this module say which pixels the regions cover and what a commit records.
-/

namespace Paniolo

namespace Hdmicap

namespace RfbServe

/-- Edge of a tile of the dirty-tracking grid. -/
abbrev TILE : Nat := 64

/-- A decoded frame. -/
abbrev Rgb := Grid Px

def Rgb.black (w h : Nat) : Rgb := Grid.fill w h Px.black

structure Req where
  incremental : Bool
  x : Nat
  y : Nat
  w : Nat
  h : Nat
deriving DecidableEq, Repr

structure Rect where
  x : Nat
  y : Nat
  w : Nat
  h : Nat
deriving DecidableEq, Repr

def Rect.Has (r : Rect) (a b : Nat) : Prop :=
  (r.x ≤ a ∧ a < r.x + r.w) ∧ (r.y ≤ b ∧ b < r.y + r.h)

instance (r : Rect) (a b : Nat) : Decidable (r.Has a b) :=
  inferInstanceAs (Decidable ((r.x ≤ a ∧ a < r.x + r.w) ∧ (r.y ≤ b ∧ b < r.y + r.h)))

def divCeil (n d : Nat) : Nat := (n + d - 1) / d

structure ClientFb where
  /-- The pixels the client holds. -/
  sent : Grid Px
  /-- Per grid tile: has the client been sent this whole tile at least once? -/
  known : Grid Bool
  cols_eq : known.w = divCeil sent.w TILE
  rows_eq : known.h = divCeil sent.h TILE

namespace ClientFb

def new (w h : Nat) : ClientFb where
  sent := Grid.fill w h Px.black
  known := Grid.fill (divCeil w TILE) (divCeil h TILE) false
  cols_eq := rfl
  rows_eq := rfl

/-- The part of the request inside the framebuffer. -/
def clip (c : ClientFb) (r : Req) : Rect :=
  let x0 := min r.x c.sent.w
  let y0 := min r.y c.sent.h
  let x1 := min (r.x + r.w) c.sent.w
  let y1 := min (r.y + r.h) c.sent.h
  ⟨x0, y0, x1 - x0, y1 - y0⟩

def isKnown (c : ClientFb) (tx ty : Nat) : Bool :=
  (c.known.cell tx ty).getD false

def regionDiffers (c : ClientFb) (fb : Rgb) (r : Rect) : Bool :=
  (List.range' r.y r.h).any fun row => fb.row r.x row r.w ≠ c.sent.row r.x row r.w

/-- The tile (`tx`, `ty`) clipped to the request. -/
def tileRect (req : Rect) (tx ty : Nat) : Rect :=
  let x0 := max (tx * TILE) req.x
  let y0 := max (ty * TILE) req.y
  let x1 := min ((tx + 1) * TILE) (req.x + req.w)
  let y1 := min ((ty + 1) * TILE) (req.y + req.h)
  ⟨x0, y0, x1 - x0, y1 - y0⟩

def tileDirty (c : ClientFb) (fb : Rgb) (req : Rect) (everything : Bool) (tx ty : Nat) : Bool :=
  everything || !c.isKnown tx ty || c.regionDiffers fb (tileRect req tx ty)

/-- One tile of a row: `out` holds the finished regions, `run` the one still growing. -/
def scanTile (c : ClientFb) (fb : Rgb) (req : Rect) (everything : Bool) (ty : Nat)
    (s : List Rect × Option Rect) (tx : Nat) : List Rect × Option Rect :=
  let r := tileRect req tx ty
  match c.tileDirty fb req everything tx ty, s with
  | true, (out, some o) => (out, some { o with w := o.w + r.w })
  | true, (out, none) => (out, some r)
  | false, (out, run) => (out ++ run.toList, none)

def scanRow (c : ClientFb) (fb : Rgb) (req : Rect) (everything : Bool) (out : List Rect)
    (ty : Nat) : List Rect :=
  let first := req.x / TILE
  let last := (req.x + req.w - 1) / TILE
  let s := (List.range' first (last + 1 - first)).foldl (c.scanTile fb req everything ty) (out, none)
  s.1 ++ s.2.toList

/-- The rectangles to send for `req`: every grid tile (clipped to the request) that differs
from what the client has, or all of them; horizontally adjacent ones merged. -/
def dirtyRegions (c : ClientFb) (fb : Rgb) (req : Rect) (everything : Bool) : List Rect :=
  if req.w = 0 ∨ req.h = 0 then []
  else
    let first := req.y / TILE
    let last := (req.y + req.h - 1) / TILE
    (List.range' first (last + 1 - first)).foldl (c.scanRow fb req everything) []

/-- The region reaches every pixel of the tile that lies in the framebuffer. -/
def covers (c : ClientFb) (r : Rect) (tx ty : Nat) : Bool :=
  r.x ≤ tx * TILE && r.y ≤ ty * TILE && r.x + r.w ≥ min ((tx + 1) * TILE) c.sent.w &&
    r.y + r.h ≥ min ((ty + 1) * TILE) c.sent.h

def markRow (c : ClientFb) (r : Rect) (known : Grid Bool) (ty : Nat) : Grid Bool :=
  let first := r.x / TILE
  let last := (r.x + r.w - 1) / TILE
  (List.range' first (last + 1 - first)).foldl
    (fun k tx => if c.covers r tx ty then k.putCell tx ty true else k) known

def markKnown (c : ClientFb) (r : Rect) : Grid Bool :=
  let first := r.y / TILE
  let last := (r.y + r.h - 1) / TILE
  (List.range' first (last + 1 - first)).foldl (c.markRow r) c.known

theorem markRow_dims (c : ClientFb) (r : Rect) (known : Grid Bool) (ty : Nat) :
    (c.markRow r known ty).w = known.w ∧ (c.markRow r known ty).h = known.h := by
  rw [markRow]
  generalize List.range' (r.x / TILE) ((r.x + r.w - 1) / TILE + 1 - r.x / TILE) = txs
  induction txs generalizing known with
  | nil => exact ⟨rfl, rfl⟩
  | cons tx txs ih =>
      rw [List.foldl_cons]
      obtain ⟨hw, hh⟩ := ih (if c.covers r tx ty then known.putCell tx ty true else known)
      rw [hw, hh]
      split <;> exact ⟨rfl, rfl⟩

theorem markKnown_dims (c : ClientFb) (r : Rect) :
    (c.markKnown r).w = c.known.w ∧ (c.markKnown r).h = c.known.h := by
  rw [markKnown]
  generalize List.range' (r.y / TILE) ((r.y + r.h - 1) / TILE + 1 - r.y / TILE) = tys
  generalize c.known = known
  induction tys generalizing known with
  | nil => exact ⟨rfl, rfl⟩
  | cons ty tys ih =>
      rw [List.foldl_cons]
      obtain ⟨hw, hh⟩ := ih (c.markRow r known ty)
      obtain ⟨hw', hh'⟩ := c.markRow_dims r known ty
      exact ⟨hw.trans hw', hh.trans hh'⟩

/-- Record that the client now holds `r` as it is in `fb`. -/
def commit (c : ClientFb) (fb : Rgb) (r : Rect) : ClientFb where
  sent := c.sent.copyFrom fb r.x r.y r.w r.h
  known := c.markKnown r
  cols_eq := by rw [(c.markKnown_dims r).1, c.cols_eq, Grid.copyFrom_w]
  rows_eq := by rw [(c.markKnown_dims r).2, c.rows_eq, Grid.copyFrom_h]

@[simp] theorem commit_w (c : ClientFb) (fb : Rgb) (r : Rect) :
    (c.commit fb r).sent.w = c.sent.w := Grid.copyFrom_w ..

@[simp] theorem commit_h (c : ClientFb) (fb : Rgb) (r : Rect) :
    (c.commit fb r).sent.h = c.sent.h := Grid.copyFrom_h ..

@[simp] theorem new_w (w h : Nat) : (new w h).sent.w = w := rfl

@[simp] theorem new_h (w h : Nat) : (new w h).sent.h = h := rfl

theorem isKnown_new (w h tx ty : Nat) : (new w h).isKnown tx ty = false := by
  rw [isKnown, new, Grid.cell_fill]
  split <;> rfl

/-- The clipped request lies in the framebuffer. -/
theorem clip_le (c : ClientFb) (r : Req) :
    (c.clip r).x + (c.clip r).w ≤ c.sent.w ∧ (c.clip r).y + (c.clip r).h ≤ c.sent.h := by
  simp only [clip]
  omega

/-- Exactly the pixels of the framebuffer that the request names. -/
theorem has_clip (c : ClientFb) (r : Req) (a b : Nat) :
    (c.clip r).Has a b ↔
      ((r.x ≤ a ∧ a < r.x + r.w) ∧ (r.y ≤ b ∧ b < r.y + r.h)) ∧ a < c.sent.w ∧ b < c.sent.h := by
  simp only [clip, Rect.Has]
  omega

/-! ### Regions -/

/-- Right edge of what a scan has seen after `k` tiles. -/
def scanEdge (req : Rect) (k : Nat) : Nat :=
  max req.x (min ((req.x / TILE + k) * TILE) (req.x + req.w))

/-- After `k` tiles of a row: the regions so far lie side by side in the request and reach
every dirty column, and the open one ends where the scan stands. -/
structure ScanInv (req : Rect) (y h k : Nat) (dirty : Nat → Bool) (new : List Rect)
    (run : Option Rect) : Prop where
  within : ∀ r ∈ new ++ run.toList,
    r.y = y ∧ r.h = h ∧ req.x ≤ r.x ∧ 0 < r.w ∧ r.x + r.w ≤ scanEdge req k
  edge : ∀ o ∈ run, o.x + o.w = scanEdge req k
  reaches : ∀ a, req.x ≤ a → a < scanEdge req k → dirty (a / TILE) = true →
    ∃ r ∈ new ++ run.toList, r.x ≤ a ∧ a < r.x + r.w
  count : (new ++ run.toList).length ≤ k

theorem scanInv_zero (req : Rect) (y h : Nat) (dirty : Nat → Bool) :
    ScanInv req y h 0 dirty [] none := by
  constructor
  · intro r hr
    simp at hr
  · intro o ho
    cases ho
  · intro a ha hlt
    simp only [scanEdge, TILE] at hlt
    omega
  · simp

/-- A tile of the row starts where the tile before it ends. -/
theorem tileRect_edges {req : Rect} {k : Nat} (ty : Nat) (hw : 0 < req.w)
    (hk : req.x / TILE + k ≤ (req.x + req.w - 1) / TILE) :
    (tileRect req (req.x / TILE + k) ty).x = scanEdge req k ∧
      0 < (tileRect req (req.x / TILE + k) ty).w ∧
      (tileRect req (req.x / TILE + k) ty).x + (tileRect req (req.x / TILE + k) ty).w =
        scanEdge req (k + 1) := by
  simp only [tileRect, scanEdge, TILE] at *
  omega

section Scan

variable {req r : Rect} {y h k : Nat} {dirty : Nat → Bool} {new : List Rect} {run : Option Rect}

theorem ScanInv.within_succ (inv : ScanInv req y h k dirty new run)
    (hk : scanEdge req k ≤ scanEdge req (k + 1)) {o : Rect} (ho : o ∈ new ++ run.toList) :
    o.y = y ∧ o.h = h ∧ req.x ≤ o.x ∧ 0 < o.w ∧ o.x + o.w ≤ scanEdge req (k + 1) := by
  obtain ⟨h1, h2, h3, h4, h5⟩ := inv.within o ho
  exact ⟨h1, h2, h3, h4, Nat.le_trans h5 hk⟩

theorem ScanInv.extend {o : Rect} (inv : ScanInv req y h k dirty new (some o)) (hpos : 0 < r.w)
    (hx : r.x = scanEdge req k) (hend : r.x + r.w = scanEdge req (k + 1)) :
    ScanInv req y h (k + 1) dirty new (some { o with w := o.w + r.w }) := by
  have hoe := inv.edge o rfl
  obtain ⟨ho1, ho2, ho3, ho4, -⟩ := inv.within o (by simp)
  have hcount := inv.count
  constructor
  · intro q hq
    simp only [Option.toList_some, List.mem_append, List.mem_singleton] at hq
    rcases hq with hq | rfl
    · exact inv.within_succ (by omega) (by simp [hq])
    · exact ⟨ho1, ho2, ho3, Nat.add_pos_left ho4 _, by dsimp only; omega⟩
  · intro q hq
    cases hq
    dsimp only
    omega
  · intro a hxa hlt hda
    by_cases ha : a < scanEdge req k
    · obtain ⟨q, hq, hqa⟩ := inv.reaches a hxa ha hda
      simp only [Option.toList_some, List.mem_append, List.mem_singleton] at hq
      rcases hq with hq | rfl
      · exact ⟨q, by simp [hq], hqa⟩
      · refine ⟨{ q with w := q.w + r.w }, by simp, hqa.1, ?_⟩
        dsimp only
        omega
    · refine ⟨{ o with w := o.w + r.w }, by simp, ?_, ?_⟩
      · dsimp only
        omega
      · dsimp only
        omega
  · simp at hcount ⊢
    omega

theorem ScanInv.start (inv : ScanInv req y h k dirty new none) (hy : r.y = y) (hh : r.h = h)
    (hpos : 0 < r.w) (hx : r.x = scanEdge req k) (hend : r.x + r.w = scanEdge req (k + 1)) :
    ScanInv req y h (k + 1) dirty new (some r) := by
  have hreq : req.x ≤ scanEdge req k := Nat.le_max_left _ _
  have hcount := inv.count
  constructor
  · intro q hq
    simp only [Option.toList_some, List.mem_append, List.mem_singleton] at hq
    rcases hq with hq | rfl
    · exact inv.within_succ (by omega) (by simp [hq])
    · exact ⟨hy, hh, by omega, hpos, by omega⟩
  · intro q hq
    cases hq
    exact hend
  · intro a hxa hlt hda
    by_cases ha : a < scanEdge req k
    · obtain ⟨q, hq, hqa⟩ := inv.reaches a hxa ha hda
      exact ⟨q, by simp at hq; simp [hq], hqa⟩
    · exact ⟨r, by simp, by omega, by omega⟩
  · simp at hcount ⊢
    omega

theorem ScanInv.close (inv : ScanInv req y h k dirty new run)
    (hk : scanEdge req k ≤ scanEdge req (k + 1))
    (hclean : ∀ a, scanEdge req k ≤ a → a < scanEdge req (k + 1) → dirty (a / TILE) = false) :
    ScanInv req y h (k + 1) dirty (new ++ run.toList) none := by
  have hcount := inv.count
  constructor
  · intro q hq
    exact inv.within_succ hk (by simpa using hq)
  · intro q hq
    cases hq
  · intro a hxa hlt hda
    by_cases ha : a < scanEdge req k
    · obtain ⟨q, hq, hqa⟩ := inv.reaches a hxa ha hda
      exact ⟨q, by simpa using hq, hqa⟩
    · rw [hclean a (by omega) hlt] at hda
      cases hda
  · simp at hcount ⊢
    omega

end Scan

theorem scanTile_inv {c : ClientFb} {fb : Rgb} {req : Rect} {everything : Bool} {ty k : Nat}
    {out new : List Rect} {run : Option Rect} (hw : 0 < req.w)
    (hk : req.x / TILE + k ≤ (req.x + req.w - 1) / TILE)
    (inv : ScanInv req (tileRect req 0 ty).y (tileRect req 0 ty).h k
      (fun tx => c.tileDirty fb req everything tx ty) new run) :
    ∃ new' run', c.scanTile fb req everything ty (out ++ new, run) (req.x / TILE + k) =
        (out ++ new', run') ∧
      ScanInv req (tileRect req 0 ty).y (tileRect req 0 ty).h (k + 1)
        (fun tx => c.tileDirty fb req everything tx ty) new' run' := by
  obtain ⟨hx, hpos, hend⟩ := tileRect_edges ty hw hk
  simp only [scanTile]
  cases hd : c.tileDirty fb req everything (req.x / TILE + k) ty with
  | true =>
      cases run with
      | some o => exact ⟨new, _, rfl, inv.extend hpos hx hend⟩
      | none => exact ⟨new, _, rfl, inv.start rfl rfl hpos hx hend⟩
  | false =>
      refine ⟨new ++ run.toList, none, by simp, inv.close (by omega) ?_⟩
      intro a hle hlt
      have htile : a / TILE = req.x / TILE + k := by
        simp only [scanEdge, TILE] at *
        omega
      rw [htile]
      exact hd

theorem foldl_scanTile_inv (c : ClientFb) (fb : Rgb) {req : Rect} (everything : Bool)
    (ty : Nat) (out : List Rect) (hw : 0 < req.w) (k : Nat)
    (hk : req.x / TILE + k ≤ (req.x + req.w - 1) / TILE + 1) :
    ∃ new run, (List.range' (req.x / TILE) k).foldl (c.scanTile fb req everything ty) (out, none) =
        (out ++ new, run) ∧
      ScanInv req (tileRect req 0 ty).y (tileRect req 0 ty).h k
        (fun tx => c.tileDirty fb req everything tx ty) new run := by
  induction k with
  | zero => exact ⟨[], none, by simp, scanInv_zero ..⟩
  | succ k ih =>
      obtain ⟨new, run, hfold, inv⟩ := ih (by omega)
      rw [List.range'_1_concat, List.foldl_append, hfold]
      exact scanTile_inv hw (by omega) inv

/-- The regions of one row of tiles. -/
theorem scanRow_spec (c : ClientFb) (fb : Rgb) {req : Rect} (everything : Bool) (out : List Rect)
    (ty : Nat) (hw : 0 < req.w) :
    ∃ new, c.scanRow fb req everything out ty = out ++ new ∧
      (∀ r ∈ new, r.y = (tileRect req 0 ty).y ∧ r.h = (tileRect req 0 ty).h ∧ req.x ≤ r.x ∧
        0 < r.w ∧ r.x + r.w ≤ req.x + req.w) ∧
      (∀ a, req.x ≤ a → a < req.x + req.w → c.tileDirty fb req everything (a / TILE) ty = true →
        ∃ r ∈ new, r.x ≤ a ∧ a < r.x + r.w) ∧
      new.length ≤ (req.x + req.w - 1) / TILE + 1 - req.x / TILE := by
  have hle : req.x / TILE ≤ (req.x + req.w - 1) / TILE := Nat.div_le_div_right (by omega)
  obtain ⟨new, run, hfold, inv⟩ := foldl_scanTile_inv c fb everything ty out hw
    ((req.x + req.w - 1) / TILE + 1 - req.x / TILE) (by omega)
  have hedge : scanEdge req ((req.x + req.w - 1) / TILE + 1 - req.x / TILE) = req.x + req.w := by
    simp only [scanEdge, TILE] at *
    omega
  refine ⟨new ++ run.toList, ?_, ?_, ?_, inv.count⟩
  · simp only [scanRow, hfold, List.append_assoc]
  · intro r hr
    obtain ⟨h1, h2, h3, h4, h5⟩ := inv.within r hr
    exact ⟨h1, h2, h3, h4, hedge ▸ h5⟩
  · intro a hxa hlt hda
    exact inv.reaches a hxa (hedge.symm ▸ hlt) hda

/-- What is known of the regions for the rows of tiles seen so far. -/
structure RegionsInv (c : ClientFb) (fb : Rgb) (req : Rect) (everything : Bool) (k : Nat)
    (out : List Rect) : Prop where
  within : ∀ r ∈ out, (0 < r.w ∧ req.x ≤ r.x ∧ r.x + r.w ≤ req.x + req.w) ∧
    0 < r.h ∧ r.h ≤ TILE ∧ req.y ≤ r.y ∧ r.y + r.h ≤ req.y + req.h
  reaches : ∀ a b, req.Has a b → b < (req.y / TILE + k) * TILE →
    c.tileDirty fb req everything (a / TILE) (b / TILE) = true → ∃ r ∈ out, r.Has a b
  count : out.length ≤ ((req.x + req.w - 1) / TILE + 1 - req.x / TILE) * k

theorem scanRow_inv {c : ClientFb} {fb : Rgb} {req : Rect} {everything : Bool} {k : Nat}
    {out : List Rect} (hw : 0 < req.w) (hh : 0 < req.h)
    (hk : req.y / TILE + k ≤ (req.y + req.h - 1) / TILE)
    (inv : RegionsInv c fb req everything k out) :
    RegionsInv c fb req everything (k + 1)
      (c.scanRow fb req everything out (req.y / TILE + k)) := by
  obtain ⟨new, hrow, hwithin, hreach, hlen⟩ :=
    c.scanRow_spec fb everything out (req.y / TILE + k) hw
  rw [hrow]
  constructor
  · intro r hr
    rcases List.mem_append.mp hr with hr | hr
    · exact inv.within r hr
    · obtain ⟨hy, hrh, hx, hpos, hend⟩ := hwithin r hr
      rw [hy, hrh]
      refine ⟨⟨hpos, hx, hend⟩, ?_⟩
      simp only [tileRect, TILE] at *
      omega
  · intro a b hab hb hdirty
    by_cases hold : b < (req.y / TILE + k) * TILE
    · obtain ⟨r, hr, hrab⟩ := inv.reaches a b hab hold hdirty
      exact ⟨r, List.mem_append_left _ hr, hrab⟩
    · have htile : b / TILE = req.y / TILE + k := by
        simp only [TILE] at *
        omega
      obtain ⟨hxa, hyb⟩ := hab
      rw [htile] at hdirty
      obtain ⟨r, hr, hra⟩ := hreach a hxa.1 hxa.2 hdirty
      obtain ⟨hy, hrh, -⟩ := hwithin r hr
      refine ⟨r, List.mem_append_right _ hr, hra, ?_⟩
      rw [hy, hrh]
      simp only [tileRect, TILE] at *
      omega
  · have hcount := inv.count
    rw [List.length_append, Nat.mul_succ]
    omega

/-- The regions lie in the request, each in one row of tiles, and reach every pixel of a dirty
tile; there are no more of them than tiles. -/
theorem dirtyRegions_spec (c : ClientFb) (fb : Rgb) (req : Rect) (everything : Bool) :
    (∀ r ∈ c.dirtyRegions fb req everything,
      (0 < r.w ∧ req.x ≤ r.x ∧ r.x + r.w ≤ req.x + req.w) ∧
        0 < r.h ∧ r.h ≤ TILE ∧ req.y ≤ r.y ∧ r.y + r.h ≤ req.y + req.h) ∧
      (∀ a b, req.Has a b → c.tileDirty fb req everything (a / TILE) (b / TILE) = true →
        ∃ r ∈ c.dirtyRegions fb req everything, r.Has a b) ∧
      (c.dirtyRegions fb req everything).length ≤
        ((req.x + req.w - 1) / TILE + 1 - req.x / TILE) *
          ((req.y + req.h - 1) / TILE + 1 - req.y / TILE) := by
  by_cases hempty : req.w = 0 ∨ req.h = 0
  · rw [dirtyRegions, if_pos hempty]
    refine ⟨by simp, ?_, by simp⟩
    intro a b hab
    simp only [Rect.Has] at hab
    omega
  · rw [dirtyRegions, if_neg hempty]
    have hfold : ∀ k, req.y / TILE + k ≤ (req.y + req.h - 1) / TILE + 1 →
        RegionsInv c fb req everything k
          ((List.range' (req.y / TILE) k).foldl (c.scanRow fb req everything) []) := by
      intro k hk
      induction k with
      | zero =>
          refine ⟨by simp, ?_, by simp⟩
          intro a b hab hb
          simp only [Rect.Has, TILE] at *
          omega
      | succ k ih =>
          rw [List.range'_1_concat, List.foldl_append]
          exact scanRow_inv (by omega) (by omega) (by omega) (ih (by omega))
    have hle : req.y / TILE ≤ (req.y + req.h - 1) / TILE := Nat.div_le_div_right (by omega)
    obtain ⟨hwithin, hreach, hcount⟩ :=
      hfold ((req.y + req.h - 1) / TILE + 1 - req.y / TILE) (by omega)
    refine ⟨hwithin, ?_, hcount⟩
    intro a b hab hdirty
    refine hreach a b hab ?_ hdirty
    simp only [Rect.Has, TILE] at *
    omega

/-- A clean tile is known, and the frame agrees there with what was sent. -/
theorem eq_of_not_tileDirty {c : ClientFb} {fb : Rgb} {req : Rect} {everything : Bool}
    (hw : fb.w = c.sent.w) (hh : fb.h = c.sent.h) (hreqw : req.x + req.w ≤ c.sent.w)
    (hreqh : req.y + req.h ≤ c.sent.h) {a b : Nat} (hab : req.Has a b)
    (hclean : c.tileDirty fb req everything (a / TILE) (b / TILE) = false) :
    everything = false ∧ c.isKnown (a / TILE) (b / TILE) = true ∧
      fb.cell a b = c.sent.cell a b := by
  simp only [tileDirty, Bool.or_eq_false_iff, Bool.not_eq_false'] at hclean
  obtain ⟨⟨hev, hknown⟩, hsame⟩ := hclean
  refine ⟨hev, hknown, ?_⟩
  have hmem : b ∈ List.range' (tileRect req (a / TILE) (b / TILE)).y
      (tileRect req (a / TILE) (b / TILE)).h := by
    rw [List.mem_range'_1]
    simp only [Rect.Has, tileRect, TILE] at *
    omega
  have hcol : (tileRect req (a / TILE) (b / TILE)).x ≤ a ∧
      a < (tileRect req (a / TILE) (b / TILE)).x + (tileRect req (a / TILE) (b / TILE)).w ∧
      (tileRect req (a / TILE) (b / TILE)).x + (tileRect req (a / TILE) (b / TILE)).w ≤ fb.w := by
    simp only [Rect.Has, tileRect, TILE] at *
    omega
  have hb : b < fb.h := by
    simp only [Rect.Has] at hab
    omega
  rw [regionDiffers, List.any_eq_false] at hsame
  have hrow := hsame b hmem
  simp only [ne_eq, decide_not, Bool.not_eq_true, Bool.not_eq_false', decide_eq_true_eq] at hrow
  exact (fb.row_eq_row_iff c.sent hw.symm hh.symm hcol.2.2 hb).mp hrow a hcol.1 hcol.2.1

/-! ### Commits -/

/-- The region holds every pixel of the tile. -/
def TileIn (c : ClientFb) (r : Rect) (tx ty : Nat) : Prop :=
  ∀ a b, a / TILE = tx → b / TILE = ty → a < c.sent.w → b < c.sent.h → r.Has a b

theorem tileIn_of_covers {c : ClientFb} {r : Rect} {tx ty : Nat} (h : c.covers r tx ty = true) :
    c.TileIn r tx ty := by
  intro a b ha hb haw hbh
  simp only [covers, Bool.and_eq_true, decide_eq_true_eq, Rect.Has, TILE] at *
  omega

theorem markRow_sound (c : ClientFb) (r : Rect) (known : Grid Bool) (ty tx' ty' : Nat)
    (hkw : known.w = c.known.w) (hkh : known.h = c.known.h)
    (hr : r.x + r.w ≤ c.sent.w) (hrw : 0 < r.w) (hty : ty < c.known.h)
    (h : (c.markRow r known ty).cell tx' ty' = some true) :
    known.cell tx' ty' = some true ∨ c.TileIn r tx' ty' := by
  rw [markRow] at h
  have hlast : ∀ tx ∈ List.range' (r.x / TILE) ((r.x + r.w - 1) / TILE + 1 - r.x / TILE),
      tx < c.known.w := by
    intro tx htx
    rw [List.mem_range'_1] at htx
    rw [c.cols_eq]
    simp only [divCeil, TILE] at *
    omega
  generalize List.range' (r.x / TILE) ((r.x + r.w - 1) / TILE + 1 - r.x / TILE) = txs at h hlast
  induction txs generalizing known with
  | nil => exact Or.inl h
  | cons tx txs ih =>
      rw [List.foldl_cons] at h
      have htx : tx < known.w := hkw ▸ hlast tx List.mem_cons_self
      have hty' : ty < known.h := hkh ▸ hty
      by_cases hc : c.covers r tx ty = true
      · rw [if_pos hc] at h
        rcases ih _ (by simpa using hkw) (by simpa using hkh) h
          (fun t ht => hlast t (List.mem_cons_of_mem _ ht)) with hold | hin
        · rw [Grid.cell_putCell known htx hty'] at hold
          split at hold
          · rename_i heq
            obtain ⟨rfl, rfl⟩ := heq
            exact Or.inr (tileIn_of_covers hc)
          · exact Or.inl hold
        · exact Or.inr hin
      · rw [if_neg hc] at h
        exact ih known hkw hkh h (fun t ht => hlast t (List.mem_cons_of_mem _ ht))

/-- A commit marks no tile that it does not fill. -/
theorem isKnown_commit {c : ClientFb} {fb : Rgb} {r : Rect} (hrw : 0 < r.w) (hrh : 0 < r.h)
    (hx : r.x + r.w ≤ c.sent.w) (hy : r.y + r.h ≤ c.sent.h) {tx ty : Nat}
    (h : (c.commit fb r).isKnown tx ty = true) :
    c.isKnown tx ty = true ∨ c.TileIn r tx ty := by
  have hcell : (c.markKnown r).cell tx ty = some true := by
    simp only [isKnown, commit] at h
    cases hc : (c.markKnown r).cell tx ty with
    | none => simp [hc] at h
    | some v => simpa [hc] using h
  rw [markKnown] at hcell
  have hlast : ∀ t ∈ List.range' (r.y / TILE) ((r.y + r.h - 1) / TILE + 1 - r.y / TILE),
      t < c.known.h := by
    intro t ht
    rw [List.mem_range'_1] at ht
    rw [c.rows_eq]
    simp only [divCeil, TILE] at *
    omega
  have hfold : ∀ (tys : List Nat) (known : Grid Bool), (∀ t ∈ tys, t < c.known.h) →
      known.w = c.known.w → known.h = c.known.h →
      (tys.foldl (c.markRow r) known).cell tx ty = some true →
      known.cell tx ty = some true ∨ c.TileIn r tx ty := by
    intro tys
    induction tys with
    | nil => exact fun known _ _ _ hk => Or.inl hk
    | cons t tys ih =>
        intro known hts hkw hkh hk
        obtain ⟨hw', hh'⟩ := c.markRow_dims r known t
        rcases ih _ (fun t' ht' => hts t' (List.mem_cons_of_mem _ ht')) (hw'.trans hkw)
          (hh'.trans hkh) hk with hold | hin
        · exact c.markRow_sound r known t tx ty hkw hkh hx hrw (hts t List.mem_cons_self) hold
        · exact Or.inr hin
  rcases hfold _ c.known hlast rfl rfl hcell with hold | hin
  · exact Or.inl (by simp [isKnown, hold])
  · exact Or.inr hin

theorem sent_commit {c : ClientFb} {fb : Rgb} {r : Rect} (hw : fb.w = c.sent.w)
    (hh : fb.h = c.sent.h) (hx : r.x + r.w ≤ c.sent.w) (hy : r.y + r.h ≤ c.sent.h) (a b : Nat) :
    (c.commit fb r).sent.cell a b = if r.Has a b then fb.cell a b else c.sent.cell a b :=
  Grid.cell_copyFrom c.sent fb hw hh hx hy a b

end ClientFb

end RfbServe

end Hdmicap

end Paniolo
