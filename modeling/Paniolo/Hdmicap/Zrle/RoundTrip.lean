import Paniolo.Hdmicap.RfbServe.Viewer

/-!
# A rectangle and back

The reader of a whole ZRLE rectangle: it walks the tiles from left to right
and from top to bottom and puts each one into an image of the rectangle's
size. Against `encodeRect` it gives the rectangle's pixels back and reads every
byte.
-/

namespace Paniolo

namespace Hdmicap

namespace Zrle

open RfbServe (Rect Covered Inside)

/-- Put the pixels of a tile into the image, row after row. -/
def paste (img : Grid Px) (p : Patch) : Grid Px :=
  (List.range p.rect.h).foldl (fun img row =>
    img.putRow p.rect.x (p.rect.y + row) ((p.px.drop (row * p.rect.w)).take p.rect.w)) img

/-- The image of a rectangle from its tiles, and the bytes behind the last one. -/
def decodeRect (fmt : PixelFormat) (w h : Nat) : Reader (Grid Px) := fun raw => do
  let (ps, raw) ← readTiles fmt (tiles ⟨0, 0, w, h⟩) raw
  pure (ps.foldl paste (Grid.fill w h Px.black), raw)

theorem paste_cutPatch (img rgb : Grid Px) {r : Rect} (hx : r.x + r.w ≤ rgb.w)
    (hy : r.y + r.h ≤ rgb.h) :
    paste img (cutPatch rgb r) = img.copyFrom rgb r.x r.y r.w r.h := by
  rw [paste, Grid.copyFrom, List.range'_eq_map_range, List.foldl_map]
  apply List.foldl_ext
  intro g i hi
  have hrow : ∀ i < r.h, (rgb.row r.x (r.y + i) r.w).length = r.w :=
    fun i hi => rgb.length_row hx (by omega)
  have hslice := slice_flatMap_blocks hrow (List.mem_range.mp hi)
  exact congrArg (g.putRow r.x (r.y + i)) hslice

theorem foldl_paste {rgb : Grid Px} (ts : List Rect) (hin : Inside rgb.w rgb.h ts) (img : Grid Px) :
    (ts.map (cutPatch rgb)).foldl paste img =
      ts.foldl (fun g t => g.copyFrom rgb t.x t.y t.w t.h) img := by
  rw [List.foldl_map]
  apply List.foldl_ext
  intro g t ht
  obtain ⟨-, -, htx, hty⟩ := hin t ht
  exact paste_cutPatch g rgb htx hty

/-- The tiles read of their own rectangle only. -/
theorem encodeRect_sub (fmt : PixelFormat) (rgb : Grid Px) {x y w h : Nat} (hx : x + w ≤ rgb.w)
    (hy : y + h ≤ rgb.h) :
    encodeRect fmt rgb x y w h = encodeRect fmt (rgb.sub x y w h hx hy) 0 0 w h := by
  rw [encodeRect, encodeRect]
  apply List.flatMap_congr
  intro t ht
  apply List.flatMap_congr
  intro s hs
  have hst := mem_spans _ hs
  have htt := mem_spans _ ht
  rw [encodeTile, encodeTile, rgb.cut_sub hx hy (by omega) (by omega), Nat.zero_add, Nat.zero_add]

/-- Whatever the pixel format, the image and the rectangle: the reader gives the rectangle's
pixels back and leaves nothing over. -/
theorem decodeRect_encodeRect (fmt : PixelFormat) (rgb : Grid Px) {x y w h : Nat}
    (hx : x + w ≤ rgb.w) (hy : y + h ≤ rgb.h) :
    ∃ img : Grid Px, decodeRect fmt w h (encodeRect fmt rgb x y w h) = some (img, []) ∧
      img.w = w ∧ img.h = h ∧
      ∀ a b, a < w → b < h → img.cell a b = rgb.cell (x + a) (y + b) := by
  obtain ⟨part, hpart⟩ : ∃ part, part = rgb.sub x y w h hx hy := ⟨_, rfl⟩
  have hw : part.w = w := by rw [hpart, Grid.sub_w]
  have hh : part.h = h := by rw [hpart, Grid.sub_h]
  have hin : Inside part.w part.h (tiles ⟨0, 0, w, h⟩) :=
    RfbServe.inside_tiles (by simp [hw]) (by simp [hh])
  have hread := readTiles_encodeRect fmt part (r := ⟨0, 0, w, h⟩) (by simp [hw])
    (by simp [hh]) []
  rw [List.append_nil] at hread
  obtain ⟨hiw, hih, hcell⟩ := RfbServe.foldl_copyFrom part (tiles ⟨0, 0, w, h⟩)
    (Grid.fill w h Px.black) hw.symm hh.symm hin
  refine ⟨_, ?_, hiw.trans hw, hih.trans hh, ?_⟩
  · rw [encodeRect_sub fmt rgb hx hy, ← hpart, decodeRect, hread, ← foldl_paste _ hin]
    rfl
  · intro a b ha hb
    have hcovered : Covered (tiles ⟨0, 0, w, h⟩) a b :=
      RfbServe.covered_tiles.mpr ⟨⟨Nat.zero_le _, by simpa using ha⟩, Nat.zero_le _, by simpa using hb⟩
    rw [hcell, if_pos hcovered, hpart, rgb.cell_sub hx hy ha hb]

/-- A rectangle of two pixels inside an image of three, in the default format. -/
theorem decodeRect_encodeRect_twoOfThree :
    ∃ img : Grid Px, decodeRect PixelFormat.default 2 1
        (encodeRect PixelFormat.default ⟨3, 1, [⟨1, 2, 3⟩, ⟨4, 5, 6⟩, ⟨7, 8, 9⟩], rfl⟩ 1 0 2 1) =
          some (img, []) ∧ img.w = 2 ∧ img.h = 1 ∧
      ∀ a b, a < 2 → b < 1 → img.cell a b =
        (⟨3, 1, [⟨1, 2, 3⟩, ⟨4, 5, 6⟩, ⟨7, 8, 9⟩], rfl⟩ : Grid Px).cell (1 + a) (0 + b) :=
  decodeRect_encodeRect PixelFormat.default _ (by decide) (by decide)

end Zrle

end Hdmicap

end Paniolo
