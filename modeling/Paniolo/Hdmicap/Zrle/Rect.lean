import Paniolo.Hdmicap.RfbServe.ClientFb
import Paniolo.Hdmicap.Zrle.Size
import Paniolo.Hdmicap.Zrle.Stream

/-!
# Rectangles of tiles

A ZRLE rectangle is the sequence of its tiles from left to right and from top
to bottom. This module reads such a sequence back as patches of pixels, shows
that the patches fill the rectangle, and bounds the bytes a rectangle takes.
-/

namespace Paniolo

namespace Hdmicap

namespace Zrle

open RfbServe (Rect)

def tiles (r : Rect) : List Rect :=
  (spans 0 r.h).flatMap fun t => (spans 0 r.w).map fun s => ⟨r.x + s.1, r.y + t.1, s.2, t.2⟩

/-- Pixels for one rectangle of the screen, row after row. -/
structure Patch where
  rect : Rect
  px : List Px

def cutPatch (rgb : Grid Px) (r : Rect) : Patch := ⟨r, rgb.cut r.x r.y r.w r.h⟩

def readTiles (fmt : PixelFormat) : List Rect → Reader (List Patch)
  | [], bs => some ([], bs)
  | t :: ts, bs => do
      let (px, bs) ← decodeTile fmt t.w t.h bs
      let (ps, bs) ← readTiles fmt ts bs
      pure (⟨t, px⟩ :: ps, bs)

/-! ### Spans -/

theorem mem_spans (n : Nat) : ∀ {off : Nat} {s : Nat × Nat}, s ∈ spans off n →
    0 < s.2 ∧ s.2 ≤ 64 ∧ off ≤ s.1 ∧ s.1 + s.2 ≤ off + n := by
  induction n using Nat.strong_induction_on with
  | _ n ih =>
      intro off s hs
      rw [spans] at hs
      by_cases hn : n = 0
      · rw [if_pos hn] at hs
        cases hs
      · rw [if_neg hn] at hs
        rcases List.mem_cons.mp hs with rfl | hs
        · dsimp only
          omega
        · have := ih (n - min 64 n) (by omega) hs
          omega

theorem exists_span (n : Nat) : ∀ off a : Nat, off ≤ a → a < off + n →
    ∃ s ∈ spans off n, s.1 ≤ a ∧ a < s.1 + s.2 := by
  induction n using Nat.strong_induction_on with
  | _ n ih =>
      intro off a hle hlt
      have hn : n ≠ 0 := by omega
      rw [spans, if_neg hn]
      by_cases ha : a < off + min 64 n
      · exact ⟨(off, min 64 n), List.mem_cons_self, hle, ha⟩
      · obtain ⟨s, hs, hsa⟩ :=
          ih (n - min 64 n) (by omega) (off + min 64 n) a (by omega) (by omega)
        exact ⟨s, List.mem_cons_of_mem _ hs, hsa⟩

theorem length_spans (n : Nat) : ∀ off : Nat, (spans off n).length = (n + 63) / 64 := by
  induction n using Nat.strong_induction_on with
  | _ n ih =>
      intro off
      rw [spans]
      by_cases hn : n = 0
      · simp [hn]
      · rw [if_neg hn, List.length_cons, ih (n - min 64 n) (by omega)]
        omega

/-! ### Tiles -/

theorem mem_tiles {r t : Rect} (h : t ∈ tiles r) :
    (0 < t.w ∧ 0 < t.h ∧ t.w ≤ 64 ∧ t.h ≤ 64) ∧ r.x ≤ t.x ∧ t.x + t.w ≤ r.x + r.w ∧
      r.y ≤ t.y ∧ t.y + t.h ≤ r.y + r.h := by
  rw [tiles, List.mem_flatMap] at h
  obtain ⟨v, hv, h⟩ := h
  obtain ⟨s, hs, rfl⟩ := List.mem_map.mp h
  have h1 := mem_spans _ hv
  have h2 := mem_spans _ hs
  dsimp only
  omega

theorem exists_tile {r : Rect} {a b : Nat} (h : r.Has a b) : ∃ t ∈ tiles r, t.Has a b := by
  obtain ⟨⟨hxa, hax⟩, hyb, hby⟩ := h
  obtain ⟨s, hs, hsa⟩ := exists_span r.w 0 (a - r.x) (by omega) (by omega)
  obtain ⟨v, hv, hvb⟩ := exists_span r.h 0 (b - r.y) (by omega) (by omega)
  refine ⟨⟨r.x + s.1, r.y + v.1, s.2, v.2⟩, ?_, ?_⟩
  · rw [tiles, List.mem_flatMap]
    exact ⟨v, hv, List.mem_map.mpr ⟨s, hs, rfl⟩⟩
  · simp only [Rect.Has]
    omega

theorem has_of_tile {r t : Rect} (h : t ∈ tiles r) {a b : Nat} (hab : t.Has a b) : r.Has a b := by
  have := mem_tiles h
  simp only [Rect.Has] at *
  omega

theorem encodeRect_eq (fmt : PixelFormat) (rgb : Grid Px) (r : Rect) :
    encodeRect fmt rgb r.x r.y r.w r.h =
      (tiles r).flatMap fun t => encodeTile fmt rgb t.x t.y t.w t.h := by
  rw [encodeRect, tiles, List.flatMap_assoc]
  simp only [List.flatMap_map]

/-- The tiles of a rectangle are read back one after the other. -/
theorem readTiles_encodeRect (fmt : PixelFormat) (rgb : Grid Px) {r : Rect}
    (hx : r.x + r.w ≤ rgb.w) (hy : r.y + r.h ≤ rgb.h) (rest : List UInt8) :
    readTiles fmt (tiles r) (encodeRect fmt rgb r.x r.y r.w r.h ++ rest) =
      some ((tiles r).map (cutPatch rgb), rest) := by
  have hall : ∀ t ∈ tiles r, 0 < t.w ∧ 0 < t.h ∧ t.x + t.w ≤ rgb.w ∧ t.y + t.h ≤ rgb.h := by
    intro t ht
    have := mem_tiles ht
    omega
  rw [encodeRect_eq]
  generalize tiles r = ts at hall
  induction ts with
  | nil => rfl
  | cons t ts ih =>
      obtain ⟨hw, hh, htx, hty⟩ := hall t (by simp)
      rw [List.flatMap_cons, List.append_assoc, readTiles,
        decodeTile_encodeTile fmt htx hty hw hh]
      simp [ih fun t' ht' => hall t' (by simp [ht']), cutPatch]

/-! ### Sizes -/

theorem length_flatMap_le {α β : Type} (l : List α) (f : α → List β) (n : Nat)
    (h : ∀ a ∈ l, (f a).length ≤ n) : (l.flatMap f).length ≤ l.length * n := by
  induction l with
  | nil => simp
  | cons a l ih =>
      have ha := h a (by simp)
      have hl := ih fun b hb => h b (by simp [hb])
      rw [List.flatMap_cons, List.length_append, List.length_cons, Nat.succ_mul]
      omega

/-- The form that is written is no longer than the raw one. -/
theorem length_encodePixels_le (fmt : PixelFormat) {px : List UInt32} {w h : Nat}
    (hlen : px.length = w * h) :
    (encodePixels fmt px w h).length ≤ 5 + 4 * (w * h) := by
  have hcp : fmt.cpixelLen ≤ 4 := by
    rw [← fmt.length_cpixel ⟨0, 0, 0⟩]
    exact fmt.length_cpixel_le _
  by_cases hruns : (runsOf px).length = 1
  · have hc := fmt.length_cpixel_le (unpack (px.headD 0))
    simp only [encodePixels, if_pos hruns, List.length_cons]
    omega
  · have hraw : (encodePixels fmt px w h).length ≤ 1 + w * h * fmt.cpixelLen := by
      rw [length_encodePixels fmt (by rw [hlen, Nat.mul_comm]) hruns, build_eq]
      exact (best_bestKind fmt.cpixelLen w h (runsOf px) (firstSeen px)).le .raw trivial
    have hpx : w * h * fmt.cpixelLen ≤ w * h * 4 := Nat.mul_le_mul_left _ hcp
    omega

/-- One row of tiles of the widest frame stays well below the 32-bit length field. -/
theorem length_encodeRect_lt (fmt : PixelFormat) {rgb : Grid Px} {r : Rect}
    (hx : r.x + r.w ≤ rgb.w) (hy : r.y + r.h ≤ rgb.h) (hw : r.w ≤ 65535) (hh : r.h ≤ 64) :
    (encodeRect fmt rgb r.x r.y r.w r.h).length < 2 ^ 25 := by
  have htile : ∀ t ∈ tiles r, (encodeTile fmt rgb t.x t.y t.w t.h).length ≤ 16389 := by
    intro t ht
    obtain ⟨⟨htw, hth, htw', hth'⟩, hin⟩ := mem_tiles ht
    have hlen : ((rgb.cut t.x t.y t.w t.h).map packRgb).length = t.w * t.h := by
      rw [List.length_map, rgb.length_cut (by omega) (by omega), Nat.mul_comm]
    have hle := length_encodePixels_le fmt hlen
    have harea : t.w * t.h ≤ 64 * 64 := Nat.mul_le_mul htw' hth'
    rw [encodeTile]
    omega
  have hcount : (tiles r).length ≤ 1024 := by
    have hrow := length_flatMap_le (spans 0 r.h)
      (fun t => (spans 0 r.w).map fun s => (⟨r.x + s.1, r.y + t.1, s.2, t.2⟩ : Rect)) 1024 ?_
    · rw [length_spans] at hrow
      rw [tiles]
      omega
    · intro t _
      rw [List.length_map, length_spans]
      omega
  have hle := length_flatMap_le (tiles r) (fun t => encodeTile fmt rgb t.x t.y t.w t.h) 16389 htile
  rw [encodeRect_eq]
  omega

end Zrle

end Hdmicap

end Paniolo
