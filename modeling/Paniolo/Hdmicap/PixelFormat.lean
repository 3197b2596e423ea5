import Paniolo.Library.BigEndian

/-!
# Pixel formats

The pixel formats the RFB server accepts and how a pixel goes on the wire as a
PIXEL and as a CPIXEL, followed by the reading side of RFC 6143: the 32-bit
value of a pixel and the channels taken out of it by their shifts. The reading
side is written from the format alone and not from the writer.
-/

namespace Paniolo

namespace Hdmicap

/-- One pixel of a packed RGB buffer. -/
structure Px where
  r : UInt8
  g : UInt8
  b : UInt8
deriving DecidableEq, Repr

def Px.black : Px := ⟨0, 0, 0⟩

/-- Bit positions of the red, green and blue bytes inside the 32-bit pixel. -/
structure Shifts where
  r : UInt8
  g : UInt8
  b : UInt8
deriving DecidableEq, Repr

namespace Shifts

def aligned (s : Shifts) : Bool :=
  [s.r, s.g, s.b].all fun i => i = 0 || i = 8 || i = 16 || i = 24

def distinct (s : Shifts) : Bool :=
  s.r != s.g && s.r != s.b && s.g != s.b

end Shifts

/-- A client's pixel format, reduced to what is served. -/
structure PixelFormat where
  bigEndian : Bool
  shifts : Shifts
  depth : UInt8
  aligned : shifts.aligned = true
  distinct : shifts.distinct = true
deriving DecidableEq

namespace PixelFormat

/-- What ServerInit announces: depth 24, little-endian, r16 g8 b0. -/
def default : PixelFormat where
  bigEndian := false
  shifts := ⟨16, 8, 0⟩
  depth := 24
  aligned := by decide
  distinct := by decide

/-- The 16 bytes of a PIXEL_FORMAT; the error is what the connection is closed with. -/
def parse (b : List UInt8) : Except String PixelFormat :=
  let bpp := b.getD 0 0
  let depth := b.getD 1 0
  let big := b.getD 2 0 != 0
  let tc := b.getD 3 0 != 0
  let max := fun i => ofBe16 (b.getD (4 + 2 * i) 0) (b.getD (5 + 2 * i) 0)
  let shifts : Shifts := ⟨b.getD 10 0, b.getD 11 0, b.getD 12 0⟩
  if bpp ≠ 32 then
    .error s!"unsupported pixel format: {bpp} bits per pixel (need 32)"
  else if tc = false then
    .error "unsupported pixel format: colour-map (need true colour)"
  else if (List.range 3).any (fun i => max i ≠ 255) then
    .error "unsupported pixel format: channel max must be 255"
  else if h : shifts.aligned = true ∧ shifts.distinct = true then
    .ok ⟨big, shifts, depth, h.1, h.2⟩
  else
    .error "unsupported pixel format: shifts must be distinct bytes"

/-- The PIXEL_FORMAT of ServerInit. -/
def toBytes (f : PixelFormat) : List UInt8 :=
  [32, f.depth, if f.bigEndian then 1 else 0, 1] ++ be16 255 ++ be16 255 ++ be16 255 ++
    [f.shifts.r, f.shifts.g, f.shifts.b, 0, 0, 0]

def pack (f : PixelFormat) (p : Px) : UInt32 :=
  p.r.toUInt32 <<< f.shifts.r.toUInt32 ||| p.g.toUInt32 <<< f.shifts.g.toUInt32 |||
    p.b.toUInt32 <<< f.shifts.b.toUInt32

/-- The byte of `v` that starts at bit `t`. -/
def byteAt (v : UInt32) (t : UInt8) : UInt8 :=
  (v >>> t.toUInt32).toUInt8

/-- The four bytes of a pixel on the wire. -/
def wire (f : PixelFormat) (p : Px) : List UInt8 :=
  let v := f.pack p
  if f.bigEndian then [byteAt v 24, byteAt v 16, byteAt v 8, byteAt v 0]
  else [byteAt v 0, byteAt v 8, byteAt v 16, byteAt v 24]

/-- Index of the wire byte a CPIXEL leaves out. -/
def cpixelSkip (f : PixelFormat) : Option Nat :=
  if f.depth > 24 then none
  else
    let mask := f.pack ⟨255, 255, 255⟩
    if mask >>> 24 = 0 then some (if f.bigEndian then 0 else 3)
    else if mask &&& 0xFF = 0 then some (if f.bigEndian then 3 else 0)
    else none

def cpixelLen (f : PixelFormat) : Nat :=
  if f.cpixelSkip.isSome then 3 else 4

/-- `push_cpixel`: the wire bytes without the skipped one. -/
def cpixel (f : PixelFormat) (p : Px) : List UInt8 :=
  match f.cpixelSkip with
  | none => f.wire p
  | some skip => (f.wire p).eraseIdx skip

/-! ### Reading pixels -/

/-- The 32-bit value of four bytes, least significant first. -/
def valueLe (b0 b1 b2 b3 : UInt8) : UInt32 :=
  b0.toUInt32 ||| b1.toUInt32 <<< 8 ||| b2.toUInt32 <<< 16 ||| b3.toUInt32 <<< 24

def pixelValue (f : PixelFormat) (b0 b1 b2 b3 : UInt8) : UInt32 :=
  if f.bigEndian then valueLe b3 b2 b1 b0 else valueLe b0 b1 b2 b3

/-- The channels of a pixel value. -/
def colour (f : PixelFormat) (v : UInt32) : Px :=
  ⟨byteAt v f.shifts.r, byteAt v f.shifts.g, byteAt v f.shifts.b⟩

def readPixel (f : PixelFormat) : List UInt8 → Option (Px × List UInt8)
  | b0 :: b1 :: b2 :: b3 :: rest => some (f.colour (f.pixelValue b0 b1 b2 b3), rest)
  | _ => none

/-- Which three bytes of the pixel value a CPIXEL holds, when it is not the whole pixel. -/
inductive CpixelForm where
  | whole
  | leastSignificant
  | mostSignificant
deriving DecidableEq

/-- RFC 6143, 7.7.5: depth 24 or less, and every colour bit in three bytes. -/
def cpixelForm (f : PixelFormat) : CpixelForm :=
  if f.depth ≤ 24 then
    if f.shifts.r ≤ 16 ∧ f.shifts.g ≤ 16 ∧ f.shifts.b ≤ 16 then .leastSignificant
    else if 8 ≤ f.shifts.r ∧ 8 ≤ f.shifts.g ∧ 8 ≤ f.shifts.b then .mostSignificant
    else .whole
  else .whole

def readCpixel (f : PixelFormat) (bs : List UInt8) : Option (Px × List UInt8) :=
  match f.cpixelForm, bs with
  | .whole, bs => f.readPixel bs
  | .leastSignificant, b0 :: b1 :: b2 :: rest =>
      some (f.colour (if f.bigEndian then f.pixelValue 0 b0 b1 b2
        else f.pixelValue b0 b1 b2 0), rest)
  | .mostSignificant, b0 :: b1 :: b2 :: rest =>
      some (f.colour (if f.bigEndian then f.pixelValue b0 b1 b2 0
        else f.pixelValue 0 b0 b1 b2), rest)
  | _, _ => none

/-! ### What is written is what is read -/

/-- The bit positions a byte of the pixel can start at. -/
def ByteShift (s : UInt8) : Prop := s = 0 ∨ s = 8 ∨ s = 16 ∨ s = 24

theorem byteShift (f : PixelFormat) :
    ByteShift f.shifts.r ∧ ByteShift f.shifts.g ∧ ByteShift f.shifts.b := by
  have h := f.aligned
  simp only [Shifts.aligned, List.all_cons, List.all_nil, Bool.and_true, Bool.and_eq_true,
    Bool.or_eq_true, decide_eq_true_eq] at h
  simp only [ByteShift]
  tauto

theorem shifts_ne (f : PixelFormat) :
    f.shifts.r ≠ f.shifts.g ∧ f.shifts.r ≠ f.shifts.b ∧ f.shifts.g ≠ f.shifts.b := by
  have h := f.distinct
  simp only [Shifts.distinct, Bool.and_eq_true, bne_iff_ne] at h
  tauto

theorem byteAt_or (v u : UInt32) (t : UInt8) : byteAt (v ||| u) t = byteAt v t ||| byteAt u t := by
  rw [byteAt, UInt32.shiftRight_or, UInt32.toUInt8_or]
  rfl

theorem byteAt_shiftLeft {s t : UInt8} (hs : ByteShift s) (ht : ByteShift t) (c : UInt8) :
    byteAt (c.toUInt32 <<< s.toUInt32) t = if s = t then c else 0 := by
  obtain ⟨n, rfl⟩ : ∃ n : Fin 256, c = UInt8.ofFin n := ⟨c.toFin, rfl⟩
  revert n
  rcases hs with rfl | rfl | rfl | rfl <;> rcases ht with rfl | rfl | rfl | rfl <;>
    decide +kernel

theorem byteAt_pack (f : PixelFormat) (p : Px) {t : UInt8} (ht : ByteShift t) :
    byteAt (f.pack p) t = (if f.shifts.r = t then p.r else 0) |||
      (if f.shifts.g = t then p.g else 0) ||| (if f.shifts.b = t then p.b else 0) := by
  obtain ⟨hr, hg, hb⟩ := f.byteShift
  rw [pack, byteAt_or, byteAt_or, byteAt_shiftLeft hr ht, byteAt_shiftLeft hg ht,
    byteAt_shiftLeft hb ht]

theorem byteAt_valueLe (b0 b1 b2 b3 : UInt8) {t : UInt8} (ht : ByteShift t) :
    byteAt (valueLe b0 b1 b2 b3) t =
      if t = 0 then b0 else if t = 8 then b1 else if t = 16 then b2 else b3 := by
  have h0 : b0.toUInt32 = b0.toUInt32 <<< (0 : UInt8).toUInt32 := by simp
  have hs0 : ByteShift 0 := Or.inl rfl
  have hs8 : ByteShift 8 := Or.inr (Or.inl rfl)
  have hs16 : ByteShift 16 := Or.inr (Or.inr (Or.inl rfl))
  have hs24 : ByteShift 24 := Or.inr (Or.inr (Or.inr rfl))
  rw [valueLe, byteAt_or, byteAt_or, byteAt_or, h0, byteAt_shiftLeft hs0 ht,
    show (8 : UInt32) = (8 : UInt8).toUInt32 from rfl, byteAt_shiftLeft hs8 ht,
    show (16 : UInt32) = (16 : UInt8).toUInt32 from rfl, byteAt_shiftLeft hs16 ht,
    show (24 : UInt32) = (24 : UInt8).toUInt32 from rfl, byteAt_shiftLeft hs24 ht]
  rcases ht with rfl | rfl | rfl | rfl <;> simp

theorem colour_pack (f : PixelFormat) (p : Px) : f.colour (f.pack p) = p := by
  obtain ⟨hr, hg, hb⟩ := f.byteShift
  obtain ⟨hrg, hrb, hgb⟩ := f.shifts_ne
  rw [colour, byteAt_pack f p hr, byteAt_pack f p hg, byteAt_pack f p hb]
  simp [hrg, hrb, hgb, hrg.symm, hrb.symm, hgb.symm]

/-- Only the four bytes of a value decide its colour. -/
theorem colour_congr (f : PixelFormat) {v u : UInt32}
    (h : ∀ t, ByteShift t → byteAt v t = byteAt u t) : f.colour v = f.colour u := by
  obtain ⟨hr, hg, hb⟩ := f.byteShift
  rw [colour, colour, h _ hr, h _ hg, h _ hb]

theorem colour_valueLe_bytes (f : PixelFormat) (v : UInt32) :
    f.colour (valueLe (byteAt v 0) (byteAt v 8) (byteAt v 16) (byteAt v 24)) = f.colour v := by
  apply f.colour_congr
  intro t ht
  rw [byteAt_valueLe _ _ _ _ ht]
  rcases ht with rfl | rfl | rfl | rfl <;> rfl

theorem readPixel_wire (f : PixelFormat) (p : Px) (rest : List UInt8) :
    f.readPixel (f.wire p ++ rest) = some (p, rest) := by
  rw [wire]
  cases hbig : f.bigEndian <;>
    simp [readPixel, pixelValue, hbig, colour_valueLe_bytes, colour_pack]

@[simp] theorem length_wire (f : PixelFormat) (p : Px) : (f.wire p).length = 4 := by
  rw [wire]
  cases f.bigEndian <;> rfl

theorem pack_white_high (f : PixelFormat) :
    f.pack ⟨255, 255, 255⟩ >>> 24 = 0 ↔
      f.shifts.r ≤ 16 ∧ f.shifts.g ≤ 16 ∧ f.shifts.b ≤ 16 := by
  obtain ⟨hr, hg, hb⟩ := f.byteShift
  rw [pack]
  rcases hr with hr | hr | hr | hr <;> rcases hg with hg | hg | hg | hg <;>
    rcases hb with hb | hb | hb | hb <;> rw [hr, hg, hb] <;> decide

theorem pack_white_low (f : PixelFormat) :
    f.pack ⟨255, 255, 255⟩ &&& 0xFF = 0 ↔
      8 ≤ f.shifts.r ∧ 8 ≤ f.shifts.g ∧ 8 ≤ f.shifts.b := by
  obtain ⟨hr, hg, hb⟩ := f.byteShift
  rw [pack]
  rcases hr with hr | hr | hr | hr <;> rcases hg with hg | hg | hg | hg <;>
    rcases hb with hb | hb | hb | hb <;> rw [hr, hg, hb] <;> decide

/-- The writer omits the byte that the format's three-byte form does not hold. -/
theorem cpixelSkip_eq (f : PixelFormat) :
    f.cpixelSkip = match f.cpixelForm with
      | .whole => none
      | .leastSignificant => some (if f.bigEndian then 0 else 3)
      | .mostSignificant => some (if f.bigEndian then 3 else 0) := by
  rw [cpixelSkip, cpixelForm]
  by_cases hd : f.depth ≤ 24
  · rw [if_neg (by simpa using hd), if_pos hd]
    by_cases hhigh : f.shifts.r ≤ 16 ∧ f.shifts.g ≤ 16 ∧ f.shifts.b ≤ 16
    · simp only [if_pos (f.pack_white_high.mpr hhigh), if_pos hhigh]
    · have hne : ¬f.pack ⟨255, 255, 255⟩ >>> 24 = 0 := fun h => hhigh (f.pack_white_high.mp h)
      by_cases hlow : 8 ≤ f.shifts.r ∧ 8 ≤ f.shifts.g ∧ 8 ≤ f.shifts.b
      · simp only [if_neg hne, if_neg hhigh, if_pos (f.pack_white_low.mpr hlow), if_pos hlow]
      · have hne' : ¬f.pack ⟨255, 255, 255⟩ &&& 0xFF = 0 :=
          fun h => hlow (f.pack_white_low.mp h)
        simp only [if_neg hne, if_neg hhigh, if_neg hne', if_neg hlow]
  · rw [if_pos (by simpa using hd), if_neg hd]

theorem cpixelForm_least {f : PixelFormat} (h : f.cpixelForm = .leastSignificant) :
    f.shifts.r ≤ 16 ∧ f.shifts.g ≤ 16 ∧ f.shifts.b ≤ 16 := by
  rw [cpixelForm] at h
  split_ifs at h with _ hs
  exact hs

theorem cpixelForm_most {f : PixelFormat} (h : f.cpixelForm = .mostSignificant) :
    8 ≤ f.shifts.r ∧ 8 ≤ f.shifts.g ∧ 8 ≤ f.shifts.b := by
  rw [cpixelForm] at h
  split_ifs at h with _ _ hs
  exact hs

theorem byteAt_pack_high {f : PixelFormat} (h : f.cpixelForm = .leastSignificant) (p : Px) :
    byteAt (f.pack p) 24 = 0 := by
  obtain ⟨hr, hg, hb⟩ := cpixelForm_least h
  have hne : ∀ s : UInt8, s ≤ 16 → s ≠ 24 := by
    rintro s hs rfl
    exact absurd hs (by decide)
  rw [byteAt_pack f p (Or.inr (Or.inr (Or.inr rfl))), if_neg (hne _ hr), if_neg (hne _ hg),
    if_neg (hne _ hb)]
  rfl

theorem byteAt_pack_low {f : PixelFormat} (h : f.cpixelForm = .mostSignificant) (p : Px) :
    byteAt (f.pack p) 0 = 0 := by
  obtain ⟨hr, hg, hb⟩ := cpixelForm_most h
  have hne : ∀ s : UInt8, 8 ≤ s → s ≠ 0 := by
    rintro s hs rfl
    exact absurd hs (by decide)
  rw [byteAt_pack f p (Or.inl rfl), if_neg (hne _ hr), if_neg (hne _ hg), if_neg (hne _ hb)]
  rfl

theorem readCpixel_cpixel (f : PixelFormat) (p : Px) (rest : List UInt8) :
    f.readCpixel (f.cpixel p ++ rest) = some (p, rest) := by
  have hcol := f.colour_valueLe_bytes (f.pack p)
  rw [colour_pack] at hcol
  rw [cpixel, cpixelSkip_eq]
  cases hform : f.cpixelForm with
  | whole =>
      simp only [readCpixel, hform]
      exact f.readPixel_wire p rest
  | leastSignificant =>
      rw [byteAt_pack_high hform p] at hcol
      rw [wire]
      cases hbig : f.bigEndian <;> simpa [readCpixel, hform, pixelValue, hbig] using hcol
  | mostSignificant =>
      rw [byteAt_pack_low hform p] at hcol
      rw [wire]
      cases hbig : f.bigEndian <;> simpa [readCpixel, hform, pixelValue, hbig] using hcol

theorem length_cpixel (f : PixelFormat) (p : Px) : (f.cpixel p).length = f.cpixelLen := by
  rw [cpixel, cpixelLen, cpixelSkip_eq]
  cases f.cpixelForm <;> cases f.bigEndian <;> simp [List.length_eraseIdx]

theorem length_cpixel_le (f : PixelFormat) (p : Px) : (f.cpixel p).length ≤ 4 := by
  rw [length_cpixel, cpixelLen]
  split <;> omega

/-- What ServerInit announces is a format the server accepts. -/
theorem parse_toBytes (f : PixelFormat) : parse f.toBytes = .ok f := by
  have h255 : ofBe16 0 255 = 255 := by decide
  cases f with
  | mk big shifts depth aligned distinct =>
      cases big <;> simp [parse, toBytes, be16, h255, aligned, distinct, List.range_succ]

end PixelFormat

end Hdmicap

end Paniolo
