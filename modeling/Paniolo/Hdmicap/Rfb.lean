import Paniolo.Library.Machine
import Paniolo.Hdmicap.RfbServe.Work

/-!
# The RFB client against the RFB server

`rfb.rs` is the other direction: the repository as a client of an RFB server.
Its messages, its framebuffer and `read_update` are modelled here and set
against the server of the same repository: the server parses what the client
sends, the client reads what the server answers, and after every answer the
client's framebuffer is the frame.
-/

namespace Paniolo

namespace Hdmicap

namespace Rfb

open RfbServe (ENC_RAW ENC_DESKTOP_SIZE Rect Rgb Req Settings Work ClientFb TILE Covered Inside
  Agrees pushRectHead rawBody commitAll divCeil)
open Zrle (Zlib)

def ENC_COPYRECT : Int := 1

def MAX_PIXELS : Nat := 67108864

/-- SetPixelFormat (32 bpp, depth 24, little-endian, r16 g8 b0), then SetEncodings. -/
def setupMessages : List UInt8 :=
  [0, 0, 0, 0, 32, 24, 0, 1] ++ be16 255 ++ be16 255 ++ be16 255 ++ [16, 8, 0, 0, 0, 0] ++
    [2, 0, 0, 3] ++ [ENC_RAW, ENC_COPYRECT, ENC_DESKTOP_SIZE].flatMap beI32

def updateRequest (incremental : Bool) (w h : Nat) : List UInt8 :=
  [3, if incremental then 1 else 0, 0, 0, 0, 0] ++ be16 w ++ be16 h

/-- The persistent framebuffer rectangles are composed into. -/
structure Fb where
  rgb : Grid Px

namespace Fb

def new (w h : Nat) : Except String Fb :=
  if w = 0 ∨ h = 0 ∨ w * h > MAX_PIXELS then .error s!"unusable framebuffer size {w}x{h}"
  else .ok ⟨Grid.fill w h Px.black⟩

def inBounds (fb : Fb) (x y w h : Nat) : Bool :=
  x + w ≤ fb.rgb.w && y + h ≤ fb.rgb.h

/-- Pixels of four bytes each: B, G, R, pad. -/
def bgrPixels : List UInt8 → List Px
  | b :: g :: r :: _ :: rest => ⟨r, g, b⟩ :: bgrPixels rest
  | _ => []

def outside (fb : Fb) (x y w h : Nat) : String :=
  let fw := fb.rgb.w
  let fh := fb.rgb.h
  s!"rectangle {w}x{h}+{x}+{y} outside the {fw}x{fh} framebuffer"

def blitRaw (fb : Fb) (x y w h : Nat) (src : List UInt8) : Except String Fb :=
  if fb.inBounds x y w h then
    .ok ⟨(List.range h).foldl
      (fun g row => g.putRow x (y + row) (bgrPixels ((src.drop (row * w * 4)).take (w * 4)))) fb.rgb⟩
  else .error (fb.outside x y w h)

/-- CopyRect: source and destination may overlap, so it goes through a copy. -/
def copyRect (fb : Fb) (x y w h sx sy : Nat) : Except String Fb :=
  if fb.inBounds x y w h && fb.inBounds sx sy w h then
    let tmp := fb.rgb.cut sx sy w h
    .ok ⟨(List.range h).foldl
      (fun g row => g.putRow x (y + row) ((tmp.drop (row * w)).take w)) fb.rgb⟩
  else .error s!"CopyRect {w}x{h} from +{sx}+{sy} to +{x}+{y} outside the framebuffer"

end Fb

/-- `Conn::take`, on the bytes the server will have sent. -/
def take (n : Nat) (buf : List UInt8) : Except String (List UInt8 × List UInt8) :=
  if buf.length < n then .error "server closed the connection"
  else .ok (buf.take n, buf.drop n)

/-- The twelve bytes in front of every rectangle. -/
def readRectHead (buf : List UInt8) : Except String ((Rect × Int) × List UInt8) := do
  let (r, buf) ← take 12 buf
  let at16 := fun i => ofBe16 (r.getD i 0) (r.getD (i + 1) 0)
  let enc := ofBeI32 (r.getD 8 0) (r.getD 9 0) (r.getD 10 0) (r.getD 11 0)
  pure ((⟨at16 0, at16 2, at16 4, at16 6⟩, enc), buf)

/-- One rectangle of an update. -/
def readRect (fb : Fb) (buf : List UInt8) : Except String (Fb × List UInt8) := do
  let ((r, enc), buf) ← readRectHead buf
  if enc = ENC_RAW then
    let len := r.w * r.h * 4
    if len > MAX_PIXELS * 4 then .error s!"Raw rectangle of {len} bytes refused"
    else if fb.inBounds r.x r.y r.w r.h = false then .error (fb.outside r.x r.y r.w r.h)
    else do
      let (data, buf) ← take len buf
      let fb ← fb.blitRaw r.x r.y r.w r.h data
      pure (fb, buf)
  else if enc = ENC_COPYRECT then do
    let (s, buf) ← take 4 buf
    let fb ← fb.copyRect r.x r.y r.w r.h (ofBe16 (s.getD 0 0) (s.getD 1 0))
      (ofBe16 (s.getD 2 0) (s.getD 3 0))
    pure (fb, buf)
  else if enc = ENC_DESKTOP_SIZE then do
    let fb ← Fb.new r.w r.h
    pure (fb, buf)
  else .error s!"server sent unadvertised encoding {enc}"

def readRects : Nat → Fb → List UInt8 → Except String (Fb × List UInt8)
  | 0, fb, buf => .ok (fb, buf)
  | n + 1, fb, buf => do
      let (fb, buf) ← readRect fb buf
      readRects n fb buf

/-- Parse one FramebufferUpdate; the flag says that the picture may differ. -/
def readUpdate (fb : Fb) (buf : List UInt8) : Except String (Fb × Bool × List UInt8) := do
  let (head, buf) ← take 4 buf
  let n := ofBe16 (head.getD 2 0) (head.getD 3 0)
  let (fb, buf) ← readRects n fb buf
  pure (fb, n ≠ 0, buf)

/-! ### The two of them connected -/

/-- The client's framebuffer and what the server keeps of its session. -/
structure Link (z : Zlib) where
  fb : Fb
  settings : Settings
  work : Work z

namespace Link

variable {z : Zlib}

/-- After ServerInit: both sides have the announced size, and the client's setup is handled. -/
def connect (w h : Nat) : Option (Link z) :=
  match Fb.new w h, Settings.initial.receive setupMessages with
  | .ok fb, .ok (settings, []) => some ⟨fb, settings, ⟨ClientFb.new w h, z.enc⟩⟩
  | _, _ => none

/-- One request of the client and the server's answer to it: the request is parsed, the frame
at hand is diffed, and a message is read by the client to its last byte. -/
def exchange (l : Link z) (e : Bool × Rgb) : Option (Link z) :=
  match l.settings.receive (updateRequest e.1 l.fb.rgb.w l.fb.rgb.h) with
  | .ok (settings, []) =>
      match settings.pending with
      | some req => do
          let (work, out) ← l.work.update e.2 req settings.fmt settings.zrle settings.desktopSize
          if out.noDesktopSize then none
          else
            match out.msg with
            | none => some ⟨l.fb, settings, work⟩
            | some msg =>
                match readUpdate l.fb msg with
                | .ok (fb, _, []) => some ⟨fb, settings, work⟩
                | _ => none
      | none => none
  | _ => none

end Link

/-- A frame the client can hold. -/
def Holdable (w h : Nat) : Prop :=
  0 < w ∧ 0 < h ∧ w ≤ 65535 ∧ h ≤ 65535 ∧ w * h ≤ MAX_PIXELS

instance (w h : Nat) : Decidable (Holdable w h) :=
  inferInstanceAs (Decidable (0 < w ∧ 0 < h ∧ w ≤ 65535 ∧ h ≤ 65535 ∧ w * h ≤ MAX_PIXELS))

/-! ### The client's messages, parsed -/

theorem receive_setupMessages :
    Settings.initial.receive setupMessages =
      .ok (⟨PixelFormat.default, false, true, none⟩, []) := by
  decide +kernel

theorem receive_updateRequest (s : Settings) (incremental : Bool) {w h : Nat} (hw : w ≤ 65535)
    (hh : h ≤ 65535) :
    s.receive (updateRequest incremental w h) =
      .ok ({ s with pending := some ⟨incremental, 0, 0, w, h⟩ }, []) := by
  have hwb : ofBe16 (UInt8.ofNat (w / 256)) (UInt8.ofNat w) = w := by
    rw [ofBe16_ofNat, Nat.mod_eq_of_lt (by omega)]
  have hhb : ofBe16 (UInt8.ofNat (h / 256)) (UInt8.ofNat h) = h := by
    rw [ofBe16_ofNat, Nat.mod_eq_of_lt (by omega)]
  have h0 : ofBe16 0 0 = 0 := rfl
  cases incremental <;>
    simp [Settings.receive, RfbServe.handleAll, RfbServe.parse, updateRequest, be16,
      RfbServe.messageLen, RfbServe.readMessage, Settings.handle, hwb, hhb, h0]

/-! ### Raw rectangles -/

theorem wire_default (p : Px) : PixelFormat.default.wire p = [p.b, p.g, p.r, 0] := by
  have hbyte := fun t ht => PixelFormat.default.byteAt_pack p (t := t) ht
  rw [PixelFormat.wire]
  simp only [hbyte 0 (Or.inl rfl), hbyte 8 (Or.inr (Or.inl rfl)),
    hbyte 16 (Or.inr (Or.inr (Or.inl rfl))), hbyte 24 (Or.inr (Or.inr (Or.inr rfl)))]
  simp [PixelFormat.default]

theorem bgrPixels_flatMap_wire (px : List Px) :
    Fb.bgrPixels (px.flatMap PixelFormat.default.wire) = px := by
  induction px with
  | nil => rfl
  | cons p px ih =>
      rw [List.flatMap_cons, wire_default]
      simp [Fb.bgrPixels, ih]

theorem bgrPixels_drop (n : Nat) (l : List UInt8) :
    Fb.bgrPixels (l.drop (4 * n)) = (Fb.bgrPixels l).drop n := by
  induction n generalizing l with
  | zero => rfl
  | succ n ih =>
      rw [Nat.mul_succ, Nat.add_comm, ← List.drop_drop]
      rcases l with _ | ⟨a, _ | ⟨b, _ | ⟨c, _ | ⟨d, l⟩⟩⟩⟩
      all_goals simp [Fb.bgrPixels, ih]

theorem bgrPixels_take (n : Nat) (l : List UInt8) :
    Fb.bgrPixels (l.take (4 * n)) = (Fb.bgrPixels l).take n := by
  induction n generalizing l with
  | zero => rfl
  | succ n ih =>
      rw [Nat.mul_succ]
      rcases l with _ | ⟨a, _ | ⟨b, _ | ⟨c, _ | ⟨d, l⟩⟩⟩⟩
      all_goals simp [Fb.bgrPixels, ih]

theorem length_bgrPixels (n : Nat) (l : List UInt8) (h : l.length = 4 * n) :
    (Fb.bgrPixels l).length = n := by
  induction n generalizing l with
  | zero =>
      have hnil : l = [] := List.length_eq_zero_iff.mp h
      rw [hnil]
      rfl
  | succ n ih =>
      rcases l with _ | ⟨a, _ | ⟨b, _ | ⟨c, _ | ⟨d, l⟩⟩⟩⟩
      all_goals simp only [List.length_cons, List.length_nil] at h
      any_goals omega
      rw [Fb.bgrPixels, List.length_cons, ih l (by omega)]

theorem getElem?_bgrPixels (i : Nat) (l : List UInt8) (h : 4 * (i + 1) ≤ l.length) :
    (Fb.bgrPixels l)[i]? =
      some ⟨l.getD (4 * i + 2) 0, l.getD (4 * i + 1) 0, l.getD (4 * i) 0⟩ := by
  induction i generalizing l with
  | zero =>
      rcases l with _ | ⟨a, _ | ⟨b, _ | ⟨c, _ | ⟨d, l⟩⟩⟩⟩
      all_goals simp only [List.length_cons, List.length_nil] at h
      any_goals omega
      rfl
  | succ i ih =>
      rcases l with _ | ⟨a, _ | ⟨b, _ | ⟨c, _ | ⟨d, l⟩⟩⟩⟩
      all_goals simp only [List.length_cons, List.length_nil] at h
      any_goals omega
      rw [Fb.bgrPixels, List.getElem?_cons_succ, ih l (by omega)]
      rfl

theorem length_flatMap_wire (fmt : PixelFormat) (px : List Px) :
    (px.flatMap fmt.wire).length = px.length * 4 := by
  induction px with
  | nil => rfl
  | cons p px ih =>
      rw [List.flatMap_cons, List.length_append, ih, fmt.length_wire, List.length_cons]
      omega

theorem rawBody_rows (fmt : PixelFormat) (fb : Rgb) (r : Rect) :
    rawBody fmt fb r =
      (List.range r.h).flatMap fun i => (fb.row r.x (r.y + i) r.w).flatMap fmt.wire := by
  rw [rawBody, List.range'_eq_map_range, List.flatMap_map]

section Raw

variable {fb : Rgb} {r : Rect}

theorem length_rawRow (fmt : PixelFormat) (hx : r.x + r.w ≤ fb.w) (hy : r.y + r.h ≤ fb.h) :
    ∀ i < r.h, ((fb.row r.x (r.y + i) r.w).flatMap fmt.wire).length = r.w * 4 := by
  intro i hi
  rw [length_flatMap_wire, fb.length_row hx (by omega)]

theorem length_rawBody (fmt : PixelFormat) (hx : r.x + r.w ≤ fb.w) (hy : r.y + r.h ≤ fb.h) :
    (rawBody fmt fb r).length = r.w * r.h * 4 := by
  rw [rawBody_rows, length_flatMap_blocks (length_rawRow fmt hx hy)]
  ring

/-- Raw bytes whose rows are the pixels of a frame are a copy of that part of the frame. -/
theorem blitRaw_rows {c : Fb} {src : List UInt8} (hw : c.rgb.w = fb.w) (hh : c.rgb.h = fb.h)
    (hx : r.x + r.w ≤ fb.w) (hy : r.y + r.h ≤ fb.h)
    (hsrc : ∀ i < r.h, Fb.bgrPixels ((src.drop (i * r.w * 4)).take (r.w * 4)) =
      fb.row r.x (r.y + i) r.w) :
    c.blitRaw r.x r.y r.w r.h src = .ok ⟨c.rgb.copyFrom fb r.x r.y r.w r.h⟩ := by
  have hin : c.inBounds r.x r.y r.w r.h = true := by
    simp only [Fb.inBounds, Bool.and_eq_true, decide_eq_true_eq]
    omega
  rw [Fb.blitRaw, if_pos hin, Grid.copyFrom, List.range'_eq_map_range, List.foldl_map]
  congr 2
  apply List.foldl_ext
  intro g i hi
  rw [hsrc i (List.mem_range.mp hi)]

/-- A Raw rectangle of the server is a copy of that part of the frame. -/
theorem blitRaw_rawBody {c : Fb} (hw : c.rgb.w = fb.w) (hh : c.rgb.h = fb.h)
    (hx : r.x + r.w ≤ fb.w) (hy : r.y + r.h ≤ fb.h) :
    c.blitRaw r.x r.y r.w r.h (rawBody PixelFormat.default fb r) =
      .ok ⟨c.rgb.copyFrom fb r.x r.y r.w r.h⟩ := by
  apply blitRaw_rows hw hh hx hy
  intro i hi
  have hslice := slice_flatMap_blocks (length_rawRow PixelFormat.default hx hy) hi
  rw [rawBody_rows, Nat.mul_assoc, hslice, bgrPixels_flatMap_wire]

end Raw

theorem take_append (a b : List UInt8) : take a.length (a ++ b) = .ok (a, b) := by
  simp [take]

/-! ### Rectangles of the server, read by the client -/

theorem readRectHead_pushRectHead {r : Rect} (hx : r.x ≤ 65535) (hy : r.y ≤ 65535)
    (hw : r.w ≤ 65535) (hh : r.h ≤ 65535) (enc : Int)
    (henc : enc = ENC_RAW ∨ enc = ENC_DESKTOP_SIZE) (rest : List UInt8) :
    readRectHead (pushRectHead r enc ++ rest) = .ok ((r, enc), rest) := by
  have hbytes : ∃ e3 e2 e1 e0, beI32 enc = [e3, e2, e1, e0] ∧ ofBeI32 e3 e2 e1 e0 = enc := by
    rcases henc with rfl | rfl <;> exact ⟨_, _, _, _, rfl, by decide⟩
  obtain ⟨e3, e2, e1, e0, hbe, hof⟩ := hbytes
  have htake : take 12 (pushRectHead r enc ++ rest) = .ok (pushRectHead r enc, rest) := by
    have hlen : (pushRectHead r enc).length = 12 := by simp [pushRectHead, hbe]
    rw [← hlen]
    exact take_append _ _
  rw [readRectHead, htake]
  simp [pushRectHead, hbe, be16, hof, ofBe16_ofNat, Nat.mod_eq_of_lt,
    Nat.lt_succ_of_le hx, Nat.lt_succ_of_le hy, Nat.lt_succ_of_le hw, Nat.lt_succ_of_le hh, bind,
    Except.bind, pure, Except.pure]

theorem readRect_raw {c c' : Fb} {r : Rect} {buf body data rest : List UInt8}
    (hhead : readRectHead buf = .ok ((r, ENC_RAW), body)) (hlen : r.w * r.h ≤ MAX_PIXELS)
    (hin : c.inBounds r.x r.y r.w r.h = true) (hdata : take (r.w * r.h * 4) body = .ok (data, rest))
    (hblit : c.blitRaw r.x r.y r.w r.h data = .ok c') : readRect c buf = .ok (c', rest) := by
  have hle : ¬r.w * r.h * 4 > MAX_PIXELS * 4 := by omega
  simp [readRect, hhead, hle, hin, hdata, hblit, bind, Except.bind, pure, Except.pure]

theorem readRect_desktopSize {c c' : Fb} {r : Rect} {buf rest : List UInt8}
    (hhead : readRectHead buf = .ok ((r, ENC_DESKTOP_SIZE), rest)) (hnew : Fb.new r.w r.h = .ok c') :
    readRect c buf = .ok (c', rest) := by
  have h1 : ¬ENC_DESKTOP_SIZE = ENC_RAW := by decide
  have h2 : ¬ENC_DESKTOP_SIZE = ENC_COPYRECT := by decide
  simp [readRect, hhead, h1, h2, hnew, bind, Except.bind, pure, Except.pure]

theorem new_of_holdable {w h : Nat} (hold : Holdable w h) :
    Fb.new w h = .ok ⟨Grid.fill w h Px.black⟩ := by
  obtain ⟨hw, hh, -, -, hmax⟩ := hold
  rw [Fb.new, if_neg (by omega)]

/-- What the server sends for a list of Raw regions. -/
def rawRects (fb : Rgb) (rs : List Rect) : List UInt8 :=
  rs.flatMap fun r => pushRectHead r ENC_RAW ++ rawBody PixelFormat.default fb r

/-- The client's framebuffer with the regions copied into it, one after the other. -/
def drawAll (c : Fb) (fb : Rgb) (rs : List Rect) : Fb :=
  ⟨rs.foldl (fun g r => g.copyFrom fb r.x r.y r.w r.h) c.rgb⟩

theorem readRects_rawRects {fb : Rgb} (hold : Holdable fb.w fb.h) (rs : List Rect) :
    ∀ (c : Fb), c.rgb.w = fb.w → c.rgb.h = fb.h → Inside fb.w fb.h rs → ∀ rest : List UInt8,
      readRects rs.length c (rawRects fb rs ++ rest) = .ok (drawAll c fb rs, rest) := by
  obtain ⟨-, -, hfw, hfh, hmax⟩ := hold
  induction rs with
  | nil => exact fun _ _ _ _ _ => rfl
  | cons r rs ih =>
      intro c hw hh hin rest
      obtain ⟨-, -, hx, hy⟩ := hin r (by simp)
      have harea : r.w * r.h ≤ MAX_PIXELS :=
        Nat.le_trans (Nat.mul_le_mul (by omega) (by omega)) hmax
      have hbounds : c.inBounds r.x r.y r.w r.h = true := by
        simp only [Fb.inBounds, Bool.and_eq_true, decide_eq_true_eq]
        omega
      have hone : readRect c (pushRectHead r ENC_RAW ++ rawBody PixelFormat.default fb r ++
          (rawRects fb rs ++ rest)) =
          .ok (⟨c.rgb.copyFrom fb r.x r.y r.w r.h⟩, rawRects fb rs ++ rest) := by
        have hhead := readRectHead_pushRectHead (r := r) (by omega) (by omega) (by omega)
          (by omega) ENC_RAW (Or.inl rfl)
          (rawBody PixelFormat.default fb r ++ (rawRects fb rs ++ rest))
        have hdata := take_append (rawBody PixelFormat.default fb r) (rawRects fb rs ++ rest)
        rw [length_rawBody PixelFormat.default hx hy] at hdata
        rw [List.append_assoc]
        exact readRect_raw hhead harea hbounds hdata (blitRaw_rawBody hw hh hx hy)
      have hcons : rawRects fb (r :: rs) ++ rest =
          pushRectHead r ENC_RAW ++ rawBody PixelFormat.default fb r ++ (rawRects fb rs ++ rest) := by
        simp [rawRects]
      rw [hcons, List.length_cons, readRects, hone]
      exact ih ⟨c.rgb.copyFrom fb r.x r.y r.w r.h⟩ (by simpa using hw) (by simpa using hh)
        (fun q hq => hin q (by simp [hq])) rest

theorem drawAll_spec {fb : Rgb} (rs : List Rect) :
    ∀ (c : Fb), c.rgb.w = fb.w → c.rgb.h = fb.h → Inside fb.w fb.h rs →
      (drawAll c fb rs).rgb.w = fb.w ∧ (drawAll c fb rs).rgb.h = fb.h ∧
      ∀ a b, (drawAll c fb rs).rgb.cell a b =
        if Covered rs a b then fb.cell a b else c.rgb.cell a b := by
  intro c hw hh hin
  exact RfbServe.foldl_copyFrom _ rs c.rgb hw hh hin

theorem readUpdate_eq {c c' : Fb} {n : Nat} {body rest : List UInt8} (hn : n ≤ 65535)
    (h : readRects n c body = .ok (c', rest)) :
    readUpdate c ([0, 0] ++ be16 n ++ body) = .ok (c', decide (n ≠ 0), rest) := by
  have hcount : ofBe16 (UInt8.ofNat (n / 256)) (UInt8.ofNat n) = n := by
    rw [ofBe16_ofNat, Nat.mod_eq_of_lt (by omega)]
  have htake : take 4 ([0, 0] ++ be16 n ++ body) = .ok ([0, 0] ++ be16 n, body) :=
    take_append ([0, 0] ++ be16 n) body
  rw [readUpdate, htake]
  simp [be16, hcount, h, bind, Except.bind, pure, Except.pure]

theorem sendRegions_raw {z : Zlib} (fb : Rgb) (rs : List Rect) :
    ∀ (wk : Work z) (body : List UInt8) (rects : UInt16),
      RfbServe.sendRegions PixelFormat.default false fb rs wk body rects =
        some (⟨commitAll wk.cfb fb rs, wk.zrle⟩, body ++ rawRects fb rs,
          rects + UInt16.ofNat rs.length) := by
  induction rs with
  | nil =>
      intro wk body rects
      simp [RfbServe.sendRegions, commitAll, rawRects]
  | cons r rs ih =>
      intro wk body rects
      rw [RfbServe.sendRegions]
      simp only [RfbServe.encodeRegion, Bool.false_eq_true, if_false, Option.bind_eq_bind,
        Option.bind_some, ih]
      simp [commitAll, rawRects, UInt16.add_assoc, UInt16.add_comm]

/-- A frame the client can hold has far fewer tiles than the count field can name. -/
theorem count_tiles {w h : Nat} (hold : Holdable w h) :
    divCeil w TILE * divCeil h TILE ≤ 65534 := by
  obtain ⟨hw, hh, hw', hh', hmax⟩ := hold
  simp only [divCeil, TILE, MAX_PIXELS] at *
  obtain ⟨a, ha⟩ : ∃ a, (w + 64 - 1) / 64 = a + 1 := ⟨(w + 64 - 1) / 64 - 1, by omega⟩
  obtain ⟨b, hb⟩ : ∃ b, (h + 64 - 1) / 64 = b + 1 := ⟨(h + 64 - 1) / 64 - 1, by omega⟩
  have hprod : (64 * a) * (64 * b) ≤ w * h := Nat.mul_le_mul (by omega) (by omega)
  have hab : (64 * a) * (64 * b) = 4096 * (a * b) := by ring
  rw [ha, hb]
  have hexp : (a + 1) * (b + 1) = a * b + a + b + 1 := by ring
  omega

/-! ### Exchanges -/

section

variable {z : Zlib}

/-- What holds between two requests. -/
structure Link.Synced (l : Link z) : Prop where
  fmt : l.settings.fmt = PixelFormat.default
  raw : l.settings.zrle = false
  desktopSize : l.settings.desktopSize = true
  width : l.fb.rgb.w = l.work.cfb.sent.w
  height : l.fb.rgb.h = l.work.cfb.sent.h
  holdable : Holdable l.fb.rgb.w l.fb.rgb.h
  agrees : Agrees l.work.cfb fun a b => l.fb.rgb.cell a b

/-- The framebuffer the regions are drawn on, and the rectangle that brings the client there. -/
theorem exists_drawn_on {l : Link z} {fb : Rgb} (hl : l.Synced) (hold : Holdable fb.w fb.h) :
    ∃ c0 : Fb, c0.rgb.w = fb.w ∧ c0.rgb.h = fb.h ∧
      Agrees (l.work.cfbFor fb) (fun a b => c0.rgb.cell a b) ∧
      (l.work.sizeCount fb = 0 → c0 = l.fb) ∧
      ∀ n c' bytes, readRects n c0 bytes = .ok (c', []) →
        readRects (l.work.sizeCount fb + n) l.fb (l.work.sizeRect fb ++ bytes) = .ok (c', []) := by
  obtain ⟨hcw, hch⟩ := l.work.cfbFor_dims fb
  rw [Work.sizeCount, Work.sizeRect]
  by_cases hres : l.work.resized fb = true
  · rw [if_pos hres, if_pos hres]
    refine ⟨⟨Grid.fill fb.w fb.h Px.black⟩, rfl, rfl, ?_, ?_, ?_⟩
    · rw [Work.cfbFor, if_pos hres]
      exact RfbServe.agrees_new _ _ _
    · intro h
      cases h
    · intro n c' bytes hread
      obtain ⟨-, -, hfw, hfh, -⟩ := id hold
      have hhead := readRectHead_pushRectHead (r := ⟨0, 0, fb.w, fb.h⟩) (by simp) (by simp)
        hfw hfh ENC_DESKTOP_SIZE (Or.inr rfl) bytes
      rw [Nat.add_comm, readRects, readRect_desktopSize hhead (new_of_holdable hold)]
      exact hread
  · have hcfb : l.work.cfbFor fb = l.work.cfb := by rw [Work.cfbFor, if_neg hres]
    rw [hcfb] at hcw hch ⊢
    rw [if_neg hres, if_neg hres]
    refine ⟨l.fb, hl.width.trans hcw, hl.height.trans hch, hl.agrees, fun _ => rfl, ?_⟩
    intro n c' bytes hread
    rw [Nat.zero_add, List.nil_append]
    exact hread

/-- The client asks for its whole framebuffer, so every pixel of the frame is asked for. -/
theorem has_clip_whole (wk : Work z) (fb : Rgb) (incremental : Bool) {w h : Nat}
    (hw : w = wk.cfb.sent.w) (hh : h = wk.cfb.sent.h) {a b : Nat} (ha : a < fb.w) (hb : b < fb.h) :
    ((wk.cfbFor fb).clip (wk.reqFor fb ⟨incremental, 0, 0, w, h⟩)).Has a b := by
  obtain ⟨hcw, hch⟩ := wk.cfbFor_dims fb
  rw [ClientFb.has_clip, hcw, hch, Work.reqFor]
  by_cases hres : wk.resized fb = true
  · rw [if_pos hres]
    dsimp only
    omega
  · rw [if_neg hres]
    rw [Work.cfbFor, if_neg hres] at hcw hch
    dsimp only
    omega

theorem exchange_synced {l : Link z} {e : Bool × Rgb} (hl : l.Synced)
    (hold : Holdable e.2.w e.2.h) :
    ∃ l', l.exchange e = some l' ∧ l'.Synced ∧ l'.fb.rgb = e.2 := by
  obtain ⟨-, -, hlw, hlh, -⟩ := hl.holdable
  obtain ⟨hcw, hch⟩ := l.work.cfbFor_dims e.2
  obtain ⟨c0, hw0, hh0, hagree0, hsame, hread0⟩ := exists_drawn_on hl hold
  obtain ⟨req, hreq⟩ : ∃ req : Req, req = ⟨e.1, 0, 0, l.fb.rgb.w, l.fb.rgb.h⟩ := ⟨_, rfl⟩
  have hin := l.work.inside_regions e.2 req
  have hcount : l.work.sizeCount e.2 + (l.work.regions e.2 req).length ≤ 65535 := by
    have hle := l.work.length_regions_le e.2 req
    have htiles := count_tiles hold
    have hone : l.work.sizeCount e.2 ≤ 1 := by
      rw [Work.sizeCount]
      split <;> omega
    omega
  have hsend := sendRegions_raw e.2 (l.work.regions e.2 req)
    ⟨l.work.cfbFor e.2, l.work.zrle⟩ (l.work.sizeRect e.2) (UInt16.ofNat (l.work.sizeCount e.2))
  obtain ⟨coversAll, hupdate⟩ := Work.update_eq hcount hsend
  have hread := readRects_rawRects hold (l.work.regions e.2 req) c0 hw0 hh0 hin []
  rw [List.append_nil] at hread
  obtain ⟨hdw, hdh, hcell⟩ := drawAll_spec (l.work.regions e.2 req) c0 hw0 hh0 hin
  have hrecv := receive_updateRequest l.settings e.1 hlw hlh
  rw [← hreq] at hrecv
  -- the server's answer is read to its end, or there was nothing to answer
  have hstep : l.exchange e = some ⟨drawAll c0 e.2 (l.work.regions e.2 req),
      { l.settings with pending := some req },
      ⟨commitAll (l.work.cfbFor e.2) e.2 (l.work.regions e.2 req), l.work.zrle⟩⟩ := by
    rw [Link.exchange, hrecv]
    simp only [hl.fmt, hl.raw, hl.desktopSize, hupdate, Option.bind_eq_bind, Option.bind_some,
      Bool.false_eq_true, if_false]
    by_cases htotal : 0 < l.work.sizeCount e.2 + (l.work.regions e.2 req).length
    · rw [if_pos htotal]
      simp only [readUpdate_eq hcount (hread0 _ _ _ hread)]
    · have hnil : l.work.regions e.2 req = [] := List.length_eq_zero_iff.mp (by omega)
      have hc0 : c0 = l.fb := hsame (by omega)
      rw [if_neg htotal, hnil, hc0]
      rfl
  obtain ⟨hcdw, hcdh⟩ := RfbServe.commitAll_dims (l.work.cfbFor e.2) e.2 (l.work.regions e.2 req)
  have hshow : (drawAll c0 e.2 (l.work.regions e.2 req)).rgb = e.2 := by
    refine Grid.ext_cell hdw hdh ?_
    intro a b ha hb
    refine l.work.shows_clip e.2 req hagree0 hcell ?_
    rw [hreq]
    exact has_clip_whole l.work e.2 e.1 hl.width hl.height (hdw ▸ ha) (hdh ▸ hb)
  refine ⟨_, hstep, ⟨hl.fmt, hl.raw, hl.desktopSize, ?_, ?_, ?_, ?_⟩, hshow⟩
  · exact hdw.trans (hcdw.trans hcw).symm
  · exact hdh.trans (hcdh.trans hch).symm
  · dsimp only
    rw [hdw, hdh]
    exact hold
  · exact RfbServe.agrees_commitAll hcw.symm hch.symm (by rw [hcw, hch]; exact hin) hagree0 hcell

theorem connect_synced {w h : Nat} (hold : Holdable w h) :
    ∃ l : Link z, Link.connect w h = some l ∧ l.Synced := by
  refine ⟨⟨⟨Grid.fill w h Px.black⟩, ⟨PixelFormat.default, false, true, none⟩,
    ⟨ClientFb.new w h, z.enc⟩⟩, ?_, ⟨rfl, rfl, rfl, rfl, rfl, hold, RfbServe.agrees_new _ _ _⟩⟩
  rw [Link.connect, new_of_holdable hold, receive_setupMessages]

end

/-- The client reads the server: after every exchange its framebuffer is the frame. -/
theorem client_shows_frame {z : Zlib} {w h : Nat} (hold : Holdable w h) (es : List (Bool × Rgb))
    (e : Bool × Rgb) (hframes : ∀ x ∈ es ++ [e], Holdable x.2.w x.2.h) :
    ∃ l l' : Link z, Link.connect w h = some l ∧
      Machine.run Link.exchange l (es ++ [e]) = some l' ∧ l'.fb.rgb = e.2 := by
  obtain ⟨l, hconnect, hl⟩ := connect_synced (z := z) hold
  have hrun : ∃ m : Link z, Machine.run Link.exchange l es = some m ∧ m.Synced := by
    have hes : ∀ x ∈ es, Holdable x.2.w x.2.h := fun x hx => hframes x (by simp [hx])
    clear hconnect hframes
    induction es generalizing l with
    | nil => exact ⟨l, rfl, hl⟩
    | cons x es ih =>
        obtain ⟨m, hstep, hm, -⟩ := exchange_synced hl (hes x (by simp))
        obtain ⟨m', hrun, hm'⟩ := ih m hm fun y hy => hes y (by simp [hy])
        exact ⟨m', by rw [Machine.run_cons, hstep, Option.bind_some, hrun], hm'⟩
  obtain ⟨m, hrun, hm⟩ := hrun
  obtain ⟨l', hstep, -, hshow⟩ := exchange_synced hm (hframes e (by simp))
  exact ⟨l, l', hconnect, Machine.run_concat_eq_some.mpr ⟨m, hrun, hstep⟩, hshow⟩

/-- Two exchanges with a change of size in between. -/
theorem client_shows_frame_resized :
    ∃ l l' : Link Zlib.passthrough, Link.connect 2 1 = some l ∧
      Machine.run Link.exchange l [(false, Grid.fill 2 1 ⟨1, 2, 3⟩), (true, Grid.fill 1 3 ⟨4, 5, 6⟩)] =
        some l' ∧ l'.fb.rgb = Grid.fill 1 3 ⟨4, 5, 6⟩ :=
  client_shows_frame (by decide) [(false, Grid.fill 2 1 ⟨1, 2, 3⟩)]
    (true, Grid.fill 1 3 ⟨4, 5, 6⟩) (by
      intro x hx
      simp only [List.cons_append, List.nil_append, List.mem_cons, List.not_mem_nil, or_false] at hx
      rcases hx with rfl | rfl <;> decide)

end Rfb

end Hdmicap

end Paniolo
