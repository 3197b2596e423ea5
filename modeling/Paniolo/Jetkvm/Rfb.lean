import Paniolo.Hdmicap.Rfb
import Paniolo.Library.Result

/-!
# JetKVM's RFB server and the client that reads it

`rfb.go` is a second RFB server, in Go and of its own making: it takes the
pixel format and the encodings of its client, answers requests with Raw
rectangles of whole frames, and announces a changed size by DesktopSize. Here
it is connected to the client of `rfb.rs` by two byte streams. Either side
runs at its own pace, so frames may be in flight while requests are.
-/

namespace Paniolo

namespace Jetkvm

namespace Rfb

open Hdmicap (Px)
open Hdmicap.Rfb (Fb Holdable readUpdate setupMessages updateRequest)

def encRaw : Int := 0

def encDesktopSize : Int := -223

def maxCutText : Nat := 1048576

/-- The bytes of `rfbName`, "jetkvm". -/
def rfbName : List UInt8 := [106, 101, 116, 107, 118, 109]

structure PixelFormat where
  bpp : UInt8
  depth : UInt8
  bigEndian : Bool
  trueColor : Bool
  rMax : Nat
  gMax : Nat
  bMax : Nat
  rShift : UInt8
  gShift : UInt8
  bShift : UInt8
deriving DecidableEq

def nativeFormat : PixelFormat := ⟨32, 24, false, true, 255, 255, 255, 16, 8, 0⟩

namespace PixelFormat

def marshal (p : PixelFormat) : List UInt8 :=
  [p.bpp, p.depth, if p.bigEndian then 1 else 0, if p.trueColor then 1 else 0] ++
    be16 p.rMax ++ be16 p.gMax ++ be16 p.bMax ++ [p.rShift, p.gShift, p.bShift, 0, 0, 0]

/-- The pixel format in the bytes `b`, of which there are sixteen. -/
def parsePixelFormat (b : List UInt8) : PixelFormat :=
  let byte := fun i => b.getD i 0
  ⟨byte 0, byte 1, byte 2 != 0, byte 3 != 0, ofBe16 (byte 4) (byte 5), ofBe16 (byte 6) (byte 7),
    ofBe16 (byte 8) (byte 9), byte 10, byte 11, byte 12⟩

/-- One colour of a pixel, scaled and shifted into its place. -/
def place (c : UInt8) (max : Nat) (shift : UInt8) : UInt32 :=
  UInt32.ofNat (c.toNat * max / 255) <<< UInt32.ofNat shift.toNat

/-- Convert `n` bgr0 pixels; `none` where Go would index behind the end of `src`. -/
def convertRow (src : List UInt8) (n : Nat) (pf : PixelFormat) : Option (List UInt8) :=
  if pf = nativeFormat then
    if src.length < 4 * n then none else some (src.take (4 * n))
  else if src.length + 1 < 4 * n then none
  else
    some ((List.range n).flatMap fun i =>
      let v := place (src.getD (4 * i + 2) 0) pf.rMax pf.rShift |||
        place (src.getD (4 * i + 1) 0) pf.gMax pf.gShift |||
        place (src.getD (4 * i) 0) pf.bMax pf.bShift
      if pf.bigEndian then be32 v.toNat else (be32 v.toNat).reverse)

end PixelFormat

structure FbRequest where
  have' : Bool
  incremental : Bool
deriving DecidableEq

/-- A decoded picture, four bytes a pixel. -/
structure Frame where
  seq : Nat
  w : Nat
  h : Nat
  pix : List UInt8
deriving DecidableEq

/-- `rfbSession`: what the reader sets, and what the responder keeps. -/
structure Session where
  pf : PixelFormat
  desktopSize : Bool
  pending : FbRequest
  wake : Bool
  cw : Nat
  ch : Nat
  lastSeq : Nat
deriving DecidableEq

/-- `io.ReadFull`. -/
def readFull (n : Nat) (br : List UInt8) : Except String (List UInt8 × List UInt8) :=
  if br.length < n then .error "unexpected EOF" else .ok (br.take n, br.drop n)

namespace Session

/-- The session after the handshake, with the size of `KnownSize`. -/
def start (cw ch : Nat) : Session :=
  ⟨nativeFormat, false, ⟨false, false⟩, false, cw, ch, 0⟩

/-- ServerInit, the handshake's last message. -/
def serverInit (s : Session) : List UInt8 :=
  be16 s.cw ++ be16 s.ch ++ nativeFormat.marshal ++ be32 rfbName.length ++ rfbName

def setPixelFormat (s : Session) (br : List UInt8) : Except String (Session × List UInt8) := do
  let (b, br) ← readFull 19 br
  let pf := PixelFormat.parsePixelFormat (b.drop 3)
  if pf.bpp ≠ 32 ∨ pf.trueColor = false ∨ pf.depth > 32 ∨ pf.rShift > 31 ∨ pf.gShift > 31 ∨
      pf.bShift > 31 then .error "unsupported pixel format (only 32bpp true-color)"
  else pure ({ s with pf := pf }, br)

def setEncodings (s : Session) (br : List UInt8) : Except String (Session × List UInt8) := do
  let (b, br) ← readFull 3 br
  let n := ofBe16 (b.getD 1 0) (b.getD 2 0)
  let (encs, br) ← readFull (4 * n) br
  let byte := fun i => encs.getD i 0
  let ds := (List.range n).any fun i =>
    ofBeI32 (byte (4 * i)) (byte (4 * i + 1)) (byte (4 * i + 2)) (byte (4 * i + 3)) = encDesktopSize
  pure ({ s with desktopSize := ds }, br)

/-- A non-incremental request outranks an incremental one. -/
def framebufferUpdateRequest (s : Session) (br : List UInt8) :
    Except String (Session × List UInt8) := do
  let (b, br) ← readFull 9 br
  let incremental := b.getD 0 0 != 0 && (!s.pending.have' || s.pending.incremental)
  pure ({ s with pending := ⟨true, incremental⟩, wake := true }, br)

def clientCutText (s : Session) (br : List UInt8) : Except String (Session × List UInt8) := do
  let (b, br) ← readFull 7 br
  let n := ofBe32 (b.getD 3 0) (b.getD 4 0) (b.getD 5 0) (b.getD 6 0)
  if n > maxCutText then .error "client cut text too large"
  else do
    let (_, br) ← readFull n br
    pure (s, br)

/-- One round of `readLoop`, on the bytes the client has sent. -/
def readLoop (s : Session) (br : List UInt8) : Except String (Session × List UInt8) := do
  let (t, br) ← readFull 1 br
  match (t.getD 0 0).toNat with
  | 0 => s.setPixelFormat br
  | 2 => s.setEncodings br
  | 3 => s.framebufferUpdateRequest br
  | 4 => do
      let (_, br) ← readFull 7 br
      pure (s, br)
  | 5 => do
      let (_, br) ← readFull 5 br
      pure (s, br)
  | 6 => s.clientCutText br
  | t => .error s!"unknown client message type {t}"

/-- The twelve bytes in front of a rectangle, which always starts in the corner. -/
def rect (w h : Nat) (enc : Int) : List UInt8 :=
  [0, 0, 0, 0] ++ be16 w ++ be16 h ++ beI32 enc

/-- The rows of a frame from row `y` on; `none` where Go would panic. -/
def rows (f : Frame) (pf : PixelFormat) : Option (List UInt8) := do
  let rows ← (List.range f.h).mapM fun y =>
    PixelFormat.convertRow (f.pix.drop (y * 4 * f.w)) f.w pf
  pure rows.flatten

/-- `sendFrame`: the session afterwards and the bytes flushed to the client. -/
def sendFrame (s : Session) (f : Frame) : Except String (Session × List UInt8) :=
  let w := f.w
  let h := f.h
  let resize := f.w ≠ s.cw ∨ f.h ≠ s.ch
  if resize ∧ s.desktopSize = false then
    .error (s!"picture size changed to {w}x{h} and the client did not " ++
      "advertise DesktopSize; reconnect")
  else
    let hdr := [0, 0, 0, if resize then 2 else 1]
    let size := if resize then rect f.w f.h encDesktopSize else []
    match rows f s.pf with
    | none => .error "slice bounds out of range"
    | some body =>
        .ok ({ s with cw := f.w, ch := f.h, lastSeq := f.seq },
          hdr ++ size ++ rect f.w f.h encRaw ++ body)

end Session

/-- A frame that fits the protocol and has all of its bytes. -/
structure Frame.Whole (f : Frame) : Prop where
  holdable : Holdable f.w f.h
  length : f.pix.length = 4 * f.w * f.h

instance (f : Frame) : Decidable f.Whole :=
  decidable_of_iff (Holdable f.w f.h ∧ f.pix.length = 4 * f.w * f.h)
    ⟨fun h => ⟨h.1, h.2⟩, fun h => ⟨h.holdable, h.length⟩⟩

/-- The pixel of a bgr0 frame at column `x` of row `y`. -/
def Frame.px (f : Frame) (x y : Nat) : Px :=
  let o := 4 * (y * f.w + x)
  ⟨f.pix.getD (o + 2) 0, f.pix.getD (o + 1) 0, f.pix.getD o 0⟩

/-- The framebuffer has the frame's size and its RGB pixels. -/
structure Shows (fb : Fb) (f : Frame) : Prop where
  width : fb.rgb.w = f.w
  height : fb.rgb.h = f.h
  px : ∀ x y, x < f.w → y < f.h → fb.rgb.cell x y = some (f.px x y)

/-! ### The connection -/

/-- What the client does with ServerInit: the size, the desktop's name skipped. -/
def readServerInit (buf : List UInt8) : Except String ((Nat × Nat) × List UInt8) := do
  let (init, buf) ← Hdmicap.Rfb.take 24 buf
  let byte := fun i => init.getD i 0
  let nameLen := ofBe32 (byte 20) (byte 21) (byte 22) (byte 23)
  if nameLen > 65536 then .error s!"implausible desktop name length {nameLen}"
  else do
    let (_, buf) ← Hdmicap.Rfb.take nameLen buf
    pure ((ofBe16 (byte 0) (byte 1), ofBe16 (byte 2) (byte 3)), buf)

/-- Both ends, the bytes on their way to the server, and the outputs of `sendFrame`
on their way to the client, each with its frame. -/
structure Link where
  fb : Fb
  toServer : List UInt8
  server : Session
  inFlight : List (Frame × List UInt8)
  /-- The frame whose output the client read last. -/
  shown : Option Frame

namespace Link

/-- The byte stream the client reads from. -/
def toClient (l : Link) : List UInt8 :=
  l.inFlight.flatMap (·.2)

/-- The client told the size `cw`, `ch`, with what it sends first. -/
def greet (server : Session) (cw ch : Nat) : Option Link :=
  match Fb.new cw ch with
  | .ok fb => some ⟨fb, setupMessages ++ updateRequest false cw ch, server, [], none⟩
  | .error _ => none

/-- ServerInit with the size `w`, `h`, read by the client to its last byte. -/
def connect (w h : Nat) : Option Link := do
  let ((cw, ch), rest) ← (readServerInit (Session.start w h).serverInit).toOption
  if rest = [] then greet (Session.start w h) cw ch else none

inductive Action
  /-- The client asks again for the whole picture after a quiet time. -/
  | keepalive
  /-- The server's reader takes the next message. -/
  | read
  /-- The server's responder wakes up and, if there is a request, answers with this frame. -/
  | respond (f : Frame)
  /-- The client reads the next update and asks for another one. -/
  | update
deriving DecidableEq

def keepalive (l : Link) : Link :=
  { l with toServer := l.toServer ++ updateRequest false l.fb.rgb.w l.fb.rgb.h }

/-- A reader without input waits. -/
def read (l : Link) : Option Link :=
  if l.toServer = [] then some l
  else
    match l.server.readLoop l.toServer with
    | .ok (server, rest) => some { l with toServer := rest, server := server }
    | .error _ => none

/-- One round of `respondLoop`, in which `pick` chooses `f`. -/
def respond (l : Link) (f : Frame) : Option Link :=
  if l.server.wake = false then some l
  else
    let req := l.server.pending
    let server := { l.server with wake := false, pending := ⟨false, false⟩ }
    if req.have' = false then some { l with server := server }
    else
      match server.sendFrame f with
      | .ok (server, out) =>
          some { l with server := server, inFlight := l.inFlight ++ [(f, out)] }
      | .error _ => none

/-- The client's turn on an update; it fails on an error, and where an output is not read to
exactly its last byte. -/
def update (l : Link) : Option Link :=
  match l.inFlight with
  | [] => some l
  | (f, _) :: later =>
      match readUpdate l.fb l.toClient with
      | .ok (fb, _, rest) =>
          if rest = later.flatMap (·.2) then
            some { l with
              fb := fb
              toServer := l.toServer ++ updateRequest true fb.rgb.w fb.rgb.h
              inFlight := later
              shown := some f }
          else none
      | .error _ => none

/-- `none` is a session that ended with an error, on either side. -/
def step (l : Link) : Action → Option Link
  | .keepalive => some l.keepalive
  | .read => l.read
  | .respond f => l.respond f
  | .update => l.update

end Link

/-! ### The client's messages, read by the server -/

/-- The second half of `setupMessages`. -/
def encodingsMessage : List UInt8 :=
  [2, 0, 0, 3] ++
    [Hdmicap.RfbServe.ENC_RAW, Hdmicap.Rfb.ENC_COPYRECT, Hdmicap.RfbServe.ENC_DESKTOP_SIZE].flatMap
      beI32

/-- A request for an update, as the client writes it. -/
def requestBytes (r : Bool × Nat × Nat) : List UInt8 :=
  updateRequest r.1 r.2.1 r.2.2

theorem readFull_append {n : Nat} {a : List UInt8} (ha : a.length = n) (rest : List UInt8) :
    readFull n (a ++ rest) = .ok (a, rest) := by
  simp [readFull, ← ha]

theorem readLoop_setupMessages (s : Session) (rest : List UInt8) :
    s.readLoop (setupMessages ++ rest) =
      .ok ({ s with pf := nativeFormat }, encodingsMessage ++ rest) := by
  obtain ⟨format, hformat⟩ : ∃ format : List UInt8,
      format = [0, 0, 0, 32, 24, 0, 1, 0, 255, 0, 255, 0, 255, 16, 8, 0, 0, 0, 0] := ⟨_, rfl⟩
  have hsplit : setupMessages ++ rest = [0] ++ (format ++ (encodingsMessage ++ rest)) := by
    rw [hformat]
    rfl
  have hone : readFull 1 ([0] ++ (format ++ (encodingsMessage ++ rest))) =
      .ok ([0], format ++ (encodingsMessage ++ rest)) := readFull_append rfl _
  have hnext : readFull 19 (format ++ (encodingsMessage ++ rest)) =
      .ok (format, encodingsMessage ++ rest) := readFull_append (by rw [hformat]; rfl) _
  have hparse : PixelFormat.parsePixelFormat (format.drop 3) = nativeFormat := by
    rw [hformat]
    decide
  have hok : ¬(nativeFormat.bpp ≠ 32 ∨ nativeFormat.trueColor = false ∨ nativeFormat.depth > 32 ∨
      nativeFormat.rShift > 31 ∨ nativeFormat.gShift > 31 ∨ nativeFormat.bShift > 31) := by decide
  rw [hsplit, Session.readLoop, hone]
  change s.setPixelFormat (format ++ (encodingsMessage ++ rest)) = _
  rw [Session.setPixelFormat, hnext]
  simp only [bind, Except.bind, hparse, if_neg hok, pure, Except.pure]

theorem readLoop_encodingsMessage (s : Session) (rest : List UInt8) :
    s.readLoop (encodingsMessage ++ rest) = .ok ({ s with desktopSize := true }, rest) := by
  obtain ⟨encs, hencs⟩ : ∃ encs : List UInt8,
      encs = [0, 0, 0, 0, 0, 0, 0, 1, 255, 255, 255, 33] := ⟨_, rfl⟩
  have hsplit : encodingsMessage ++ rest = [2] ++ ([0, 0, 3] ++ (encs ++ rest)) := by
    rw [hencs]
    rfl
  have hone : readFull 1 ([2] ++ ([0, 0, 3] ++ (encs ++ rest))) =
      .ok ([2], [0, 0, 3] ++ (encs ++ rest)) := readFull_append rfl _
  have hcount : readFull 3 ([0, 0, 3] ++ (encs ++ rest)) = .ok ([0, 0, 3], encs ++ rest) :=
    readFull_append rfl _
  have hnext : readFull (4 * 3) (encs ++ rest) = .ok (encs, rest) :=
    readFull_append (by rw [hencs]; rfl) _
  have hthree : ofBe16 (([0, 0, 3] : List UInt8).getD 1 0) (([0, 0, 3] : List UInt8).getD 2 0) = 3 :=
    rfl
  have hds : ((List.range 3).any fun i => ofBeI32 (encs.getD (4 * i) 0) (encs.getD (4 * i + 1) 0)
      (encs.getD (4 * i + 2) 0) (encs.getD (4 * i + 3) 0) = encDesktopSize) = true := by
    rw [hencs]
    decide
  rw [hsplit, Session.readLoop, hone]
  change s.setEncodings ([0, 0, 3] ++ (encs ++ rest)) = _
  rw [Session.setEncodings, hcount]
  simp only [bind, Except.bind, hthree, hnext, hds, pure, Except.pure]

theorem readLoop_requestBytes (s : Session) (r : Bool × Nat × Nat) (rest : List UInt8) :
    ∃ pending, s.readLoop (requestBytes r ++ rest) =
      .ok ({ s with pending := pending, wake := true }, rest) := by
  obtain ⟨payload, hpayload⟩ : ∃ payload, payload = (requestBytes r).drop 1 := ⟨_, rfl⟩
  have hsplit : requestBytes r ++ rest = [3] ++ (payload ++ rest) := by
    rw [hpayload]
    rfl
  have hone : readFull 1 ([3] ++ (payload ++ rest)) = .ok ([3], payload ++ rest) :=
    readFull_append rfl _
  have hnext : readFull 9 (payload ++ rest) = .ok (payload, rest) :=
    readFull_append (by rw [hpayload]; rfl) _
  rw [hsplit, Session.readLoop, hone]
  change ∃ pending, s.framebufferUpdateRequest (payload ++ rest) = _
  rw [Session.framebufferUpdateRequest, hnext]
  simp only [bind, Except.bind, pure, Except.pure]
  exact ⟨_, rfl⟩

/-! ### A frame, sent and read -/

/-- The RGB pixels of a whole frame. -/
def Frame.rgb (f : Frame) (hf : f.Whole) : Grid Px where
  w := f.w
  h := f.h
  cells := Fb.bgrPixels f.pix
  size := Hdmicap.Rfb.length_bgrPixels _ _ (by rw [hf.length, Nat.mul_assoc])

theorem mapM_eq_some {α β : Type*} {g : α → Option β} {g' : α → β} (l : List α)
    (h : ∀ a ∈ l, g a = some (g' a)) : l.mapM g = some (l.map g') := by
  induction l with
  | nil => rfl
  | cons a l ih =>
      rw [List.mapM_cons, h a (by simp), ih fun b hb => h b (by simp [hb])]
      rfl

/-- In the native format the body of a Raw rectangle is the frame's bytes. -/
theorem rows_native {f : Frame} (hf : f.Whole) : Session.rows f nativeFormat = some f.pix := by
  have hlen : f.pix.length = f.h * (4 * f.w) := by
    rw [hf.length]
    ring
  have hrow : ∀ y ∈ List.range f.h,
      PixelFormat.convertRow (f.pix.drop (y * 4 * f.w)) f.w nativeFormat =
        some ((f.pix.drop (y * (4 * f.w))).take (4 * f.w)) := by
    intro y hy
    have hle : (y + 1) * (4 * f.w) ≤ f.h * (4 * f.w) :=
      Nat.mul_le_mul_right _ (List.mem_range.mp hy)
    rw [Nat.succ_mul, ← hlen] at hle
    rw [PixelFormat.convertRow, if_pos rfl, Nat.mul_assoc, if_neg]
    rw [List.length_drop]
    omega
  rw [Session.rows, mapM_eq_some _ hrow]
  simp only [Option.bind_eq_bind, Option.bind_some, Option.pure_def]
  rw [flatten_blocks _ _ _ hlen]

/-- The server's idea of the client's size is right, as far as sixteen bits can tell it. -/
def Fits (cw ch : Nat) (fb : Fb) : Prop :=
  cw ≤ 65535 → ch ≤ 65535 → fb.rgb.w = cw ∧ fb.rgb.h = ch

theorem Shows.fits {fb : Fb} {f : Frame} (h : Shows fb f) : Fits f.w f.h fb :=
  fun _ _ => ⟨h.width, h.height⟩

theorem rect_raw (w h : Nat) :
    Session.rect w h encRaw = Hdmicap.RfbServe.pushRectHead ⟨0, 0, w, h⟩ Hdmicap.RfbServe.ENC_RAW := by
  have hzero : be16 0 = [0, 0] := rfl
  simp [Session.rect, Hdmicap.RfbServe.pushRectHead, hzero, encRaw, Hdmicap.RfbServe.ENC_RAW]

theorem rect_desktopSize (w h : Nat) :
    Session.rect w h encDesktopSize =
      Hdmicap.RfbServe.pushRectHead ⟨0, 0, w, h⟩ Hdmicap.RfbServe.ENC_DESKTOP_SIZE := by
  have hzero : be16 0 = [0, 0] := rfl
  simp [Session.rect, Hdmicap.RfbServe.pushRectHead, hzero, encDesktopSize,
    Hdmicap.RfbServe.ENC_DESKTOP_SIZE]

section

variable {f : Frame} (hf : f.Whole)
include hf

theorem cell_rgb {x y : Nat} (hx : x < f.w) (hy : y < f.h) :
    (f.rgb hf).cell x y = some (f.px x y) := by
  have hlt : y * f.w + x < f.w * f.h := by
    have := (f.rgb hf).index_lt (x := x) (y := y) hx hy
    rwa [(f.rgb hf).size] at this
  have hcell : (f.rgb hf).cell x y = (Fb.bgrPixels f.pix)[y * f.w + x]? := if_pos hx
  rw [hcell, Hdmicap.Rfb.getElem?_bgrPixels]
  · rfl
  · rw [hf.length, Nat.mul_assoc]
    omega

/-- The Raw rectangle of a whole frame, on a framebuffer of its size. -/
theorem readRect_frame {c : Fb} (hw : c.rgb.w = f.w) (hh : c.rgb.h = f.h) (rest : List UInt8) :
    ∃ c' : Fb, Shows c' f ∧
      Hdmicap.Rfb.readRect c (Session.rect f.w f.h encRaw ++ (f.pix ++ rest)) = .ok (c', rest) := by
  obtain ⟨-, -, hfw, hfh, hmax⟩ := hf.holdable
  refine ⟨⟨c.rgb.copyFrom (f.rgb hf) 0 0 f.w f.h⟩, ⟨by simpa using hw, by simpa using hh, ?_⟩, ?_⟩
  · intro x y hx hy
    have hcopy := Grid.cell_copyFrom c.rgb (f.rgb hf) (x := 0) (y := 0) (w := f.w) (h := f.h)
      hw.symm hh.symm (by omega) (by omega) x y
    rw [hcopy, if_pos (by omega)]
    exact cell_rgb hf hx hy
  · have hhead := Hdmicap.Rfb.readRectHead_pushRectHead (r := ⟨0, 0, f.w, f.h⟩) (Nat.zero_le _)
      (Nat.zero_le _) hfw hfh Hdmicap.RfbServe.ENC_RAW (Or.inl rfl) (f.pix ++ rest)
    have hdata : Hdmicap.Rfb.take (f.w * f.h * 4) (f.pix ++ rest) = .ok (f.pix, rest) := by
      have hlen : f.w * f.h * 4 = f.pix.length := by
        rw [hf.length]
        ring
      rw [hlen]
      exact Hdmicap.Rfb.take_append _ _
    have hin : c.inBounds 0 0 f.w f.h = true := by simp [Fb.inBounds, hw, hh]
    have hblit : c.blitRaw 0 0 f.w f.h f.pix =
        .ok ⟨c.rgb.copyFrom (f.rgb hf) 0 0 f.w f.h⟩ := by
      refine Hdmicap.Rfb.blitRaw_rows (r := ⟨0, 0, f.w, f.h⟩) hw hh (Nat.zero_add _).le
        (Nat.zero_add _).le ?_
      intro i _
      have hdrop : i * f.w * 4 = 4 * (i * f.w) := Nat.mul_comm _ _
      have htake : f.w * 4 = 4 * f.w := Nat.mul_comm _ _
      dsimp only
      rw [hdrop, htake, Hdmicap.Rfb.bgrPixels_take, Hdmicap.Rfb.bgrPixels_drop, Grid.row]
      simp [Frame.rgb]
    rw [rect_raw]
    exact Hdmicap.Rfb.readRect_raw hhead hmax hin hdata hblit

/-- One answer of the server: it is sent, and a client whose size the server knows reads it to
its last byte and shows the frame. -/
theorem sendFrame_spec {s : Session} (hpf : s.pf = nativeFormat) (hds : s.desktopSize = true) :
    ∃ out, s.sendFrame f = .ok ({ s with cw := f.w, ch := f.h, lastSeq := f.seq }, out) ∧
      ∀ c : Fb, Fits s.cw s.ch c → ∀ rest : List UInt8, ∃ c' : Fb,
        readUpdate c (out ++ rest) = .ok (c', true, rest) ∧ Shows c' f := by
  obtain ⟨-, -, hfw, hfh, -⟩ := hf.holdable
  have hrows : Session.rows f s.pf = some f.pix := by rw [hpf, rows_native hf]
  by_cases hresize : f.w ≠ s.cw ∨ f.h ≠ s.ch
  · refine ⟨[0, 0, 0, 2] ++ Session.rect f.w f.h encDesktopSize ++ Session.rect f.w f.h encRaw ++
      f.pix, ?_, ?_⟩
    · simp [Session.sendFrame, hresize, hds, hrows]
    · intro c _ rest
      have hnew := Hdmicap.Rfb.new_of_holdable hf.holdable
      obtain ⟨c', hshow, hread⟩ := readRect_frame hf (c := ⟨Grid.fill f.w f.h Px.black⟩) rfl rfl rest
      refine ⟨c', ?_, hshow⟩
      have hhead := Hdmicap.Rfb.readRectHead_pushRectHead (r := ⟨0, 0, f.w, f.h⟩) (Nat.zero_le _)
        (Nat.zero_le _) hfw hfh Hdmicap.RfbServe.ENC_DESKTOP_SIZE (Or.inr rfl)
        (Session.rect f.w f.h encRaw ++ (f.pix ++ rest))
      have hsize := Hdmicap.Rfb.readRect_desktopSize (c := c) hhead hnew
      have hrects : Hdmicap.Rfb.readRects 2 c (Session.rect f.w f.h encDesktopSize ++
          (Session.rect f.w f.h encRaw ++ (f.pix ++ rest))) = .ok (c', rest) := by
        rw [rect_desktopSize]
        simp only [Hdmicap.Rfb.readRects, hsize, hread, bind, Except.bind]
      have hupdate := Hdmicap.Rfb.readUpdate_eq (n := 2) (by omega) hrects
      have hbytes : [0, 0] ++ be16 2 = ([0, 0, 0, 2] : List UInt8) := rfl
      rw [hbytes] at hupdate
      simpa only [List.append_assoc, ne_eq, OfNat.ofNat_ne_zero, one_ne_zero, not_false_eq_true,
        decide_true] using hupdate
  · refine ⟨[0, 0, 0, 1] ++ Session.rect f.w f.h encRaw ++ f.pix, ?_, ?_⟩
    · simp [Session.sendFrame, hresize, hrows]
    · intro c hfits rest
      obtain ⟨hcw, hch⟩ : s.cw = f.w ∧ s.ch = f.h := by
        constructor <;> by_contra hne
        · exact hresize (Or.inl fun h => hne h.symm)
        · exact hresize (Or.inr fun h => hne h.symm)
      rw [hcw, hch] at hfits
      obtain ⟨hw, hh⟩ := hfits hfw hfh
      obtain ⟨c', hshow, hread⟩ := readRect_frame hf hw hh rest
      refine ⟨c', ?_, hshow⟩
      have hrects : Hdmicap.Rfb.readRects 1 c (Session.rect f.w f.h encRaw ++ (f.pix ++ rest)) =
          .ok (c', rest) := by
        simp only [Hdmicap.Rfb.readRects, hread, bind, Except.bind]
      have hupdate := Hdmicap.Rfb.readUpdate_eq (n := 1) (by omega) hrects
      have hbytes : [0, 0] ++ be16 1 = ([0, 0, 0, 1] : List UInt8) := rfl
      rw [hbytes] at hupdate
      simpa only [List.append_assoc, ne_eq, OfNat.ofNat_ne_zero, one_ne_zero, not_false_eq_true,
        decide_true] using hupdate

end

/-! ### Every run of the connection -/

/-- The outputs in flight, read one after the other from `fb`: each is read to its last byte
and shows its frame, and the last one leaves the client with the size the server expects. -/
def Reads (cw ch : Nat) : Fb → List (Frame × List UInt8) → Prop
  | fb, [] => Fits cw ch fb
  | fb, (f, out) :: later => ∀ rest : List UInt8, ∃ fb' : Fb,
      readUpdate fb (out ++ rest) = .ok (fb', true, rest) ∧ Shows fb' f ∧ Reads cw ch fb' later

theorem Reads.concat {cw ch : Nat} {f : Frame} {out : List UInt8}
    (hout : ∀ c : Fb, Fits cw ch c → ∀ rest : List UInt8, ∃ c' : Fb,
      readUpdate c (out ++ rest) = .ok (c', true, rest) ∧ Shows c' f)
    (sent : List (Frame × List UInt8)) :
    ∀ fb : Fb, Reads cw ch fb sent → Reads f.w f.h fb (sent ++ [(f, out)]) := by
  induction sent with
  | nil =>
      intro fb h rest
      obtain ⟨c', hread, hshow⟩ := hout fb h rest
      exact ⟨c', hread, hshow, hshow.fits⟩
  | cons e sent ih =>
      intro fb h rest
      obtain ⟨fb', hread, hshow, hlater⟩ := h rest
      exact ⟨fb', hread, hshow, ih fb' hlater⟩

/-- What is left of the setup in front of the requests. The responder sleeps until the server
has read all of it. -/
inductive Greeting (s : Session) : List UInt8 → Prop
  | setup (h : s.wake = false) : Greeting s setupMessages
  | encodings (h : s.wake = false) : Greeting s encodingsMessage
  | done (h : s.desktopSize = true) : Greeting s []

theorem Link.read_eq {l : Link} {server : Session} {rest : List UInt8} (hnil : l.toServer ≠ [])
    (h : l.server.readLoop l.toServer = .ok (server, rest)) :
    l.read = some { l with toServer := rest, server := server } := by
  rw [Link.read, if_neg hnil, h]

theorem Link.respond_eq {l : Link} {f : Frame} {server : Session} {out : List UInt8}
    (hwake : ¬l.server.wake = false) (hhave : ¬l.server.pending.have' = false)
    (h : { l.server with wake := false, pending := ⟨false, false⟩ : Session }.sendFrame f =
      .ok (server, out)) :
    l.respond f = some { l with server := server, inFlight := l.inFlight ++ [(f, out)] } := by
  rw [Link.respond, if_neg hwake]
  simp only [if_neg hhave, h]

theorem Link.update_eq {l : Link} {f : Frame} {out : List UInt8} {later : List (Frame × List UInt8)}
    {fb : Fb} {changed : Bool} (hflight : l.inFlight = (f, out) :: later)
    (h : readUpdate l.fb (out ++ later.flatMap (·.2)) = .ok (fb, changed, later.flatMap (·.2))) :
    l.update = some { l with
      fb := fb
      toServer := l.toServer ++ updateRequest true fb.rgb.w fb.rgb.h
      inFlight := later
      shown := some f } := by
  have hbytes : l.toClient = out ++ later.flatMap (·.2) := by
    rw [Link.toClient, hflight, List.flatMap_cons]
  rw [Link.update, hflight]
  simp only [hbytes, h, if_true]

structure Link.Inv (l : Link) : Prop where
  pf : l.server.pf = nativeFormat
  toServer : ∃ (greeting : List UInt8) (reqs : List (Bool × Nat × Nat)),
    Greeting l.server greeting ∧ l.toServer = greeting ++ reqs.flatMap requestBytes
  reads : Reads l.server.cw l.server.ch l.fb l.inFlight
  shown : ∀ f ∈ l.shown, Shows l.fb f

namespace Link.Inv

variable {l : Link} (h : l.Inv)
include h

theorem asked (incremental : Bool) (w k : Nat) :
    ∃ (greeting : List UInt8) (reqs : List (Bool × Nat × Nat)), Greeting l.server greeting ∧
      l.toServer ++ updateRequest incremental w k = greeting ++ reqs.flatMap requestBytes := by
  obtain ⟨greeting, reqs, hgreeting, heq⟩ := h.toServer
  refine ⟨greeting, reqs ++ [(incremental, w, k)], hgreeting, ?_⟩
  rw [heq]
  simp [requestBytes]

theorem keepalive : l.keepalive.Inv :=
  ⟨h.pf, h.asked _ _ _, h.reads, h.shown⟩

theorem read : ∃ l', l.read = some l' ∧ l'.Inv := by
  by_cases hnil : l.toServer = []
  · exact ⟨l, by rw [Link.read, if_pos hnil], h⟩
  obtain ⟨greeting, reqs, hgreeting, heq⟩ := h.toServer
  cases hgreeting with
  | setup hwake =>
      have hloop := readLoop_setupMessages l.server (reqs.flatMap requestBytes)
      rw [← heq] at hloop
      refine ⟨_, Link.read_eq hnil hloop, rfl, ?_, h.reads, h.shown⟩
      exact ⟨encodingsMessage, reqs, .encodings hwake, rfl⟩
  | encodings hwake =>
      have hloop := readLoop_encodingsMessage l.server (reqs.flatMap requestBytes)
      rw [← heq] at hloop
      refine ⟨_, Link.read_eq hnil hloop, h.pf, ?_, h.reads, h.shown⟩
      exact ⟨[], reqs, .done rfl, rfl⟩
  | done hds =>
      cases reqs with
      | nil => exact absurd heq hnil
      | cons r reqs =>
          rw [List.nil_append, List.flatMap_cons] at heq
          obtain ⟨pending, hloop⟩ := readLoop_requestBytes l.server r (reqs.flatMap requestBytes)
          rw [← heq] at hloop
          refine ⟨_, Link.read_eq hnil hloop, h.pf, ?_, h.reads, h.shown⟩
          exact ⟨[], reqs, .done hds, rfl⟩

theorem respond {f : Frame} (hf : f.Whole) : ∃ l', l.respond f = some l' ∧ l'.Inv := by
  by_cases hwake : l.server.wake = false
  · exact ⟨l, by rw [Link.respond, if_pos hwake], h⟩
  obtain ⟨greeting, reqs, hgreeting, heq⟩ := h.toServer
  -- an awake responder means that the whole setup has been read
  cases hgreeting with
  | setup hsleep => exact absurd hsleep hwake
  | encodings hsleep => exact absurd hsleep hwake
  | done hds =>
      by_cases hhave : l.server.pending.have' = false
      · have hskip : l.respond f =
            some { l with server := { l.server with wake := false, pending := ⟨false, false⟩ } } := by
          rw [Link.respond, if_neg hwake]
          simp only [if_pos hhave]
        refine ⟨_, hskip, h.pf, ?_, h.reads, h.shown⟩
        exact ⟨[], reqs, .done hds, heq⟩
      · obtain ⟨out, hsend, hout⟩ := sendFrame_spec hf
          (s := { l.server with wake := false, pending := ⟨false, false⟩ }) h.pf hds
        refine ⟨_, Link.respond_eq hwake hhave hsend, h.pf, ?_, ?_, h.shown⟩
        · exact ⟨[], reqs, .done hds, heq⟩
        · exact Reads.concat hout l.inFlight l.fb h.reads

theorem update : ∃ l', l.update = some l' ∧ l'.Inv := by
  cases hflight : l.inFlight with
  | nil => exact ⟨l, by rw [Link.update, hflight], h⟩
  | cons e later =>
      obtain ⟨f, out⟩ := e
      have hreads := h.reads
      rw [hflight] at hreads
      obtain ⟨fb, hread, hshow, hlater⟩ := hreads (later.flatMap (·.2))
      refine ⟨_, Link.update_eq hflight hread, h.pf, h.asked _ _ _, hlater, ?_⟩
      intro g hg
      cases hg
      exact hshow

end Link.Inv

theorem step_inv {l : Link} (h : l.Inv) (a : Link.Action)
    (hframe : ∀ f, a = .respond f → f.Whole) : ∃ l', l.step a = some l' ∧ l'.Inv := by
  cases a with
  | keepalive => exact ⟨_, rfl, h.keepalive⟩
  | read => exact h.read
  | respond f => exact h.respond (hframe f rfl)
  | update => exact h.update

theorem readServerInit_serverInit {w h cw ch : Nat} (hcw : cw = w % 65536) (hch : ch = h % 65536) :
    readServerInit (Session.start w h).serverInit = .ok ((cw, ch), []) := by
  obtain ⟨tail, htail⟩ : ∃ tail : List UInt8,
      tail = [32, 24, 0, 1, 0, 255, 0, 255, 0, 255, 16, 8, 0, 0, 0, 0, 0, 0, 0, 6] := ⟨_, rfl⟩
  have hmarshal : nativeFormat.marshal ++ be32 rfbName.length = tail := by
    rw [htail]
    decide
  obtain ⟨init, hinit⟩ : ∃ init, init = be16 w ++ be16 h ++ tail := ⟨_, rfl⟩
  have hsplit : (Session.start w h).serverInit = init ++ (rfbName ++ []) := by
    rw [hinit, ← hmarshal]
    simp [Session.serverInit, Session.start]
  have htake : Hdmicap.Rfb.take 24 (init ++ (rfbName ++ [])) = .ok (init, rfbName ++ []) := by
    have hlen : init.length = 24 := by simp [hinit, htail]
    rw [← hlen]
    exact Hdmicap.Rfb.take_append _ _
  have hname : Hdmicap.Rfb.take 6 (rfbName ++ []) = .ok (rfbName, []) :=
    Hdmicap.Rfb.take_append rfbName []
  have hw : ofBe16 (init.getD 0 0) (init.getD 1 0) = cw := by
    rw [hcw, ← ofBe16_ofNat w]
    simp [hinit, be16]
  have hh : ofBe16 (init.getD 2 0) (init.getD 3 0) = ch := by
    rw [hch, ← ofBe16_ofNat h]
    simp [hinit, be16]
  have hlen : ofBe32 (init.getD 20 0) (init.getD 21 0) (init.getD 22 0) (init.getD 23 0) = 6 := by
    simp [hinit, htail, be16, ofBe32]
  rw [hsplit, readServerInit, htake, ok_bind]
  dsimp only
  rw [hlen, if_neg (by omega), hname, ok_bind, hw, hh]
  rfl

theorem connect_eq {w h cw ch : Nat} (hcw : cw = w % 65536) (hch : ch = h % 65536) :
    Link.connect w h =
      if cw = 0 ∨ ch = 0 ∨ cw * ch > Hdmicap.Rfb.MAX_PIXELS then none
      else some ⟨⟨Grid.fill cw ch Px.black⟩, setupMessages ++ updateRequest false cw ch,
        Session.start w h, [], none⟩ := by
  have hgreet : Link.connect w h = Link.greet (Session.start w h) cw ch := by
    rw [Link.connect, readServerInit_serverInit hcw hch]
    rfl
  rw [hgreet, Link.greet]
  by_cases hsize : cw = 0 ∨ ch = 0 ∨ cw * ch > Hdmicap.Rfb.MAX_PIXELS
  · rw [Fb.new, if_pos hsize, if_pos hsize]
  · rw [Fb.new, if_neg hsize, if_neg hsize]

theorem connect_inv {w h : Nat} {l : Link} (hl : Link.connect w h = some l) : l.Inv := by
  obtain ⟨cw, hcw⟩ : ∃ cw, cw = w % 65536 := ⟨_, rfl⟩
  obtain ⟨ch, hch⟩ : ∃ ch, ch = h % 65536 := ⟨_, rfl⟩
  rw [connect_eq hcw hch] at hl
  obtain ⟨-, hl⟩ := Option.ite_none_left_eq_some.mp hl
  rw [← Option.some.inj hl]
  refine ⟨rfl, ?_, ?_, ?_⟩
  · exact ⟨setupMessages, [(false, cw, ch)], .setup rfl, by simp [requestBytes]⟩
  · intro (hw : w ≤ 65535) (hh : h ≤ 65535)
    have hwm : cw = w := by omega
    have hhm : ch = h := by omega
    exact ⟨hwm, hhm⟩
  · intro f hf
    cases hf

theorem connect_of_holdable {w h : Nat} (hold : Holdable w h) : ∃ l, Link.connect w h = some l := by
  obtain ⟨hw0, hh0, hw, hh, hmax⟩ := hold
  have hwm : w = w % 65536 := by omega
  have hhm : h = h % 65536 := by omega
  rw [connect_eq hwm hhm, if_neg (by omega)]
  exact ⟨_, rfl⟩

/-- The client reads JetKVM's server: it connects at every size it can hold, and once it is
connected no run of the two sides fails. The output at the head of the stream is read to its last
byte and leaves the framebuffer with its frame, which it shows until the next one is read. -/
theorem client_reads_jetkvm (w h : Nat) :
    (Holdable w h → ∃ l, Link.connect w h = some l) ∧
    ∀ l, Link.connect w h = some l → ∀ as : List Link.Action,
      (∀ f, Link.Action.respond f ∈ as → f.Whole) →
      ∃ l', Machine.run Link.step l as = some l' ∧ (∀ f ∈ l'.shown, Shows l'.fb f) ∧
        ∀ f out later, l'.inFlight = (f, out) :: later → ∃ fb : Fb,
          readUpdate l'.fb l'.toClient = .ok (fb, true, later.flatMap (·.2)) ∧ Shows fb f := by
  refine ⟨connect_of_holdable, ?_⟩
  intro l hl as hframes
  have hmeets : Machine.meets Link.step
      (fun _ a => ∀ f, a = Link.Action.respond f → f.Whole) l as := by
    apply Machine.meets_of_forall
    intro a ha f hf
    exact hframes f (hf ▸ ha)
  obtain ⟨l', hrun, hinv⟩ := Machine.exists_run_of_meets (P := Link.Inv)
    (fun m a hm ha => step_inv hm a ha) (connect_inv hl) hmeets
  refine ⟨l', hrun, hinv.shown, ?_⟩
  intro f out later hflight
  have hreads := hinv.reads
  rw [hflight] at hreads
  obtain ⟨fb, hread, hshow, -⟩ := hreads (later.flatMap (·.2))
  refine ⟨fb, ?_, hshow⟩
  rw [Link.toClient, hflight, List.flatMap_cons]
  exact hread

/-- A connection at two by one, the whole greeting read, and two answers of different sizes. -/
theorem client_reads_jetkvm_resized : ∃ l, Link.connect 2 1 = some l ∧
    ∃ l', Machine.run Link.step l [.read, .read, .read, .respond ⟨1, 1, 2, [1, 2, 3, 0, 4, 5, 6, 0]⟩,
      .update, .keepalive, .read, .respond ⟨2, 1, 1, [7, 8, 9, 1]⟩, .update] = some l' ∧
      (∀ f ∈ l'.shown, Shows l'.fb f) ∧
        ∀ f out later, l'.inFlight = (f, out) :: later → ∃ fb : Fb,
          readUpdate l'.fb l'.toClient = .ok (fb, true, later.flatMap (·.2)) ∧ Shows fb f := by
  obtain ⟨l, hl⟩ := (client_reads_jetkvm 2 1).1 (by decide)
  refine ⟨l, hl, (client_reads_jetkvm 2 1).2 l hl _ ?_⟩
  intro f hf
  simp only [List.mem_cons, Link.Action.respond.injEq, reduceCtorEq, false_or, or_false,
    List.not_mem_nil] at hf
  rcases hf with rfl | rfl <;> decide

end Rfb

end Jetkvm

end Paniolo
