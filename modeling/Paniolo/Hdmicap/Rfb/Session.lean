import Paniolo.Library.Reader
import Paniolo.Library.Text
import Paniolo.Library.Utf8Cut
import Paniolo.Hdmicap.Rfb

/-!
# The client's session

`Conn`, `handshake`, `Fb`, `session` and `read_update` of `rfb.rs` byte by
byte: what the server sends comes in pieces of any size, the framebuffer is one
vector of bytes, and every slice and index is checked as the program checks it.
A number is a natural number here: sizes and coordinates are 16 bits wide, so
no product of them leaves a 64-bit `usize`.
-/

namespace Paniolo

namespace Hdmicap

namespace Rfb

namespace Session

open RfbServe (ENC_RAW ENC_DESKTOP_SIZE)
open Reader (Conn bytes write state put slice index copyFromSlice)

def MAX_CUT_TEXT : Nat := 16777216

/-- A program of the session over a state `σ`. -/
abbrev Prog (σ α : Type) := Reader σ String α

variable {σ : Type}

/-! ### Numbers in the stream -/

/-- `u16::from_be_bytes([b[0], b[1]])`. -/
def be16Of (b : List UInt8) : Prog σ Nat := do
  let hi ← index b 0
  let lo ← index b 1
  pure (ofBe16 hi lo)

/-- `u32::from_be_bytes(b.try_into().unwrap())`. -/
def be32Of : List UInt8 → Prog σ Nat
  | [a, b, c, d] => pure (ofBe32 a b c d)
  | _ => .panic

/-- `i32::from_be_bytes(b.try_into().unwrap())`. -/
def beI32Of : List UInt8 → Prog σ Int
  | [a, b, c, d] => pure (ofBeI32 a b c d)
  | _ => .panic

def be16At (b : List UInt8) (i : Nat) : Prog σ Nat := do
  let two ← slice b i (i + 2)
  be16Of two

/-! ### The handshake -/

/-- `std::str::from_utf8(&v).unwrap_or("")`. -/
def verOf (v : List UInt8) : List UInt8 := if Utf8.utf8Error v = none then v else []

/-- `ver.starts_with("RFB ") && ver.ends_with('\n')`. -/
def isGreeting (ver : List UInt8) : Bool :=
  [82, 70, 66, 32].isPrefixOf ver && ver.getLast? == some 10

/-- `str::is_char_boundary`, of a text with these bytes. -/
def isCharBoundary (s : List UInt8) (i : Nat) : Bool :=
  i == s.length || (s[i]?).any fun b => !Utf8.isContinuation b

/-- A slice of a text, which panics when an end of it is within a character. -/
def strSlice (s : List UInt8) (a b : Nat) : Prog σ (List UInt8) :=
  if isCharBoundary s a && isCharBoundary s b then slice s a b else .panic

/-- The minor version of the server's greeting. -/
def greeting (v : List UInt8) : Prog σ Nat := do
  let ver := verOf v
  if isGreeting ver = false then
    let shown := Text.debugStr (Utf8.decode v)
    .fail s!"not an RFB server (greeting {shown})"
  else
    let digits ← strSlice ver 8 11
    pure ((Text.parseUnsigned 4294967296 (Utf8.decode digits)).getD 0)

/-- The version to answer with, and its minor. -/
def reply (minor : Nat) : List UInt8 × Nat :=
  if 8 ≤ minor then ([82, 70, 66, 32, 48, 48, 51, 46, 48, 48, 56, 10], 8)
  else if minor = 7 then ([82, 70, 66, 32, 48, 48, 51, 46, 48, 48, 55, 10], 7)
  else ([82, 70, 66, 32, 48, 48, 51, 46, 48, 48, 51, 10], 3)

def unsupportedSecurity (types : List UInt8) : String :=
  let shown := ", ".intercalate (types.map fun t => toString t.toNat)
  s!"unsupported RFB security type(s) [{shown}]: only 1 (None) is implemented; " ++
    "VNC authentication (2) is not supported yet"

def readReason : Prog σ String := do
  let b ← bytes 4
  let n ← be32Of b
  if n > 65536 then .fail "(reason too long)"
  else
    let text ← bytes n
    pure (Utf8.lossy text)

/-- Security type None, as each version agrees on it. -/
def security (minor : Nat) : Prog σ Unit := do
  if minor = 3 then
    let b ← bytes 4
    let t ← be32Of b
    if t = 0 then
      let reason ← readReason
      .fail s!"server refused the connection: {reason}"
    else if t = 1 then pure ()
    else .fail (unsupportedSecurity [UInt8.ofNat t])
  else
    let b ← bytes 1
    let n ← index b 0
    if n = 0 then
      let reason ← readReason
      .fail s!"server refused the connection: {reason}"
    else
      let types ← bytes n.toNat
      if types.contains 1 then write [1] else .fail (unsupportedSecurity types)

/-- 3.8 sends a SecurityResult even for None; 3.3 and 3.7 do not. -/
def securityResult (minor : Nat) : Prog σ Unit := do
  if minor = 8 then
    let b ← bytes 4
    let r ← be32Of b
    if r = 0 then pure ()
    else
      let reason ← readReason
      .fail s!"security handshake failed: {reason}"
  else pure ()

/-- ClientInit and ServerInit. -/
def serverInit : Prog σ (Nat × Nat) := do
  write [1]
  let init ← bytes 24
  let w ← be16At init 0
  let h ← be16At init 2
  let four ← slice init 20 24
  let nameLen ← be32Of four
  if nameLen > 65536 then .fail s!"implausible desktop name length {nameLen}"
  else
    let _ ← bytes nameLen
    pure (w, h)

/-- What follows the greeting, for a server of this minor version. -/
def handshakeFrom (minor : Nat) : Prog σ (Nat × Nat) := do
  let (answer, minor) := reply minor
  write answer
  security minor
  securityResult minor
  serverInit

/-- The framebuffer size from ServerInit. -/
def handshake : Prog σ (Nat × Nat) := do
  let v ← bytes 12
  let minor ← greeting v
  handshakeFrom minor

/-! ### The framebuffer -/

/-- The framebuffer, packed RGB. -/
structure Fb where
  w : Nat
  h : Nat
  rgb : List UInt8
deriving DecidableEq

namespace Fb

def new (w h : Nat) : Prog σ Fb :=
  if w = 0 ∨ h = 0 ∨ w * h > MAX_PIXELS then .fail s!"unusable framebuffer size {w}x{h}"
  else pure ⟨w, h, List.replicate (w * h * 3) 0⟩

def inBounds (fb : Fb) (x y w h : Nat) : Bool := x + w ≤ fb.w && y + h ≤ fb.h

def outside (fb : Fb) (x y w h : Nat) : String :=
  let fw := fb.w
  let fh := fb.h
  s!"rectangle {w}x{h}+{x}+{y} outside the {fw}x{fh} framebuffer"

/-- Chunks of four bytes (B, G, R, pad) written over chunks of three. -/
def swap : List UInt8 → List UInt8 → List UInt8
  | b :: g :: r :: _ :: px, _ :: _ :: _ :: out => r :: g :: b :: swap px out
  | _, out => out

/-- One row of `blit_raw`. -/
def blitRow (fb : Fb) (x y w : Nat) (src rgb : List UInt8) (row : Nat) : Prog σ (List UInt8) := do
  let d := ((y + row) * fb.w + x) * 3
  let s := row * w * 4
  let px ← slice src s (s + w * 4)
  let out ← slice rgb d (d + w * 3)
  copyFromSlice rgb d (w * 3) (swap px out)

/-- Blit a Raw rectangle: 4 bytes per pixel, B, G, R, pad. -/
def blitRaw (fb : Fb) (x y w h : Nat) (src : List UInt8) : Prog σ Fb := do
  if fb.inBounds x y w h = false then .fail (fb.outside x y w h)
  else
    let rgb ← (List.range h).foldlM (fb.blitRow x y w src) fb.rgb
    pure { fb with rgb := rgb }

/-- One row read by `copy_rect`. -/
def readRow (fb : Fb) (sx sy w : Nat) (tmp : List UInt8) (row : Nat) : Prog σ (List UInt8) := do
  let s := ((sy + row) * fb.w + sx) * 3
  let line ← slice fb.rgb s (s + w * 3)
  pure (tmp ++ line)

/-- One row written by `copy_rect`. -/
def writeRow (fb : Fb) (x y w : Nat) (tmp rgb : List UInt8) (row : Nat) : Prog σ (List UInt8) := do
  let d := ((y + row) * fb.w + x) * 3
  let line ← slice tmp (row * w * 3) ((row + 1) * w * 3)
  copyFromSlice rgb d (w * 3) line

/-- CopyRect: source and destination may overlap, so go through a copy. -/
def copyRect (fb : Fb) (x y w h sx sy : Nat) : Prog σ Fb := do
  if (fb.inBounds x y w h && fb.inBounds sx sy w h) = false then
    .fail s!"CopyRect {w}x{h} from +{sx}+{sy} to +{x}+{y} outside the framebuffer"
  else
    let tmp ← (List.range h).foldlM (fb.readRow sx sy w) []
    let rgb ← (List.range h).foldlM (fb.writeRow x y w tmp) fb.rgb
    pure { fb with rgb := rgb }

end Fb

/-! ### The message loop -/

/-- The session's framebuffer, and the link to the capture thread. -/
structure World where
  fb : Fb
  version : Nat
  frame : Option Fb

/-- `Link::publish`. -/
def publish : Prog World Unit := do
  let s ← state
  put { s with version := s.version + 1, frame := some s.fb }

/-- One rectangle of an update. -/
def readRect : Prog World Unit := do
  let r ← bytes 12
  let x ← be16At r 0
  let y ← be16At r 2
  let w ← be16At r 4
  let h ← be16At r 6
  let four ← slice r 8 12
  let enc ← beI32Of four
  let s ← state
  if enc = ENC_RAW then
    let len := w * h * 4
    if len > MAX_PIXELS * 4 then .fail s!"Raw rectangle of {len} bytes refused"
    else if s.fb.inBounds x y w h = false then .fail (s.fb.outside x y w h)
    else
      let data ← bytes len
      let fb ← s.fb.blitRaw x y w h data
      put { s with fb := fb }
  else if enc = ENC_COPYRECT then
    let src ← bytes 4
    let sx ← be16At src 0
    let sy ← be16At src 2
    let fb ← s.fb.copyRect x y w h sx sy
    put { s with fb := fb }
  else if enc = ENC_DESKTOP_SIZE then
    let fb ← Fb.new w h
    put { s with fb := fb }
  else .fail s!"server sent unadvertised encoding {enc}"

/-- The rectangles of an update; true when the picture may differ. -/
def readRects : Nat → Bool → Prog World Bool
  | 0, changed => pure changed
  | n + 1, _ => do
      readRect
      readRects n true

/-- Parse one FramebufferUpdate. -/
def readUpdate : Prog World Bool := do
  let head ← bytes 4
  let hi ← index head 2
  let lo ← index head 3
  readRects (ofBe16 hi lo) false

/-- One message, by its first byte. -/
def message (t : UInt8) : Prog World Unit := do
  if t = 0 then
    let changed ← readUpdate
    if changed then publish
    let s ← state
    write (updateRequest true s.fb.w s.fb.h)
  else if t = 1 then
    .fail "server sent SetColourMapEntries; only true-colour is supported"
  else if t = 2 then .advance 1 (pure ())
  else if t = 3 then
    let head ← bytes 8
    let four ← slice head 4 8
    let n ← be32Of four
    if n > MAX_CUT_TEXT then .fail s!"ServerCutText of {n} bytes refused"
    else
      let _ ← bytes n
      pure ()
  else
    let t := t.toNat
    .fail s!"unknown server message type {t}"

/-- Up to the first pass through the message loop. -/
def opening : Prog Unit Fb := do
  let (w, h) ← handshake
  let fb ← Fb.new w h
  write setupMessages
  write (updateRequest false w h)
  pure fb

/-! ### Runs -/

/-- Where a session is: in the handshake, at the top of its loop, within a message, or over. -/
inductive State where
  | opening (r : Prog Unit Fb) (c : Conn Unit)
  | top (c : Conn World)
  | inside (r : Prog World Unit) (c : Conn World)
  | ended (e : Option String)
  | panicked

/-- What can happen to a session: the transport, its timeouts, and the tick of its loop, which
may find a request to stop, a dead link or a keepalive due. -/
inductive Event where
  | data (b : List UInt8)
  | closed
  | readError (e : String)
  | stalled
  | openTimeout
  | ready
  | tick (stop dead due : Bool)

def Event.bytes : Event → List UInt8
  | .data b => b
  | _ => []

/-- All bytes that were read. -/
def received (es : List Event) : List UInt8 := es.flatMap Event.bytes

namespace State

def initial : State := .opening Session.opening ⟨(), [], []⟩

def ofOpening : Prog Unit Fb × Conn Unit → State
  | (.done fb, c) => .top ⟨⟨fb, 0, none⟩, c.buf, c.sent⟩
  | (.fail e, _) => .ended (some e)
  | (.panic, _) => .panicked
  | (r, c) => .opening r c

def ofMessage : Prog World Unit × Conn World → State
  | (.done _, c) => .top c
  | (.fail e, _) => .ended (some e)
  | (.panic, _) => .panicked
  | (r, c) => .inside r c

variable (writes : Nat → Option String)

/-- The message at the front of the buffer. -/
def turn (c : Conn World) : State :=
  match c.buf[0]? with
  | some t => ofMessage ((message t).resume writes c)
  | none => .panicked

def step : State → Event → Option State
  | .opening r c, .data b => some (ofOpening (r.resume writes { c with buf := c.buf ++ b }))
  | .opening _ _, .closed => some (.ended (some "server closed the connection"))
  | .opening _ _, .readError e => some (.ended (some e))
  | .opening _ _, .stalled => some (.ended (some "server stalled in the middle of a message"))
  | .opening _ _, .openTimeout =>
      some (.ended (some "timed out connecting to the RFB server"))
  | .inside r c, .data b => some (ofMessage (r.resume writes { c with buf := c.buf ++ b }))
  | .inside _ _, .closed => some (.ended (some "server closed the connection"))
  | .inside _ _, .readError e => some (.ended (some e))
  | .inside _ _, .stalled => some (.ended (some "server stalled in the middle of a message"))
  | .top c, .ready => if c.buf = [] then none else some (turn writes c)
  | .top c, .data b =>
      if c.buf ≠ [] then none
      else if b = [] then some (.top c)
      else some (turn writes { c with buf := b })
  | .top c, .closed =>
      if c.buf = [] then some (.ended (some "server closed the connection")) else none
  | .top c, .readError e => if c.buf = [] then some (.ended (some e)) else none
  | .top c, .tick stop dead due =>
      if stop then some (.ended none)
      else if dead then some (.ended (some "no data from the RFB server for 15s"))
      else if due then
        some (ofMessage ((write (updateRequest false c.state.fb.w c.state.fb.h)).resume writes c))
      else some (.top c)
  | _, _ => none

end State

end Session

end Rfb

end Hdmicap

end Paniolo
