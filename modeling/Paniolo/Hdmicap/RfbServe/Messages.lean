import Paniolo.Hdmicap.RfbServe.ClientFb

/-!
# Client messages

`parse` takes one complete client message off the front of the buffer. The
session keeps three settings that the messages change: the pixel format, and
whether the client offered ZRLE and DesktopSize.
-/

namespace Paniolo

namespace Hdmicap

namespace RfbServe

def ENC_RAW : Int := 0

def ENC_ZRLE : Int := 16

def ENC_DESKTOP_SIZE : Int := -223

/-- Why a session ends, and what the client is told. -/
structure Close where
  code : Nat
  reason : String
deriving DecidableEq, Repr

namespace Close

def protocol (reason : String) : Close := ⟨1002, reason⟩

def unsupported (reason : String) : Close := ⟨1003, reason⟩

end Close

inductive Msg where
  | setPixelFormat (f : PixelFormat)
  | setEncodings (encs : List Int)
  | request (r : Req)
  | key (down : Bool) (sym : Nat)
  | pointer (mask : UInt8) (x y : Nat)
  | cutText
deriving DecidableEq

/-- Length of the message at the front of the buffer, when enough of it is there to tell. -/
def messageLen (buf : List UInt8) : Except Close (Option Nat) :=
  let at16 := fun i => ofBe16 (buf.getD i 0) (buf.getD (i + 1) 0)
  match (buf.getD 0 0).toNat with
  | 0 => .ok (some 20)
  | 2 =>
      if buf.length < 4 then .ok none
      else if at16 2 > 1024 then .error (Close.protocol "too many encodings")
      else .ok (some (4 + 4 * at16 2))
  | 3 => .ok (some 10)
  | 4 => .ok (some 8)
  | 5 => .ok (some 6)
  | 6 =>
      let n := ofBe32 (buf.getD 4 0) (buf.getD 5 0) (buf.getD 6 0) (buf.getD 7 0)
      if buf.length < 8 then .ok none
      else if n > 1048576 then .error (Close.protocol "client cut text too long")
      else .ok (some (8 + n))
  | other => .error (Close.protocol s!"unknown client message {other}")

/-- The message in the bytes `m`, which are exactly its length. -/
def readMessage (m : List UInt8) : Except Close Msg :=
  let byte := fun i => m.getD i 0
  let at16 := fun i => ofBe16 (byte i) (byte (i + 1))
  match (byte 0).toNat with
  | 0 =>
      match PixelFormat.parse ((m.drop 4).take 16) with
      | .ok f => .ok (.setPixelFormat f)
      | .error e => .error (Close.unsupported e)
  | 2 =>
      .ok (.setEncodings ((List.range (at16 2)).map fun i =>
        let o := 4 + 4 * i
        ofBeI32 (byte o) (byte (o + 1)) (byte (o + 2)) (byte (o + 3))))
  | 3 => .ok (.request ⟨byte 1 != 0, at16 2, at16 4, at16 6, at16 8⟩)
  | 4 => .ok (.key (byte 1 != 0) (ofBe32 (byte 4) (byte 5) (byte 6) (byte 7)))
  | 5 => .ok (.pointer (byte 1) (at16 2) (at16 4))
  | _ => .ok .cutText

/-- Take one complete client message off the front of `buf`, if there is one. -/
def parse (buf : List UInt8) : Except Close (Option (Msg × List UInt8)) :=
  if buf = [] then .ok none
  else
    match messageLen buf with
    | .error e => .error e
    | .ok none => .ok none
    | .ok (some need) =>
        if buf.length < need then .ok none
        else
          match readMessage (buf.take need) with
          | .error e => .error e
          | .ok m => .ok (some (m, buf.drop need))

/-- The settings of a session that client messages change. -/
structure Settings where
  fmt : PixelFormat
  zrle : Bool
  desktopSize : Bool
  pending : Option Req
deriving DecidableEq

def Settings.initial : Settings := ⟨PixelFormat.default, false, false, none⟩

/-- `handle`, as far as it changes what updates look like. -/
def Settings.handle (s : Settings) : Msg → Settings
  | .setPixelFormat f => { s with fmt := f }
  | .setEncodings e =>
      { s with
        zrle := e.contains ENC_ZRLE
        desktopSize := e.contains ENC_DESKTOP_SIZE }
  | .request r => { s with pending := some r }
  | .key _ _ => s
  | .pointer _ _ _ => s
  | .cutText => s

/-- Handle every complete message in the buffer. A message is never empty, so the buffer's
length bounds the rounds. -/
def handleAll : Nat → Settings → List UInt8 → Except Close (Settings × List UInt8)
  | 0, s, buf => .ok (s, buf)
  | fuel + 1, s, buf =>
      match parse buf with
      | .error e => .error e
      | .ok none => .ok (s, buf)
      | .ok (some (m, rest)) => handleAll fuel (s.handle m) rest

def Settings.receive (s : Settings) (buf : List UInt8) : Except Close (Settings × List UInt8) :=
  handleAll buf.length s buf

end RfbServe

end Hdmicap

end Paniolo
