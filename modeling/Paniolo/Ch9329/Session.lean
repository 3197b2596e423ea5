import Paniolo.Ch9329.Keys

/-!
# A session with the CH9329

`ch9329/src/session.rs`: framed commands over the UART, each answered by the
chip, and the held report state that commands compose on. What the port does is
an environment: for every operation on it, in order, whether an open or a
change of rate succeeds, whether a write fails, which bytes arrive after it and
what ends them. The port keeps a log of every frame handed to it. Delays are
left out.
-/

namespace Paniolo

namespace Ch9329

open Text

/-- What ends the bytes that a read can get. -/
inductive ReadEnd where
  | timedOut
  | closed
  | failed (e : String)
deriving DecidableEq, Repr

/-- One exchange on the port: the error of the write if it fails, and what the
reads after it get. -/
structure Exchange where
  write : Option String
  bytes : List UInt8
  ending : ReadEnd
deriving DecidableEq, Repr

/-- What the device does, by the number of operations on it so far. -/
structure Env where
  device : String
  opens : Nat → Bool
  exchange : Nat → Exchange
  setBaudRate : Nat → Option String
  /-- Whether the port listing shows an Openterface CDC at this path (Linux only). -/
  openterfaceCdc : Nat → Bool

/-- The port: how many operations it has seen, and every frame handed to it. -/
structure Port where
  now : Nat
  sent : List (List UInt8)
deriving DecidableEq, Repr

/-- The held report state, and the rate the link runs at. -/
structure Session where
  baud : Nat
  mods : UInt8
  keys : List UInt8
  buttons : UInt8
deriving DecidableEq, Repr

/-- A session on its port. -/
structure Wire where
  session : Session
  port : Port
deriving DecidableEq, Repr

/-- What may fail with a message; the state keeps what was done before. -/
abbrev WireM := ExceptT String (StateM Wire)

def cmdGetInfo : UInt8 := 0x01
def cmdKbGeneral : UInt8 := 0x02
def cmdMsAbs : UInt8 := 0x04
def cmdMsRel : UInt8 := 0x05
def cmdGetParaCfg : UInt8 := 0x08
def cmdSetParaCfg : UInt8 := 0x09
def cmdReset : UInt8 := 0x0F
def cmdUsbSwitch : UInt8 := 0x17

def usbSwitchToHost : UInt8 := 0x00
def usbSwitchToTarget : UInt8 := 0x01
def usbSwitchQuery : UInt8 := 0x03

def keySlots : Nat := 6
def paraCfgLen : Nat := 50
def paraCfgBaud : Nat := 3
def absFull : Int := 4096
def logicalMax : Int := 32767
def baudCandidates : List Nat := [115200, 57600, 9600]
def baudMin : Nat := 1200
def baudMax : Nat := 115200
def maxTypeChars : Nat := 4096
def maxRelTotal : Int := 32767

/-- Two lowercase hexadecimal digits. -/
def hex2 (b : UInt8) : String :=
  let digit (n : Nat) : Char := if n < 10 then Char.ofNat (48 + n) else Char.ofNat (87 + n)
  String.ofList [digit (b.toNat / 16), digit (b.toNat % 16)]

/-- The `#04x` form of a byte. -/
def hex04 (b : UInt8) : String := "0x" ++ hex2 b

/-- The `02x?` form of some bytes. -/
def hexList (bs : List UInt8) : String := "[" ++ ", ".intercalate (bs.map hex2) ++ "]"

def statusName (code : UInt8) : String :=
  if code = 0x00 then "success"
  else if code = 0xE1 then "serial receive timeout (0xE1)"
  else if code = 0xE2 then "bad frame header (0xE2)"
  else if code = 0xE3 then "unknown command (0xE3)"
  else if code = 0xE4 then "checksum mismatch (0xE4)"
  else if code = 0xE5 then "bad parameter (0xE5)"
  else if code = 0xE6 then "execution failed (0xE6)"
  else "status " ++ hex04 code

/-- The sum of some bytes, cut to a byte. -/
def checksum (bs : List UInt8) : UInt8 := UInt8.ofNat (bs.map UInt8.toNat).sum

/-- `frame`: `HEAD ADDR CMD LEN DATA SUM`. -/
def frame (cmd : UInt8) (data : List UInt8) : List UInt8 :=
  let body := [0x57, 0xAB, 0x00, cmd, UInt8.ofNat data.length] ++ data
  body ++ [checksum body]

/-- `read_exact`: the next `n` bytes and those after them. -/
def readExact (ending : ReadEnd) (bytes : List UInt8) (n : Nat) :
    Except String (List UInt8 × List UInt8) :=
  if n ≤ bytes.length then .ok (bytes.take n, bytes.drop n)
  else
    match ending with
    | .timedOut => .error "timed out waiting for CH9329 reply (check device/baud, target on)"
    | .closed => .error "serial port closed mid-reply"
    | .failed e => .error ("serial read failed: " ++ e)

/-- Whether a reply's payload is data rather than a status byte first. -/
def replyPayloadIsData (cmd : UInt8) : Bool :=
  cmd == cmdGetInfo || cmd == cmdGetParaCfg || cmd == cmdUsbSwitch

/-- `read_reply` on the bytes of an exchange. -/
def readReply (cmd : UInt8) (ex : Exchange) : Except String (List UInt8) := do
  let (head, bytes) ← readExact ex.ending ex.bytes 2
  if head ≠ [0x57, 0xAB] then
    throw ("bad reply header " ++ hexList head ++ " (expected 57 ab)")
  let (rest, bytes) ← readExact ex.ending bytes 3
  let raddr := rest.getD 0 0
  let rcmd := rest.getD 1 0
  let len := rest.getD 2 0
  let (payload, bytes) ← readExact ex.ending bytes len.toNat
  let (last, _) ← readExact ex.ending bytes 1
  let sum := last.getD 0 0
  let expected := checksum ([0x57, 0xAB, raddr, rcmd, len] ++ payload)
  if sum ≠ expected then
    throw ("reply checksum mismatch (got " ++ hex04 sum ++ ", want " ++ hex04 expected ++ ")")
  if raddr ≠ 0x00 then
    throw ("reply from address " ++ hex04 raddr ++ ", expected " ++ hex04 0x00)
  if rcmd = cmd ||| 0xC0 then
    throw ("CH9329 rejected cmd " ++ hex04 cmd ++ ": " ++ statusName (payload.headD 0xFF))
  if rcmd ≠ cmd ||| 0x80 then
    throw ("unexpected reply cmd " ++ hex04 rcmd ++ " to " ++ hex04 cmd)
  if !replyPayloadIsData cmd && payload.headD 0x00 != 0x00 then
    throw ("cmd " ++ hex04 cmd ++ " failed: " ++ statusName (payload.headD 0x00))
  return payload

namespace Session

variable (env : Env)

/-- `send`: a framed command and the payload of its reply. -/
def send (cmd : UInt8) (data : List UInt8) : WireM (List UInt8) := do
  let wire ← get
  let ex := env.exchange wire.port.now
  set { wire with port := ⟨wire.port.now + 1, wire.port.sent ++ [frame cmd data]⟩ }
  match ex.write with
  | some e => throw ("serial write failed: " ++ e)
  | none =>
      match readReply cmd ex with
      | .ok payload => return payload
      | .error e => throw e

/-- The result of a step as a value, its effects kept. -/
def attempt {α : Type} (step : WireM α) : WireM (Except String α) := fun wire =>
  let (result, wire) := step.run wire
  (.ok result, wire)

def modifySession (f : Session → Session) : WireM Unit :=
  modify fun wire => { wire with session := f wire.session }

def getSession : WireM Session := do return (← get).session

/-- `Info`: the data of GET_INFO. -/
structure Info where
  chipVersion : UInt8
  targetConnected : Bool
  numLock : Bool
  capsLock : Bool
  scrollLock : Bool
deriving DecidableEq, Repr

/-- `get_info`. -/
def getInfo : WireM Info := do
  let p ← send env cmdGetInfo []
  match p with
  | version :: connected :: leds :: _ =>
      return ⟨version, connected != 0, leds &&& 0x01 != 0, leds &&& 0x02 != 0, leds &&& 0x04 != 0⟩
  | _ => throw ("short GET_INFO reply: " ++ hexList p)

/-- `MuxSide`. -/
inductive MuxSide where
  | host
  | target
deriving DecidableEq, Repr

def MuxSide.asStr : MuxSide → String
  | .host => "host"
  | .target => "target"

def MuxSide.selector : MuxSide → UInt8
  | .host => usbSwitchToHost
  | .target => usbSwitchToTarget

def MuxSide.fromStatus (b : UInt8) : Option MuxSide :=
  if b = usbSwitchToHost then some .host else if b = usbSwitchToTarget then some .target else none

/-- `is_reply_timeout`, and `is_timeout` of the owner. -/
def isTimeout (msg : String) : Bool := "timed out".toList.isPrefixOf msg.toList

/-- `usb_cmd`: a device without a mux does not answer at all. -/
def usbCmd (selector : UInt8) : WireM MuxSide := do
  match ← attempt (send env cmdUsbSwitch [0, 0, 0, 0, selector]) with
  | .error e =>
      if isTimeout e then
        throw ("this device does not support USB mux switching (no reply): the protocol has no " ++
          "negative ack for an unknown opcode, so a timeout here means unsupported rather than " ++
          "broken")
      else throw e
  | .ok p =>
      match p with
      | [b] =>
          match MuxSide.fromStatus b with
          | some side => return side
          | none =>
              throw ("this device does not support USB mux switching (reply " ++ hexList p ++ ")")
      | _ => throw ("this device does not support USB mux switching (reply " ++ hexList p ++ ")")

def usbQuery : WireM MuxSide := usbCmd env usbSwitchQuery

/-- `usb_set`: the reply states where the mux is now. -/
def usbSet (side : MuxSide) : WireM MuxSide := do
  let got ← usbCmd env side.selector
  if got ≠ side then
    throw ("USB mux did not move: asked for " ++ side.asStr ++ ", device reports " ++ got.asStr)
  return got

/-- `validate_baud`. -/
def validateBaud (rate : Nat) : Except String Unit :=
  if baudMin ≤ rate ∧ rate ≤ baudMax then .ok ()
  else
    .error ("baud " ++ toString rate ++ " is outside the CH9329's " ++ toString baudMin ++ "..=" ++
      toString baudMax ++ " range")

/-- The big-endian bytes of a rate. -/
def rateBytes (rate : Nat) : List UInt8 :=
  [UInt8.ofNat (rate / 2 ^ 24), UInt8.ofNat (rate / 2 ^ 16), UInt8.ofNat (rate / 2 ^ 8),
    UInt8.ofNat rate]

/-- The GET_INFO attempts after a reset: the last error if none is answered. -/
def confirm : Nat → String → WireM (Option String)
  | 0, last => return some last
  | n + 1, _ => do
      match ← attempt (getInfo env) with
      | .ok _ => return none
      | .error e => confirm n e

/-- `set_baud`: persists the rate, resets the chip and confirms it answers. -/
def setBaud (rate : Nat) : WireM (Option String) := do
  match validateBaud rate with
  | .error e => throw e
  | .ok _ =>
      let cfg ← send env cmdGetParaCfg []
      if cfg.length ≠ paraCfgLen then
        throw ("GET_PARA_CFG returned " ++ toString cfg.length ++ " bytes, expected " ++
          toString paraCfgLen)
      let _ ← send env cmdSetParaCfg
        (cfg.take paraCfgBaud ++ rateBytes rate ++ cfg.drop (paraCfgBaud + 4))
      modifySession fun s => { s with baud := rate }
      let resetAck ← attempt (send env cmdReset [])
      modifySession fun s => { s with mods := 0, keys := [], buttons := 0 }
      let wire ← get
      let changed := env.setBaudRate wire.port.now
      set { wire with port := ⟨wire.port.now + 1, wire.port.sent⟩ }
      match changed with
      | some e => throw ("set host port to " ++ toString rate ++ " baud: " ++ e)
      | none =>
          match ← confirm env 3 "" with
          | none =>
              match resetAck with
              | .ok _ => return none
              | .error e =>
                  return some ("the reset ack was lost (" ++ e ++ ") but the chip answers at " ++
                    toString rate ++ " baud")
          | some last =>
              throw ("CH9329 did not respond at " ++ toString rate ++ " baud after reset (the " ++
                "rate is persisted; reconnect with -b " ++ toString rate ++
                ", or factory-reset via the DEF pin): " ++ last)

/-- The key slots of a report: the first six keys, empty slots zero. -/
def slots (keys : List UInt8) : List UInt8 :=
  keys.take keySlots ++ List.replicate (keySlots - keys.length) 0

/-- `push_keyboard`: the held report. -/
def pushKeyboard : WireM Unit := do
  let s ← getSession
  let _ ← send env cmdKbGeneral ([s.mods, 0x00] ++ slots s.keys)

/-- `push_mouse_rel`. -/
def pushMouseRel (buttons : UInt8) (dx dy wheel : Int) : WireM Unit := do
  let byte (n : Int) : UInt8 := UInt8.ofNat (n % 256).toNat
  let _ ← send env cmdMsRel [0x01, buttons, byte dx, byte dy, byte wheel]

/-- `push_mouse_abs`. -/
def pushMouseAbs (x y : Nat) (buttons : UInt8) : WireM Unit := do
  let _ ← send env cmdMsAbs [0x02, buttons, UInt8.ofNat x, UInt8.ofNat (x / 256), UInt8.ofNat y,
    UInt8.ofNat (y / 256), 0x00]

/-- `push_all_clear`. -/
def pushAllClear : WireM Unit := do
  pushKeyboard env
  let s ← getSession
  pushMouseRel env s.buttons 0 0 0

/-- `apply_down`. -/
def applyDown (key : Key) (s : Session) : Session :=
  match key with
  | .modifier bit => { s with mods := s.mods ||| bit }
  | .usage u =>
      if u ∉ s.keys ∧ s.keys.length < keySlots then { s with keys := s.keys ++ [u] } else s

/-- `apply_up`. -/
def applyUp (key : Key) (s : Session) : Session :=
  match key with
  | .modifier bit => { s with mods := s.mods &&& ~~~bit }
  | .usage u => { s with keys := s.keys.filter (· != u) }

/-- `finish_hold`: a failed press stands; a failed release is tried once more. -/
def finishHold (pressed released : Except String Unit) : WireM Unit :=
  match pressed, released with
  | .ok _, .ok _ => return ()
  | .error e, _ => throw e
  | .ok _, .error e => do
      let _ ← attempt (pushKeyboard env)
      throw e

/-- `tap`. -/
def tap (key : Key) : WireM Unit := do
  modifySession (applyDown key)
  let pressed ← attempt (pushKeyboard env)
  modifySession (applyUp key)
  let released ← attempt (pushKeyboard env)
  finishHold env pressed released

/-- `keys_needed`: the slots for a chord on top of the held keys. -/
def keysNeeded (chord : List Key) (held : List UInt8) : Nat :=
  let newKeys := chord.foldl (fun acc k =>
    match k with
    | .usage u => if u ∉ acc ∧ u ∉ held then acc ++ [u] else acc
    | .modifier _ => acc) []
  held.length + newKeys.length

/-- `combo`. -/
def combo (chord : List Key) : WireM Unit := do
  let s ← getSession
  let needed := keysNeeded chord s.keys
  if needed > keySlots then
    throw ("combo needs " ++ toString needed ++ " key slots but a report has " ++
      toString keySlots ++ " (" ++ toString s.keys.length ++
      " already held); modifiers do not count")
  modifySession fun s => chord.foldl (fun s k => applyDown k s) s
  let pressed ← attempt (pushKeyboard env)
  modifySession fun s => chord.foldl (fun s k => applyUp k s) s
  let released ← attempt (pushKeyboard env)
  finishHold env pressed released

/-- `key_down`. -/
def keyDown (key : Key) : WireM Unit := do
  modifySession (applyDown key)
  pushKeyboard env

/-- `key_up`. -/
def keyUp (key : Key) : WireM Unit := do
  modifySession (applyUp key)
  pushKeyboard env

/-- `release_all`. -/
def releaseAll : WireM Unit := do
  modifySession fun s => { s with mods := 0, keys := [] }
  pushKeyboard env

/-- `release_everything`. -/
def releaseEverything : WireM Unit := do
  releaseAll env
  modifySession fun s => { s with buttons := 0 }
  pushMouseRel env 0 0 0 0

/-- `check_type_len`. -/
def checkTypeLen (text : List Char) : Except String Unit :=
  if text.length > maxTypeChars then
    .error ("type text is " ++ toString text.length ++ " characters; the limit is " ++
      toString maxTypeChars)
  else .ok ()

/-- The report that presses a typed key on top of the others held. -/
def typedReport (s : Session) (usage : UInt8) (shift : Bool) : List UInt8 :=
  let others := (s.keys.filter (· != usage)).take (keySlots - 1)
  [s.mods ||| (if shift then modLeftShift else 0), 0x00, usage] ++ others ++
    List.replicate (keySlots - 1 - others.length) 0

/-- One character of `type_text`: a key already held is released first. -/
def typeChar (c : Char) : WireM Unit := do
  match charToUsage c with
  | .error e => throw e
  | .ok (usage, shift) =>
      let s ← getSession
      if usage ∈ s.keys then
        modifySession fun s => { s with keys := s.keys.filter (· != usage) }
        let cleared ← attempt (pushKeyboard env)
        modifySession fun s => { s with keys := s.keys ++ [usage] }
        match cleared with
        | .error e => throw e
        | .ok _ => pure ()
      let s ← getSession
      let pressed ← attempt (do let _ ← send env cmdKbGeneral (typedReport s usage shift))
      let released ← attempt (pushKeyboard env)
      finishHold env pressed released

/-- The loop of `type_text`. -/
def typeChars : List Char → WireM Unit
  | [] => return ()
  | c :: text => do
      typeChar env c
      typeChars text

/-- `type_text`. -/
def typeText (text : List Char) : WireM Unit := do
  match checkTypeLen text with
  | .error e => throw e
  | .ok _ => typeChars env text

/-- `button_mask`. -/
def buttonMask (name : List Char) : Except String UInt8 :=
  let n := toAsciiLowercase name
  if n = "left".toList then .ok 0x01
  else if n = "right".toList then .ok 0x02
  else if n = "middle".toList then .ok 0x04
  else .error ("unknown mouse button: " ++ String.ofList n)

/-- A clamped value. -/
def clamp (lo hi v : Int) : Int := if v < lo then lo else if hi < v then hi else v

/-- `scale_abs`: a logical coordinate on the chip's 12-bit grid. -/
def scaleAbs (v : Int) : Nat :=
  let v := clamp 0 logicalMax v
  (min ((v * absFull + logicalMax / 2) / logicalMax) (absFull - 1)).toNat

/-- `move_abs`: nudged by one unit first, so that the chip does not coalesce it. -/
def moveAbs (x y : Int) : WireM Unit := do
  let tx := scaleAbs x
  let ty := scaleAbs y
  let ny := if ty ≥ 1 then ty - 1 else ty + 1
  let s ← getSession
  pushMouseAbs env tx ny s.buttons
  pushMouseAbs env tx ty s.buttons

/-- `click`. -/
def click (button : List Char) : WireM Unit := do
  match buttonMask button with
  | .error e => throw e
  | .ok mask =>
      let s ← getSession
      pushMouseRel env (s.buttons ||| mask) 0 0 0
      pushMouseRel env s.buttons 0 0 0

/-- `mouse_down`. -/
def mouseDown (button : List Char) : WireM Unit := do
  match buttonMask button with
  | .error e => throw e
  | .ok mask =>
      modifySession fun s => { s with buttons := s.buttons ||| mask }
      let s ← getSession
      pushMouseRel env s.buttons 0 0 0

/-- `mouse_up`. -/
def mouseUp (button : List Char) : WireM Unit := do
  match buttonMask button with
  | .error e => throw e
  | .ok mask =>
      modifySession fun s => { s with buttons := s.buttons &&& ~~~mask }
      let s ← getSession
      pushMouseRel env s.buttons 0 0 0

/-- The loop of `move_rel`; each round takes at least one unit off. -/
def moveLoop : Nat → Int → Int → WireM Unit
  | 0, _, _ => return ()
  | fuel + 1, dx, dy => do
      let sx := clamp (-127) 127 dx
      let sy := clamp (-127) 127 dy
      if sx = 0 ∧ sy = 0 then return ()
      let s ← getSession
      pushMouseRel env s.buttons sx sy 0
      if dx - sx = 0 ∧ dy - sy = 0 then return ()
      moveLoop fuel (dx - sx) (dy - sy)

/-- `clamp_rel_total`. -/
def clampRelTotal (v : Int) : Int := clamp (-maxRelTotal) maxRelTotal v

/-- `move_rel`. -/
def moveRel (dx dy : Int) : WireM Unit :=
  let dx := clampRelTotal dx
  let dy := clampRelTotal dy
  moveLoop env (dx.natAbs + dy.natAbs) dx dy

/-- The loop of `scroll`. -/
def scrollLoop : Nat → Int → WireM Unit
  | 0, _ => return ()
  | fuel + 1, amount => do
      if amount = 0 then return ()
      let step := clamp (-127) 127 amount
      let s ← getSession
      pushMouseRel env s.buttons 0 0 step
      scrollLoop fuel (amount - step)

/-- `scroll`. -/
def scroll (amount : Int) : WireM Unit :=
  let amount := clampRelTotal amount
  scrollLoop env amount.natAbs amount

end Session

/-- `probe_order`. -/
def probeOrder (first : Option Nat) : List Nat :=
  first.toList ++ baudCandidates.filter fun b => some b != first

/-- A session as it is opened, nothing held. -/
def Session.fresh (rate : Nat) : Session := ⟨rate, 0, [], 0⟩

/-- The loop of `try_open_candidates`: the session on the first rate that
answers, or the last error if none does. -/
def tryCandidates (env : Env) : List Nat → String → Port → Except (String × Bool) Session × Port
  | [], last, port => (.error (last, true), port)
  | rate :: rates, _, port =>
      let opened := env.opens port.now
      let port : Port := ⟨port.now + 1, port.sent⟩
      if opened then
        let (info, wire) := (Session.getInfo env).run ⟨Session.fresh rate, port⟩
        match info with
        | .ok _ =>
            let (cleared, wire) := (Session.pushAllClear env).run wire
            match cleared with
            | .ok _ => (.ok wire.session, wire.port)
            | .error e => (.error (e, false), wire.port)
        | .error e => tryCandidates env rates e wire.port
      else (.error ("cannot open " ++ env.device, false), port)

/-- `open_preferring`, with the note that Linux puts in front of the error for
an Openterface CDC. -/
def openPreferring (env : Env) (first : Option Nat) (port : Port) : Except String Session × Port :=
  let (result, port) := tryCandidates env (probeOrder first) "" port
  match result with
  | .ok s => (.ok s, port)
  | .error (e, exhausted) =>
      let msg :=
        if exhausted then
          "CH9329 did not respond on " ++ env.device ++ " at " ++
            "/".intercalate ((probeOrder first).map toString) ++ " baud: " ++ e
        else e
      let noted := env.openterfaceCdc port.now
      let port : Port := ⟨port.now + 1, port.sent⟩
      if noted then
        (.error ("warning: Openterface CDC (1a86:fe0c) has a known Linux startup compatibility " ++
          "issue: tty echo of startup data can leave its firmware parser unresponsive. Firmware " ++
          "release is unknown; chip_version is not a reliable release number. See " ++
          "https://curtisgalloway.github.io/paniolo/hid/#openterface-cdc-on-linux for diagnosis " ++
          "and the cold-start/direct-USB workaround; verify board and firmware compatibility " ++
          "before updating"), port)
      else (.error msg, port)

end Ch9329

end Paniolo
