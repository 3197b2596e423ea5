import Mathlib.Data.List.Dedup
import Paniolo.Library.OrderedMap
import Paniolo.Library.Result
import Paniolo.Library.Text

/-!
# The lab

The typed view of a lab file: control hosts, and targets with their channels.
A channel is bound to a host of its own, else to the host of its target, else
to `local`. `validate` is the rulebook that loading and saving share.
-/

namespace Paniolo

namespace Cli

/-- The lab file is malformed, or an edit would make it so. -/
structure LabError where
  message : String
deriving DecidableEq, Repr

def labErr {α : Type} (message : String) : Except LabError α := .error ⟨message⟩

/-- The host that means this machine. -/
def LOCAL : String := "local"

def DEFAULT_HOST_IP : String := "192.168.99.1"

def VALID_SENSE_SIGNALS : List String := ["cts", "dsr", "dcd", "ri"]

/-- The `video.device` that reads the feed of the target's own hid daemon. -/
def RFB_HID_DEVICE : String := "rfb+hid:"

def VALID_OCR_MODES : List String := ["text", "gui"]

def VALID_REQUIRES_POWER : List String := ["on", "off"]

/-- The name that the hooks set without a level are reported under. -/
def DEFAULT_POWER_LEVEL : String := "default"

/-- Keys of an `actions` table that configure the table itself. -/
def ACTIONS_TABLE_KEYS : List String := ["host", "doctor"]

def NAME_RULE : String :=
  "letters, digits, `.`, `_` and `-` only; not `.` or `..`; not starting with `-`"

/-! ### The schema -/

structure Host where
  ssh : String
  description : Option String := none
  hostname : Option String := none
  identity : Option String := none
  controlPath : Option String := none
  panioloCmd : Option String := none
  pluginPath : Option String := none
deriving DecidableEq, Inhabited

structure NetbootChannel where
  interface : Option String := none
  hostIp : Option String := none
  tftpRoot : Option String := none
  bootFile : Option String := none
  httpPort : Option String := none
  contentType : Option String := none
  host : Option String := none
deriving DecidableEq, Inhabited

structure SerialChannel where
  name : String
  device : String
  baud : Int := 115200
  powerSenseSignal : Option String := none
  powerButton : Bool := false
  host : Option String := none
  port : Option UInt16 := none
deriving DecidableEq, Inhabited

structure PowerLevel where
  cycleCmd : Option String := none
  onCmd : Option String := none
  offCmd : Option String := none
  stateCmd : Option String := none
deriving DecidableEq, Inhabited

structure PowerChannel where
  cycleCmd : Option String := none
  onCmd : Option String := none
  offCmd : Option String := none
  stateCmd : Option String := none
  serialInterface : Option String := none
  host : Option String := none
  doctor : Bool := false
  levels : OrderedMap String PowerLevel := .empty
deriving DecidableEq, Inhabited

structure VideoChannel where
  device : Option String := none
  host : Option String := none
  ocrMode : Option String := none
  changeThreshold : Option UInt8 := none
  port : Option UInt16 := none
deriving DecidableEq, Inhabited

structure HidChannel where
  cmd : Option String := none
  host : Option String := none
  port : Option UInt16 := none
  doctor : Bool := false
deriving DecidableEq, Inhabited

structure UsbChannel where
  cmd : Option String := none
  host : Option String := none
  doctor : Bool := false
deriving DecidableEq, Inhabited

structure AdbChannel where
  serial : Option String := none
  adb : Option String := none
  host : Option String := none
deriving DecidableEq, Inhabited

structure LabAction where
  cmd : String
  description : Option String := none
  requiresPower : Option String := none
deriving DecidableEq, Inhabited

structure ActionsChannel where
  host : Option String := none
  doctor : Bool := false
  actions : OrderedMap String LabAction := .empty
deriving DecidableEq, Inhabited

structure Target where
  host : Option String := none
  description : Option String := none
  netboot : Option NetbootChannel := none
  serial : List SerialChannel := []
  power : Option PowerChannel := none
  video : Option VideoChannel := none
  hid : Option HidChannel := none
  usb : Option UsbChannel := none
  adb : Option AdbChannel := none
  actions : Option ActionsChannel := none
deriving DecidableEq, Inhabited

structure Lab where
  hosts : OrderedMap String Host := .empty
  targets : OrderedMap String Target := .empty
deriving DecidableEq, Inhabited

namespace Target

def defaultHost (t : Target) : String := t.host.getD LOCAL

/-- The host of a channel of `t`. -/
def hostOf (t : Target) (host : Option String) : String := host.getD t.defaultHost

/-- The serialcap daemon's fixed port: the first interface that sets a nonzero
one, else 0, which leaves it to the system. -/
def serialPort (t : Target) : UInt16 :=
  ((t.serial.filterMap SerialChannel.port).find? (· != 0)).getD 0

end Target

/-- A channel's fixed daemon port, 0 when unset. -/
def fixedPort (port : Option UInt16) : UInt16 := port.getD 0

/-! ### Names -/

def isValidName (name : String) : Bool :=
  name != "" && name != "." && name != ".." && name.toList.head? != some '-' &&
    name.toList.all fun c => c.isAlphanum || c == '.' || c == '_' || c == '-'

def validateName (what name : String) : Except LabError Unit :=
  if isValidName name then .ok () else labErr s!"invalid {what} name '{name}': {NAME_RULE}"

/-! ### Addresses -/

/-- One number of a dotted address: no leading zero, at most 255. -/
def parseOctet (s : List Char) : Option Nat :=
  if s.length ≤ 3 ∧ (s.head? = some '0' → s.length = 1) then
    (Text.parseDigits s).filter (· < 256)
  else none

/-- `Ipv4Addr::from_str`. -/
def parseIpv4 (s : String) : Option (List Nat) :=
  let parts := s.toList.splitOn '.'
  if parts.length = 4 then parts.mapM parseOctet else none

/-- A port number, not 0. -/
def isPort (s : List Char) : Bool := (Text.parseUnsigned 65536 s).any (· != 0)

/-- `HOST:PORT` with a host and a nonzero port. -/
def networkAddrOk (addr : List Char) : Bool :=
  match Text.splitOnce (· == ':') (addr.rdropWhile (· == '/')).reverse with
  | none => false
  | some (port, host) => host != [] && isPort port.reverse

/-- Whether a `video.device` names a network source. -/
def isNetworkDevice (device : String) : Bool :=
  device == RFB_HID_DEVICE || device == "rfb+discovery:" ||
    "rfb://".toList.isPrefixOf device.toList || "rfb+ws://".toList.isPrefixOf device.toList

/-! ### Validation -/

/-- Run a check over all elements, up to the first that fails. -/
def checkAll {α : Type} (check : α → Except LabError Unit) : List α → Except LabError Unit
  | [] => .ok ()
  | x :: l => do
      check x
      checkAll check l

theorem checkAll_eq_ok {α : Type} {check : α → Except LabError Unit} {l : List α} :
    checkAll check l = .ok () ↔ ∀ x ∈ l, check x = .ok () := by
  induction l with
  | nil => exact ⟨fun _ x hx => absurd hx List.not_mem_nil, fun _ => rfl⟩
  | cons x l ih =>
      rw [checkAll, seq_eq_ok, List.forall_mem_cons, ← ih]

/-- The host names a lab may refer to, in order. -/
def Lab.declared (lab : Lab) : List String :=
  if LOCAL ∈ lab.hosts.keys then lab.hosts.keys
  else lab.hosts.keys.orderedInsert (· ≤ ·) LOCAL

def checkHostRef (host : String) (declared : List String) (ctx : String) : Except LabError Unit :=
  if host ∈ declared then .ok ()
  else
    let known := ", ".intercalate declared
    labErr s!"{ctx} references unknown host '{host}' (declared: {known})"

/-- A check that fails with `message` unless `ok`. -/
def require (ok : Bool) (message : String) : Except LabError Unit :=
  if ok then .ok () else labErr message

theorem require_eq_ok {ok : Bool} {message : String} :
    require ok message = .ok () ↔ ok = true := by
  cases ok with
  | true => exact ⟨fun _ => rfl, fun _ => rfl⟩
  | false =>
      constructor
      · intro h
        cases h
      · intro h
        cases h

/-- One of the values of a host that become arguments of `ssh`. -/
def checkSshArgument (name field : String) (value : Option String) : Except LabError Unit :=
  match value with
  | none => .ok ()
  | some v => require (v.toList.head? != some '-')
      s!"host '{name}': {field} '{v}' must not begin with '-'"

def validateHost (entry : String × Host) : Except LabError Unit := do
  let name := entry.1
  let h := entry.2
  let ssh := h.ssh
  require (name != "") "a host has an empty name"
  require (Text.trim ssh.toList != []) s!"host '{name}': missing required 'ssh' field"
  require (name != LOCAL || ssh == LOCAL)
    (s!"host '{LOCAL}' means this machine and cannot have ssh = \"{ssh}\"; " ++
      "give the remote host another name")
  checkSshArgument name "ssh" (some ssh)
  checkSshArgument name "identity" h.identity
  checkSshArgument name "control_path" h.controlPath

/-- A level's hooks with the keys they are set by. -/
def PowerLevel.hooks (l : PowerLevel) : List (String × Option String) :=
  [("cycle_cmd", l.cycleCmd), ("on_cmd", l.onCmd), ("off_cmd", l.offCmd),
    ("state_cmd", l.stateCmd)]

def validatePowerLevel (what : String) (entry : String × PowerLevel) : Except LabError Unit := do
  let name := entry.1
  let hooks := entry.2.hooks
  require (isValidName name) s!"{what}: invalid power level name '{name}': {NAME_RULE}"
  require (name != DEFAULT_POWER_LEVEL)
    s!"{what}: '{DEFAULT_POWER_LEVEL}' names the hooks set without --level; pick another level name"
  require (hooks.any fun k => k.2.isSome)
    (s!"{what}: power level '{name}' sets no hook " ++
      "(cycle_cmd, on_cmd, off_cmd or state_cmd)")
  checkAll (fun k : String × Option String =>
    let key := k.1
    require (k.2.all fun c => Text.trim c.toList != [])
      s!"{what}: power level '{name}': empty {key}") hooks

def validateNetboot (declared : List String) (name : String) (t : Target) (nb : NetbootChannel) :
    Except LabError Unit := do
  let ip := nb.hostIp.getD ""
  let port := nb.httpPort.getD ""
  checkHostRef (t.hostOf nb.host) declared s!"target '{name}' netboot"
  require (nb.hostIp.all fun ip => (parseIpv4 ip).isSome)
    s!"target '{name}' netboot: host_ip '{ip}' is not an IPv4 address"
  require (nb.httpPort.all fun port => isPort port.toList)
    s!"target '{name}' netboot: http_port '{port}' is not a port number (1-65535)"

def validatePower (declared : List String) (name : String) (t : Target) (p : PowerChannel) :
    Except LabError Unit := do
  checkHostRef (t.hostOf p.host) declared s!"target '{name}' power"
  checkAll (validatePowerLevel s!"target '{name}' power") p.levels.entries

/-- A network source of the video channel. -/
def validateVideoDevice (name : String) (t : Target) (v : VideoChannel) (dev : String) :
    Except LabError Unit :=
  if dev == RFB_HID_DEVICE then
    let videoHost := t.hostOf v.host
    match t.hid with
    | none =>
        labErr (s!"target '{name}' video: device '{RFB_HID_DEVICE}' reads the hid " ++
          "daemon's RFB feed, but the target has no hid channel " ++
          s!"(paniolo hid set -t {name} --cmd ...)")
    | some hid =>
        let hidHost := t.hostOf hid.host
        require (hidHost == videoHost)
          (s!"target '{name}' video: device '{RFB_HID_DEVICE}' needs the video " ++
            s!"and hid channels on the same host (video on '{videoHost}', hid on '{hidHost}')")
  else
    require ("rfb://".toList.isPrefixOf dev.toList && networkAddrOk (dev.toList.drop 6))
      (s!"target '{name}' video: unsupported network device '{dev}' " ++
        s!"(valid: '{RFB_HID_DEVICE}' or 'rfb://HOST:PORT')")

def validateVideo (declared : List String) (name : String) (t : Target) (v : VideoChannel) :
    Except LabError Unit := do
  let mode := v.ocrMode.getD ""
  let valid := ", ".intercalate VALID_OCR_MODES
  checkHostRef (t.hostOf v.host) declared s!"target '{name}' video"
  checkAll (validateVideoDevice name t v) (v.device.filter isNetworkDevice).toList
  require (v.ocrMode.all fun mode => mode ∈ VALID_OCR_MODES)
    s!"target '{name}' video: invalid ocr_mode '{mode}' (valid: {valid})"

def validateAction (name : String) (entry : String × LabAction) : Except LabError Unit := do
  let an := entry.1
  let rp := entry.2.requiresPower.getD ""
  let valid := ", ".intercalate VALID_REQUIRES_POWER
  require (Text.trim entry.2.cmd.toList != []) s!"target '{name}' action '{an}': empty cmd"
  require (entry.2.requiresPower.all fun rp => rp ∈ VALID_REQUIRES_POWER)
    (s!"target '{name}' action '{an}': invalid requires_power '{rp}' " ++ s!"(valid: {valid})")

def validateActions (declared : List String) (name : String) (t : Target) (acts : ActionsChannel) :
    Except LabError Unit := do
  checkHostRef (t.hostOf acts.host) declared s!"target '{name}' actions"
  checkAll (validateAction name) acts.actions.entries

/-- The serial interfaces from the first on, after those of the names `seen`. -/
def validateSerials (declared : List String) (name : String) (t : Target) (seen : List String) :
    List SerialChannel → Except LabError Unit
  | [] => .ok ()
  | s :: rest => do
      let sn := s.name
      let sense := s.powerSenseSignal.getD ""
      let valid := ", ".intercalate VALID_SENSE_SIGNALS
      require (s.name != "" && s.device != "") s!"target '{name}': each [[serial]] needs name + device"
      require (!(s.name ∈ seen)) s!"target '{name}': duplicate serial name '{sn}'"
      require (s.powerSenseSignal.all fun sense => sense ∈ VALID_SENSE_SIGNALS)
        (s!"target '{name}' serial '{sn}': invalid power_sense_signal '{sense}' " ++
          s!"(valid: {valid})")
      checkHostRef (t.hostOf s.host) declared s!"target '{name}' serial '{sn}'"
      validateSerials declared name t (s.name :: seen) rest

/-- The different nonzero ports that the serial interfaces name, in order. -/
def Target.serialPorts (t : Target) : List Nat :=
  (((t.serial.filterMap SerialChannel.port).filter (· != 0)).map UInt16.toNat).foldr
    (fun p l => if p ∈ l then l else l.orderedInsert (· ≤ ·) p) []

def validateTarget (declared : List String) (entry : String × Target) : Except LabError Unit := do
  let name := entry.1
  let t := entry.2
  let ports := ", ".intercalate (t.serialPorts.map toString)
  require (name != "") "a target has an empty name"
  checkHostRef t.defaultHost declared s!"target '{name}'"
  checkAll (validateNetboot declared name t) t.netboot.toList
  checkAll (validatePower declared name t) t.power.toList
  checkAll (validateVideo declared name t) t.video.toList
  checkAll (fun h : HidChannel =>
    checkHostRef (t.hostOf h.host) declared s!"target '{name}' hid") t.hid.toList
  checkAll (fun a : AdbChannel =>
    checkHostRef (t.hostOf a.host) declared s!"target '{name}' adb") t.adb.toList
  checkAll (fun u : UsbChannel =>
    checkHostRef (t.hostOf u.host) declared s!"target '{name}' usb") t.usb.toList
  checkAll (validateActions declared name t) t.actions.toList
  validateSerials declared name t [] t.serial
  require (t.serialPorts.length ≤ 1)
    (s!"target '{name}': serial interfaces name different ports \x7b{ports}\x7d, " ++
      "but one serialcap daemon serves them all; set one port")

/-- A port that a daemon of a target is to have on a host. -/
structure Claim where
  kind : String
  host : String
  port : UInt16
deriving DecidableEq, Repr

/-- The claims that `check_fixed_ports` makes for a target. -/
def Target.claims (t : Target) : List Claim :=
  (t.video.map fun v => ⟨"video", t.hostOf v.host, fixedPort v.port⟩).toList ++
    (t.hid.map fun h => ⟨"hid", t.hostOf h.host, fixedPort h.port⟩).toList ++
    ((t.serial.find? fun s => s.port.any (· != 0)).map fun s =>
      ⟨"serial", t.hostOf s.host, t.serialPort⟩).toList

/-- The claims of all targets, under the words that a clash is reported with. -/
def Lab.claims (lab : Lab) : List (String × Claim) :=
  lab.targets.entries.flatMap fun e =>
    e.2.claims.map fun c => (s!"target '" ++ e.1 ++ "' " ++ c.kind, c)

/-- Go through the claims, after those in `claimed`. -/
def checkClaims : List (String × Claim) → List (String × Claim) → Except LabError Unit
  | _, [] => .ok ()
  | claimed, c :: rest =>
      if c.2.port == 0 then checkClaims claimed rest
      else
        match claimed.find? fun p => p.2.host == c.2.host && p.2.port == c.2.port with
        | some p =>
            labErr (c.1 ++ " and " ++ p.1 ++ " both use port " ++ toString c.2.port.toNat ++
              " on host '" ++ c.2.host ++ "'")
        | none => checkClaims (c :: claimed) rest

def checkFixedPorts (lab : Lab) : Except LabError Unit := checkClaims [] lab.claims

def validate (lab : Lab) : Except LabError Unit := do
  checkAll validateHost lab.hosts.entries
  checkAll (validateTarget lab.declared) lab.targets.entries
  checkFixedPorts lab

/-! ### What a valid lab satisfies -/

/-- A channel that a target may have passes its check. -/
theorem checkAll_toList {α : Type} {check : α → Except LabError Unit} {o : Option α} :
    checkAll check o.toList = .ok () ↔ ∀ x, o = some x → check x = .ok () := by
  rw [checkAll_eq_ok]
  exact forall_congr' fun x => by rw [Option.mem_toList]

theorem validate_eq_ok {lab : Lab} :
    validate lab = .ok () ↔ (∀ e ∈ lab.hosts.entries, validateHost e = .ok ()) ∧
      (∀ e ∈ lab.targets.entries, validateTarget lab.declared e = .ok ()) ∧
      checkFixedPorts lab = .ok () := by
  rw [validate, seq_eq_ok, seq_eq_ok, checkAll_eq_ok, checkAll_eq_ok]

theorem requiresPower_of_validate {lab : Lab} (h : validate lab = .ok ()) {n : String} {t : Target}
    (ht : lab.targets.get? n = some t) {acts : ActionsChannel} (ha : t.actions = some acts) :
    ∀ e ∈ acts.actions.entries, e.2.requiresPower ≠ some "none" := by
  intro e he hrp
  have htarget := (validate_eq_ok.mp h).2.1 _ (OrderedMap.get?_eq_some_iff.mp ht)
  simp only [validateTarget, seq_eq_ok, checkAll_toList] at htarget
  have hacts := htarget.2.2.2.2.2.2.2.2.1 acts ha
  simp only [validateActions, seq_eq_ok, checkAll_eq_ok] at hacts
  have haction := hacts.2 e he
  simp only [validateAction, seq_eq_ok, require_eq_ok] at haction
  have := haction.2
  rw [hrp] at this
  exact absurd this (by decide)

end Cli

end Paniolo
