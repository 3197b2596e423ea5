import Paniolo.Cli.Model

/-!
# Editing the lab

The operations of the editor, on the typed view of the document: what an
operation writes is what the next read of the file gives. Each either refuses
or leaves a document with that one thing changed; whether the whole is still a
lab is asked when it is saved.
-/

namespace Paniolo

namespace Cli

/-! ### Netboot links -/

/-- The /24 a netboot link occupies, as its first three octets. -/
def netbootSubnet (hostIp : String) : Option (List Nat) := (parseIpv4 hostIp).map (List.take 3)

def NetbootChannel.effectiveHostIp (nb : NetbootChannel) : String := nb.hostIp.getD DEFAULT_HOST_IP

/-- A netboot link that is complete enough to be compared. -/
structure Link where
  host : String
  subnet : List Nat
  interface : String
deriving DecidableEq, Repr

/-- The link of a target, when its interface is set and its address is one. -/
def Target.link (t : Target) : Option Link := do
  let nb ← t.netboot
  let interface ← nb.interface
  let subnet ← netbootSubnet nb.effectiveHostIp
  pure ⟨t.hostOf nb.host, subnet, interface⟩

/-- Two links that share a /24 on one host, on different interfaces. -/
def Link.clashes (a b : Link) : Bool :=
  b.host == a.host && b.interface != a.interface && b.subnet == a.subnet

structure SubnetClash where
  host : String
  subnet : String
  interface : String
  hostIp : String
  defaulted : Bool
  otherTarget : String
  otherInterface : String
deriving DecidableEq, Repr

/-- `192.0.2.0/24`-style rendering of a subnet. -/
def subnetStr (subnet : List Nat) : String := ".".intercalate (subnet.map toString) ++ ".0/24"

/-- The first other target whose netboot link shares the /24 of the link of `target`. -/
def netbootSubnetClash (lab : Lab) (target : String) : Option SubnetClash := do
  let t ← lab.targets.get? target
  let nb ← t.netboot
  let a ← t.link
  lab.targets.entries.findSome? fun e =>
    if e.1 == target then none
    else
      e.2.link.bind fun b =>
        if a.clashes b then
          some ⟨a.host, subnetStr a.subnet, a.interface, nb.effectiveHostIp, nb.hostIp.isNone, e.1,
            b.interface⟩
        else none

def subnetClashMessage (target : String) (c : SubnetClash) : String :=
  let ip := c.hostIp
  let how := if c.defaulted then s!"host_ip {ip} (the default, since none is set)"
    else s!"host_ip {ip}"
  s!"target '{target}' netboot: {how} puts " ++ c.interface ++ " in " ++ c.subnet ++
    ", which target '" ++ c.otherTarget ++ "' already uses on " ++ c.otherInterface ++
    " of host '" ++ c.host ++ "'. Every netboot link on a host needs its own /24, or every route " ++
    "to a target on either link is ambiguous — give this one a different subnet: " ++
    s!"`paniolo netboot set -t {target} --host-ip <addr>`"

/-! ### Fields -/

/-- Set a field when a value is given. -/
def setOpt (given old : Option String) : Option String := given.or old

/-- Set a port when one is given; 0 clears it. -/
def setPort (given old : Option UInt16) : Option UInt16 :=
  match given with
  | none => old
  | some p => if p = 0 then none else some p

/-- Edit one target. -/
def targetMut (lab : Lab) (name : String) (edit : Target → Except LabError Target) :
    Except LabError Lab :=
  match lab.targets.get? name with
  | none => labErr s!"no target '{name}'"
  | some t => do
      let t ← edit t
      pure { lab with targets := lab.targets.insert name t }

/-! ### Hosts and targets -/

def addHost (lab : Lab) (name : String) (h : Host) : Except LabError Lab := do
  validateName "host" name
  require (!lab.hosts.contains name) s!"host '{name}' already exists"
  pure { lab with hosts := lab.hosts.insert name h }

/-- An empty plugin path clears the field. -/
def updateHost (lab : Lab) (name : String)
    (ssh description hostname identity controlPath panioloCmd pluginPath : Option String) :
    Except LabError Lab := do
  validateName "host" name
  match lab.hosts.get? name with
  | none => labErr s!"no host '{name}'"
  | some h =>
      let h : Host :=
        { ssh := ssh.getD h.ssh
          description := setOpt description h.description
          hostname := setOpt hostname h.hostname
          identity := setOpt identity h.identity
          controlPath := setOpt controlPath h.controlPath
          panioloCmd := setOpt panioloCmd h.panioloCmd
          pluginPath := if pluginPath = some "" then none else setOpt pluginPath h.pluginPath }
      pure { lab with hosts := lab.hosts.insert name h }

/-- The hosts of the channels of a target. -/
def Target.channelHosts (t : Target) : List String :=
  (t.netboot.map fun c => t.hostOf c.host).toList ++ t.serial.map (fun c => t.hostOf c.host) ++
    (t.power.map fun c => t.hostOf c.host).toList ++ (t.video.map fun c => t.hostOf c.host).toList ++
    (t.hid.map fun c => t.hostOf c.host).toList ++ (t.usb.map fun c => t.hostOf c.host).toList ++
    (t.adb.map fun c => t.hostOf c.host).toList ++ (t.actions.map fun c => t.hostOf c.host).toList

/-- The targets that use a host. -/
def hostReferences (lab : Lab) (host : String) : List String :=
  (lab.targets.entries.filter fun e =>
    e.2.defaultHost == host || e.2.channelHosts.any (· == host)).map Prod.fst

def removeHost (lab : Lab) (name : String) : Except LabError Lab :=
  if lab.hosts.contains name then
    let refs := hostReferences lab name
    if refs.isEmpty then .ok { lab with hosts := lab.hosts.erase name }
    else labErr (s!"host '{name}' is still used by: " ++ ", ".intercalate refs)
  else labErr s!"no host '{name}'"

def addTarget (lab : Lab) (name : String) (host description : Option String) :
    Except LabError Lab := do
  validateName "target" name
  require (!lab.targets.contains name) s!"target '{name}' already exists"
  pure { lab with targets := lab.targets.insert name { host := host, description := description } }

def updateTarget (lab : Lab) (name : String) (host description : Option String) :
    Except LabError Lab := do
  validateName "target" name
  targetMut lab name fun t =>
    .ok { t with host := setOpt host t.host, description := setOpt description t.description }

def removeTarget (lab : Lab) (name : String) : Except LabError Lab :=
  if lab.targets.contains name then .ok { lab with targets := lab.targets.erase name }
  else labErr s!"no target '{name}'"

def renameTarget (lab : Lab) (old new : String) : Except LabError Lab := do
  validateName "target" new
  match lab.targets.get? old with
  | none => labErr s!"no target '{old}'"
  | some t => do
      require (!lab.targets.contains new) s!"target '{new}' already exists"
      pure { lab with targets := (lab.targets.erase old).insert new t }

/-! ### Serial interfaces -/

def addSerial (lab : Lab) (target : String) (s : SerialChannel) : Except LabError Lab := do
  let name := s.name
  validateName "serial interface" name
  targetMut lab target fun t =>
    if t.serial.any (fun x => x.name == name) then
      labErr s!"target '{target}': serial '{name}' already exists"
    else .ok { t with serial := t.serial ++ [{ s with port := setPort s.port none }] }

/-- Edit the first element that `p` holds of. -/
def modifyFirst {α : Type} (p : α → Bool) (f : α → α) : List α → List α
  | [] => []
  | x :: l => if p x then f x :: l else x :: modifyFirst p f l

def updateSerial (lab : Lab) (target name : String) (device : Option String) (baud : Option Int)
    (sense : Option String) (powerButton : Option Bool) (host : Option String)
    (port : Option UInt16) : Except LabError Lab := do
  validateName "serial interface" name
  targetMut lab target fun t =>
    if t.serial.any (fun x => x.name == name) then
      .ok { t with
        serial := modifyFirst (fun x => x.name == name) (fun s =>
          { s with
            device := device.getD s.device
            baud := baud.getD s.baud
            powerSenseSignal := setOpt sense s.powerSenseSignal
            powerButton := powerButton.getD s.powerButton
            host := setOpt host s.host
            port := setPort port s.port }) t.serial }
    else labErr s!"target '{target}': no serial '{name}'"

def removeSerial (lab : Lab) (target name : String) : Except LabError Lab :=
  targetMut lab target fun t =>
    if t.serial.any (fun x => x.name == name) then
      .ok { t with serial := t.serial.eraseP fun x => x.name == name }
    else labErr s!"target '{target}': no serial '{name}'"

/-! ### Channels -/

def setNetboot (lab : Lab) (target : String) (given : NetbootChannel) : Except LabError Lab := do
  let lab ← targetMut lab target fun t =>
    let old := t.netboot.getD {}
    .ok { t with
      netboot := some
        { interface := setOpt given.interface old.interface
          hostIp := setOpt given.hostIp old.hostIp
          tftpRoot := setOpt given.tftpRoot old.tftpRoot
          bootFile := setOpt given.bootFile old.bootFile
          httpPort := setOpt given.httpPort old.httpPort
          contentType := setOpt given.contentType old.contentType
          host := setOpt given.host old.host } }
  match netbootSubnetClash lab target with
  | some c => labErr (subnetClashMessage target c)
  | none => pure lab

/-- `remove_singleton`. -/
def removeSingleton (lab : Lab) (target kind : String) (has : Target → Bool)
    (remove : Target → Target) : Except LabError Lab :=
  targetMut lab target fun t =>
    if has t then .ok (remove t) else labErr s!"target '{target}': no {kind} channel"

def removeNetboot (lab : Lab) (target : String) : Except LabError Lab :=
  removeSingleton lab target "netboot" (fun t => t.netboot.isSome) fun t => { t with netboot := none }

/-- The hooks, the interface and the host that are given. -/
def setPower (lab : Lab) (target : String) (given : PowerChannel) : Except LabError Lab :=
  targetMut lab target fun t =>
    let old := t.power.getD {}
    .ok { t with
      power := some
        { old with
          cycleCmd := setOpt given.cycleCmd old.cycleCmd
          onCmd := setOpt given.onCmd old.onCmd
          offCmd := setOpt given.offCmd old.offCmd
          stateCmd := setOpt given.stateCmd old.stateCmd
          serialInterface := setOpt given.serialInterface old.serialInterface
          host := setOpt given.host old.host } }

def removePower (lab : Lab) (target : String) : Except LabError Lab :=
  removeSingleton lab target "power" (fun t => t.power.isSome) fun t => { t with power := none }

def setPowerLevel (lab : Lab) (target level : String) (given : PowerLevel) :
    Except LabError Lab := do
  validateName "power level" level
  require (level != DEFAULT_POWER_LEVEL)
    s!"'{DEFAULT_POWER_LEVEL}' names the hooks set without --level; pick another level name"
  targetMut lab target fun t => do
    let power := t.power.getD {}
    require (power.levels.contains level || given.hooks.any fun k => k.2.isSome)
      (s!"target '{target}': new power level '{level}' needs at least one of " ++
        "--cycle-cmd, --on-cmd, --off-cmd, --state-cmd")
    let old := (power.levels.get? level).getD {}
    pure { t with
      power := some
        { power with
          levels := power.levels.insert level
            { cycleCmd := setOpt given.cycleCmd old.cycleCmd
              onCmd := setOpt given.onCmd old.onCmd
              offCmd := setOpt given.offCmd old.offCmd
              stateCmd := setOpt given.stateCmd old.stateCmd } } }

def removePowerLevel (lab : Lab) (target level : String) : Except LabError Lab :=
  targetMut lab target fun t =>
    match t.power with
    | none => labErr s!"target '{target}': no power channel"
    | some p =>
        if p.levels.contains level then
          .ok { t with power := some { p with levels := p.levels.erase level } }
        else labErr s!"target '{target}': no power level '{level}'"

def setVideo (lab : Lab) (target : String) (given : VideoChannel) : Except LabError Lab :=
  targetMut lab target fun t =>
    let old := t.video.getD {}
    .ok { t with
      video := some
        { device := setOpt given.device old.device
          host := setOpt given.host old.host
          ocrMode := setOpt given.ocrMode old.ocrMode
          changeThreshold := given.changeThreshold.or old.changeThreshold
          port := setPort given.port old.port } }

def removeVideo (lab : Lab) (target : String) : Except LabError Lab :=
  removeSingleton lab target "video" (fun t => t.video.isSome) fun t => { t with video := none }

def setHid (lab : Lab) (target : String) (cmd host : Option String) (port : Option UInt16) :
    Except LabError Lab :=
  targetMut lab target fun t =>
    let old := t.hid.getD {}
    .ok { t with
      hid := some
        { old with
          cmd := setOpt cmd old.cmd
          host := setOpt host old.host
          port := setPort port old.port } }

def removeHid (lab : Lab) (target : String) : Except LabError Lab :=
  removeSingleton lab target "hid" (fun t => t.hid.isSome) fun t => { t with hid := none }

def setUsb (lab : Lab) (target : String) (cmd host : Option String) : Except LabError Lab :=
  targetMut lab target fun t =>
    let old := t.usb.getD {}
    .ok { t with usb := some { old with cmd := setOpt cmd old.cmd, host := setOpt host old.host } }

def removeUsb (lab : Lab) (target : String) : Except LabError Lab :=
  removeSingleton lab target "usb" (fun t => t.usb.isSome) fun t => { t with usb := none }

def setAdb (lab : Lab) (target : String) (serial adb host : Option String) : Except LabError Lab :=
  targetMut lab target fun t =>
    let old := t.adb.getD {}
    .ok { t with
      adb := some ⟨setOpt serial old.serial, setOpt adb old.adb, setOpt host old.host⟩ }

def removeAdb (lab : Lab) (target : String) : Except LabError Lab :=
  removeSingleton lab target "adb" (fun t => t.adb.isSome) fun t => { t with adb := none }

def setAction (lab : Lab) (target name : String) (cmd description requiresPower host : Option String) :
    Except LabError Lab := do
  validateName "action" name
  require (!(name ∈ ACTIONS_TABLE_KEYS))
    s!"'{name}' is a setting of the actions table itself; pick another action name"
  targetMut lab target fun t => do
    let acts := t.actions.getD {}
    require (acts.actions.contains name || cmd.isSome)
      s!"target '{target}': new action '{name}' needs --cmd"
    let old := (acts.actions.get? name).getD ⟨"", none, none⟩
    pure { t with
      actions := some
        { acts with
          host := setOpt host acts.host
          actions := acts.actions.insert name
            { cmd := cmd.getD old.cmd
              description := setOpt description old.description
              requiresPower :=
                if requiresPower = some "none" then none
                else setOpt requiresPower old.requiresPower } } }

/-- The last action takes the table with it. -/
def removeAction (lab : Lab) (target name : String) : Except LabError Lab :=
  targetMut lab target fun t =>
    match t.actions with
    | none => labErr s!"target '{target}': no actions channel"
    | some acts =>
        if acts.actions.contains name then
          let rest := acts.actions.erase name
          .ok { t with actions := if rest.isEmpty then none else some { acts with actions := rest } }
        else labErr s!"target '{target}': no action '{name}'"

/-- The channels whose hooks name a helper program. -/
inductive DoctorKind where
  | power
  | hid
  | usb
  | actions
deriving DecidableEq, Repr

def DoctorKind.asStr : DoctorKind → String
  | power => "power"
  | hid => "hid"
  | usb => "usb"
  | actions => "actions"

def setDoctor (lab : Lab) (target : String) (kind : DoctorKind) (on : Bool) :
    Except LabError Lab :=
  targetMut lab target fun t =>
    let missing := s!"target '{target}': no " ++ kind.asStr ++ " channel"
    match kind with
    | .power =>
        match t.power with
        | none => labErr missing
        | some p => .ok { t with power := some { p with doctor := on } }
    | .hid =>
        match t.hid with
        | none => labErr missing
        | some h => .ok { t with hid := some { h with doctor := on } }
    | .usb =>
        match t.usb with
        | none => labErr missing
        | some u => .ok { t with usb := some { u with doctor := on } }
    | .actions =>
        match t.actions with
        | none => labErr missing
        | some a => .ok { t with actions := some { a with doctor := on } }

/-- `validate`, and the references that a write must not leave dangling. -/
def validateForSave (lab : Lab) : Except LabError Unit := do
  validate lab
  checkAll (fun e : String × Target =>
    let name := e.1
    let si := (e.2.power.bind PowerChannel.serialInterface).getD ""
    let names := if e.2.serial.isEmpty then "none" else ", ".intercalate (e.2.serial.map (·.name))
    require ((e.2.power.bind PowerChannel.serialInterface).all fun si =>
        e.2.serial.any fun s => s.name == si)
      (s!"target '{name}': power.serial_interface '{si}' names no serial interface " ++
        s!"of this target (have: {names}); point it at one with " ++
        s!"`paniolo power set -t {name} --serial-interface <name>`, or remove the " ++
        "power channel first")) lab.targets.entries

end Cli

end Paniolo
