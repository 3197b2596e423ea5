import Paniolo.Cli.Dispatch

/-!
# The resolved view of a target

A target flattened to its channels, each with the host it is on, and the host
that a command for one of them runs on. What a host sees in its slice are the
channels that the full lab places on it, as its own.
-/

namespace Paniolo

namespace Cli

inductive ChannelKind where
  | netboot
  | serial
  | power
  | video
  | hid
  | usb
  | adb
  | actions
deriving DecidableEq, Repr

/-- A channel with its host; the fields are shown as texts. -/
structure ResolvedChannel where
  kind : ChannelKind
  name : String
  host : String
  fields : List (String × String)
deriving DecidableEq, Repr

structure ResolvedTarget where
  name : String
  defaultHost : String
  description : Option String
  channels : List ResolvedChannel
deriving DecidableEq, Repr

/-- A field that is set. -/
def pushOpt (key : String) (v : Option String) : List (String × String) :=
  (v.map fun val => (key, val)).toList

/-- `doctor` when it is on. -/
def pushDoctor (on : Bool) : List (String × String) := if on then [("doctor", "true")] else []

def pushPort (port : Option UInt16) : List (String × String) :=
  pushOpt "port" (port.map fun n => toString n.toNat)

/-! ### The channels, each on a host -/

def NetbootChannel.resolve (nb : NetbootChannel) (host : String) : ResolvedChannel where
  kind := .netboot
  name := "netboot"
  host := host
  fields := pushOpt "interface" nb.interface ++
    [("host_ip", nb.hostIp.getD (DEFAULT_HOST_IP ++ " (default)"))] ++
    pushOpt "tftp_root" nb.tftpRoot ++ pushOpt "boot_file" nb.bootFile ++
    pushOpt "http_port" nb.httpPort ++ pushOpt "content_type" nb.contentType

def SerialChannel.resolve (s : SerialChannel) (host : String) : ResolvedChannel where
  kind := .serial
  name := s.name
  host := host
  fields := [("device", s.device), ("baud", toString s.baud)] ++
    pushOpt "power_sense_signal" s.powerSenseSignal ++
    (if s.powerButton then [("power_button", "true")] else []) ++ pushPort s.port

def PowerChannel.resolve (p : PowerChannel) (host : String) : ResolvedChannel where
  kind := .power
  name := "power"
  host := host
  fields := pushOpt "cycle_cmd" p.cycleCmd ++ pushOpt "on_cmd" p.onCmd ++
    pushOpt "off_cmd" p.offCmd ++ pushOpt "state_cmd" p.stateCmd ++
    pushOpt "serial_interface" p.serialInterface ++
    (if p.levels.isEmpty then [] else [("levels", ", ".intercalate p.levels.keys)]) ++
    pushDoctor p.doctor

def VideoChannel.resolve (v : VideoChannel) (host : String) : ResolvedChannel where
  kind := .video
  name := "video"
  host := host
  fields := pushOpt "device" v.device ++ pushOpt "ocr_mode" v.ocrMode ++
    pushOpt "change_threshold" (v.changeThreshold.map fun n => toString n.toNat) ++
    pushPort v.port

def HidChannel.resolve (h : HidChannel) (host : String) : ResolvedChannel where
  kind := .hid
  name := "hid"
  host := host
  fields := pushOpt "cmd" h.cmd ++ pushPort h.port ++ pushDoctor h.doctor

def UsbChannel.resolve (u : UsbChannel) (host : String) : ResolvedChannel where
  kind := .usb
  name := "usb"
  host := host
  fields := pushOpt "cmd" u.cmd ++ pushDoctor u.doctor

def AdbChannel.resolve (a : AdbChannel) (host : String) : ResolvedChannel where
  kind := .adb
  name := "adb"
  host := host
  fields := pushOpt "serial" a.serial ++ pushOpt "adb" a.adb

def ActionsChannel.resolve (acts : ActionsChannel) (host : String) : ResolvedChannel where
  kind := .actions
  name := "actions"
  host := host
  fields := [("names", ", ".intercalate acts.actions.keys)] ++ pushDoctor acts.doctor

/-- The channels of a target in the order of the lab file. -/
def Target.channels (t : Target) : List ResolvedChannel :=
  (t.netboot.map fun nb => nb.resolve (t.hostOf nb.host)).toList ++
    (t.serial.map fun s => s.resolve (t.hostOf s.host)) ++
    (t.power.map fun p => p.resolve (t.hostOf p.host)).toList ++
    (t.video.map fun v => v.resolve (t.hostOf v.host)).toList ++
    (t.hid.map fun h => h.resolve (t.hostOf h.host)).toList ++
    (t.usb.map fun u => u.resolve (t.hostOf u.host)).toList ++
    (t.adb.map fun a => a.resolve (t.hostOf a.host)).toList ++
    (t.actions.map fun a => a.resolve (t.hostOf a.host)).toList

def Target.resolve (t : Target) (name : String) : ResolvedTarget where
  name := name
  defaultHost := t.defaultHost
  description := t.description
  channels := t.channels

def Lab.resolvedTarget (lab : Lab) (name : String) : Option ResolvedTarget :=
  (lab.targets.get? name).map fun t => t.resolve name

/-! ### The host of a command -/

/-- The kinds of failure that a command for a channel meets before it runs. -/
inductive ErrorKind where
  | usage
  | notConfigured
deriving DecidableEq, Repr

structure PanioloError where
  kind : ErrorKind
  message : String
  target : String
  channel : String
deriving DecidableEq, Repr

/-- A named interface that the target does not have. -/
def noSerialInterface (rt : ResolvedTarget) (n : String) (serials : List ResolvedChannel) :
    PanioloError :=
  let target := rt.name
  let known := if serials.isEmpty then "none" else ", ".intercalate (serials.map (·.name))
  ⟨.notConfigured, s!"target '{target}' has no serial interface '{n}' (have: {known})", target,
    "serial"⟩

/-- Interfaces on several hosts, and none named. -/
def severalHosts (rt : ResolvedTarget) (hosts : List String) : PanioloError :=
  let target := rt.name
  let list := ", ".intercalate hosts
  ⟨.usage, s!"target '{target}' has serial interfaces on multiple hosts ({list}); " ++
    "specify one with --interface", target, "serial"⟩

/-- The different hosts of some channels, in order. -/
def hostSet (channels : List ResolvedChannel) : List String :=
  (channels.map (·.host)).foldr (fun h l => if h ∈ l then l else l.orderedInsert (· ≤ ·) h) []

def channelHost (rt : ResolvedTarget) (kind : ChannelKind) (serialName : Option String) :
    Except PanioloError String :=
  if kind = .serial then
    let serials := rt.channels.filter fun c => c.kind == .serial
    match serialName with
    | some n => okOr ((serials.find? fun c => c.name == n).map (·.host))
        (noSerialInterface rt n serials)
    | none =>
        match serials with
        | [] => .ok rt.defaultHost
        | s :: _ =>
            if 1 < (hostSet serials).length then .error (severalHosts rt (hostSet serials))
            else .ok s.host
  else
    match rt.channels.find? fun c => c.kind == kind with
    | some c => .ok c.host
    | none => .ok rt.defaultHost

/-! ### The channels of a slice -/

/-- A port of 0 is unset, and a table without actions is none. -/
def Target.normal (t : Target) : Target :=
  { t with
    serial := t.serial.map fun s => { s with port := setPort s.port none }
    video := t.video.map fun v => { v with port := setPort v.port none }
    hid := t.hid.map fun h => { h with port := setPort h.port none }
    actions := t.actions.filter fun a => !a.actions.isEmpty }

/-- The channel as one of this machine. -/
def ResolvedChannel.atLocal (c : ResolvedChannel) : ResolvedChannel := { c with host := LOCAL }

section

variable {α : Type}

/-- A channel that a target may have, kept if it is on the host. -/
theorem toList_filter_map {o o' : Option α} {host : String} {keep : α → Bool} {strip : α → α}
    (resolve resolve' : α → ResolvedChannel) (ho : o' = (o.filter keep).map strip)
    (hkeep : ∀ c, keep c = ((resolve c).host == host))
    (hstrip : ∀ c, resolve' (strip c) = (resolve c).atLocal) :
    (o'.map resolve').toList =
      ((o.map resolve).toList.filter fun c => c.host == host).map ResolvedChannel.atLocal := by
  rw [ho]
  cases o with
  | none => rfl
  | some c =>
      rw [Option.filter_some, Option.map_some, Option.toList_some, hkeep c]
      cases hc : (resolve c).host == host with
      | false => simp [hc]
      | true => simp [hc, hstrip]

/-- Changing what the check does not read, before the check or after it. -/
theorem map_filter_map (keep : α → Bool) (f g : α → α) (hkeep : ∀ c, keep (f c) = keep c)
    (o : Option α) :
    (o.filter keep).map (fun c => g (f c)) = ((o.map f).filter keep).map g := by
  cases o with
  | none => rfl
  | some c =>
      rw [Option.map_some, Option.filter_some, Option.filter_some, hkeep c]
      cases keep c with
      | false => rfl
      | true => rfl

/-- The channels of the slice are those that the full lab places on the host, as local ones. -/
theorem channels_sliceTarget (t : Target) (host : String) :
    (sliceTarget t host).channels =
      (t.normal.channels.filter fun c => c.host == host).map ResolvedChannel.atLocal := by
  have hserial : (sliceTarget t host).serial.map
      (fun s => s.resolve ((sliceTarget t host).hostOf s.host)) =
      ((t.normal.serial.map fun s => s.resolve (t.normal.hostOf s.host)).filter
        fun c => c.host == host).map ResolvedChannel.atLocal := by
    rw [sliceTarget, Target.normal]
    dsimp only
    rw [List.map_map, List.map_map, List.filter_map, List.map_map]
    rfl
  have hvideo : (sliceTarget t host).video = (t.normal.video.filter
      fun v => t.hostOf v.host == host).map fun v => { v with host := none } :=
    map_filter_map (fun v : VideoChannel => t.hostOf v.host == host)
      (fun v : VideoChannel => { v with port := setPort v.port none })
      (fun v : VideoChannel => { v with host := none }) (fun _ => rfl) t.video
  have hhid : (sliceTarget t host).hid = (t.normal.hid.filter
      fun h => t.hostOf h.host == host).map fun h => { h with host := none } :=
    map_filter_map (fun h : HidChannel => t.hostOf h.host == host)
      (fun h : HidChannel => { h with port := setPort h.port none })
      (fun h : HidChannel => { h with host := none }) (fun _ => rfl) t.hid
  have hactions : (sliceTarget t host).actions = (t.normal.actions.filter
      fun a => t.hostOf a.host == host).map fun a => { a with host := none } := by
    rw [sliceTarget, Target.normal]
    dsimp only
    rw [Option.filter_filter]
    simp only [Bool.and_comm]
  rw [Target.channels, Target.channels]
  simp only [List.filter_append, List.map_append]
  refine congrArg₂ (· ++ ·) (congrArg₂ (· ++ ·) (congrArg₂ (· ++ ·) (congrArg₂ (· ++ ·)
    (congrArg₂ (· ++ ·) (congrArg₂ (· ++ ·) (congrArg₂ (· ++ ·) ?_ hserial) ?_) ?_) ?_) ?_) ?_) ?_
  · exact toList_filter_map _ _ rfl (fun _ => rfl) fun _ => rfl
  · exact toList_filter_map _ _ rfl (fun _ => rfl) fun _ => rfl
  · exact toList_filter_map _ _ hvideo (fun _ => rfl) fun _ => rfl
  · exact toList_filter_map _ _ hhid (fun _ => rfl) fun _ => rfl
  · exact toList_filter_map _ _ rfl (fun _ => rfl) fun _ => rfl
  · exact toList_filter_map _ _ rfl (fun _ => rfl) fun _ => rfl
  · exact toList_filter_map _ _ hactions (fun _ => rfl) fun _ => rfl

end

theorem mem_channels_serial {t : Target} {s : SerialChannel} (h : s ∈ t.serial) :
    s.resolve (t.hostOf s.host) ∈ t.channels := by
  have hmem : s.resolve (t.hostOf s.host) ∈ t.serial.map fun s => s.resolve (t.hostOf s.host) :=
    List.mem_map_of_mem h
  simp only [Target.channels, List.mem_append]
  exact .inl (.inl (.inl (.inl (.inl (.inl (.inr hmem))))))

/-- The serial channels are the interfaces. -/
theorem serial_of_mem_channels {t : Target} {c : ResolvedChannel} (h : c ∈ t.channels)
    (hkind : c.kind = .serial) : ∃ s ∈ t.serial, s.resolve (t.hostOf s.host) = c := by
  have hother : ∀ {α : Type} (o : Option α) (resolve : α → ResolvedChannel),
      (∀ x, (resolve x).kind ≠ .serial) → c ∉ (o.map resolve).toList := by
    intro α o resolve hne hmem
    rw [Option.mem_toList, Option.map_eq_some_iff] at hmem
    obtain ⟨x, -, rfl⟩ := hmem
    exact hne x hkind
  simp only [Target.channels, List.mem_append] at h
  rcases h with ((((((h | h) | h) | h) | h) | h) | h) | h
  · exact absurd h (hother _ _ fun _ h => by cases h)
  · exact List.mem_map.mp h
  all_goals exact absurd h (hother _ _ fun _ h => by cases h)

/-! ### The host of a command on the other side -/

theorem hostSet_of_local {l : List ResolvedChannel} (h : ∀ c ∈ l, c.host = LOCAL) :
    (hostSet l).length ≤ 1 := by
  have hset : hostSet l = [] ∨ hostSet l = [LOCAL] := by
    induction l with
    | nil => exact .inl rfl
    | cons c l ih =>
        right
        have htail := ih fun x hx => h x (List.mem_cons_of_mem c hx)
        have hc := h c List.mem_cons_self
        have hcons : hostSet (c :: l) =
            if c.host ∈ hostSet l then hostSet l
            else (hostSet l).orderedInsert (· ≤ ·) c.host := rfl
        rw [hcons, hc]
        rcases htail with htail | htail
        · rw [htail, if_neg List.not_mem_nil]
          rfl
        · rw [htail, if_pos List.mem_cons_self]
  rcases hset with hset | hset
  · rw [hset]
    exact Nat.zero_le 1
  · rw [hset]
    exact Nat.le_refl 1

/-- Where everything is local, a command is local, unless it names an interface that is not
there. -/
theorem channelHost_of_local {rt : ResolvedTarget} (hdefault : rt.defaultHost = LOCAL)
    (hall : ∀ c ∈ rt.channels, c.host = LOCAL) (kind : ChannelKind) (serialName : Option String)
    (hnamed : kind = .serial → ∀ n ∈ serialName, ∃ c ∈ rt.channels, c.kind = .serial ∧ c.name = n) :
    channelHost rt kind serialName = .ok LOCAL := by
  rw [channelHost]
  split
  · next hkind =>
      dsimp only
      cases serialName with
      | some n =>
          dsimp only
          rw [okOr_eq_ok]
          obtain ⟨c, hc, hck, hcn⟩ := hnamed hkind n rfl
          cases hfind : (rt.channels.filter fun c => c.kind == .serial).find? fun c => c.name == n with
          | none =>
              have hmem : c ∈ rt.channels.filter fun c => c.kind == .serial :=
                List.mem_filter.mpr ⟨hc, beq_iff_eq.mpr hck⟩
              exact absurd (beq_iff_eq.mpr hcn) (List.find?_eq_none.mp hfind c hmem)
          | some d =>
              have hd := List.mem_of_find?_eq_some hfind
              rw [Option.map_some, hall d (List.mem_filter.mp hd).1]
      | none =>
          have hserials : ∀ c ∈ rt.channels.filter fun c => c.kind == .serial, c.host = LOCAL :=
            fun c hc => hall c (List.mem_filter.mp hc).1
          cases hs : rt.channels.filter fun c => c.kind == .serial with
          | nil => exact congrArg Except.ok hdefault
          | cons s l =>
              rw [hs] at hserials
              dsimp only
              rw [if_neg (Nat.not_lt.mpr (hostSet_of_local hserials)),
                hserials s List.mem_cons_self]
  · cases hfind : rt.channels.find? fun c => c.kind == kind with
    | none => exact congrArg Except.ok hdefault
    | some c =>
        dsimp only
        rw [hall c (List.mem_of_find?_eq_some hfind)]

/-- What is on `host` in the full lab is local in the slice. -/
theorem channelHost_slice {t : Target} {host name : String} {kind : ChannelKind}
    {serialName : Option String} (h : channelHost (t.resolve name) kind serialName = .ok host) :
    channelHost ((sliceTarget t host).resolve name) kind serialName = .ok LOCAL := by
  refine channelHost_of_local rfl (fun c hc => ?_) kind serialName fun hkind n hn => ?_
  · have hmem : c ∈ (sliceTarget t host).channels := hc
    rw [channels_sliceTarget] at hmem
    obtain ⟨d, -, rfl⟩ := List.mem_map.mp hmem
    rfl
  · cases hn
    rw [channelHost, if_pos hkind] at h
    rw [okOr_eq_ok, Option.map_eq_some_iff] at h
    obtain ⟨c, hfind, hhost⟩ := h
    have hc := List.mem_filter.mp (List.mem_of_find?_eq_some hfind)
    have hname : (c.name == n) = true := by
      have hfound := List.find?_some hfind
      exact hfound
    obtain ⟨s, hs, rfl⟩ := serial_of_mem_channels hc.1 (eq_of_beq hc.2)
    have hslice : ({ s with host := none, port := setPort s.port none } : SerialChannel) ∈
        (sliceTarget t host).serial :=
      List.mem_map.mpr ⟨s, List.mem_filter.mpr ⟨hs, beq_iff_eq.mpr hhost⟩, rfl⟩
    exact ⟨_, mem_channels_serial hslice, rfl, eq_of_beq hname⟩

end Cli

end Paniolo
