import Paniolo.Cli.LabFile

/-!
# The slice of a lab that a control host is given

A command for a channel on another host is run there again, against a lab with
one target and only the channels of that host, with their `host` fields left
out. `build_slice` writes it with the operations of the editor, field by field;
`sliceTarget` says what it comes to, and `eq_of_buildSlice` that it does.
-/

namespace Paniolo

namespace Cli

/-- Write a channel to the slice if the target has it and it is on the host. -/
def forChannel {α : Type} (channel : Option α) (on : α → Bool)
    (edit : Lab → α → Except LabError Lab) (lf : Lab) : Except LabError Lab :=
  match channel with
  | none => .ok lf
  | some c => if on c then edit lf c else .ok lf

/-- Write a list of things one after another. -/
def forEach {α : Type} (edit : Lab → α → Except LabError Lab) (lf : Lab) :
    List α → Except LabError Lab
  | [] => .ok lf
  | x :: l => do
      let lf ← edit lf x
      forEach edit lf l

/-- Turn the doctor check of a channel on if it was on. -/
def keepDoctor (lf : Lab) (target : String) (kind : DoctorKind) (on : Bool) :
    Except LabError Lab :=
  if on then setDoctor lf target kind true else .ok lf

def slicePower (target : String) (lf : Lab) (p : PowerChannel) : Except LabError Lab := do
  let lf ← setPower lf target { p with host := none }
  let lf ← forEach (fun lf e => setPowerLevel lf target e.1 e.2) lf p.levels.entries
  keepDoctor lf target .power p.doctor

def sliceHid (target : String) (lf : Lab) (h : HidChannel) : Except LabError Lab := do
  let lf ← setHid lf target h.cmd none h.port
  keepDoctor lf target .hid h.doctor

def sliceUsb (target : String) (lf : Lab) (u : UsbChannel) : Except LabError Lab := do
  let lf ← setUsb lf target u.cmd none
  keepDoctor lf target .usb u.doctor

def sliceActions (target : String) (lf : Lab) (acts : ActionsChannel) : Except LabError Lab := do
  let lf ← forEach (fun lf e =>
    setAction lf target e.1 (some e.2.cmd) e.2.description e.2.requiresPower none) lf
      acts.actions.entries
  keepDoctor lf target .actions (acts.doctor && !acts.actions.isEmpty)

/-- The lab with only the channels of `target` that live on `host`. -/
def buildSlice (lab : Lab) (target host : String) : Except LabError Lab :=
  match lab.targets.get? target with
  | none => labErr s!"no target '{target}'"
  | some t => do
      let on := fun h => t.hostOf h == host
      let lf ← addTarget {} target none t.description
      let lf ← forChannel t.netboot (fun nb => on nb.host)
        (fun lf nb => setNetboot lf target { nb with host := none }) lf
      let lf ← forEach (fun lf s => addSerial lf target { s with host := none }) lf
        (t.serial.filter fun s => on s.host)
      let lf ← forChannel t.power (fun p => on p.host) (slicePower target) lf
      let lf ← forChannel t.video (fun v => on v.host)
        (fun lf v => setVideo lf target { v with host := none }) lf
      let lf ← forChannel t.hid (fun h => on h.host) (sliceHid target) lf
      let lf ← forChannel t.adb (fun a => on a.host)
        (fun lf a => setAdb lf target a.serial a.adb none) lf
      let lf ← forChannel t.usb (fun u => on u.host) (sliceUsb target) lf
      forChannel t.actions (fun a => on a.host) (sliceActions target) lf

/-! ### What the slice comes to -/

/-- The target as `host` sees it. -/
def sliceTarget (t : Target) (host : String) : Target where
  host := none
  description := t.description
  netboot := (t.netboot.filter fun nb => t.hostOf nb.host == host).map fun nb =>
    { nb with host := none }
  serial := (t.serial.filter fun s => t.hostOf s.host == host).map fun s =>
    { s with host := none, port := setPort s.port none }
  power := (t.power.filter fun p => t.hostOf p.host == host).map fun p => { p with host := none }
  video := (t.video.filter fun v => t.hostOf v.host == host).map fun v =>
    { v with host := none, port := setPort v.port none }
  hid := (t.hid.filter fun h => t.hostOf h.host == host).map fun h =>
    { h with host := none, port := setPort h.port none }
  usb := (t.usb.filter fun u => t.hostOf u.host == host).map fun u => { u with host := none }
  adb := (t.adb.filter fun a => t.hostOf a.host == host).map fun a => { a with host := none }
  actions := (t.actions.filter fun a => t.hostOf a.host == host && !a.actions.isEmpty).map fun a =>
    { a with host := none }

/-- A lab with one target and no hosts. -/
def single (target : String) (t : Target) : Lab := { targets := OrderedMap.empty.insert target t }

theorem get?_single (target : String) (t : Target) :
    (single target t).targets.get? target = some t :=
  OrderedMap.get?_insert_self _ _ _

theorem insert_single (target : String) (t u : Target) :
    (single target t).targets.insert target u = (single target u).targets := by
  apply OrderedMap.ext
  change OrderedMap.insertEntry target u [(target, t)] = [(target, u)]
  rw [OrderedMap.insertEntry, if_neg (lt_irrefl target), if_pos rfl]

/-- An edit of the one target. -/
theorem targetMut_single (target : String) (t : Target)
    (edit : Target → Except LabError Target) :
    targetMut (single target t) target edit = (edit t).map (single target) := by
  rw [targetMut, get?_single]
  dsimp only
  cases edit t with
  | error e => rfl
  | ok u =>
      change Except.ok { single target t with targets := (single target t).targets.insert target u } = _
      rw [insert_single]
      rfl

/-- What a stage of `build_slice` does when it succeeds. -/
theorem eq_of_targetMut {target : String} {t : Target} {edit : Target → Except LabError Target}
    {s : Lab} (h : targetMut (single target t) target edit = .ok s) :
    ∃ u, edit t = .ok u ∧ s = single target u := by
  rw [targetMut_single] at h
  cases he : edit t with
  | error e =>
      rw [he] at h
      cases h
  | ok u =>
      rw [he] at h
      cases h
      exact ⟨u, rfl, rfl⟩

theorem netbootSubnetClash_single (target : String) (t : Target) :
    netbootSubnetClash (single target t) target = none := by
  have hentries : (single target t).targets.entries = [(target, t)] := rfl
  rw [netbootSubnetClash, get?_single, hentries]
  cases hnb : t.netboot with
  | none =>
      simp only [Option.bind_eq_bind, Option.bind_some, hnb, Option.bind_none]
  | some nb =>
      cases hlink : t.link with
      | none => simp only [Option.bind_eq_bind, Option.bind_some, hnb, hlink, Option.bind_none]
      | some a =>
          simp only [Option.bind_eq_bind, Option.bind_some, hnb, hlink, List.findSome?_cons,
            beq_self_eq_true, if_true, List.findSome?_nil]

variable {target : String} {u : Target} {s : Lab}

theorem setNetboot_single (hu : u.netboot = none) (given : NetbootChannel) :
    setNetboot (single target u) target given =
      .ok (single target { u with netboot := some given }) := by
  rw [setNetboot, targetMut_single, hu]
  simp only [Option.getD_none, setOpt, Option.or_none, Except.map, bind, Except.bind,
    netbootSubnetClash_single]
  rfl

theorem setVideo_single (hu : u.video = none) (given : VideoChannel) :
    setVideo (single target u) target given =
      .ok (single target { u with video := some { given with port := setPort given.port none } }) := by
  rw [setVideo, targetMut_single, hu]
  simp only [Option.getD_none, setOpt, Option.or_none]
  rfl

theorem setAdb_single (hu : u.adb = none) (serial adb : Option String) :
    setAdb (single target u) target serial adb none =
      .ok (single target { u with adb := some ⟨serial, adb, none⟩ }) := by
  rw [setAdb, targetMut_single, hu]
  simp only [Option.getD_none, setOpt, Option.or_none]
  rfl

theorem sliceHid_single (hu : u.hid = none) (h : HidChannel) :
    sliceHid target (single target u) h =
      .ok (single target
        { u with hid := some { h with host := none, port := setPort h.port none } }) := by
  rw [sliceHid, setHid, targetMut_single, hu]
  simp only [Option.getD_none, setOpt, Option.or_none]
  change keepDoctor (single target _) target .hid h.doctor = _
  cases hd : h.doctor with
  | false => rfl
  | true =>
      rw [keepDoctor, if_pos rfl, setDoctor, targetMut_single]
      rfl

theorem sliceUsb_single (hu : u.usb = none) (c : UsbChannel) :
    sliceUsb target (single target u) c =
      .ok (single target { u with usb := some { c with host := none } }) := by
  rw [sliceUsb, setUsb, targetMut_single, hu]
  simp only [Option.getD_none, setOpt, Option.or_none]
  change keepDoctor (single target _) target .usb c.doctor = _
  cases hd : c.doctor with
  | false => rfl
  | true =>
      rw [keepDoctor, if_pos rfl, setDoctor, targetMut_single]
      rfl

/-- The name is valid in the operations that check it. -/
theorem validateName_eq_ok {what name : String} (h : validateName what name = .ok ()) :
    isValidName name = true := by
  rw [validateName] at h
  split at h
  · assumption
  · cases h

theorem eq_of_addSerial {c : SerialChannel} (h : addSerial (single target u) target c = .ok s) :
    s = single target { u with serial := u.serial ++ [{ c with port := setPort c.port none }] } := by
  rw [addSerial, bind_eq_ok] at h
  obtain ⟨-, -, h⟩ := h
  obtain ⟨v, hv, rfl⟩ := eq_of_targetMut h
  split at hv
  · cases hv
  · cases hv
    rfl

/-- The interfaces are added in their order. -/
theorem eq_of_forEach_addSerial {l : List SerialChannel}
    (h : forEach (fun lf s => addSerial lf target { s with host := none }) (single target u) l =
      .ok s) :
    s = single target { u with serial := u.serial ++ l.map fun s =>
      { s with host := none, port := setPort s.port none } } := by
  induction l generalizing u with
  | nil =>
      cases h
      rw [List.map_nil, List.append_nil]
  | cons c l ih =>
      rw [forEach, bind_eq_ok] at h
      obtain ⟨m, hm, h⟩ := h
      rw [eq_of_addSerial hm] at h
      rw [ih h, List.map_cons, List.append_assoc]
      rfl

theorem eq_of_setPowerLevel {p : PowerChannel} (hu : u.power = some p) {level : String}
    {given : PowerLevel} (hnew : p.levels.get? level = none)
    (h : setPowerLevel (single target u) target level given = .ok s) :
    s = single target { u with
      power := some { p with levels := p.levels.insert level given } } := by
  rw [setPowerLevel, bind_eq_ok] at h
  obtain ⟨-, -, h⟩ := h
  rw [bind_eq_ok] at h
  obtain ⟨-, -, h⟩ := h
  obtain ⟨v, hv, rfl⟩ := eq_of_targetMut h
  rw [hu] at hv
  dsimp only [Option.getD_some] at hv
  rw [bind_eq_ok] at hv
  obtain ⟨-, -, hv⟩ := hv
  rw [hnew] at hv
  simp only [Option.getD_none, setOpt, Option.or_none] at hv
  cases hv
  rfl

/-- The levels are added in their order. -/
theorem eq_of_forEach_setPowerLevel {p : PowerChannel} (hu : u.power = some p)
    {l : List (String × PowerLevel)}
    (hsorted : ((p.levels.entries ++ l).map Prod.fst).Pairwise (· < ·))
    (h : forEach (fun lf e => setPowerLevel lf target e.1 e.2) (single target u) l = .ok s) :
    ∃ levels : OrderedMap String PowerLevel, levels.entries = p.levels.entries ++ l ∧
      s = single target { u with power := some { p with levels := levels } } := by
  induction l generalizing u p with
  | nil =>
      cases h
      refine ⟨p.levels, (List.append_nil _).symm, ?_⟩
      rw [← hu]
  | cons e l ih =>
      rw [forEach, bind_eq_ok] at h
      obtain ⟨m, hm, h⟩ := h
      have hlt := OrderedMap.lt_of_mem_keys hsorted
      have hnew : p.levels.get? e.1 = none :=
        OrderedMap.get?_eq_none_of_notMem fun hmem => lt_irrefl _ (hlt e.1 hmem)
      have hentries := OrderedMap.entries_insert_of_lt (v := e.2) hlt
      rw [eq_of_setPowerLevel hu hnew hm] at h
      obtain ⟨levels, hlevels, rfl⟩ := ih rfl (by
        rw [hentries, List.append_assoc]
        exact hsorted) h
      refine ⟨levels, ?_, rfl⟩
      rw [hlevels, hentries, List.append_assoc]
      rfl

theorem eq_of_slicePower {p : PowerChannel} (hu : u.power = none)
    (h : slicePower target (single target u) p = .ok s) :
    s = single target { u with power := some { p with host := none } } := by
  rw [slicePower, bind_eq_ok] at h
  obtain ⟨m, hm, h⟩ := h
  rw [setPower, targetMut_single, hu] at hm
  simp only [Option.getD_none, setOpt, Option.or_none] at hm
  cases hm
  rw [bind_eq_ok] at h
  obtain ⟨m, hm, h⟩ := h
  obtain ⟨levels, hlevels, rfl⟩ := eq_of_forEach_setPowerLevel rfl
    (by exact p.levels.sorted) hm
  obtain rfl : levels = p.levels := OrderedMap.ext hlevels
  cases hd : p.doctor with
  | false =>
      rw [hd] at h
      cases h
      rw [← hd]
  | true =>
      rw [hd, keepDoctor, if_pos rfl, setDoctor, targetMut_single] at h
      cases h
      rw [← hd]

theorem eq_of_setAction {acts : ActionsChannel} (hu : u.actions.getD {} = acts) {name : String}
    {a : LabAction} (hnew : acts.actions.get? name = none) (hrp : a.requiresPower ≠ some "none")
    (h : setAction (single target u) target name (some a.cmd) a.description a.requiresPower none =
      .ok s) :
    s = single target { u with
      actions := some { acts with actions := acts.actions.insert name a } } := by
  rw [setAction, bind_eq_ok] at h
  obtain ⟨-, -, h⟩ := h
  rw [bind_eq_ok] at h
  obtain ⟨-, -, h⟩ := h
  obtain ⟨v, hv, rfl⟩ := eq_of_targetMut h
  rw [hu] at hv
  dsimp only at hv
  rw [bind_eq_ok] at hv
  obtain ⟨-, -, hv⟩ := hv
  rw [hnew] at hv
  simp only [Option.getD_none, Option.getD_some, setOpt, Option.or_none, Option.none_or,
    if_neg hrp] at hv
  cases hv
  rfl

/-- The actions are added in their order. -/
theorem eq_of_forEach_setAction {acts : ActionsChannel} (hu : u.actions = some acts)
    {l : List (String × LabAction)} (hrp : ∀ e ∈ l, e.2.requiresPower ≠ some "none")
    (hsorted : ((acts.actions.entries ++ l).map Prod.fst).Pairwise (· < ·))
    (h : forEach (fun lf e =>
      setAction lf target e.1 (some e.2.cmd) e.2.description e.2.requiresPower none)
        (single target u) l = .ok s) :
    ∃ actions : OrderedMap String LabAction, actions.entries = acts.actions.entries ++ l ∧
      s = single target { u with actions := some { acts with actions := actions } } := by
  induction l generalizing u acts with
  | nil =>
      cases h
      refine ⟨acts.actions, (List.append_nil _).symm, ?_⟩
      rw [← hu]
  | cons e l ih =>
      rw [forEach, bind_eq_ok] at h
      obtain ⟨m, hm, h⟩ := h
      have hlt := OrderedMap.lt_of_mem_keys hsorted
      have hnew : acts.actions.get? e.1 = none :=
        OrderedMap.get?_eq_none_of_notMem fun hmem => lt_irrefl _ (hlt e.1 hmem)
      have hentries := OrderedMap.entries_insert_of_lt (v := e.2) hlt
      rw [eq_of_setAction (by rw [hu]; rfl) hnew (hrp e List.mem_cons_self) hm] at h
      obtain ⟨actions, hactions, rfl⟩ := ih rfl
        (fun x hx => hrp x (List.mem_cons_of_mem _ hx)) (by
          rw [hentries, List.append_assoc]
          exact hsorted) h
      refine ⟨actions, ?_, rfl⟩
      rw [hactions, hentries, List.append_assoc]
      rfl

/-- A table without actions is dropped. -/
theorem eq_of_sliceActions {acts : ActionsChannel} (hu : u.actions = none)
    (hrp : ∀ e ∈ acts.actions.entries, e.2.requiresPower ≠ some "none")
    (h : sliceActions target (single target u) acts = .ok s) :
    s = single target { u with
      actions := if acts.actions.isEmpty then none else some { acts with host := none } } := by
  rw [sliceActions, bind_eq_ok] at h
  obtain ⟨m, hm, h⟩ := h
  cases hl : acts.actions.entries with
  | nil =>
      have hempty : acts.actions.isEmpty = true := by rw [OrderedMap.isEmpty, hl]; rfl
      rw [hl] at hm
      cases hm
      rw [hempty, Bool.not_true, Bool.and_false] at h
      cases h
      rw [hempty, if_pos rfl, ← hu]
  | cons e l =>
      have hempty : acts.actions.isEmpty = false := by rw [OrderedMap.isEmpty, hl]; rfl
      rw [hl] at hm hrp
      rw [forEach, bind_eq_ok] at hm
      obtain ⟨m₁, hm₁, hm⟩ := hm
      have hnone : u.actions.getD {} = {} := by
        rw [hu]
        rfl
      rw [eq_of_setAction hnone rfl (hrp e List.mem_cons_self) hm₁] at hm
      have hsorted : ((e :: l).map Prod.fst).Pairwise (· < ·) := by
        rw [← hl]
        exact acts.actions.sorted
      obtain ⟨actions, hactions, rfl⟩ := eq_of_forEach_setAction rfl
        (fun x hx => hrp x (List.mem_cons_of_mem _ hx)) (by exact hsorted) hm
      obtain rfl : actions = acts.actions := OrderedMap.ext (hactions.trans hl.symm)
      rw [hempty, Bool.not_false, Bool.and_true] at h
      rw [hempty, if_neg Bool.false_ne_true]
      cases hd : acts.doctor with
      | false =>
          rw [hd] at h
          cases h
          rw [← hd]
      | true =>
          rw [hd, keepDoctor, if_pos rfl, setDoctor, targetMut_single] at h
          cases h
          rw [← hd]

/-- A channel that the slice does not have yet is put in if it is on the host. -/
theorem eq_of_forChannel {α β : Type} {channel : Option α} {on : α → Bool}
    {edit : Lab → α → Except LabError Lab} (put : Option β → Target) (result : α → Option β)
    (hput : put none = u)
    (hedit : ∀ c, channel = some c → edit (single target u) c = .ok s →
      s = single target (put (result c)))
    (h : forChannel channel on edit (single target u) = .ok s) :
    s = single target (put ((channel.filter on).bind result)) := by
  cases channel with
  | none =>
      cases h
      exact congrArg (single target) hput.symm
  | some c =>
      rw [forChannel] at h
      split at h
      · rename_i hon
        rw [Option.filter_some, if_pos hon]
        exact hedit c rfl h
      · rename_i hon
        cases h
        rw [Option.filter_some, if_neg hon]
        exact congrArg (single target) hput.symm

theorem eq_of_addTarget {description : Option String}
    (h : addTarget {} target none description = .ok s) :
    s = single target { description := description } := by
  rw [addTarget, bind_eq_ok] at h
  obtain ⟨-, -, h⟩ := h
  rw [bind_eq_ok] at h
  obtain ⟨-, -, h⟩ := h
  cases h
  rfl

/-- What `build_slice` writes is the target as the host sees it. -/
theorem eq_of_buildSlice {lab : Lab} {host : String} {t : Target}
    (ht : lab.targets.get? target = some t)
    (hrp : ∀ acts, t.actions = some acts →
      ∀ e ∈ acts.actions.entries, e.2.requiresPower ≠ some "none")
    (h : buildSlice lab target host = .ok s) : s = single target (sliceTarget t host) := by
  rw [buildSlice, ht] at h
  dsimp only at h
  rw [bind_eq_ok] at h
  obtain ⟨s₀, h₀, h⟩ := h
  obtain rfl := eq_of_addTarget h₀
  rw [bind_eq_ok] at h
  obtain ⟨s₁, h₁, h⟩ := h
  obtain rfl := eq_of_forChannel (fun x => { description := t.description, netboot := x })
    (fun nb => some { nb with host := none }) rfl
    (fun nb _ hnb => by
      rw [setNetboot_single rfl] at hnb
      exact (Except.ok.inj hnb).symm) h₁
  rw [bind_eq_ok] at h
  obtain ⟨s₂, h₂, h⟩ := h
  obtain rfl := eq_of_forEach_addSerial h₂
  rw [bind_eq_ok] at h
  obtain ⟨s₃, h₃, h⟩ := h
  obtain rfl := eq_of_forChannel (fun x => { power := x, description := _, netboot := _, serial := _ })
    (fun p => some { p with host := none }) rfl (fun p _ hp => eq_of_slicePower rfl hp) h₃
  rw [bind_eq_ok] at h
  obtain ⟨s₄, h₄, h⟩ := h
  obtain rfl := eq_of_forChannel
    (fun x => { video := x, description := _, netboot := _, serial := _, power := _ })
    (fun v => some { v with host := none, port := setPort v.port none }) rfl
    (fun v _ hv => by
      rw [setVideo_single rfl] at hv
      exact (Except.ok.inj hv).symm) h₄
  rw [bind_eq_ok] at h
  obtain ⟨s₅, h₅, h⟩ := h
  obtain rfl := eq_of_forChannel
    (fun x => { hid := x, description := _, netboot := _, serial := _, power := _, video := _ })
    (fun c => some { c with host := none, port := setPort c.port none }) rfl
    (fun c _ hc => by
      rw [sliceHid_single rfl] at hc
      exact (Except.ok.inj hc).symm) h₅
  rw [bind_eq_ok] at h
  obtain ⟨s₆, h₆, h⟩ := h
  obtain rfl := eq_of_forChannel
    (fun x => { adb := x, description := _, netboot := _, serial := _, power := _, video := _
                hid := _ })
    (fun c => some { c with host := none }) rfl
    (fun c _ hc => by
      rw [setAdb_single rfl] at hc
      exact (Except.ok.inj hc).symm) h₆
  rw [bind_eq_ok] at h
  obtain ⟨s₇, h₇, h⟩ := h
  obtain rfl := eq_of_forChannel
    (fun x => { usb := x, description := _, netboot := _, serial := _, power := _, video := _
                hid := _, adb := _ })
    (fun c => some { c with host := none }) rfl
    (fun c _ hc => by
      rw [sliceUsb_single rfl] at hc
      exact (Except.ok.inj hc).symm) h₇
  obtain rfl := eq_of_forChannel
    (fun x => { actions := x, description := _, netboot := _, serial := _, power := _, video := _
                hid := _, adb := _, usb := _ })
    (fun c => if c.actions.isEmpty then none else some { c with host := none }) rfl
    (fun c hc he => eq_of_sliceActions rfl (hrp c hc) he) h
  have hmap : ∀ {α β : Type} (o : Option α) (f : α → β), (o.bind fun x => some (f x)) = o.map f := by
    intro α β o f
    exact Option.map_eq_bind.symm
  have hactions : ((t.actions.filter fun a => t.hostOf a.host == host).bind fun c =>
      if c.actions.isEmpty then none else some { c with host := none }) =
      (sliceTarget t host).actions := by
    rw [sliceTarget]
    dsimp only
    cases t.actions with
    | none => rfl
    | some c =>
        rw [Option.filter_some, Option.filter_some]
        cases t.hostOf c.host == host <;> cases hc : c.actions.isEmpty <;> simp [hc]
  rw [hactions]
  simp only [hmap, sliceTarget, List.nil_append]

end Cli

end Paniolo
