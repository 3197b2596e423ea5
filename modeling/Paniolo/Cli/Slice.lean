import Paniolo.Cli.FixedPorts
import Paniolo.Cli.Resolved

/-!
# The slice is the target as the host sees it

When `build_slice` succeeds, and when the lab that it writes is accepted. The
names that the editor checks are those of the full lab; of the rules for a lab
only one asks for more than the full lab gives: the claim of the serial port is
made for the host of the first interface with a port, and in the slice this may
be an interface of another claim's host.
-/

namespace Paniolo

namespace Cli

/-! ### The operations succeed -/

/-- The names that the editor checks. -/
structure Target.NamesValid (t : Target) : Prop where
  serial : ∀ s ∈ t.serial, isValidName s.name = true
  levels : ∀ p, t.power = some p → ∀ e ∈ p.levels.entries, isValidName e.1 = true
  actions : ∀ acts, t.actions = some acts → ∀ e ∈ acts.actions.entries, isValidName e.1 = true

def NamesValid (lab : Lab) : Prop :=
  ∀ e ∈ lab.targets.entries, isValidName e.1 = true ∧ e.2.NamesValid

theorem validateName_of {what name : String} (h : isValidName name = true) :
    validateName what name = .ok () := if_pos h

section

variable (target : String) {u : Target}

theorem addTarget_empty (h : isValidName target = true) (description : Option String) :
    addTarget {} target none description = .ok (single target { description := description }) := by
  rw [addTarget, validateName_of h]
  rfl

theorem addSerial_single {s : SerialChannel} (hname : isValidName s.name = true)
    (hnew : s.name ∉ u.serial.map (·.name)) :
    ∃ lab, addSerial (single target u) target s = .ok lab := by
  have hany : (u.serial.any fun x => x.name == s.name) = false := by
    refine List.any_eq_false.mpr fun x hx heq => hnew ?_
    rw [← eq_of_beq heq]
    exact List.mem_map_of_mem hx
  rw [addSerial, validateName_of hname, ok_bind, targetMut_single, hany]
  exact ⟨_, rfl⟩

theorem forEach_addSerial {l : List SerialChannel} (hnames : ∀ s ∈ l, isValidName s.name = true)
    (hnodup : (u.serial.map (·.name) ++ l.map (·.name)).Nodup) :
    ∃ lab, forEach (fun lf s => addSerial lf target { s with host := none }) (single target u) l =
      .ok lab := by
  induction l generalizing u with
  | nil => exact ⟨_, rfl⟩
  | cons s l ih =>
      have hnew : s.name ∉ u.serial.map (·.name) := fun hmem =>
        (List.nodup_append.mp hnodup).2.2 _ hmem _ (List.mem_cons_self) rfl
      obtain ⟨m, hm⟩ := addSerial_single target (s := { s with host := none })
        (hnames s List.mem_cons_self) hnew
      have heq := eq_of_addSerial hm
      rw [heq] at hm
      rw [forEach, hm, ok_bind]
      refine ih (fun x hx => hnames x (List.mem_cons_of_mem s hx)) ?_
      rw [List.map_append, List.append_assoc]
      exact hnodup

theorem setPowerLevel_single {p : PowerChannel} (hu : u.power = some p) {level : String}
    {given : PowerLevel} (hname : isValidName level = true) (hdefault : level ≠ DEFAULT_POWER_LEVEL)
    (hhooks : (given.hooks.any fun k => k.2.isSome) = true) :
    ∃ lab, setPowerLevel (single target u) target level given = .ok lab := by
  have hne : (level != DEFAULT_POWER_LEVEL) = true := bne_iff_ne.mpr hdefault
  rw [setPowerLevel, validateName_of hname, ok_bind, hne, targetMut_single, hu]
  simp only [Option.getD_some, hhooks, Bool.or_true]
  exact ⟨_, rfl⟩

theorem forEach_setPowerLevel {p : PowerChannel} (hu : u.power = some p)
    {l : List (String × PowerLevel)}
    (hl : ∀ e ∈ l, isValidName e.1 = true ∧ e.1 ≠ DEFAULT_POWER_LEVEL ∧
      (e.2.hooks.any fun k => k.2.isSome) = true)
    (hsorted : ((p.levels.entries ++ l).map Prod.fst).Pairwise (· < ·)) :
    ∃ lab, forEach (fun lf e => setPowerLevel lf target e.1 e.2) (single target u) l = .ok lab := by
  induction l generalizing u p with
  | nil => exact ⟨_, rfl⟩
  | cons e l ih =>
      obtain ⟨hname, hdefault, hhooks⟩ := hl e List.mem_cons_self
      obtain ⟨m, hm⟩ := setPowerLevel_single target hu hname hdefault hhooks
      have hlt := OrderedMap.lt_of_mem_keys hsorted
      have hnew : p.levels.get? e.1 = none :=
        OrderedMap.get?_eq_none_of_notMem fun hmem => lt_irrefl _ (hlt e.1 hmem)
      have hentries := OrderedMap.entries_insert_of_lt (v := e.2) hlt
      have heq := eq_of_setPowerLevel hu hnew hm
      rw [heq] at hm
      rw [forEach, hm, ok_bind]
      refine ih rfl (fun x hx => hl x (List.mem_cons_of_mem e hx)) ?_
      rw [hentries, List.append_assoc]
      exact hsorted

/-- A channel that is there can have its doctor check turned on. -/
theorem keepDoctor_power {p : PowerChannel} (hu : u.power = some p) (on : Bool) :
    ∃ lab, keepDoctor (single target u) target .power on = .ok lab := by
  cases on with
  | false => exact ⟨_, rfl⟩
  | true =>
      rw [keepDoctor, if_pos rfl, setDoctor, targetMut_single]
      dsimp only
      rw [hu]
      exact ⟨_, rfl⟩

theorem keepDoctor_actions {acts : ActionsChannel} (hu : u.actions = some acts) (on : Bool) :
    ∃ lab, keepDoctor (single target u) target .actions on = .ok lab := by
  cases on with
  | false => exact ⟨_, rfl⟩
  | true =>
      rw [keepDoctor, if_pos rfl, setDoctor, targetMut_single]
      dsimp only
      rw [hu]
      exact ⟨_, rfl⟩

theorem slicePower_single (hu : u.power = none) {p : PowerChannel}
    (hl : ∀ e ∈ p.levels.entries, isValidName e.1 = true ∧ e.1 ≠ DEFAULT_POWER_LEVEL ∧
      (e.2.hooks.any fun k => k.2.isSome) = true) :
    ∃ lab, slicePower target (single target u) p = .ok lab := by
  have hset : setPower (single target u) target { p with host := none } =
      .ok (single target { u with
        power := some { p with host := none, doctor := false, levels := .empty } }) := by
    rw [setPower, targetMut_single, hu]
    simp only [Option.getD_none, setOpt, Option.or_none]
    rfl
  obtain ⟨m, hm⟩ := forEach_setPowerLevel target
    (u := { u with power := some { p with host := none, doctor := false, levels := .empty } })
    rfl hl p.levels.sorted
  obtain ⟨levels, -, rfl⟩ := eq_of_forEach_setPowerLevel rfl (by exact p.levels.sorted) hm
  rw [slicePower, hset, ok_bind, hm, ok_bind]
  exact keepDoctor_power target rfl p.doctor

theorem setAction_single {name : String} {a : LabAction} (hname : isValidName name = true)
    (hkey : name ∉ ACTIONS_TABLE_KEYS) :
    ∃ lab, setAction (single target u) target name (some a.cmd) a.description a.requiresPower none =
      .ok lab := by
  have hrequire : (!decide (name ∈ ACTIONS_TABLE_KEYS)) = true := by
    rw [decide_eq_false hkey]
    rfl
  rw [setAction, validateName_of hname, ok_bind, hrequire, targetMut_single]
  simp only [Option.isSome_some, Bool.or_true]
  exact ⟨_, rfl⟩

theorem forEach_setAction {l : List (String × LabAction)}
    (hl : ∀ e ∈ l, isValidName e.1 = true ∧ e.1 ∉ ACTIONS_TABLE_KEYS) (hne : l ≠ [] ∨
      ∃ acts, u.actions = some acts) :
    ∃ v acts, v.actions = some acts ∧ forEach (fun lf e =>
      setAction lf target e.1 (some e.2.cmd) e.2.description e.2.requiresPower none)
        (single target u) l = .ok (single target v) := by
  induction l generalizing u with
  | nil =>
      obtain ⟨acts, hacts⟩ := hne.resolve_left fun h => h rfl
      exact ⟨u, acts, hacts, rfl⟩
  | cons e l ih =>
      obtain ⟨hname, hkey⟩ := hl e List.mem_cons_self
      obtain ⟨m, hm⟩ := setAction_single target (u := u) (a := e.2) hname hkey
      have hform : ∃ v acts, v.actions = some acts ∧ m = single target v := by
        have h := hm
        rw [setAction, bind_eq_ok] at h
        obtain ⟨-, -, h⟩ := h
        rw [bind_eq_ok] at h
        obtain ⟨-, -, h⟩ := h
        obtain ⟨v, hv, rfl⟩ := eq_of_targetMut h
        rw [bind_eq_ok] at hv
        obtain ⟨-, -, hv⟩ := hv
        cases hv
        exact ⟨_, _, rfl, rfl⟩
      obtain ⟨v, acts, hacts, rfl⟩ := hform
      rw [forEach, hm, ok_bind]
      exact ih (fun x hx => hl x (List.mem_cons_of_mem e hx)) (.inr ⟨acts, hacts⟩)

theorem sliceActions_single {acts : ActionsChannel}
    (hl : ∀ e ∈ acts.actions.entries, isValidName e.1 = true ∧ e.1 ∉ ACTIONS_TABLE_KEYS) :
    ∃ lab, sliceActions target (single target u) acts = .ok lab := by
  rw [sliceActions]
  cases hentries : acts.actions.entries with
  | nil =>
      have hempty : acts.actions.isEmpty = true := by rw [OrderedMap.isEmpty, hentries]; rfl
      rw [hempty, Bool.not_true, Bool.and_false]
      exact ⟨_, rfl⟩
  | cons e l =>
      rw [hentries] at hl
      obtain ⟨v, acts', hv, heq⟩ := forEach_setAction target (u := u) hl
        (.inl (List.cons_ne_nil e l))
      rw [heq, ok_bind]
      exact keepDoctor_actions target hv _

/-- An action that has the name of a setting of the table is refused. -/
theorem notMem_keys_of_sliceActions {acts : ActionsChannel} {lf lab : Lab}
    (h : sliceActions target lf acts = .ok lab) :
    ∀ e ∈ acts.actions.entries, e.1 ∉ ACTIONS_TABLE_KEYS := by
  rw [sliceActions, bind_eq_ok] at h
  obtain ⟨m, hm, -⟩ := h
  have hall : ∀ (l : List (String × LabAction)) (lf : Lab), forEach (fun lf e =>
      setAction lf target e.1 (some e.2.cmd) e.2.description e.2.requiresPower none) lf l = .ok m →
      ∀ e ∈ l, e.1 ∉ ACTIONS_TABLE_KEYS := by
    intro l
    induction l with
    | nil => exact fun _ _ e he => absurd he List.not_mem_nil
    | cons e l ih =>
        intro lf h x hx
        rw [forEach, bind_eq_ok] at h
        obtain ⟨m₁, hm₁, h⟩ := h
        rcases List.mem_cons.mp hx with rfl | hx
        · rw [setAction, seq_eq_ok, seq_eq_ok, require_eq_ok] at hm₁
          intro hkey
          have hrequire := hm₁.2.1
          rw [decide_eq_true hkey] at hrequire
          exact Bool.noConfusion hrequire
        · exact ih m₁ h x hx
  exact hall _ _ hm

theorem forChannel_single {α : Type} {channel : Option α} {on : α → Bool}
    {edit : Lab → α → Except LabError Lab}
    (hedit : ∀ c, channel = some c → on c = true → ∃ lab, edit (single target u) c = .ok lab) :
    ∃ lab, forChannel channel on edit (single target u) = .ok lab := by
  cases channel with
  | none => exact ⟨_, rfl⟩
  | some c =>
      rw [forChannel]
      cases hon : on c with
      | false => exact ⟨_, rfl⟩
      | true => exact hedit c rfl hon

/-- A step that succeeds is followed by the next. -/
theorem bind_succeeds {α β : Type} {x : Except LabError α} {f : α → Except LabError β}
    (hx : ∃ a, x = .ok a) (hf : ∀ a, x = .ok a → ∃ b, f a = .ok b) : ∃ b, x >>= f = .ok b := by
  obtain ⟨a, ha⟩ := hx
  obtain ⟨b, hb⟩ := hf a ha
  exact ⟨b, bind_eq_ok.mpr ⟨a, ha, hb⟩⟩

/-- What the operations ask of a target, on the channels that the host has. -/
structure Target.Writable (t : Target) (host : String) : Prop where
  serial : ∀ s ∈ t.serial, isValidName s.name = true
  unique : (t.serial.map (·.name)).Nodup
  levels : ∀ p, t.power = some p → ∀ e ∈ p.levels.entries, isValidName e.1 = true ∧
    e.1 ≠ DEFAULT_POWER_LEVEL ∧ (e.2.hooks.any fun k => k.2.isSome) = true
  actions : ∀ acts, t.actions = some acts → t.hostOf acts.host = host →
    ∀ e ∈ acts.actions.entries, isValidName e.1 = true ∧ e.1 ∉ ACTIONS_TABLE_KEYS

theorem buildSlice_of_writable {lab : Lab} {t : Target} {host : String}
    (ht : lab.targets.get? target = some t) (hname : isValidName target = true)
    (h : t.Writable host) : ∃ s, buildSlice lab target host = .ok s := by
  rw [buildSlice, ht]
  dsimp only
  rw [addTarget_empty target hname t.description, ok_bind]
  refine bind_succeeds (forChannel_single target fun nb _ _ => ⟨_, setNetboot_single rfl _⟩)
    fun s₁ h₁ => ?_
  obtain rfl := eq_of_forChannel (fun x => { description := t.description, netboot := x })
    (fun nb => some { nb with host := none }) rfl
    (fun nb _ hnb => by
      rw [setNetboot_single rfl] at hnb
      exact (Except.ok.inj hnb).symm) h₁
  refine bind_succeeds (forEach_addSerial target
    (fun s hs => h.serial s (List.mem_filter.mp hs).1) ?_) fun s₂ h₂ => ?_
  · exact h.unique.sublist (List.filter_sublist.map _)
  obtain rfl := eq_of_forEach_addSerial h₂
  refine bind_succeeds (forChannel_single target fun p hp _ => slicePower_single target rfl (h.levels p hp))
    fun s₃ h₃ => ?_
  obtain rfl := eq_of_forChannel (fun x => { power := x, description := _, netboot := _, serial := _ })
    (fun p => some { p with host := none }) rfl (fun p _ hp => eq_of_slicePower rfl hp) h₃
  refine bind_succeeds (forChannel_single target fun v _ _ => ⟨_, setVideo_single rfl _⟩) fun s₄ h₄ => ?_
  obtain rfl := eq_of_forChannel
    (fun x => { video := x, description := _, netboot := _, serial := _, power := _ })
    (fun v => some { v with host := none, port := setPort v.port none }) rfl
    (fun v _ hv => by
      rw [setVideo_single rfl] at hv
      exact (Except.ok.inj hv).symm) h₄
  refine bind_succeeds (forChannel_single target fun c _ _ => ⟨_, sliceHid_single rfl c⟩) fun s₅ h₅ => ?_
  obtain rfl := eq_of_forChannel
    (fun x => { hid := x, description := _, netboot := _, serial := _, power := _, video := _ })
    (fun c => some { c with host := none, port := setPort c.port none }) rfl
    (fun c _ hc => by
      rw [sliceHid_single rfl] at hc
      exact (Except.ok.inj hc).symm) h₅
  refine bind_succeeds (forChannel_single target fun c _ _ => ⟨_, setAdb_single rfl _ _⟩) fun s₆ h₆ => ?_
  obtain rfl := eq_of_forChannel
    (fun x => { adb := x, description := _, netboot := _, serial := _, power := _, video := _
                hid := _ })
    (fun c => some { c with host := none }) rfl
    (fun c _ hc => by
      rw [setAdb_single rfl] at hc
      exact (Except.ok.inj hc).symm) h₆
  refine bind_succeeds (forChannel_single target fun c _ _ => ⟨_, sliceUsb_single rfl c⟩) fun s₇ h₇ => ?_
  obtain rfl := eq_of_forChannel
    (fun x => { usb := x, description := _, netboot := _, serial := _, power := _, video := _
                hid := _, adb := _ })
    (fun c => some { c with host := none }) rfl
    (fun c _ hc => by
      rw [sliceUsb_single rfl] at hc
      exact (Except.ok.inj hc).symm) h₇
  exact forChannel_single target fun acts hacts hon =>
    sliceActions_single target (h.actions acts hacts (eq_of_beq hon))

end

end Cli

end Paniolo
