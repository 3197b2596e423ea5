import Paniolo.Cli.LabFile

/-!
# Edits and the subnets of netboot links

Every netboot link on a host needs its own /24. An edit is one operation of the
editor; what it does to the links of the lab is said once for each kind of
edit. `set_netboot` asks for the link it has written, and the other edits write
no link, except that a target which gets another default host takes the link
along that has no host of its own.
-/

namespace Paniolo

namespace Cli

/-! ### Edits -/

/-- One operation of the editor. -/
inductive Edit where
  | addHost (name : String) (h : Host)
  | updateHost (name : String)
      (ssh description hostname identity controlPath panioloCmd pluginPath : Option String)
  | removeHost (name : String)
  | addTarget (name : String) (host description : Option String)
  | updateTarget (name : String) (host description : Option String)
  | removeTarget (name : String)
  | renameTarget (old new : String)
  | addSerial (target : String) (s : SerialChannel)
  | updateSerial (target name : String) (device : Option String) (baud : Option Int)
      (sense : Option String) (powerButton : Option Bool) (host : Option String)
      (port : Option UInt16)
  | removeSerial (target name : String)
  | setNetboot (target : String) (given : NetbootChannel)
  | removeNetboot (target : String)
  | setPower (target : String) (given : PowerChannel)
  | removePower (target : String)
  | setPowerLevel (target level : String) (given : PowerLevel)
  | removePowerLevel (target level : String)
  | setVideo (target : String) (given : VideoChannel)
  | removeVideo (target : String)
  | setHid (target : String) (cmd host : Option String) (port : Option UInt16)
  | removeHid (target : String)
  | setUsb (target : String) (cmd host : Option String)
  | removeUsb (target : String)
  | setAdb (target : String) (serial adb host : Option String)
  | removeAdb (target : String)
  | setAction (target name : String) (cmd description requiresPower host : Option String)
  | removeAction (target name : String)
  | setDoctor (target : String) (kind : DoctorKind) (on : Bool)

def Edit.apply (lab : Lab) : Edit → Except LabError Lab
  | addHost name h => Cli.addHost lab name h
  | updateHost name ssh description hostname identity controlPath panioloCmd pluginPath =>
      Cli.updateHost lab name ssh description hostname identity controlPath panioloCmd pluginPath
  | removeHost name => Cli.removeHost lab name
  | addTarget name host description => Cli.addTarget lab name host description
  | updateTarget name host description => Cli.updateTarget lab name host description
  | removeTarget name => Cli.removeTarget lab name
  | renameTarget old new => Cli.renameTarget lab old new
  | addSerial target s => Cli.addSerial lab target s
  | updateSerial target name device baud sense powerButton host port =>
      Cli.updateSerial lab target name device baud sense powerButton host port
  | removeSerial target name => Cli.removeSerial lab target name
  | setNetboot target given => Cli.setNetboot lab target given
  | removeNetboot target => Cli.removeNetboot lab target
  | setPower target given => Cli.setPower lab target given
  | removePower target => Cli.removePower lab target
  | setPowerLevel target level given => Cli.setPowerLevel lab target level given
  | removePowerLevel target level => Cli.removePowerLevel lab target level
  | setVideo target given => Cli.setVideo lab target given
  | removeVideo target => Cli.removeVideo lab target
  | setHid target cmd host port => Cli.setHid lab target cmd host port
  | removeHid target => Cli.removeHid lab target
  | setUsb target cmd host => Cli.setUsb lab target cmd host
  | removeUsb target => Cli.removeUsb lab target
  | setAdb target serial adb host => Cli.setAdb lab target serial adb host
  | removeAdb target => Cli.removeAdb lab target
  | setAction target name cmd description requiresPower host =>
      Cli.setAction lab target name cmd description requiresPower host
  | removeAction target name => Cli.removeAction lab target name
  | setDoctor target kind on => Cli.setDoctor lab target kind on

/-- Edits one after another, each of which succeeds. -/
def applyAll (lab : Lab) : List Edit → Except LabError Lab
  | [] => .ok lab
  | e :: edits => do
      let lab ← e.apply lab
      applyAll lab edits

/-- What a save leaves in the file. -/
def save (lab : Lab) : Except LabError Lab := do
  validateForSave lab
  pure lab

/-! ### Links -/

/-- The netboot link of a target of the lab. -/
def Lab.link (lab : Lab) (n : String) : Option Link := (lab.targets.get? n).bind Target.link

/-- No two links share a /24 on one host. -/
def ClashFree (lab : Lab) : Prop := ∀ n, netbootSubnetClash lab n = none

theorem Link.clashes_comm (a b : Link) : a.clashes b = b.clashes a := by
  rw [clashes, clashes, Bool.eq_iff_iff]
  simp only [Bool.and_eq_true, beq_iff_eq, bne_iff_ne]
  constructor
  · rintro ⟨⟨hhost, hif⟩, hsub⟩
    exact ⟨⟨hhost.symm, hif.symm⟩, hsub.symm⟩
  · rintro ⟨⟨hhost, hif⟩, hsub⟩
    exact ⟨⟨hhost.symm, hif.symm⟩, hsub.symm⟩

section

variable {lab lab' : Lab} {n : String} {a : Link}

theorem link_eq_some : lab.link n = some a ↔ ∃ t, lab.targets.get? n = some t ∧ t.link = some a :=
  Option.bind_eq_some_iff

/-- A target has no clash exactly when its link, if it has one, clashes with that of no other. -/
theorem netbootSubnetClash_eq_none : netbootSubnetClash lab n = none ↔
    ∀ a, lab.link n = some a → ∀ n' b, n' ≠ n → lab.link n' = some b → a.clashes b = false := by
  cases ht : lab.targets.get? n with
  | none =>
      have hnone : lab.link n = none := by rw [Lab.link, ht, Option.bind_none]
      have hclash : netbootSubnetClash lab n = none := by
        rw [netbootSubnetClash, ht]
        rfl
      rw [hnone]
      exact ⟨fun _ a h => absurd h.symm (Option.some_ne_none a), fun _ => hclash⟩
  | some t =>
      have hlink : lab.link n = t.link := by rw [Lab.link, ht, Option.bind_some]
      rw [hlink]
      cases ha : t.link with
      | none =>
          have hclash : netbootSubnetClash lab n = none := by
            rw [netbootSubnetClash, ht, Option.bind_eq_bind, Option.bind_some]
            cases t.netboot with
            | none => rfl
            | some nb =>
                rw [Option.bind_eq_bind, Option.bind_some, ha]
                rfl
          exact ⟨fun _ a h => absurd h.symm (Option.some_ne_none a), fun _ => hclash⟩
      | some a =>
          have hnetboot : ∃ nb, t.netboot = some nb := by
            rw [Target.link] at ha
            obtain ⟨nb, hnb, -⟩ := Option.bind_eq_some_iff.mp ha
            exact ⟨nb, hnb⟩
          obtain ⟨nb, hnb⟩ := hnetboot
          have hfind : netbootSubnetClash lab n = none ↔
              ∀ e ∈ lab.targets.entries, e.1 ≠ n → ∀ b, e.2.link = some b → a.clashes b = false := by
            rw [netbootSubnetClash, ht, Option.bind_eq_bind, Option.bind_some, hnb,
              Option.bind_eq_bind, Option.bind_some, ha, Option.bind_eq_bind, Option.bind_some,
              List.findSome?_eq_none_iff]
            refine forall₂_congr fun e _ => ?_
            by_cases hn : e.1 = n
            · rw [if_pos (beq_iff_eq.mpr hn)]
              exact ⟨fun _ hne => absurd hn hne, fun _ => rfl⟩
            · rw [if_neg fun h => hn (eq_of_beq h), Option.bind_eq_none_iff]
              constructor
              · intro h _ b hb
                refine Bool.eq_false_of_not_eq_true fun hclash => ?_
                have hsome := h b hb
                rw [if_pos hclash] at hsome
                exact Option.some_ne_none _ hsome
              · intro h b hb
                exact if_neg (Bool.eq_false_iff.mp (h hn b hb))
          rw [hfind]
          constructor
          · intro h a' ha' n' b hne hb
            cases ha'
            obtain ⟨t', ht', hb⟩ := link_eq_some.mp hb
            exact h (n', t') (OrderedMap.get?_eq_some_iff.mp ht') hne b hb
          · intro h e he hne b hb
            exact h a rfl e.1 b hne
              (link_eq_some.mpr ⟨e.2, OrderedMap.get?_eq_some_iff.mpr he, hb⟩)

theorem clashFree_iff : ClashFree lab ↔ ∀ n n' a b, n' ≠ n → lab.link n = some a →
    lab.link n' = some b → a.clashes b = false := by
  constructor
  · intro h n n' a b hne ha hb
    exact netbootSubnetClash_eq_none.mp (h n) a ha n' b hne hb
  · intro h n
    exact netbootSubnetClash_eq_none.mpr fun a ha n' b hne hb => h n n' a b hne ha hb

/-- No link is written, each target has the one it had or none. -/
def Shrinks (lab lab' : Lab) : Prop := ∀ n a, lab'.link n = some a → lab.link n = some a

theorem ClashFree.shrinks (hfree : ClashFree lab) (h : Shrinks lab lab') : ClashFree lab' := by
  rw [clashFree_iff] at hfree ⊢
  intro n n' a b hne ha hb
  exact hfree n n' a b hne (h n a ha) (h n' b hb)

/-- One link is written, and it clashes with no other. -/
theorem ClashFree.written (hfree : ClashFree lab) (hothers : ∀ n', n' ≠ n → ∀ b,
      lab'.link n' = some b → lab.link n' = some b)
    (hclash : netbootSubnetClash lab' n = none) : ClashFree lab' := by
  rw [clashFree_iff] at hfree ⊢
  rw [netbootSubnetClash_eq_none] at hclash
  intro n₁ n₂ a b hne ha hb
  by_cases h₁ : n₁ = n
  · rw [h₁] at ha hne
    exact hclash a ha n₂ b hne hb
  · by_cases h₂ : n₂ = n
    · rw [h₂] at hb
      rw [Link.clashes_comm]
      exact hclash b hb n₁ a h₁ ha
    · exact hfree n₁ n₂ a b hne (hothers n₁ h₁ a ha) (hothers n₂ h₂ b hb)

/-! ### What an edit does to the links -/

theorem targetMut_eq_ok {edit : Target → Except LabError Target} :
    targetMut lab n edit = .ok lab' ↔ ∃ t u, lab.targets.get? n = some t ∧ edit t = .ok u ∧
      lab' = { lab with targets := lab.targets.insert n u } := by
  rw [targetMut]
  cases lab.targets.get? n with
  | none =>
      constructor
      · intro h
        cases h
      · rintro ⟨t, u, ht, -⟩
        cases ht
  | some t =>
      dsimp only
      rw [bind_eq_ok]
      constructor
      · rintro ⟨u, hu, h⟩
        cases h
        exact ⟨t, u, rfl, hu, rfl⟩
      · rintro ⟨t', u, ht, hu, rfl⟩
        cases ht
        exact ⟨u, hu, rfl⟩

theorem link_insert (u : Target) (x : String) :
    Lab.link { lab with targets := lab.targets.insert n u } x =
      if n = x then u.link else lab.link x := by
  rw [Lab.link, OrderedMap.get?_insert]
  split
  · rfl
  · rfl

theorem link_erase_targets (x : String) :
    Lab.link { lab with targets := lab.targets.erase n } x =
      if n = x then none else lab.link x := by
  rw [Lab.link, OrderedMap.get?_erase]
  split
  · rfl
  · rfl

/-- Editing a target in a way that leaves its host and its netboot channel. -/
theorem shrinks_of_targetMut {edit : Target → Except LabError Target}
    (hedit : ∀ t u, edit t = .ok u → u.host = t.host ∧ u.netboot = t.netboot)
    (h : targetMut lab n edit = .ok lab') : Shrinks lab lab' := by
  obtain ⟨t, u, ht, hu, rfl⟩ := targetMut_eq_ok.mp h
  obtain ⟨hhost, hnetboot⟩ := hedit t u hu
  have hlink : u.link = t.link := by
    simp only [Target.link, Target.hostOf, Target.defaultHost, hhost, hnetboot]
  intro x a ha
  rw [link_insert] at ha
  split at ha
  · next hx =>
      rw [← hx, Lab.link, ht, Option.bind_some, ← hlink]
      exact ha
  · exact ha

/-- Channels of the other kinds. -/
theorem shrinks_of_ok {f : Target → Target}
    (hf : ∀ t, (f t).host = t.host ∧ (f t).netboot = t.netboot)
    (h : targetMut lab n (fun t => .ok (f t)) = .ok lab') : Shrinks lab lab' := by
  refine shrinks_of_targetMut (fun t u hu => ?_) h
  cases hu
  exact hf t

theorem shrinks_removeSingleton {kind : String} {has : Target → Bool} {remove : Target → Target}
    (hremove : ∀ t, (remove t).host = t.host ∧ (remove t).netboot = t.netboot)
    (h : removeSingleton lab n kind has remove = .ok lab') : Shrinks lab lab' := by
  refine shrinks_of_targetMut (fun t u hu => ?_) h
  split at hu
  · cases hu
    exact hremove t
  · cases hu

theorem shrinks_addHost {h : Host} (hok : addHost lab n h = .ok lab') : Shrinks lab lab' := by
  rw [addHost, seq_eq_ok, seq_eq_ok] at hok
  obtain ⟨-, -, hok⟩ := hok
  cases hok
  exact fun _ _ ha => ha

theorem shrinks_updateHost
    {ssh description hostname identity controlPath panioloCmd pluginPath : Option String}
    (hok : updateHost lab n ssh description hostname identity controlPath panioloCmd pluginPath =
      .ok lab') : Shrinks lab lab' := by
  rw [updateHost, seq_eq_ok] at hok
  cases hh : lab.hosts.get? n with
  | none =>
      rw [hh] at hok
      cases hok.2
  | some h =>
      rw [hh] at hok
      cases hok.2
      exact fun _ _ ha => ha

theorem shrinks_removeHost (hok : removeHost lab n = .ok lab') : Shrinks lab lab' := by
  rw [removeHost] at hok
  split at hok
  · dsimp only at hok
    split at hok
    · cases hok
      exact fun _ _ ha => ha
    · cases hok
  · cases hok

theorem shrinks_addTarget {host description : Option String}
    (hok : addTarget lab n host description = .ok lab') : Shrinks lab lab' := by
  rw [addTarget, seq_eq_ok, seq_eq_ok] at hok
  obtain ⟨-, -, hok⟩ := hok
  cases hok
  intro x a ha
  rw [link_insert] at ha
  split at ha
  · cases ha
  · exact ha

theorem shrinks_removeTarget (hok : removeTarget lab n = .ok lab') : Shrinks lab lab' := by
  rw [removeTarget] at hok
  split at hok
  · cases hok
    intro x a ha
    rw [link_erase_targets] at ha
    split at ha
    · cases ha
    · exact ha
  · cases hok

theorem shrinks_addSerial {s : SerialChannel} (hok : addSerial lab n s = .ok lab') :
    Shrinks lab lab' := by
  rw [addSerial, seq_eq_ok] at hok
  refine shrinks_of_targetMut (fun t u hu => ?_) hok.2
  split at hu
  · cases hu
  · cases hu
    exact ⟨rfl, rfl⟩

theorem shrinks_updateSerial {name : String} {device : Option String} {baud : Option Int}
    {sense : Option String} {powerButton : Option Bool} {host : Option String}
    {port : Option UInt16}
    (hok : updateSerial lab n name device baud sense powerButton host port = .ok lab') :
    Shrinks lab lab' := by
  rw [updateSerial, seq_eq_ok] at hok
  refine shrinks_of_targetMut (fun t u hu => ?_) hok.2
  split at hu
  · cases hu
    exact ⟨rfl, rfl⟩
  · cases hu

theorem shrinks_removeSerial {name : String} (hok : removeSerial lab n name = .ok lab') :
    Shrinks lab lab' := by
  refine shrinks_of_targetMut (fun t u hu => ?_) hok
  split at hu
  · cases hu
    exact ⟨rfl, rfl⟩
  · cases hu

theorem shrinks_removeNetboot (hok : removeNetboot lab n = .ok lab') : Shrinks lab lab' := by
  obtain ⟨t, u, ht, hu, rfl⟩ := targetMut_eq_ok.mp hok
  split at hu
  · cases hu
    intro x a ha
    rw [link_insert] at ha
    split at ha
    · cases ha
    · exact ha
  · cases hu

theorem shrinks_setPowerLevel {level : String} {given : PowerLevel}
    (hok : setPowerLevel lab n level given = .ok lab') : Shrinks lab lab' := by
  rw [setPowerLevel, seq_eq_ok, seq_eq_ok] at hok
  refine shrinks_of_targetMut (fun t u hu => ?_) hok.2.2
  rw [seq_eq_ok] at hu
  cases hu.2
  exact ⟨rfl, rfl⟩

theorem shrinks_removePowerLevel {level : String}
    (hok : removePowerLevel lab n level = .ok lab') : Shrinks lab lab' := by
  refine shrinks_of_targetMut (fun t u hu => ?_) hok
  split at hu
  · cases hu
  · split at hu
    · cases hu
      exact ⟨rfl, rfl⟩
    · cases hu

theorem shrinks_setAction {name : String} {cmd description requiresPower host : Option String}
    (hok : setAction lab n name cmd description requiresPower host = .ok lab') :
    Shrinks lab lab' := by
  rw [setAction, seq_eq_ok, seq_eq_ok] at hok
  refine shrinks_of_targetMut (fun t u hu => ?_) hok.2.2
  rw [seq_eq_ok] at hu
  cases hu.2
  exact ⟨rfl, rfl⟩

theorem shrinks_removeAction {name : String} (hok : removeAction lab n name = .ok lab') :
    Shrinks lab lab' := by
  refine shrinks_of_targetMut (fun t u hu => ?_) hok
  split at hu
  · cases hu
  · split at hu
    · cases hu
      exact ⟨rfl, rfl⟩
    · cases hu

theorem shrinks_setDoctor {kind : DoctorKind} {on : Bool}
    (hok : setDoctor lab n kind on = .ok lab') : Shrinks lab lab' := by
  refine shrinks_of_targetMut (fun t u hu => ?_) hok
  cases kind with
  | power =>
      dsimp only at hu
      split at hu
      · cases hu
      · cases hu
        exact ⟨rfl, rfl⟩
  | hid =>
      dsimp only at hu
      split at hu
      · cases hu
      · cases hu
        exact ⟨rfl, rfl⟩
  | usb =>
      dsimp only at hu
      split at hu
      · cases hu
      · cases hu
        exact ⟨rfl, rfl⟩
  | actions =>
      dsimp only at hu
      split at hu
      · cases hu
      · cases hu
        exact ⟨rfl, rfl⟩

/-- A renamed target has its link under the new name only. -/
theorem ClashFree.renamed (hfree : ClashFree lab) {old new : String}
    (hok : renameTarget lab old new = .ok lab') : ClashFree lab' := by
  rw [renameTarget, seq_eq_ok] at hok
  cases ht : lab.targets.get? old with
  | none =>
      rw [ht] at hok
      cases hok.2
  | some t =>
      rw [ht] at hok
      obtain ⟨hnew, hok⟩ := seq_eq_ok.mp hok.2
      cases hok
      rw [require_eq_ok] at hnew
      have hold : lab.link old = t.link := by rw [Lab.link, ht, Option.bind_some]
      have hne : old ≠ new := by
        intro heq
        rw [← heq, OrderedMap.contains, ht] at hnew
        exact Bool.noConfusion hnew
      -- the name that a target of the new lab had in the old one
      have hfrom : ∀ x a, Lab.link { lab with targets := (lab.targets.erase old).insert new t } x =
          some a → x ≠ old ∧ lab.link (if new = x then old else x) = some a := by
        intro x a ha
        rw [Lab.link, OrderedMap.get?_insert] at ha
        split at ha
        · next hx =>
            rw [if_pos hx, hold]
            exact ⟨fun h => hne (h.symm.trans hx.symm), ha⟩
        · next hx =>
            rw [OrderedMap.get?_erase] at ha
            split at ha
            · cases ha
            · next hx' =>
                rw [if_neg hx]
                exact ⟨fun h => hx' h.symm, ha⟩
      rw [clashFree_iff] at hfree ⊢
      intro x y a b hxy ha hb
      obtain ⟨hxold, ha⟩ := hfrom x a ha
      obtain ⟨hyold, hb⟩ := hfrom y b hb
      refine hfree _ _ a b ?_ ha hb
      by_cases hx : new = x
      · rw [if_pos hx, if_neg fun hy => hxy (hy.symm.trans hx)]
        exact hyold
      · rw [if_neg hx]
        by_cases hy : new = y
        · rw [if_pos hy]
          exact Ne.symm hxold
        · rw [if_neg hy]
          exact hxy

/-- `set_netboot` asks about the link that it has written. -/
theorem ClashFree.setNetboot (hfree : ClashFree lab) {given : NetbootChannel}
    (hok : setNetboot lab n given = .ok lab') : ClashFree lab' := by
  rw [Cli.setNetboot, bind_eq_ok] at hok
  obtain ⟨lab₁, hlab, hok⟩ := hok
  obtain ⟨t, u, ht, hu, rfl⟩ := targetMut_eq_ok.mp hlab
  split at hok
  · cases hok
  · next hclash =>
      cases hok
      refine hfree.written (fun x hx b hb => ?_) hclash
      rw [link_insert, if_neg fun h => hx h.symm] at hb
      exact hb

end

/-! ### The condition -/

/-- What `update_target` makes of a target. -/
def Target.updated (t : Target) (host description : Option String) : Target :=
  { t with host := setOpt host t.host, description := setOpt description t.description }

/-- A target that is given another default host does not take a link of its own along into the
/24 of a link there. -/
def Edit.Meets (lab : Lab) : Edit → Prop
  | updateTarget name (some host) _ => ∀ t nb, lab.targets.get? name = some t →
      t.netboot = some nb → nb.host = none →
      ∀ a, (t.updated (some host) none).link = some a →
        ∀ n b, n ≠ name → lab.link n = some b → a.clashes b = false
  | _ => True

/-- Each edit meets the condition in the lab it is made in. -/
def MeetsAll (lab : Lab) : List Edit → Prop
  | [] => True
  | e :: edits => e.Meets lab ∧ ∀ lab', e.apply lab = .ok lab' → MeetsAll lab' edits

section

variable {lab lab' : Lab} {n : String}

theorem updateTarget_eq_ok {host description : Option String}
    (hok : updateTarget lab n host description = .ok lab') :
    ∃ t, lab.targets.get? n = some t ∧
      lab' = { lab with targets := lab.targets.insert n (t.updated host description) } := by
  rw [updateTarget, seq_eq_ok] at hok
  obtain ⟨t, u, ht, hu, rfl⟩ := targetMut_eq_ok.mp hok.2
  cases hu
  exact ⟨t, ht, rfl⟩

/-- The link of a target follows its default host if the channel has no host of its own. -/
theorem link_updated {t : Target} (hnetboot : ∀ nb, t.netboot = some nb → nb.host ≠ none)
    (host description : Option String) : (t.updated host description).link = t.link := by
  cases hnb : t.netboot with
  | none => simp only [Target.link, Target.updated, hnb, Option.bind_eq_bind, Option.bind_none]
  | some nb =>
      obtain ⟨h, hh⟩ := Option.ne_none_iff_exists'.mp (hnetboot nb hnb)
      simp only [Target.link, Target.updated, hnb, Option.bind_eq_bind, Option.bind_some,
        Target.hostOf, hh, Option.getD_some]

/-- What a new default host does to a lab without a clash. -/
theorem updateTarget_clashFree_iff (hfree : ClashFree lab) {host description : Option String}
    (hok : updateTarget lab n host description = .ok lab') :
    ClashFree lab' ↔ (Edit.updateTarget n host description).Meets lab := by
  obtain ⟨t, ht, rfl⟩ := updateTarget_eq_ok hok
  have hsame : (t.updated host description).link = t.link →
      ClashFree { lab with targets := lab.targets.insert n (t.updated host description) } := by
    intro hlink
    refine hfree.shrinks fun x a ha => ?_
    rw [link_insert, hlink] at ha
    split at ha
    · next hx =>
        rw [← hx, Lab.link, ht, Option.bind_some]
        exact ha
    · exact ha
  cases host with
  | none => exact ⟨fun _ => trivial, fun _ => hsame rfl⟩
  | some host =>
      constructor
      · intro hfree' t' nb ht' _ _ a ha x b hx hb
        rw [ht] at ht'
        cases ht'
        refine clashFree_iff.mp hfree' n x a b hx ?_ ?_
        · rw [link_insert, if_pos rfl]
          exact ha
        · rw [link_insert, if_neg fun h => hx h.symm]
          exact hb
      · intro hmeets
        by_cases hinherits : ∃ nb, t.netboot = some nb ∧ nb.host = none
        · obtain ⟨nb, hnb, hhost⟩ := hinherits
          refine hfree.written (n := n) (fun x hx b hb => ?_) ?_
          · rw [link_insert, if_neg fun h => hx h.symm] at hb
            exact hb
          · refine netbootSubnetClash_eq_none.mpr fun a ha x b hx hb => ?_
            rw [link_insert, if_pos rfl] at ha
            rw [link_insert, if_neg fun h => hx h.symm] at hb
            exact hmeets t nb ht hnb hhost a ha x b hx hb
        · exact hsame (link_updated (fun nb hnb hhost => hinherits ⟨nb, hnb, hhost⟩) _ _)

/-- An edit that succeeds leaves a lab without a clash exactly when it meets the condition. -/
theorem apply_clashFree_iff (hfree : ClashFree lab) {e : Edit} (hok : e.apply lab = .ok lab') :
    ClashFree lab' ↔ e.Meets lab := by
  have hshrinks : Shrinks lab lab' → (ClashFree lab' ↔ True) := fun h =>
    ⟨fun _ => trivial, fun _ => hfree.shrinks h⟩
  cases e with
  | addHost name h => exact hshrinks (shrinks_addHost hok)
  | updateHost name ssh description hostname identity controlPath panioloCmd pluginPath =>
      exact hshrinks (shrinks_updateHost hok)
  | removeHost name => exact hshrinks (shrinks_removeHost hok)
  | addTarget name host description => exact hshrinks (shrinks_addTarget hok)
  | updateTarget name host description => exact updateTarget_clashFree_iff hfree hok
  | removeTarget name => exact hshrinks (shrinks_removeTarget hok)
  | renameTarget old new => exact ⟨fun _ => trivial, fun _ => hfree.renamed hok⟩
  | addSerial target s => exact hshrinks (shrinks_addSerial hok)
  | updateSerial target name device baud sense powerButton host port =>
      exact hshrinks (shrinks_updateSerial hok)
  | removeSerial target name => exact hshrinks (shrinks_removeSerial hok)
  | setNetboot target given => exact ⟨fun _ => trivial, fun _ => hfree.setNetboot hok⟩
  | removeNetboot target => exact hshrinks (shrinks_removeNetboot hok)
  | setPower target given =>
      refine hshrinks (shrinks_of_ok (fun t => ?_) hok)
      exact ⟨rfl, rfl⟩
  | removePower target =>
      refine hshrinks (shrinks_removeSingleton (fun t => ?_) hok)
      exact ⟨rfl, rfl⟩
  | setPowerLevel target level given => exact hshrinks (shrinks_setPowerLevel hok)
  | removePowerLevel target level => exact hshrinks (shrinks_removePowerLevel hok)
  | setVideo target given =>
      refine hshrinks (shrinks_of_ok (fun t => ?_) hok)
      exact ⟨rfl, rfl⟩
  | removeVideo target =>
      refine hshrinks (shrinks_removeSingleton (fun t => ?_) hok)
      exact ⟨rfl, rfl⟩
  | setHid target cmd host port =>
      refine hshrinks (shrinks_of_ok (fun t => ?_) hok)
      exact ⟨rfl, rfl⟩
  | removeHid target =>
      refine hshrinks (shrinks_removeSingleton (fun t => ?_) hok)
      exact ⟨rfl, rfl⟩
  | setUsb target cmd host =>
      refine hshrinks (shrinks_of_ok (fun t => ?_) hok)
      exact ⟨rfl, rfl⟩
  | removeUsb target =>
      refine hshrinks (shrinks_removeSingleton (fun t => ?_) hok)
      exact ⟨rfl, rfl⟩
  | setAdb target serial adb host =>
      refine hshrinks (shrinks_of_ok (fun t => ?_) hok)
      exact ⟨rfl, rfl⟩
  | removeAdb target =>
      refine hshrinks (shrinks_removeSingleton (fun t => ?_) hok)
      exact ⟨rfl, rfl⟩
  | setAction target name cmd description requiresPower host =>
      exact hshrinks (shrinks_setAction hok)
  | removeAction target name => exact hshrinks (shrinks_removeAction hok)
  | setDoctor target kind on => exact hshrinks (shrinks_setDoctor hok)

/-- A lab without a clash, edited in steps that all succeed and meet the condition, is saved
without one. -/
theorem saved_clashFree {saved : Lab} {edits : List Edit} (hfree : ClashFree lab)
    (hmeets : MeetsAll lab edits) (hrun : applyAll lab edits = .ok lab')
    (hsave : save lab' = .ok saved) : ClashFree saved := by
  obtain ⟨-, hsaved⟩ := seq_eq_ok.mp hsave
  cases hsaved
  induction edits generalizing lab with
  | nil =>
      cases hrun
      exact hfree
  | cons e edits ih =>
      obtain ⟨lab₁, hstep, hrun⟩ := bind_eq_ok.mp hrun
      exact ih ((apply_clashFree_iff hfree hstep).mpr hmeets.1) (hmeets.2 lab₁ hstep) hrun

end

instance (lab : Lab) : Decidable (ClashFree lab) :=
  decidable_of_iff (∀ n ∈ lab.targets.keys, netbootSubnetClash lab n = none) (by
    constructor
    · intro h n
      by_cases hn : n ∈ lab.targets.keys
      · exact h n hn
      · rw [netbootSubnetClash, OrderedMap.get?_eq_none_of_notMem hn]
        rfl
    · exact fun h n _ => h n)

/-- Two boards, the link of the first at the default address. -/
def boards (panelHost : String) (panelIp : Option String) : Lab where
  hosts := (OrderedMap.empty.insert "east" { ssh := "lab@east" }).insert "west"
    { ssh := "lab@west" }
  targets :=
    (OrderedMap.empty.insert "board"
      { host := some "east", netboot := some { interface := some "eth1" } }).insert
      "panel" { host := some panelHost
                netboot := some { interface := some "eth2", hostIp := panelIp } }

/-- The second board is given a subnet of its own before it comes to the host of the first. -/
theorem saved_clashFree_boards : ClashFree (boards "east" (some "192.168.100.1")) := by
  have hfree : ClashFree (boards "west" none) := by decide +kernel
  have hset : (Edit.setNetboot "panel" { hostIp := some "192.168.100.1" }).apply
      (boards "west" none) = .ok (boards "west" (some "192.168.100.1")) := by decide +kernel
  have hmove : (Edit.updateTarget "panel" (some "east") none).apply
      (boards "west" (some "192.168.100.1")) = .ok (boards "east" (some "192.168.100.1")) := by
    decide +kernel
  have hmeets : MeetsAll (boards "west" none)
      [.setNetboot "panel" { hostIp := some "192.168.100.1" },
        .updateTarget "panel" (some "east") none] := by
    refine ⟨trivial, fun lab hlab => ⟨?_, fun _ _ => trivial⟩⟩
    rw [hset] at hlab
    cases hlab
    exact (apply_clashFree_iff (by decide +kernel) hmove).mp (by decide +kernel)
  have hrun : applyAll (boards "west" none)
      [.setNetboot "panel" { hostIp := some "192.168.100.1" },
        .updateTarget "panel" (some "east") none] = .ok (boards "east" (some "192.168.100.1")) := by
    rw [applyAll, hset, ok_bind, applyAll, hmove, ok_bind, applyAll]
  exact saved_clashFree hfree hmeets hrun (by decide +kernel)

/-- A link that follows its target to the host of another one is saved in the same /24. -/
theorem saved_clash_boards :
    ¬ ∀ (lab lab' saved : Lab) (edits : List Edit), ClashFree lab →
      applyAll lab edits = .ok lab' → save lab' = .ok saved → ClashFree saved := by
  intro hall
  have hmove : (Edit.updateTarget "panel" (some "east") none).apply (boards "west" none) =
      .ok (boards "east" none) := by decide +kernel
  have hrun : applyAll (boards "west" none) [.updateTarget "panel" (some "east") none] =
      .ok (boards "east" none) := by
    rw [applyAll, hmove, ok_bind, applyAll]
  have hsave : save (boards "east" none) = .ok (boards "east" none) := by decide +kernel
  have hfree := hall _ _ _ _ (by decide +kernel) hrun hsave
  exact absurd (hfree "panel") (by decide +kernel)

end Cli

end Paniolo
