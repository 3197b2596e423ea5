import Paniolo.Cli.Slice

/-!
# When a slice is accepted

Of the rules for a lab all but one carry over from a target to its slice. The
claims of ports do not: the serial claim of the target may be for another host.
`validate_slice_iff` says that the slice is accepted exactly when no screen or
keyboard on the host has the port of a console there.
-/

namespace Paniolo

namespace Cli

/-! ### Different values in order -/

section

variable {α : Type} [LinearOrder α]

/-- The different values of a list, in order. -/
theorem mem_distinct {l : List α} {a : α} :
    a ∈ l.foldr (fun p l => if p ∈ l then l else l.orderedInsert (· ≤ ·) p) [] ↔ a ∈ l := by
  induction l with
  | nil => exact Iff.rfl
  | cons b l ih =>
      rw [List.foldr_cons]
      split
      · next hb =>
          rw [ih, List.mem_cons]
          exact ⟨.inr, fun h => h.elim (fun heq => heq ▸ (ih.mp (heq ▸ hb))) id⟩
      · rw [List.mem_orderedInsert, ih, List.mem_cons]

theorem nodup_distinct (l : List α) :
    (l.foldr (fun p l => if p ∈ l then l else l.orderedInsert (· ≤ ·) p) []).Nodup := by
  induction l with
  | nil => exact List.nodup_nil
  | cons b l ih =>
      rw [List.foldr_cons]
      split
      · exact ih
      · next hb => exact (List.perm_orderedInsert _ _ _).nodup_iff.mpr (List.nodup_cons.mpr ⟨hb, ih⟩)

theorem length_distinct_le_one {l : List α} :
    (l.foldr (fun p l => if p ∈ l then l else l.orderedInsert (· ≤ ·) p) []).length ≤ 1 ↔
      ∀ a ∈ l, ∀ b ∈ l, a = b := by
  have hmem := fun a : α => mem_distinct (l := l) (a := a)
  have hnodup := nodup_distinct l
  generalize l.foldr (fun p l => if p ∈ l then l else l.orderedInsert (· ≤ ·) p) [] = d
    at hmem hnodup ⊢
  rcases d with _ | ⟨a, _ | ⟨b, d⟩⟩
  · exact ⟨fun _ a ha => absurd ((hmem a).mpr ha) List.not_mem_nil, fun _ => Nat.zero_le 1⟩
  · refine ⟨fun _ x hx y hy => ?_, fun _ => Nat.le_refl 1⟩
    exact (List.mem_singleton.mp ((hmem x).mpr hx)).trans
      (List.mem_singleton.mp ((hmem y).mpr hy)).symm
  · constructor
    · intro hlen
      rw [List.length_cons, List.length_cons] at hlen
      omega
    · intro hall
      have ha := (hmem a).mp List.mem_cons_self
      have hb := (hmem b).mp (List.mem_cons_of_mem a List.mem_cons_self)
      exact absurd (hall a ha b hb ▸ List.mem_cons_self) (List.nodup_cons.mp hnodup).1

end

/-! ### The interfaces -/

/-- What `validate` asks of an interface apart from its name's being new. -/
def SerialChannel.Valid (declared : List String) (t : Target) (s : SerialChannel) : Prop :=
  (s.name != "" && s.device != "") = true ∧
    (s.powerSenseSignal.all fun sense => sense ∈ VALID_SENSE_SIGNALS) = true ∧
    t.hostOf s.host ∈ declared

theorem checkHostRef_eq_ok {host ctx : String} {declared : List String} :
    checkHostRef host declared ctx = .ok () ↔ host ∈ declared := by
  rw [checkHostRef]
  split
  · next h => exact ⟨fun _ => h, fun _ => rfl⟩
  · next h =>
      constructor
      · intro h
        cases h
      · exact fun hmem => absurd hmem h

theorem validateSerials_eq_ok {declared seen : List String} {name : String} {t : Target}
    {l : List SerialChannel} : validateSerials declared name t seen l = .ok () ↔
      (∀ s ∈ l, s.Valid declared t) ∧ (l.map (·.name)).Nodup ∧ ∀ s ∈ l, s.name ∉ seen := by
  induction l generalizing seen with
  | nil =>
      exact ⟨fun _ => ⟨fun _ h => absurd h List.not_mem_nil, List.nodup_nil,
        fun _ h => absurd h List.not_mem_nil⟩, fun _ => rfl⟩
  | cons s l ih =>
      have hunseen : (!decide (s.name ∈ seen)) = true ↔ s.name ∉ seen := by
        rw [Bool.not_eq_true', decide_eq_false_iff_not]
      rw [validateSerials, seq_eq_ok, seq_eq_ok, seq_eq_ok, seq_eq_ok, require_eq_ok, require_eq_ok,
        require_eq_ok, checkHostRef_eq_ok, ih, hunseen, List.map_cons, List.nodup_cons,
        List.forall_mem_cons, List.forall_mem_cons]
      constructor
      · rintro ⟨hset, hnew, hsense, hhost, hvalid, hnodup, hrest⟩
        refine ⟨⟨⟨hset, hsense, hhost⟩, hvalid⟩, ⟨fun hmem => ?_, hnodup⟩, hnew, fun x hx => ?_⟩
        · obtain ⟨x, hx, heq⟩ := List.mem_map.mp hmem
          exact hrest x hx (heq ▸ List.mem_cons_self)
        · exact fun hmem => hrest x hx (List.mem_cons_of_mem _ hmem)
      · rintro ⟨⟨⟨hset, hsense, hhost⟩, hvalid⟩, ⟨hnotin, hnodup⟩, hnew, hrest⟩
        refine ⟨hset, hnew, hsense, hhost, hvalid, hnodup, fun x hx hmem => ?_⟩
        rcases List.mem_cons.mp hmem with heq | hmem
        · exact hnotin (heq ▸ List.mem_map_of_mem hx)
        · exact hrest x hx hmem

/-! ### Ports of the interfaces -/

/-- No two interfaces name different ports. -/
def Target.OnePort (t : Target) : Prop :=
  ∀ s ∈ t.serial, ∀ s' ∈ t.serial, ∀ p p', s.port = some p → s'.port = some p' → p ≠ 0 → p' ≠ 0 →
    p = p'

theorem length_serialPorts_iff {t : Target} : t.serialPorts.length ≤ 1 ↔ t.OnePort := by
  have hmem : ∀ a, a ∈ ((t.serial.filterMap SerialChannel.port).filter (· != 0)).map UInt16.toNat ↔
      ∃ s ∈ t.serial, ∃ p, s.port = some p ∧ p ≠ 0 ∧ p.toNat = a := by
    intro a
    rw [List.mem_map]
    constructor
    · rintro ⟨p, hp, rfl⟩
      rw [List.mem_filter, List.mem_filterMap] at hp
      obtain ⟨⟨s, hs, hport⟩, hne⟩ := hp
      exact ⟨s, hs, p, hport, bne_iff_ne.mp hne, rfl⟩
    · rintro ⟨s, hs, p, hport, hne, rfl⟩
      exact ⟨p, List.mem_filter.mpr ⟨List.mem_filterMap.mpr ⟨s, hs, hport⟩, bne_iff_ne.mpr hne⟩, rfl⟩
  rw [Target.serialPorts, length_distinct_le_one]
  constructor
  · intro h s hs s' hs' p p' hp hp' hne hne'
    exact UInt16.toNat_inj.mp (h _ ((hmem _).mpr ⟨s, hs, p, hp, hne, rfl⟩) _
      ((hmem _).mpr ⟨s', hs', p', hp', hne', rfl⟩))
  · intro h a ha b hb
    obtain ⟨s, hs, p, hp, hne, rfl⟩ := (hmem a).mp ha
    obtain ⟨s', hs', p', hp', hne', rfl⟩ := (hmem b).mp hb
    rw [h s hs s' hs' p p' hp hp' hne hne']

theorem port_of_portInterface {t : Target} {s : SerialChannel} (hs : t.portInterface = some s) :
    s ∈ t.serial ∧ s.port = some t.serialPort ∧ t.serialPort ≠ 0 := by
  have hfind := hs
  rw [Target.portInterface] at hfind
  have hport := List.find?_some hfind
  rw [Option.any_eq_true] at hport
  obtain ⟨p, hp, hne⟩ := hport
  have heq : t.serialPort = p := by rw [serialPort_eq, hs, Option.bind_some, hp, Option.getD_some]
  rw [heq]
  exact ⟨List.mem_of_find?_eq_some hfind, hp, bne_iff_ne.mp hne⟩

/-- The serial port of a target is that of any interface with one. -/
theorem portInterface_of_port {t : Target} (h : t.OnePort) {s : SerialChannel} (hs : s ∈ t.serial)
    {p : UInt16} (hp : s.port = some p) (hne : p ≠ 0) :
    (∃ s', t.portInterface = some s') ∧ t.serialPort = p := by
  cases hfind : t.portInterface with
  | none =>
      have hnone := List.find?_eq_none.mp hfind s hs
      rw [hp, Option.any_some] at hnone
      exact absurd (bne_iff_ne.mpr hne) hnone
  | some s' =>
      obtain ⟨hs', hp', hne'⟩ := port_of_portInterface hfind
      exact ⟨⟨s', rfl⟩, h s' hs' s hs _ _ hp' hp hne' hne⟩

/-! ### The rules that carry over -/

theorem mem_serial_sliceTarget {t : Target} {host : String} {s' : SerialChannel} :
    s' ∈ (sliceTarget t host).serial ↔
      ∃ s ∈ t.serial, t.hostOf s.host = host ∧
        { s with host := none, port := setPort s.port none } = s' := by
  rw [sliceTarget]
  dsimp only
  rw [List.mem_map]
  constructor
  · rintro ⟨s, hs, rfl⟩
    exact ⟨s, (List.mem_filter.mp hs).1, eq_of_beq (List.mem_filter.mp hs).2, rfl⟩
  · rintro ⟨s, hs, hhost, rfl⟩
    exact ⟨s, List.mem_filter.mpr ⟨hs, beq_iff_eq.mpr hhost⟩, rfl⟩

/-- A port that is set and not 0 is kept. -/
theorem setPort_eq_some {port : Option UInt16} {p : UInt16} (hne : p ≠ 0) :
    setPort port none = some p ↔ port = some p := by
  cases port with
  | none => exact Iff.rfl
  | some q =>
      rw [setPort]
      by_cases hq : q = 0
      · rw [if_pos hq]
        constructor
        · intro h
          cases h
        · intro h
          exact absurd ((Option.some.inj h).symm.trans hq) hne
      · rw [if_neg hq]

theorem onePort_sliceTarget {t : Target} (h : t.OnePort) (host : String) :
    (sliceTarget t host).OnePort := by
  intro s hs s' hs' p p' hp hp' hne hne'
  obtain ⟨x, hx, -, rfl⟩ := mem_serial_sliceTarget.mp hs
  obtain ⟨x', hx', -, rfl⟩ := mem_serial_sliceTarget.mp hs'
  exact h x hx x' hx' p p' ((setPort_eq_some hne).mp hp) ((setPort_eq_some hne').mp hp') hne hne'

theorem hostOf_slice (t : Target) (host : String) : (sliceTarget t host).hostOf none = LOCAL := rfl

theorem serials_sliceTarget {declared : List String} {name : String} {t : Target}
    (h : validateSerials declared name t [] t.serial = .ok ()) (host : String) :
    validateSerials [LOCAL] name (sliceTarget t host) [] (sliceTarget t host).serial = .ok () := by
  rw [validateSerials_eq_ok] at h ⊢
  obtain ⟨hvalid, hnodup, -⟩ := h
  refine ⟨fun s hs => ?_, ?_, fun _ _ => List.not_mem_nil⟩
  · obtain ⟨x, hx, -, rfl⟩ := mem_serial_sliceTarget.mp hs
    obtain ⟨hset, hsense, -⟩ := hvalid x hx
    exact ⟨hset, hsense, List.mem_singleton.mpr (hostOf_slice t host)⟩
  · rw [sliceTarget]
    dsimp only
    rw [List.map_map]
    exact hnodup.sublist (List.filter_sublist.map _)

/-- A channel of the slice is one of the target, on the host. -/
theorem of_filter_map {α : Type} {o : Option α} {on : α → Bool} {strip : α → α} {c' : α}
    (h : (o.filter on).map strip = some c') : ∃ c, o = some c ∧ on c = true ∧ strip c = c' := by
  rw [Option.map_eq_some_iff] at h
  obtain ⟨c, hc, rfl⟩ := h
  rw [Option.filter_eq_some_iff] at hc
  exact ⟨c, hc.1, hc.2, rfl⟩

theorem checkHostRef_slice (t : Target) (host ctx : String) :
    checkHostRef ((sliceTarget t host).hostOf none) [LOCAL] ctx = .ok () :=
  checkHostRef_eq_ok.mpr (List.mem_singleton.mpr (hostOf_slice t host))

theorem video_sliceTarget {declared : List String} {name : String} {t : Target} {v : VideoChannel}
    {host : String} (hon : t.hostOf v.host = host) (h : validateVideo declared name t v = .ok ()) :
    validateVideo [LOCAL] name (sliceTarget t host)
      { v with host := none, port := setPort v.port none } = .ok () := by
  simp only [validateVideo, seq_eq_ok, checkAll_toList, require_eq_ok] at h ⊢
  obtain ⟨-, hdevice, hmode⟩ := h
  refine ⟨checkHostRef_slice t host _, fun dev hdev => ?_, hmode⟩
  have hfull := hdevice dev hdev
  rw [validateVideoDevice] at hfull ⊢
  split
  · next hrfb =>
      rw [if_pos hrfb] at hfull
      dsimp only at hfull ⊢
      cases hhid : t.hid with
      | none =>
          rw [hhid] at hfull
          cases hfull
      | some hid =>
          rw [hhid] at hfull
          dsimp only at hfull
          rw [require_eq_ok, beq_iff_eq, hon] at hfull
          have hslice : (sliceTarget t host).hid =
              some { hid with host := none, port := setPort hid.port none } := by
            rw [sliceTarget]
            dsimp only
            rw [hhid, Option.filter_some, if_pos (beq_iff_eq.mpr hfull), Option.map_some]
          rw [hslice]
          exact require_eq_ok.mpr (beq_self_eq_true _)
  · next hrfb =>
      rw [if_neg hrfb] at hfull
      exact require_eq_ok.mpr (require_eq_ok.mp hfull)

theorem validateTarget_slice {declared : List String} {name : String} {t : Target}
    (h : validateTarget declared (name, t) = .ok ()) (host : String) :
    validateTarget [LOCAL] (name, sliceTarget t host) = .ok () := by
  simp only [validateTarget, seq_eq_ok, checkAll_toList, require_eq_ok] at h ⊢
  obtain ⟨hname, -, hnetboot, hpower, hvideo, -, -, -, hactions, hserials, hports⟩ := h
  refine ⟨hname, checkHostRef_slice t host _, fun nb hnb => ?_, fun p hp => ?_, fun v hv => ?_,
    fun c hc => ?_, fun a ha => ?_, fun u hu => ?_, fun acts hacts => ?_,
    serials_sliceTarget hserials host, ?_⟩
  · obtain ⟨x, hx, -, rfl⟩ := of_filter_map hnb
    have hx := hnetboot x hx
    simp only [validateNetboot, seq_eq_ok] at hx ⊢
    exact ⟨checkHostRef_slice t host _, hx.2.1, hx.2.2⟩
  · obtain ⟨x, hx, -, rfl⟩ := of_filter_map hp
    have hx := hpower x hx
    simp only [validatePower, seq_eq_ok] at hx ⊢
    exact ⟨checkHostRef_slice t host _, hx.2⟩
  · obtain ⟨x, hx, hon, rfl⟩ := of_filter_map hv
    exact video_sliceTarget (eq_of_beq hon) (hvideo x hx)
  · obtain ⟨x, -, -, rfl⟩ := of_filter_map hc
    exact checkHostRef_slice t host _
  · obtain ⟨x, -, -, rfl⟩ := of_filter_map ha
    exact checkHostRef_slice t host _
  · obtain ⟨x, -, -, rfl⟩ := of_filter_map hu
    exact checkHostRef_slice t host _
  · obtain ⟨x, hx, -, rfl⟩ := of_filter_map hacts
    have hx := hactions x hx
    simp only [validateActions, seq_eq_ok] at hx ⊢
    exact ⟨checkHostRef_slice t host _, hx.2⟩
  · rw [decide_eq_true_iff] at hports ⊢
    exact length_serialPorts_iff.mpr (onePort_sliceTarget (length_serialPorts_iff.mp hports) host)

/-! ### The claims of a slice -/

theorem mem_claims {t : Target} {c : Claim} : c ∈ t.claims ↔
    ((∃ v, t.video = some v ∧ ⟨"video", t.hostOf v.host, fixedPort v.port⟩ = c) ∨
      ∃ k, t.hid = some k ∧ ⟨"hid", t.hostOf k.host, fixedPort k.port⟩ = c) ∨
      ∃ s, t.portInterface = some s ∧ ⟨"serial", t.hostOf s.host, t.serialPort⟩ = c := by
  simp only [Target.claims, List.mem_append, Option.mem_toList, Option.map_eq_some_iff]
  rfl

theorem nodup_claims (t : Target) : t.claims.Nodup := by
  refine List.Nodup.of_map Claim.kind ?_
  rw [Target.claims]
  cases t.video <;> cases t.hid <;> cases t.serial.find? fun s => s.port.any (· != 0) <;>
    simp only [Option.map_none, Option.map_some, Option.toList_none, Option.toList_some,
      List.nil_append, List.append_nil, List.cons_append, List.map_cons, List.map_nil] <;> decide

theorem checkClaims_of_apart {claimed l : List (String × Claim)}
    (hclaimed : ∀ c ∈ claimed, ∀ d ∈ l, c.2.Apart d.2)
    (hl : l.Pairwise fun a b => a.2.Apart b.2) : checkClaims claimed l = .ok () := by
  induction l generalizing claimed with
  | nil => rfl
  | cons d l ih =>
      obtain ⟨hd, hl⟩ := List.pairwise_cons.mp hl
      have hrest : ∀ c ∈ claimed, ∀ x ∈ l, c.2.Apart x.2 := fun c hc x hx =>
        hclaimed c hc x (List.mem_cons_of_mem d hx)
      rw [checkClaims]
      split
      · exact ih hrest hl
      · next hzero =>
          rw [beq_iff_eq] at hzero
          split
          · next p hfind =>
              have hsame := List.find?_some hfind
              rw [Bool.and_eq_true, beq_iff_eq, beq_iff_eq] at hsame
              have hne : p.2.port ≠ 0 := fun h => hzero (hsame.2.symm.trans h)
              exact absurd hsame (hclaimed p (List.mem_of_find?_eq_some hfind) d
                List.mem_cons_self hne)
          · refine ih (fun c hc x hx => ?_) hl
            rcases List.mem_cons.mp hc with rfl | hc
            · exact hd x hx
            · exact hrest c hc x hx

/-- A lab with one target is accepted when the target is, and its claims are apart. -/
theorem validate_single_iff {name : String} {u : Target} :
    validate (single name u) = .ok () ↔ validateTarget [LOCAL] (name, u) = .ok () ∧
      ∀ a ∈ u.claims, ∀ b ∈ u.claims, a ≠ b → a.Apart b := by
  have hclaims : (single name u).claims =
      u.claims.map fun c => (s!"target '" ++ name ++ "' " ++ c.kind, c) := by
    rw [Lab.claims]
    exact List.append_nil _
  have hfixed : checkFixedPorts (single name u) = .ok () ↔
      ∀ a ∈ u.claims, ∀ b ∈ u.claims, a ≠ b → a.Apart b := by
    rw [checkFixedPorts, hclaims]
    constructor
    · intro h a ha b hb hne
      have hpairs := (apart_of_checkClaims h).2
      rw [List.pairwise_map] at hpairs
      exact hpairs.forall ha hb hne
    · intro h
      refine checkClaims_of_apart (fun c hc => absurd hc List.not_mem_nil) ?_
      rw [List.pairwise_map]
      exact (nodup_claims u).pairwise_of_forall_ne h
  rw [validate_eq_ok, hfixed]
  constructor
  · rintro ⟨-, htargets, hapart⟩
    exact ⟨htargets (name, u) List.mem_cons_self, hapart⟩
  · rintro ⟨htarget, hapart⟩
    refine ⟨fun e he => absurd he List.not_mem_nil, fun e he => ?_, hapart⟩
    rw [List.mem_singleton.mp he]
    exact htarget

/-- The screen or the keyboard on the host has the port of a console there. -/
def PortTaken (t : Target) (host : String) : Prop :=
  ∃ s ∈ t.serial, t.hostOf s.host = host ∧ ∃ p, s.port = some p ∧ p ≠ 0 ∧
    ((∃ v, t.video = some v ∧ t.hostOf v.host = host ∧ v.port = some p) ∨
      ∃ k, t.hid = some k ∧ t.hostOf k.host = host ∧ k.port = some p)

theorem fixedPort_eq {port : Option UInt16} {p : UInt16} (hne : p ≠ 0) :
    fixedPort port = p ↔ port = some p := by
  cases port with
  | none =>
      constructor
      · intro h
        exact absurd h.symm hne
      · intro h
        cases h
  | some q => exact ⟨congrArg some, Option.some.inj⟩

section

variable {t : Target} {host : String} {a b : Claim}

/-- The claims of the slice for the screen and the keyboard are claims of the target. -/
theorem claim_of_slice (ha : a ∈ (sliceTarget t host).claims) (hkind : a.kind ≠ "serial") :
    ⟨a.kind, host, a.port⟩ ∈ t.claims := by
  rw [mem_claims] at ha ⊢
  rcases ha with (⟨v, hv, rfl⟩ | ⟨k, hk, rfl⟩) | ⟨s, -, rfl⟩
  · obtain ⟨w, hw, hon, rfl⟩ := of_filter_map hv
    rw [← eq_of_beq hon, fixedPort_setPort]
    exact .inl (.inl ⟨w, hw, rfl⟩)
  · obtain ⟨w, hw, hon, rfl⟩ := of_filter_map hk
    rw [← eq_of_beq hon, fixedPort_setPort]
    exact .inl (.inr ⟨w, hw, rfl⟩)
  · exact absurd rfl hkind

/-- A serial claim of the slice that another of its claims meets. -/
theorem portTaken_of_claims (ha : a ∈ (sliceTarget t host).claims) (hserial : a.kind = "serial")
    (hb : b ∈ (sliceTarget t host).claims) (hother : b.kind ≠ "serial") (hport : a.port = b.port) :
    PortTaken t host := by
  rw [mem_claims] at ha
  rcases ha with (⟨v, -, rfl⟩ | ⟨k, -, rfl⟩) | ⟨s, hs, rfl⟩
  · exact absurd hserial (by decide : "video" ≠ "serial")
  · exact absurd hserial (by decide : "hid" ≠ "serial")
  · obtain ⟨hmem, hp, hne⟩ := port_of_portInterface hs
    obtain ⟨x, hx, hon, rfl⟩ := mem_serial_sliceTarget.mp hmem
    refine ⟨x, hx, hon, _, (setPort_eq_some hne).mp hp, hne, ?_⟩
    have hclaim := mem_claims.mp (claim_of_slice hb hother)
    dsimp only at hport
    rw [hport] at hne ⊢
    rcases hclaim with (⟨v, hv, hc⟩ | ⟨k, hk, hc⟩) | ⟨s, -, hc⟩
    · exact .inl ⟨v, hv, congrArg Claim.host hc, (fixedPort_eq hne).mp (congrArg Claim.port hc)⟩
    · exact .inr ⟨k, hk, congrArg Claim.host hc, (fixedPort_eq hne).mp (congrArg Claim.port hc)⟩
    · exact absurd (congrArg Claim.kind hc).symm hother

/-- The claims of a slice that share a port. -/
theorem claims_of_portTaken (hone : t.OnePort) (h : PortTaken t host) :
    ∃ a ∈ (sliceTarget t host).claims, ∃ b ∈ (sliceTarget t host).claims,
      a ≠ b ∧ ¬a.Apart b := by
  obtain ⟨s, hs, hon, p, hp, hne, hother⟩ := h
  obtain ⟨⟨s', hs'⟩, hport⟩ := portInterface_of_port (onePort_sliceTarget hone host)
    (mem_serial_sliceTarget.mpr ⟨s, hs, hon, rfl⟩) ((setPort_eq_some hne).mpr hp) hne
  have hlocal : (sliceTarget t host).hostOf s'.host = LOCAL := by
    obtain ⟨x, -, -, rfl⟩ := mem_serial_sliceTarget.mp (port_of_portInterface hs').1
    rfl
  have hserial : (⟨"serial", LOCAL, p⟩ : Claim) ∈ (sliceTarget t host).claims :=
    mem_claims.mpr (.inr ⟨s', hs', by rw [hlocal, hport]⟩)
  rcases hother with ⟨v, hv, hvon, hvp⟩ | ⟨k, hk, hkon, hkp⟩
  · have hslice : (sliceTarget t host).video =
        some { v with host := none, port := setPort v.port none } := by
      rw [sliceTarget]
      dsimp only
      rw [hv, Option.filter_some, if_pos (beq_iff_eq.mpr hvon), Option.map_some]
    refine ⟨⟨"video", LOCAL, p⟩, mem_claims.mpr (.inl (.inl ⟨_, hslice, ?_⟩)), _, hserial,
      fun heq => absurd (congrArg Claim.kind heq) (by decide : "video" ≠ "serial"), fun hapart => hapart hne ⟨rfl, rfl⟩⟩
    rw [fixedPort_setPort, (fixedPort_eq hne).mpr hvp]
    rfl
  · have hslice : (sliceTarget t host).hid =
        some { k with host := none, port := setPort k.port none } := by
      rw [sliceTarget]
      dsimp only
      rw [hk, Option.filter_some, if_pos (beq_iff_eq.mpr hkon), Option.map_some]
    refine ⟨⟨"hid", LOCAL, p⟩, mem_claims.mpr (.inl (.inr ⟨_, hslice, ?_⟩)), _, hserial,
      fun heq => absurd (congrArg Claim.kind heq) (by decide : "hid" ≠ "serial"), fun hapart => hapart hne ⟨rfl, rfl⟩⟩
    rw [fixedPort_setPort, (fixedPort_eq hne).mpr hkp]
    rfl

/-- The slice of a target of a valid lab is accepted unless a port is taken on the host. -/
theorem validate_slice_iff {lab : Lab} (h : validate lab = .ok ()) {name : String}
    (ht : lab.targets.get? name = some t) (host : String) :
    validate (single name (sliceTarget t host)) = .ok () ↔ ¬PortTaken t host := by
  have htarget := (validate_eq_ok.mp h).2.1 _ (OrderedMap.get?_eq_some_iff.mp ht)
  have hone : t.OnePort := by
    simp only [validateTarget, seq_eq_ok, require_eq_ok] at htarget
    exact length_serialPorts_iff.mp (of_decide_eq_true htarget.2.2.2.2.2.2.2.2.2.2)
  rw [validate_single_iff]
  constructor
  · rintro ⟨-, hapart⟩ htaken
    obtain ⟨a, ha, b, hb, hne, hclash⟩ := claims_of_portTaken hone htaken
    exact hclash (hapart a ha b hb hne)
  · intro hfree
    refine ⟨validateTarget_slice htarget host, fun a ha b hb hne hport hsame => hne ?_⟩
    have hkinds : a.kind = b.kind := by
      by_cases hserial : a.kind = "serial"
      · by_contra hother
        exact hfree (portTaken_of_claims ha hserial hb
          (fun hb => hother (hserial.trans hb.symm)) hsame.2)
      · by_cases hserial' : b.kind = "serial"
        · exact absurd (portTaken_of_claims hb hserial' ha hserial hsame.2.symm) hfree
        · obtain ⟨-, heq⟩ := claim_unique h ht ht (claim_of_slice ha hserial)
            (claim_of_slice hb hserial') hport rfl hsame.2
          exact (Claim.mk.inj heq).1
    cases a
    cases b
    obtain ⟨rfl, rfl⟩ := hsame
    cases hkinds
    rfl

end

/-! ### Slices of a valid lab -/

/-- An action on the host has the name of a setting of the actions table. A lab file cannot say so:
there the name is that of the setting. -/
def KeyNamed (t : Target) (host : String) : Prop :=
  ∃ acts, t.actions = some acts ∧ t.hostOf acts.host = host ∧
    ∃ e ∈ acts.actions.entries, e.1 ∈ ACTIONS_TABLE_KEYS

theorem writable_of_validate {lab : Lab} (h : validate lab = .ok ()) (hnames : NamesValid lab)
    {name : String} {t : Target} (ht : lab.targets.get? name = some t) {host : String}
    (hkeys : ¬KeyNamed t host) : t.Writable host := by
  have hmem := OrderedMap.get?_eq_some_iff.mp ht
  have htarget := (validate_eq_ok.mp h).2.1 _ hmem
  obtain ⟨-, hvalid⟩ := hnames _ hmem
  simp only [validateTarget, seq_eq_ok, checkAll_toList] at htarget
  obtain ⟨-, -, -, hpower, -, -, -, -, -, hserials, -⟩ := htarget
  refine ⟨hvalid.serial, (validateSerials_eq_ok.mp hserials).2.1, fun p hp e he => ?_,
    fun acts hacts hon e he => ⟨hvalid.actions acts hacts e he, fun hkey => ?_⟩⟩
  · have hlevels := hpower p hp
    simp only [validatePower, seq_eq_ok, checkAll_eq_ok] at hlevels
    have hlevel := hlevels.2 e he
    simp only [validatePowerLevel, seq_eq_ok, require_eq_ok] at hlevel
    exact ⟨hlevel.1, bne_iff_ne.mp hlevel.2.1, hlevel.2.2.1⟩
  · exact hkeys ⟨acts, hacts, hon, e, he, hkey⟩

theorem not_keyNamed_of_buildSlice {lab : Lab} {name host : String} {t : Target}
    (ht : lab.targets.get? name = some t) {slice : Lab} (h : buildSlice lab name host = .ok slice) :
    ¬KeyNamed t host := by
  rintro ⟨acts, hacts, hon, e, he, hkey⟩
  rw [buildSlice, ht] at h
  simp only [bind_eq_ok] at h
  obtain ⟨-, -, -, -, -, -, -, -, -, -, -, -, -, -, lf, -, h⟩ := h
  rw [hacts, forChannel, if_pos (beq_iff_eq.mpr hon)] at h
  exact notMem_keys_of_sliceActions name h e he hkey

/-- What a host is given of a target: an accepted lab without hosts, whose only target has the
channels that the full lab places on the host, as its own, and for which what the full lab runs
on the host is local. -/
structure Dispatched (lab : Lab) (name : String) (t : Target) (host : String) (slice : Lab) : Prop where
  built : buildSlice lab name host = .ok slice
  accepted : validate slice = .ok ()
  hosts : slice.hosts = .empty
  targets : slice.targets.entries = [(name, sliceTarget t host)]
  channels : (sliceTarget t host).channels =
    (t.normal.channels.filter fun c => c.host == host).map ResolvedChannel.atLocal
  local_again : ∀ kind serialName, channelHost (t.resolve name) kind serialName = .ok host →
    channelHost ((sliceTarget t host).resolve name) kind serialName = .ok LOCAL

/-- A valid lab can be dispatched to a host exactly when no screen or keyboard there has the port of
a console there, and no action there the name of a setting. -/
theorem dispatched_iff {lab : Lab} (h : validate lab = .ok ()) (hnames : NamesValid lab)
    {name : String} {t : Target} (ht : lab.targets.get? name = some t) (host : String) :
    (∃ slice, Dispatched lab name t host slice) ↔ ¬PortTaken t host ∧ ¬KeyNamed t host := by
  have hrp : ∀ acts, t.actions = some acts →
      ∀ e ∈ acts.actions.entries, e.2.requiresPower ≠ some "none" := fun _ ha =>
    requiresPower_of_validate h ht ha
  constructor
  · rintro ⟨slice, hslice⟩
    have haccepted := hslice.accepted
    rw [eq_of_buildSlice ht hrp hslice.built] at haccepted
    exact ⟨(validate_slice_iff h ht host).mp haccepted, not_keyNamed_of_buildSlice ht hslice.built⟩
  · rintro ⟨hport, hkeys⟩
    have hname := (hnames _ (OrderedMap.get?_eq_some_iff.mp ht)).1
    obtain ⟨slice, hslice⟩ := buildSlice_of_writable name ht hname
      (writable_of_validate h hnames ht hkeys)
    obtain rfl := eq_of_buildSlice ht hrp hslice
    exact ⟨_, hslice, (validate_slice_iff h ht host).mpr hport, rfl, rfl, channels_sliceTarget t host,
      fun _ _ hhost => channelHost_slice hhost⟩

/-- The console and the screen of the board are on one host, its power on another one. -/
def splitTarget : Target where
  host := some "bench"
  serial := [{ name := "uart", device := "/dev/ttyUSB0", port := some 5000 }]
  video := some { device := some "/dev/video0", port := some 0 }
  power := some { cycleCmd := some "cycle", host := some "rack" }

def splitLab : Lab where
  hosts := (OrderedMap.empty.insert "bench" { ssh := "lab@bench" }).insert "rack"
    { ssh := "lab@rack" }
  targets := OrderedMap.empty.insert "board" splitTarget

theorem dispatched_split : ∃ slice, Dispatched splitLab "board" splitTarget "bench" slice := by
  have hvalid : validate splitLab = .ok () := by decide +kernel
  have htarget : splitLab.targets.get? "board" = some splitTarget := by decide +kernel
  have hnames : NamesValid splitLab := by
    intro e he
    rw [List.mem_singleton.mp he]
    refine ⟨by decide +kernel, fun s hs => ?_, fun p hp e he => ?_, fun acts hacts => ?_⟩
    · rw [List.mem_singleton.mp hs]
      decide +kernel
    · cases hp
      exact absurd he List.not_mem_nil
    · cases hacts
  refine (dispatched_iff hvalid hnames htarget "bench").mpr ⟨?_, ?_⟩
  · rintro ⟨s, -, -, p, -, hne, ⟨v, hv, -, hp⟩ | ⟨k, hk, -⟩⟩
    · cases hv
      exact hne (Option.some.inj hp).symm
    · cases hk
  · rintro ⟨acts, hacts, -⟩
    cases hacts

end Cli

end Paniolo
