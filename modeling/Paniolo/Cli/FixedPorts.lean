import Mathlib.Data.List.Pairwise
import Paniolo.Cli.Dispatch

/-!
# Fixed ports of the daemons on a host

`check_fixed_ports` refuses a lab in which two daemons would listen on one
port of one host. It claims the port of a serialcap daemon for the host of the
first interface that sets it. But a target whose interfaces are on several
hosts has a serialcap daemon on each of them, and such a daemon takes its port
from what that host sees of the target: the slice, or on `local` the target
itself.

`ports_distinct_iff` says when a valid lab gives no port twice: when no daemon
that is not claimed for has the port of another one.
-/

namespace Paniolo

namespace Cli

/-- The kinds of daemons that can have a fixed port. -/
inductive DaemonKind where
  | serialcap
  | hdmicap
  | hid
deriving DecidableEq, Repr

/-- The kind of channel that a daemon serves, as the claims name it. -/
def DaemonKind.claimKind : DaemonKind → String
  | serialcap => "serial"
  | hdmicap => "video"
  | hid => "hid"

theorem DaemonKind.claimKind_injective {k k' : DaemonKind} (h : k.claimKind = k'.claimKind) :
    k = k' := by
  cases k <;> cases k' <;> first | rfl | exact absurd h (by decide)

/-- `model::parse` of a slice, and its target. -/
def parseSlice (target : String) (slice : Lab) : Option Target :=
  if validate slice = .ok () then slice.targets.get? target else none

/-- The target as a command sees it that runs on `host`: from the lab itself on
`local`, from a slice on any other host. -/
def seenOn (lab : Lab) (target host : String) : Option Target :=
  if host = LOCAL then lab.targets.get? target
  else (buildSlice lab target host).toOption.bind (parseSlice target)

/-- The port that a daemon of a target is started with on a host, if it runs there. -/
def daemonPort (lab : Lab) (host target : String) (kind : DaemonKind) : Option UInt16 :=
  (lab.targets.get? target).bind fun t =>
    match kind with
    | .serialcap =>
        if t.serial.any fun s => t.hostOf s.host == host then
          (seenOn lab target host).map Target.serialPort
        else none
    | .hdmicap =>
        (t.video.filter fun v => t.hostOf v.host == host).map fun v => fixedPort v.port
    | .hid => (t.hid.filter fun h => t.hostOf h.host == host).map fun h => fixedPort h.port

/-- No two daemons on the host have the same nonzero port. -/
def PortsDistinct (lab : Lab) (host : String) : Prop :=
  ∀ n n' k k' p, p ≠ 0 → daemonPort lab host n k = some p → daemonPort lab host n' k' = some p →
    n = n' ∧ k = k'

/-- The first interface that sets a nonzero port. -/
def Target.portInterface (t : Target) : Option SerialChannel :=
  t.serial.find? fun s => s.port.any (· != 0)

/-- The serialcap daemon of the target has its port on `host`, but the interface that
`check_fixed_ports` claims it for is on another one. -/
def Stray (lab : Lab) (host target : String) (p : UInt16) : Prop :=
  daemonPort lab host target .serialcap = some p ∧
    ∀ t s, lab.targets.get? target = some t → t.portInterface = some s → t.hostOf s.host ≠ host

/-- A daemon that is not claimed for has its port to itself. -/
def StraysApart (lab : Lab) (host : String) : Prop :=
  ∀ n n' k p, p ≠ 0 → Stray lab host n p → daemonPort lab host n' k = some p →
    n' = n ∧ k = .serialcap

/-! ### The claims of a valid lab -/

/-- Two claims that can stand together. -/
def Claim.Apart (a b : Claim) : Prop := a.port ≠ 0 → ¬(a.host = b.host ∧ a.port = b.port)

theorem Claim.apart_symm {a b : Claim} (h : a.Apart b) : b.Apart a := by
  intro hb hab
  apply h
  · rw [← hab.2]
    exact hb
  · exact ⟨hab.1.symm, hab.2.symm⟩

instance : Std.Symm Claim.Apart := ⟨fun _ _ => Claim.apart_symm⟩

theorem apart_of_checkClaims {claimed l : List (String × Claim)}
    (h : checkClaims claimed l = .ok ()) :
    (∀ c ∈ claimed, ∀ d ∈ l, c.2.Apart d.2) ∧ l.Pairwise fun a b => a.2.Apart b.2 := by
  induction l generalizing claimed with
  | nil => exact ⟨fun c _ d hd => absurd hd List.not_mem_nil, List.Pairwise.nil⟩
  | cons d l ih =>
      rw [checkClaims] at h
      split at h
      · rename_i hzero
        rw [beq_iff_eq] at hzero
        have hd : ∀ c : String × Claim, c.2.Apart d.2 := fun c hc hcd =>
          hc (hcd.2.trans hzero)
        obtain ⟨hclaimed, hl⟩ := ih h
        refine ⟨fun c hc x hx => ?_, List.pairwise_cons.mpr ⟨fun x _ => Claim.apart_symm (hd x), hl⟩⟩
        rcases List.mem_cons.mp hx with rfl | hx
        · exact hd c
        · exact hclaimed c hc x hx
      · split at h
        · cases h
        · rename_i hfind
          obtain ⟨hclaimed, hl⟩ := ih h
          refine ⟨fun c hc x hx => ?_, List.pairwise_cons.mpr ⟨fun x hx => ?_, hl⟩⟩
          · rcases List.mem_cons.mp hx with rfl | hx
            · intro _ hcx
              have := List.find?_eq_none.mp hfind c hc
              rw [hcx.1, hcx.2, beq_self_eq_true, beq_self_eq_true] at this
              exact this rfl
            · exact hclaimed c (List.mem_cons_of_mem _ hc) x hx
          · exact hclaimed d List.mem_cons_self x hx

/-- Two claims of a valid lab on one port of a host are one claim of one target. -/
theorem claim_unique {lab : Lab} (h : validate lab = .ok ()) {n n' : String} {t t' : Target}
    (ht : lab.targets.get? n = some t) (ht' : lab.targets.get? n' = some t') {c c' : Claim}
    (hc : c ∈ t.claims) (hc' : c' ∈ t'.claims) (hport : c.port ≠ 0) (hhost : c.host = c'.host)
    (hsame : c.port = c'.port) : n = n' ∧ c = c' := by
  obtain ⟨-, hpairs⟩ := apart_of_checkClaims (validate_eq_ok.mp h).2.2
  rw [Lab.claims, List.pairwise_flatMap] at hpairs
  obtain ⟨hinner, houter⟩ := hpairs
  rw [OrderedMap.get?_eq_some_iff] at ht ht'
  by_cases hn : n = n'
  · subst hn
    obtain rfl := OrderedMap.eq_of_mem ht ht'
    refine ⟨rfl, ?_⟩
    by_contra hne
    have hclaims := hinner _ ht
    rw [List.pairwise_map] at hclaims
    exact hclaims.forall hc hc' hne hport ⟨hhost, hsame⟩
  · have htargets : lab.targets.entries.Pairwise fun a b =>
        ∀ x ∈ a.2.claims, ∀ y ∈ b.2.claims, x.Apart y := by
      refine houter.imp fun {a b} hab x hx y hy => ?_
      exact hab (_, x) (List.mem_map.mpr ⟨x, hx, rfl⟩) (_, y) (List.mem_map.mpr ⟨y, hy, rfl⟩)
    have hsymm : Std.Symm fun a b : String × Target =>
        ∀ x ∈ a.2.claims, ∀ y ∈ b.2.claims, x.Apart y :=
      ⟨fun a b hab x hx y hy => Claim.apart_symm (hab y hy x hx)⟩
    have hne : (n, t) ≠ (n', t') := fun heq => hn (congrArg Prod.fst heq)
    exact absurd ⟨hhost, hsame⟩ (htargets.forall ht ht' hne c hc c' hc' hport)

/-! ### Ports as a host sees them -/

theorem find?_filterMap_port (l : List SerialChannel) :
    (l.filterMap SerialChannel.port).find? (· != 0) =
      (l.find? fun s => s.port.any (· != 0)).bind SerialChannel.port := by
  induction l with
  | nil => rfl
  | cons s l ih =>
      cases hp : s.port with
      | none =>
          rw [List.filterMap_cons_none hp, ih, List.find?_cons_of_neg]
          rw [hp]
          exact Bool.false_ne_true
      | some p =>
          rw [List.filterMap_cons_some hp, List.find?_cons, List.find?_cons, hp, Option.any_some]
          cases p != 0 with
          | true => exact hp.symm
          | false => exact ih

theorem serialPort_eq (t : Target) :
    t.serialPort = (t.portInterface.bind SerialChannel.port).getD 0 := by
  rw [Target.serialPort, find?_filterMap_port]
  rfl

theorem fixedPort_setPort (port : Option UInt16) : fixedPort (setPort port none) = fixedPort port := by
  cases port with
  | none => rfl
  | some p =>
      rw [setPort]
      by_cases hp : p = 0
      · rw [hp]
        rfl
      · rw [if_neg hp]

/-- On the host of the interface that sets the port, the slice has that port. -/
theorem serialPort_sliceTarget {t : Target} {host : String} {s : SerialChannel}
    (hs : t.portInterface = some s) (hhost : t.hostOf s.host = host) :
    (sliceTarget t host).serialPort = t.serialPort := by
  have hport : ∀ port : Option UInt16,
      (setPort port none).any (· != 0) = port.any (· != 0) := by
    intro port
    cases port with
    | none => rfl
    | some p =>
        rw [setPort]
        by_cases hp : p = 0
        · rw [hp]
          rfl
        · rw [if_neg hp]
  have hfind : (sliceTarget t host).portInterface =
      some { s with host := none, port := setPort s.port none } := by
    have hfirst : (t.serial.filter fun s => t.hostOf s.host == host).find?
        (fun s => s.port.any (· != 0)) = some s := by
      rw [List.find?_filter]
      rw [Target.portInterface, List.find?_eq_some_iff_append] at hs
      obtain ⟨hs, l, r, hl, hbefore⟩ := hs
      rw [List.find?_eq_some_iff_append]
      refine ⟨?_, l, r, hl, fun a ha => ?_⟩
      · exact decide_eq_true ⟨beq_iff_eq.mpr hhost, hs⟩
      · rw [Bool.not_eq_true', decide_eq_false_iff_not]
        rintro ⟨-, hport⟩
        have := hbefore a ha
        rw [hport] at this
        cases this
    rw [Target.portInterface, sliceTarget]
    dsimp only
    rw [List.find?_map]
    simp only [Function.comp_def, hport]
    rw [hfirst]
    rfl
  rw [serialPort_eq, serialPort_eq, hfind, hs]
  exact fixedPort_setPort s.port

/-- What a host sees of a target whose port is set by an interface on it. -/
theorem serialPort_seenOn {lab : Lab} (h : validate lab = .ok ()) {n host : String} {t u : Target}
    (ht : lab.targets.get? n = some t) {s : SerialChannel} (hs : t.portInterface = some s)
    (hhost : t.hostOf s.host = host) (hu : seenOn lab n host = some u) :
    u.serialPort = t.serialPort := by
  rw [seenOn] at hu
  split at hu
  · rw [ht] at hu
    rw [Option.some.inj hu]
  · cases hslice : buildSlice lab n host with
    | error e =>
        rw [hslice] at hu
        cases hu
    | ok slice =>
        obtain rfl := eq_of_buildSlice ht (fun _ ha => requiresPower_of_validate h ht ha) hslice
        rw [hslice] at hu
        change parseSlice n (single n (sliceTarget t host)) = some u at hu
        rw [parseSlice, get?_single] at hu
        split at hu
        · rw [← Option.some.inj hu]
          exact serialPort_sliceTarget hs hhost
        · cases hu

/-! ### Daemons and claims -/

/-- Every daemon with a fixed port is claimed for, unless it is a stray one. -/
theorem claim_or_stray {lab : Lab} (h : validate lab = .ok ()) {host n : String} {k : DaemonKind}
    {p : UInt16} (hp : p ≠ 0) (hd : daemonPort lab host n k = some p) :
    (∃ t, lab.targets.get? n = some t ∧ ⟨k.claimKind, host, p⟩ ∈ t.claims) ∨
      (k = .serialcap ∧ Stray lab host n p) := by
  have hd' := hd
  rw [daemonPort, Option.bind_eq_some_iff] at hd'
  obtain ⟨t, ht, hport⟩ := hd'
  cases k with
  | hdmicap =>
      left
      rw [Option.map_eq_some_iff] at hport
      obtain ⟨v, hv, rfl⟩ := hport
      rw [Option.filter_eq_some_iff, beq_iff_eq] at hv
      refine ⟨t, ht, ?_⟩
      rw [Target.claims, hv.1, ← hv.2]
      exact List.mem_append_left _ (List.mem_append_left _ List.mem_cons_self)
  | hid =>
      left
      rw [Option.map_eq_some_iff] at hport
      obtain ⟨c, hc, rfl⟩ := hport
      rw [Option.filter_eq_some_iff, beq_iff_eq] at hc
      refine ⟨t, ht, ?_⟩
      rw [Target.claims, hc.1, ← hc.2]
      exact List.mem_append_left _ (List.mem_append_right _ List.mem_cons_self)
  | serialcap =>
      by_cases hclaimed : ∃ s, t.portInterface = some s ∧ t.hostOf s.host = host
      · left
        obtain ⟨s, hs, hhost⟩ := hclaimed
        refine ⟨t, ht, ?_⟩
        dsimp only at hport
        split at hport
        · rw [Option.map_eq_some_iff] at hport
          obtain ⟨u, hu, rfl⟩ := hport
          rw [serialPort_seenOn h ht hs hhost hu, Target.claims]
          rw [Target.portInterface] at hs
          rw [hs, ← hhost]
          exact List.mem_append_right _ List.mem_cons_self
        · cases hport
      · right
        refine ⟨rfl, hd, fun t' s ht' hs hhost => hclaimed ⟨s, ?_, ?_⟩⟩
        · obtain rfl := Option.some.inj (ht.symm.trans ht')
          exact hs
        · obtain rfl := Option.some.inj (ht.symm.trans ht')
          exact hhost

/-- In a valid lab no two daemons on a host have the same port exactly when those
that are not claimed for have it to themselves. -/
theorem ports_distinct_iff {lab : Lab} (h : validate lab = .ok ()) (host : String) :
    PortsDistinct lab host ↔ StraysApart lab host := by
  constructor
  · intro hdistinct n n' k p hp hstray hd
    obtain ⟨rfl, rfl⟩ := hdistinct n n' .serialcap k p hp hstray.1 hd
    exact ⟨rfl, rfl⟩
  · intro hstrays n n' k k' p hp hd hd'
    rcases claim_or_stray h hp hd with ⟨t, ht, hc⟩ | ⟨rfl, hs⟩
    · rcases claim_or_stray h hp hd' with ⟨t', ht', hc'⟩ | ⟨rfl, hs'⟩
      · obtain ⟨rfl, hcc⟩ := claim_unique h ht ht' hc hc' hp rfl rfl
        exact ⟨rfl, DaemonKind.claimKind_injective (congrArg Claim.kind hcc)⟩
      · exact hstrays n' n k p hp hs' hd
    · obtain ⟨rfl, rfl⟩ := hstrays n n' k' p hp hs hd'
      exact ⟨rfl, rfl⟩

/-- A target with its console and its screen on one host. -/
def benchTarget : Target where
  host := some "bench"
  serial := [{ name := "uart", device := "/dev/ttyUSB0", port := some 5000 }]
  video := some { device := some "/dev/video0", port := some 5001 }

def benchLab : Lab where
  hosts := OrderedMap.empty.insert "bench" { ssh := "lab@bench" }
  targets := OrderedMap.empty.insert "board" benchTarget

theorem ports_distinct_bench :
    PortsDistinct benchLab "bench" ∧
      daemonPort benchLab "bench" "board" .serialcap = some 5000 := by
  have hvalid : validate benchLab = .ok () := by decide +kernel
  refine ⟨(ports_distinct_iff hvalid "bench").mpr fun n n' k p hp hstray hd => ?_, by
    decide +kernel⟩
  have hport := hstray.1
  rw [daemonPort, Option.bind_eq_some_iff] at hport
  obtain ⟨t, ht, -⟩ := hport
  have hmem := OrderedMap.get?_eq_some_iff.mp ht
  obtain ⟨rfl, rfl⟩ := Prod.mk.inj (List.mem_singleton.mp hmem)
  exact absurd rfl (hstray.2 benchTarget _ ht rfl)

/-- The consoles of one target are on two hosts, and the screen of another is on the second. -/
def spanLab : Lab where
  hosts := (OrderedMap.empty.insert "east" { ssh := "lab@east" }).insert "west"
    { ssh := "lab@west" }
  targets :=
    (OrderedMap.empty.insert "board"
      { serial := [{ name := "uart", device := "/dev/ttyUSB0", host := some "east", port := some 5000 },
          { name := "bmc", device := "/dev/ttyUSB1", host := some "west", port := some 5000 }] }).insert
      "panel" { video := some { device := some "/dev/video0", host := some "west", port := some 5000 } }

/-- The lab is valid, and two daemons on `west` are given port 5000. -/
theorem ports_shared_span : validate spanLab = .ok () ∧ ¬PortsDistinct spanLab "west" := by
  have hserial : daemonPort spanLab "west" "board" .serialcap = some 5000 := by decide +kernel
  have hvideo : daemonPort spanLab "west" "panel" .hdmicap = some 5000 := by decide +kernel
  refine ⟨by decide +kernel, fun hdistinct => ?_⟩
  have := hdistinct "board" "panel" .serialcap .hdmicap 5000 (by decide) hserial hvideo
  cases this.2

end Cli

end Paniolo
