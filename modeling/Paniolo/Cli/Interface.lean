import Paniolo.Cli.Model
import Paniolo.Serialcap.Interface

/-!
# Naming an interface to its daemon

`interface_arg` writes a channel as `NAME=DEVICE@BAUD[:SENSE]`, which the daemon
parses when it starts and `interface_device` parses in a listing of processes.
The lab keeps the baud as an `i64` that nothing checks, and the daemon reads a
`u32`: `interface_roundTrip_iff` says that the baud decides.
-/

namespace Paniolo

namespace Cli

open Text Serialcap

/-- Format one interface for the daemon's repeatable `--interface` flag. -/
def interfaceArg (ch : SerialChannel) : List Char :=
  let arg := ch.name.toList ++ '=' :: ch.device.toList ++ '@' :: (toString ch.baud).toList
  match ch.powerSenseSignal with
  | some sense => arg ++ ':' :: sense.toList
  | none => arg

/-- The device inside one `--interface` value. -/
def interfaceDevice (value : List Char) : Option (List Char) :=
  let withoutBaud :=
    match rsplitOnce (· == '@') value with
    | some (head, _) => head
    | none => value
  let device :=
    match splitOnce (· == '=') withoutBaud with
    | some (_, dev) => dev
    | none => withoutBaud
  if device = [] then none else some device

theorem mem_of_validateSerials {declared : List String} {name : String} {t : Target}
    {l : List SerialChannel} {seen : List String}
    (h : validateSerials declared name t seen l = .ok ()) {s : SerialChannel} (hs : s ∈ l) :
    s.device ≠ "" ∧ ∀ sense, s.powerSenseSignal = some sense → sense ∈ VALID_SENSE_SIGNALS := by
  induction l generalizing seen with
  | nil => cases hs
  | cons c rest ih =>
      simp only [validateSerials, seq_eq_ok, require_eq_ok] at h
      obtain ⟨hnames, -, hsense, -, hrest⟩ := h
      rcases List.mem_cons.mp hs with rfl | hs
      · rw [Bool.and_eq_true, bne_iff_ne, bne_iff_ne] at hnames
        refine ⟨hnames.2, fun sense heq => ?_⟩
        rw [heq, Option.all_some, decide_eq_true_eq] at hsense
        exact hsense
      · exact ih hrest hs

/-- What a valid lab has in each serial interface. -/
theorem serial_of_validate {lab : Lab} (h : validate lab = .ok ()) {n : String} {t : Target}
    (ht : lab.targets.get? n = some t) {s : SerialChannel} (hs : s ∈ t.serial) :
    s.device ≠ "" ∧ ∀ sense, s.powerSenseSignal = some sense → sense ∈ VALID_SENSE_SIGNALS := by
  have htarget := (validate_eq_ok.mp h).2.1 _ (OrderedMap.get?_eq_some_iff.mp ht)
  simp only [validateTarget, seq_eq_ok] at htarget
  exact mem_of_validateSerials htarget.2.2.2.2.2.2.2.2.2.1 hs

/-- The daemon reads a baud back exactly when its own type has it. -/
theorem parse_baud (baud : Int) :
    (∃ n : Nat, baud = n ∧ n < 4294967296 ∧
        parseUnsigned 4294967296 (toString baud).toList = some n) ∨
      (¬ (0 ≤ baud ∧ baud < 4294967296) ∧
        parseUnsigned 4294967296 (toString baud).toList = none) := by
  rcases toList_toString_int baud with ⟨hpos, htext⟩ | ⟨hneg, htext⟩
  · rw [htext, parseUnsigned_toDigits]
    by_cases hlt : baud.toNat < 4294967296
    · exact .inl ⟨baud.toNat, (Int.toNat_of_nonneg hpos).symm, hlt, if_pos hlt⟩
    · exact .inr ⟨by omega, if_neg hlt⟩
  · refine .inr ⟨by omega, ?_⟩
    rw [htext]
    rfl

theorem ne_of_isValidName {name : String} (h : isValidName name = true) :
    name ≠ "" ∧ '=' ∉ name.toList := by
  simp only [isValidName, Bool.and_eq_true, bne_iff_ne, List.all_eq_true] at h
  refine ⟨h.1.1.1.1, fun hmem => ?_⟩
  exact absurd (h.2 '=' hmem) (by decide)

/-- What follows the device: the baud, and the signal if there is one. -/
def afterDevice (ch : SerialChannel) : List Char :=
  (toString ch.baud).toList ++ ((ch.powerSenseSignal.map fun sense => ':' :: sense.toList).getD [])

theorem interfaceArg_eq (ch : SerialChannel) :
    interfaceArg ch = ch.name.toList ++ '=' :: (ch.device.toList ++ '@' :: afterDevice ch) := by
  rw [interfaceArg, afterDevice]
  cases ch.powerSenseSignal with
  | none => simp
  | some sense => simp

theorem at_notMem_afterDevice {ch : SerialChannel}
    (h : ∀ sense, ch.powerSenseSignal = some sense → sense ∈ VALID_SENSE_SIGNALS) :
    '@' ∉ afterDevice ch := by
  have hbaud := notMem_toString_int ch.baud (c := '@') (by decide) (by decide)
  rw [afterDevice, List.mem_append, not_or]
  refine ⟨hbaud, ?_⟩
  cases hsense : ch.powerSenseSignal with
  | none => exact List.not_mem_nil
  | some sense =>
      have hall : VALID_SENSE_SIGNALS.all fun sense => !(':' :: sense.toList).contains '@' := by
        decide
      have hnot := List.all_eq_true.mp hall sense (h sense hsense)
      rw [Bool.not_eq_true', ← Bool.not_eq_true, List.contains_iff_mem] at hnot
      exact hnot

theorem interfaceDevice_interfaceArg {ch : SerialChannel} (hname : '=' ∉ ch.name.toList)
    (hdevice : ch.device ≠ "")
    (hsense : ∀ sense, ch.powerSenseSignal = some sense → sense ∈ VALID_SENSE_SIGNALS) :
    interfaceDevice (interfaceArg ch) = some ch.device.toList := by
  have hat := beq_of_notMem (at_notMem_afterDevice hsense)
  have hne : ch.device.toList ≠ [] := fun h => hdevice (String.toList_inj.mp h)
  have harg : interfaceArg ch =
      (ch.name.toList ++ '=' :: ch.device.toList) ++ '@' :: afterDevice ch := by
    rw [interfaceArg_eq, List.append_assoc, List.cons_append]
  rw [interfaceDevice, harg, rsplitOnce_append hat (by decide)]
  dsimp only
  rw [splitOnce_append (beq_of_notMem hname) (by decide)]
  exact if_neg hne

/-- The signal is peeled off, and what is left is the device and the baud. -/
theorem splitSense_afterDevice {ch : SerialChannel}
    (hsense : ∀ sense, ch.powerSenseSignal = some sense → sense ∈ VALID_SENSE_SIGNALS) :
    splitSense (ch.device.toList ++ '@' :: afterDevice ch) =
      (ch.device.toList ++ '@' :: (toString ch.baud).toList, ch.powerSenseSignal) := by
  rw [afterDevice]
  cases h : ch.powerSenseSignal with
  | none =>
      have hcolon := notMem_toString_int ch.baud (c := ':') (by decide) (by decide)
      rw [Option.map_none, Option.getD_none, List.append_nil, splitSense_none _ hcolon]
  | some sense =>
      have hsplit := splitSense_some (ch.device.toList ++ '@' :: (toString ch.baud).toList)
        (hsense sense h)
      rw [Option.map_some, Option.getD_some]
      rwa [List.append_assoc, List.cons_append] at hsplit

/-- The daemon has the channel as the lab has it. -/
def Names (spec : InterfaceSpec) (ch : SerialChannel) : Prop :=
  spec.name = ch.name ∧ spec.device = ch.device ∧ (spec.baud.toNat : Int) = ch.baud ∧
    spec.powerSenseSignal = ch.powerSenseSignal

theorem parseInterface_interfaceArg {ch : SerialChannel} (hname : isValidName ch.name = true)
    (hdevice : ch.device ≠ "")
    (hsense : ∀ sense, ch.powerSenseSignal = some sense → sense ∈ VALID_SENSE_SIGNALS) :
    (∃ spec, parseInterface (interfaceArg ch) = .ok spec ∧ Names spec ch) ↔
      0 ≤ ch.baud ∧ ch.baud < 4294967296 := by
  obtain ⟨hempty, hequals⟩ := ne_of_isValidName hname
  have hsplit : splitOnce (· == '=') (interfaceArg ch) =
      some (ch.name.toList, ch.device.toList ++ '@' :: afterDevice ch) := by
    rw [interfaceArg_eq]
    exact splitOnce_append (beq_of_notMem hequals) (beq_self_eq_true '=') _
  have hnameList : ch.name.toList ≠ [] := fun h => hempty (String.toList_inj.mp h)
  have hdeviceList : ch.device.toList ≠ [] := fun h => hdevice (String.toList_inj.mp h)
  have hat := notMem_toString_int ch.baud (c := '@') (by decide) (by decide)
  rw [parseInterface, hsplit]
  dsimp only
  rw [if_neg hnameList, splitSense_afterDevice hsense]
  rcases parse_baud ch.baud with ⟨n, hn, hlt, hparse⟩ | ⟨hrange, hparse⟩
  · refine iff_of_true ?_ ⟨by omega, by omega⟩
    rw [splitBaud_of_parse _ hat hparse]
    change ∃ spec, (if ch.device.toList = [] then _ else _) = _ ∧ _
    rw [if_neg hdeviceList]
    refine ⟨_, rfl, String.ofList_toList, String.ofList_toList, ?_, rfl⟩
    rw [hn, UInt32.toNat_ofNat']
    omega
  · refine iff_of_false ?_ hrange
    rw [splitBaud_of_not_parse _ hat hparse]
    rintro ⟨spec, h, -⟩
    cases h

/-- Both readers find again what the lab says, exactly when the baud is a `u32`. -/
theorem interface_roundTrip_iff {lab : Lab} (h : validate lab = .ok ()) {n : String} {t : Target}
    (ht : lab.targets.get? n = some t) {ch : SerialChannel} (hch : ch ∈ t.serial)
    (hname : isValidName ch.name = true) :
    ((∃ spec, parseInterface (interfaceArg ch) = .ok spec ∧ Names spec ch) ∧
        interfaceDevice (interfaceArg ch) = some ch.device.toList) ↔
      0 ≤ ch.baud ∧ ch.baud < 4294967296 := by
  obtain ⟨hdevice, hsense⟩ := serial_of_validate h ht hch
  rw [parseInterface_interfaceArg hname hdevice hsense]
  exact and_iff_left
    (interfaceDevice_interfaceArg (ne_of_isValidName hname).2 hdevice hsense)

/-- A console on this machine, at a baud. -/
def consoleLab (baud : Int) : Lab where
  targets := OrderedMap.empty.insert "board"
    { serial := [{ name := "console", device := "/dev/ttyUSB0", baud := baud }] }

theorem interface_roundTrip_console :
    ∃ ch : SerialChannel, ch.baud = 115200 ∧
      ((∃ spec, parseInterface (interfaceArg ch) = .ok spec ∧ Names spec ch) ∧
        interfaceDevice (interfaceArg ch) = some ch.device.toList) := by
  have hvalid : validate (consoleLab 115200) = .ok () := by decide +kernel
  have hiff := interface_roundTrip_iff hvalid (n := "board") rfl List.mem_cons_self (by decide)
  exact ⟨_, rfl, hiff.mpr (by decide)⟩

/-- A lab with a negative baud is valid, and the daemon does not start on its interface. -/
theorem interface_negativeBaud :
    ∃ t : Target, ∃ ch ∈ t.serial, validate (consoleLab (-9600)) = .ok () ∧
      (consoleLab (-9600)).targets.get? "board" = some t ∧ isValidName ch.name = true ∧
      parseInterface (interfaceArg ch) = .error "invalid baud '-9600'" := by
  refine ⟨_, _, List.mem_cons_self, by decide +kernel, rfl, by decide, by decide +kernel⟩

end Cli

end Paniolo
