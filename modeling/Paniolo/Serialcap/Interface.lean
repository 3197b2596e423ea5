import Paniolo.Library.Text

/-!
# The interface argument

`parse_interface` takes `NAME=DEVICE[@BAUD][:SENSE]` apart: the name ends at the
first `=`, the signal begins at the last `:` if it is one that there is, and the
baud at the last `@` of what remains.
-/

namespace Paniolo

namespace Serialcap

open Text

structure InterfaceSpec where
  name : String
  device : String
  baud : UInt32
  powerSenseSignal : Option String
deriving DecidableEq, Repr

/-- The modem-control inputs that can sense power. -/
def senseSignals : List String := ["cts", "dsr", "dcd", "ri"]

/-- The device and its baud, and the signal that is peeled off first. -/
def splitSense (rest : List Char) : List Char × Option String :=
  match rsplitOnce (· == ':') rest with
  | some (before, maybeSense) =>
      if String.ofList maybeSense ∈ senseSignals then (before, some (String.ofList maybeSense))
      else (rest, none)
  | none => (rest, none)

/-- The device and the baud, which is 115200 when there is none. -/
def splitBaud (devBaud : List Char) : Except String (List Char × UInt32) :=
  match rsplitOnce (· == '@') devBaud with
  | some (dev, b) =>
      match parseUnsigned 4294967296 b with
      | some baud => .ok (dev, UInt32.ofNat baud)
      | none => .error ("invalid baud '" ++ String.ofList b ++ "'")
  | none => .ok (devBaud, 115200)

/-- Parse a `NAME=DEVICE[@BAUD][:SENSE]` interface spec. -/
def parseInterface (s : List Char) : Except String InterfaceSpec :=
  match splitOnce (· == '=') s with
  | none =>
      .error "expected NAME=DEVICE[@BAUD][:SENSE], e.g. console=/dev/ttyUSB0@115200:cts"
  | some (name, rest) => do
      if name = [] then throw "interface name is empty"
      let (device, baud) ← splitBaud (splitSense rest).1
      if device = [] then throw "device path is empty"
      return ⟨String.ofList name, String.ofList device, baud, (splitSense rest).2⟩

theorem splitSense_some (devBaud : List Char) {sense : String} (h : sense ∈ senseSignals) :
    splitSense (devBaud ++ ':' :: sense.toList) = (devBaud, some sense) := by
  have hcolon : ∀ c ∈ sense.toList, (c == ':') = false := by
    have hall : senseSignals.all fun sense => sense.toList.all fun c => c != ':' := by decide
    intro c hc
    have hne := List.all_eq_true.mp (List.all_eq_true.mp hall sense h) c hc
    rwa [bne, Bool.not_eq_true'] at hne
  rw [splitSense, rsplitOnce_append hcolon (by decide)]
  dsimp only
  rw [String.ofList_toList, if_pos h]

/-- A colon in front of the last `@` belongs to the device. -/
theorem splitSense_none (device : List Char) {baud : List Char} (h : ':' ∉ baud) :
    splitSense (device ++ '@' :: baud) = (device ++ '@' :: baud, none) := by
  rw [splitSense]
  split
  · rename_i before maybeSense hsplit
    obtain ⟨c, hc, heq, -⟩ := rsplitOnce_eq_some hsplit
    obtain rfl : c = ':' := beq_iff_eq.mp hc
    have hat : '@' ∈ maybeSense := by
      rcases List.append_eq_append_iff.mp heq with ⟨more, -, hbaud⟩ | ⟨more, -, hsense⟩
      · have hmem : ':' ∈ '@' :: baud := by
          rw [hbaud]
          exact List.mem_append_right _ List.mem_cons_self
        rcases List.mem_cons.mp hmem with hcase | hcase
        · exact absurd hcase (by decide)
        · exact absurd hcase h
      · cases more with
        | nil => exact absurd (List.cons.inj hsense).1 (by decide)
        | cons x more =>
            rw [(List.cons.inj hsense).2]
            exact List.mem_append_right _ List.mem_cons_self
    have hnot : String.ofList maybeSense ∉ senseSignals := by
      have hall : senseSignals.all fun sense => !sense.toList.contains '@' := by decide
      intro hmem
      have hsense := List.all_eq_true.mp hall _ hmem
      rw [String.toList_ofList, List.contains_iff_mem.mpr hat] at hsense
      cases hsense
    rw [if_neg hnot]
  · rfl

theorem splitBaud_of_parse (device : List Char) {text : List Char} (h : '@' ∉ text) {baud : Nat}
    (hparse : parseUnsigned 4294967296 text = some baud) :
    splitBaud (device ++ '@' :: text) = .ok (device, UInt32.ofNat baud) := by
  rw [splitBaud, rsplitOnce_append (beq_of_notMem h) (by decide)]
  dsimp only
  rw [hparse]

theorem splitBaud_of_not_parse (device : List Char) {text : List Char} (h : '@' ∉ text)
    (hparse : parseUnsigned 4294967296 text = none) :
    splitBaud (device ++ '@' :: text) =
      .error ("invalid baud '" ++ String.ofList text ++ "'") := by
  rw [splitBaud, rsplitOnce_append (beq_of_notMem h) (by decide)]
  dsimp only
  rw [hparse]

end Serialcap

end Paniolo
