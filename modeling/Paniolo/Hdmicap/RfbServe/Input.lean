import Paniolo.Library.Machine
import Paniolo.Library.OrderedMap
import Paniolo.Hdmicap.HidLink
import Paniolo.Hdmicap.Keysym

/-!
# A viewer's keyboard and pointer

`Input` of `rfb_serve.rs`: the key and pointer events of one client become
lines for the target. Keys are held by keysym, while the target knows them by
name; the session may press a Shift of its own; buttons are edges of a mask. A
counter that would go below zero stops the machine.

What the target has down is found by replaying the lines.
-/

namespace Paniolo

namespace Hdmicap

namespace RfbServe

open HidLink (Item)
open Keysym (lookup)

/-- The command lines that a viewer causes. -/
inductive Line where
  | down (name : String)
  | up (name : String)
  | mdown (name : String)
  | mup (name : String)
  | scroll (notches : Int)
deriving DecidableEq, Repr

def Line.text : Line → String
  | .down name => s!"down {name}"
  | .up name => s!"up {name}"
  | .mdown name => s!"mdown {name}"
  | .mup name => s!"mup {name}"
  | .scroll notches => s!"scroll {notches}"

structure Held where
  name : String
  /-- This key got a Shift of the session's own pressed for it. -/
  synthShift : Bool
  isShift : Bool
deriving DecidableEq

/-- One client's keyboard and pointer state. -/
structure Input where
  link : Bool
  held : OrderedMap Nat Held
  /-- Shift keys the client itself holds. -/
  realShifts : Nat
  /-- Held keys that rely on the session's own Shift. -/
  synthUsers : Nat
  mask : UInt8
  lastPos : Option (Nat × Nat)
  warned : List Nat

def BUTTONS : List String := ["left", "middle", "right"]

/-- Bit `i` of a pointer mask. -/
def bit (mask : UInt8) (i : Nat) : Bool := mask.toNat.testBit i

/-- `round(pixel * 32767 / size)`. -/
def scale (p size : Nat) : Nat := (min p (size - 1) * 32767 + size / 2) / size % 65536

/-- One less when `c` holds, if there is one less. -/
def decrIf (c : Bool) (n : Nat) : Option Nat :=
  if c then if n = 0 then none else some (n - 1) else some n

namespace Input

def new (link : Bool) : Input := ⟨link, OrderedMap.empty, 0, 0, 0, none, []⟩

/-- A key goes down that is not held. -/
def press (s : Input) (sym : Nat) (k : Keysym.HidKey) : Input × List Line :=
  let synth := k.shifted && s.realShifts == 0
  let shift := if synth && s.synthUsers == 0 then [Line.down "LEFT_SHIFT"] else []
  ({ s with
      held := s.held.insert sym ⟨k.name, synth, k.isShift⟩
      realShifts := if k.isShift then s.realShifts + 1 else s.realShifts
      synthUsers := if synth then s.synthUsers + 1 else s.synthUsers },
    shift ++ [.down k.name])

/-- A held key goes up. -/
def release (s : Input) (sym : Nat) (h : Held) : Option (Input × List Line) := do
  let realShifts ← decrIf h.isShift s.realShifts
  let synthUsers ← decrIf h.synthShift s.synthUsers
  let shift := if h.synthShift && synthUsers == 0 then [Line.up "LEFT_SHIFT"] else []
  some ({ s with
      held := s.held.erase sym
      realShifts := realShifts
      synthUsers := synthUsers },
    .up h.name :: shift)

def key (s : Input) (down : Bool) (sym : Nat) : Option (Input × List Line) :=
  if s.link = false then some (s, [])
  else if down then
    -- Browser auto-repeat: the target repeats on its own.
    if s.held.contains sym then some (s, [])
    else
      match lookup sym with
      | none => some ({ s with warned := if sym ∈ s.warned then s.warned else sym :: s.warned }, [])
      | some k => some (s.press sym k)
  else
    match s.held.get? sym with
    | none => some (s, [])
    | some h => s.release sym h

/-- The buttons whose bits differ. -/
def edges (old new : UInt8) : List Line :=
  BUTTONS.zipIdx.flatMap fun b =>
    if bit new b.2 && !bit old b.2 then [.mdown b.1]
    else if bit old b.2 && !bit new b.2 then [.mup b.1]
    else []

/-- Wheel: bits 3 (up) and 4 (down), one notch per press. -/
def wheel (old new : UInt8) : List Line :=
  (if new &&& 8 ≠ 0 ∧ old &&& 8 = 0 then [.scroll 1] else []) ++
    (if new &&& 16 ≠ 0 ∧ old &&& 16 = 0 then [.scroll (-1)] else [])

/-- The move before the buttons. It waits for room in the queue when a button changes, and is lost
without room otherwise. -/
def pointAt (s : Input) (mask : UInt8) (pos : Nat × Nat) (room : Bool) : List (Item Line) :=
  if (s.mask ^^^ mask) &&& 0x1F ≠ 0 then [.move pos.1 pos.2]
  else if s.lastPos ≠ some pos then if room then [.move pos.1 pos.2] else []
  else []

def pointer (s : Input) (mask : UInt8) (x y : Nat) (dims : Nat × Nat) (room : Bool) :
    Input × List (Item Line) :=
  if s.link = false then (s, [])
  else
    let lines := (edges s.mask mask ++ wheel s.mask mask).map Item.line
    if 0 < dims.1 ∧ 0 < dims.2 then
      let pos := (scale x dims.1, scale y dims.2)
      ({ s with mask := mask, lastPos := some pos }, s.pointAt mask pos room ++ lines)
    else ({ s with mask := mask }, lines)

/-- What dropping the input tries to send, its keys in the order in which the map has them. -/
def releaseAll (s : Input) (order : List (Nat × Held)) : List Line :=
  if s.link = false then []
  else
    (order.map fun e => .up e.2.name) ++
      (if 0 < s.synthUsers then [.up "LEFT_SHIFT"] else []) ++
      BUTTONS.zipIdx.flatMap fun b => if bit s.mask b.2 then [.mup b.1] else []

end Input

/-! ### A session's input -/

/-- What a client sends: a key, or a pointer with the dimensions of the picture and whether the
queue has room then. -/
inductive InputEvent where
  | key (down : Bool) (sym : Nat)
  | pointer (mask : UInt8) (x y : Nat) (dims : Nat × Nat) (room : Bool)

/-- The input, and all that it has queued. -/
structure Viewing where
  input : Input
  queued : List (Item Line)

namespace Viewing

def start (link : Bool) : Viewing := ⟨Input.new link, []⟩

def step (v : Viewing) : InputEvent → Option Viewing
  | .key down sym =>
      (v.input.key down sym).map fun r => ⟨r.1, v.queued ++ r.2.map Item.line⟩
  | .pointer mask x y dims room =>
      let r := v.input.pointer mask x y dims room
      some ⟨r.1, v.queued ++ r.2⟩

/-- Dropping the input when the queue has room for `room` lines. -/
def drop (v : Viewing) (order : List (Nat × Held)) (room : Nat) : List (Item Line) :=
  v.queued ++ ((v.input.releaseAll order).take room).map Item.line

end Viewing

/-! ### What the target has down -/

/-- The keys down after an item. -/
def keyAfter (d : List String) : Item Line → List String
  | .line (.down name) => name :: d
  | .line (.up name) => d.filter (· ≠ name)
  | _ => d

def keysDown (items : List (Item Line)) : List String := items.foldl keyAfter []

/-- The buttons down after an item. -/
def buttonAfter (d : List String) : Item Line → List String
  | .line (.mdown name) => name :: d
  | .line (.mup name) => d.filter (· ≠ name)
  | _ => d

def buttonsDown (items : List (Item Line)) : List String := items.foldl buttonAfter []

/-- A position is in the space of the protocol. -/
theorem scale_le (p : Nat) {size : Nat} (h : 0 < size) : scale p size ≤ 32767 := by
  have hle : (min p (size - 1) * 32767 + size / 2) / size ≤ 32767 := by
    apply Nat.le_of_lt_succ
    rw [Nat.div_lt_iff_lt_mul h]
    have hmin : min p (size - 1) ≤ size - 1 := Nat.min_le_right _ _
    omega
  exact (Nat.mod_le _ _).trans hle

end RfbServe

end Hdmicap

end Paniolo
