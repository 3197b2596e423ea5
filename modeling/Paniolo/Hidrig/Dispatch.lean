import Paniolo.Library.Ending
import Paniolo.Library.Result
import Paniolo.Hidrig.Compose
import Paniolo.Hidrig.Typing

/-!
# One command line of the composer

`dispatch` changes the composer in place. What it leaves is what it is said to
leave, and a line that is refused changes nothing. An accepted line is one of six
keyboard commands, or it moves the pointer or asks the control board.
-/

namespace Paniolo

namespace Hidrig

open Text HidProtocol

section InPlace

/-- The composer behind `&mut self`: what an error leaves changed stays changed. -/
abbrev ComposerM := ExceptT String (StateM Composer)

namespace Mutable

/-- The report of what is held now. -/
def pushKbd : ComposerM (List Frame) := do
  return [(← get).kbd 0 []]

def pushMouse : ComposerM (List Frame) := do
  return [(← get).mouse 0]

/-- A method that only reads the composer. -/
def reading (f : Composer → Except String (List Frame)) : ComposerM (List Frame) := do
  liftExcept (f (← get))

/-- `down`. -/
def down (name : List Char) : ComposerM (List Frame) := do
  match ← liftExcept (keyKind name) with
  | .modifier bit => modify fun c => { c with heldMods := c.heldMods ||| bit }
  | .key u => modify fun c => if u ∉ c.heldKeys then { c with heldKeys := c.heldKeys ++ [u] } else c
  pushKbd

/-- `up`. -/
def up (name : List Char) : ComposerM (List Frame) := do
  match ← liftExcept (keyKind name) with
  | .modifier bit => modify fun c => { c with heldMods := c.heldMods &&& ~~~bit }
  | .key u => modify fun c => { c with heldKeys := c.heldKeys.filter (· != u) }
  pushKbd

/-- `releaseall`. -/
def releaseall : ComposerM (List Frame) := do
  modify fun c => { c with heldMods := 0, heldKeys := [] }
  pushKbd

/-- `moveabs`. -/
def moveabs (x y : Int) : ComposerM (List Frame) := do
  modify fun c => { c with mx := clampAbs x, my := clampAbs y }
  pushMouse

/-- `move_rel`. -/
def moveRel (dx dy : Int) : ComposerM (List Frame) := do
  modify fun c => { c with
    mx := clampAbs (Composer.saturatingAdd c.mx dx)
    my := clampAbs (Composer.saturatingAdd c.my dy) }
  pushMouse

/-- `click`. -/
def click (button : List Char) : ComposerM (List Frame) := do
  let b ← liftExcept (buttonBit button)
  modify fun c => { c with buttons := c.buttons ||| b }
  let press ← pushMouse
  modify fun c => { c with buttons := c.buttons &&& ~~~b }
  let release ← pushMouse
  return press ++ release

/-- `mdown`. -/
def mdown (button : List Char) : ComposerM (List Frame) := do
  let b ← liftExcept (buttonBit button)
  modify fun c => { c with buttons := c.buttons ||| b }
  pushMouse

/-- `mup`. -/
def mup (button : List Char) : ComposerM (List Frame) := do
  let b ← liftExcept (buttonBit button)
  modify fun c => { c with buttons := c.buttons &&& ~~~b }
  pushMouse

/-- The `match` of `dispatch` on the verb. -/
def dispatchVerb (head rest : List Char) : ComposerM (List Frame) :=
  let args := trim rest
  let button := if args.isEmpty then "left".toList else args
  let verb := String.ofList (toAsciiLowercase head)
  if verb = "type" then reading fun c => c.typeText rest
  else if verb = "key" then reading fun c => c.key args
  else if verb = "combo" then reading fun c => c.combo (splitWhitespace args)
  else if verb = "down" then down args
  else if verb = "up" then up args
  else if verb = "releaseall" then releaseall
  else if verb = "move" then do
    let (dx, dy) ← liftExcept (Composer.twoInts args)
    moveRel dx dy
  else if verb = "moveabs" then do
    let (x, y) ← liftExcept (Composer.twoInts args)
    moveabs x y
  else if verb = "click" then click button
  else if verb = "mdown" then mdown button
  else if verb = "mup" then mup button
  else if verb = "scroll" then
    match parseI32 args with
    | none => throw ("scroll needs an integer: " ++ debugStr args)
    | some n => reading fun c => .ok (c.scroll n)
  else if verb = "ping" then return [Composer.ping]
  else if verb = "version" then return [Composer.version]
  else if verb = "power" then do
    let (action, secs) ← liftExcept (Composer.powerArgs args)
    return [← liftExcept (Composer.power action secs)]
  else if verb = "" then return []
  else throw ("unknown command: " ++ verb)

/-- `dispatch`, changing the composer in place. -/
def dispatch (line : List Char) : ComposerM (List Frame) :=
  let stripped := line.rdropWhile Composer.isNewline
  if stripped.any Composer.isNewline then
    throw ("command contains a newline: " ++ debugStr stripped)
  else
    let (head, rest) := Composer.splitLine line
    dispatchVerb head rest

end Mutable

/-- A command that either succeeds with a new composer, or fails and leaves it. -/
def Composer.settle (c : Composer) :
    Except String (Composer × List Frame) → Except String (List Frame) × Composer
  | .ok (c', frames) => (.ok frames, c')
  | .error e => (.error e, c)

variable {c : Composer}

theorem run_lift {α : Type} (x : Except String α) {f : α → ComposerM (List Frame)}
    {g : α → Except String (Composer × List Frame)}
    (h : ∀ a, ExceptT.run (f a) c = c.settle (g a)) :
    ExceptT.run (liftExcept x >>= f) c = c.settle (x >>= g) := by
  cases x with
  | error e => rfl
  | ok a => exact h a

theorem run_reading (f : Composer → Except String (List Frame)) :
    ExceptT.run (Mutable.reading f) c = c.settle (do return (c, ← f c)) := by
  change ExceptT.run (liftExcept (f c) : ComposerM (List Frame)) c = _
  cases f c <;> rfl

theorem run_down (name : List Char) :
    ExceptT.run (Mutable.down name) c = c.settle (c.down name) := by
  refine run_lift (keyKind name) fun k => ?_
  cases k <;> rfl

theorem run_up (name : List Char) : ExceptT.run (Mutable.up name) c = c.settle (c.up name) := by
  refine run_lift (keyKind name) fun k => ?_
  cases k <;> rfl

theorem run_ite {p : Prop} [Decidable p] {x y : ComposerM (List Frame)}
    {r r' : Except String (Composer × List Frame)} (hx : ExceptT.run x c = c.settle r)
    (hy : ExceptT.run y c = c.settle r') :
    ExceptT.run (if p then x else y) c = c.settle (if p then r else r') := by
  by_cases hp : p
  · rw [if_pos hp, if_pos hp, hx]
  · rw [if_neg hp, if_neg hp, hy]

theorem run_dispatchVerb (c : Composer) (head rest : List Char) :
    ExceptT.run (Mutable.dispatchVerb head rest) c = c.settle (c.dispatchVerb head rest) := by
  refine run_ite (run_reading _) ?_
  refine run_ite (run_reading _) ?_
  refine run_ite (run_reading _) ?_
  refine run_ite (run_down _) ?_
  refine run_ite (run_up _) ?_
  refine run_ite rfl ?_
  refine run_ite (run_lift (Composer.twoInts _) fun _ => rfl) ?_
  refine run_ite (run_lift (Composer.twoInts _) fun _ => rfl) ?_
  refine run_ite (run_lift (buttonBit _) fun _ => rfl) ?_
  refine run_ite (run_lift (buttonBit _) fun _ => rfl) ?_
  refine run_ite (run_lift (buttonBit _) fun _ => rfl) ?_
  refine run_ite ?_ ?_
  · cases parseI32 (trim rest) <;> rfl
  refine run_ite rfl ?_
  refine run_ite rfl ?_
  refine run_ite (run_lift (Composer.powerArgs _) fun _ => run_lift (Composer.power _ _)
    fun _ => rfl) ?_
  exact run_ite rfl rfl

/-- Changing the composer in place comes to the same, and an error changes nothing. -/
theorem run_dispatch (c : Composer) (line : List Char) :
    ExceptT.run (Mutable.dispatch line) c = c.settle (c.dispatch line) :=
  run_ite rfl (run_dispatchVerb c _ _)

end InPlace

section Table

theorem add_ofNat_ne_zero (a : Nat) {n : Nat} (ha : 0 < a) (h : a + n < 256) :
    UInt8.ofNat a + UInt8.ofNat n ≠ 0 := by
  intro hzero
  have htoNat := congrArg UInt8.toNat hzero
  rw [UInt8.toNat_add, UInt8.toNat_ofNat', UInt8.toNat_ofNat'] at htoNat
  have h0 : (0 : UInt8).toNat = 0 := rfl
  omega

theorem namedKey_ne_zero {n : List Char} {u : UInt8} (h : namedKey n = some u) : u ≠ 0 := by
  have hword : ∀ v, (words.find? fun e => e.1.toList == n).map (·.2) = some v → v ≠ 0 := by
    intro v hv
    obtain ⟨e, he, rfl⟩ := Option.map_eq_some_iff.mp hv
    have hall : ∀ e ∈ words, e.2 ≠ 0 := by decide
    exact hall e (List.mem_of_find?_eq_some he)
  rw [namedKey.eq_def] at h
  simp only at h
  split at h
  · next v hsingle =>
      rw [← Option.some.inj h]
      split at hsingle
      · next ch =>
          split at hsingle
          · next hc =>
              have hle : ch.toNat ≤ 90 := hc.2
              have hA : 'A'.toNat = 65 := rfl
              rw [← Option.some.inj hsingle]
              exact add_ofNat_ne_zero 4 (by decide) (by omega)
          · split at hsingle
            · next hc =>
                have hle : ch.toNat ≤ 57 := hc.2
                have h1 : '1'.toNat = 49 := rfl
                rw [← Option.some.inj hsingle]
                split
                · decide
                · exact add_ofNat_ne_zero 0x1e (by decide) (by omega)
            · cases hsingle
      · cases hsingle
  · exact hword u h

/-- No name stands for the empty slot. -/
theorem keyKind_ne_zero {name : List Char} {u : UInt8} (h : keyKind name = .ok (.key u)) :
    u ≠ 0 := by
  rw [keyKind] at h
  split at h
  · cases h
  · split at h
    · next hnamed =>
        cases h
        exact namedKey_ne_zero hnamed
    · cases h

theorem charToKey_ne_zero {ch : Char} {u : UInt8} {shift : Bool}
    (h : charToKey ch = some (u, shift)) : u ≠ 0 := by
  rw [charToKey] at h
  split at h
  · next hc =>
      have hle : ch.toNat ≤ 122 := hc.2
      have ha : 'a'.toNat = 97 := rfl
      rw [← (Prod.mk.inj (Option.some.inj h)).1]
      exact add_ofNat_ne_zero 4 (by decide) (by omega)
  · split at h
    · next hc =>
        have hle : ch.toNat ≤ 90 := hc.2
        have hA : 'A'.toNat = 65 := rfl
        rw [← (Prod.mk.inj (Option.some.inj h)).1]
        exact add_ofNat_ne_zero 4 (by decide) (by omega)
    · split at h
      · next hc =>
          have hle : ch.toNat ≤ 57 := hc.2
          have h1 : '1'.toNat = 49 := rfl
          rw [← (Prod.mk.inj (Option.some.inj h)).1]
          exact add_ofNat_ne_zero 0x1e (by decide) (by omega)
      · obtain ⟨e, he, heq⟩ := Option.map_eq_some_iff.mp h
        have hall : ∀ e ∈ punctuation, e.2.1 ≠ 0 := by decide
        have hne := hall e (List.mem_of_find?_eq_some he)
        rwa [heq] at hne

end Table

section Chord

/-- The keys and modifiers that names stand for. -/
def kindsOf (names : List (List Char)) : List KeyKind :=
  names.filterMap fun name => (keyKind name).toOption

variable {c : Composer}

theorem exists_kinds_of_chord {names : List (List Char)} {mods : UInt8} {keys : List UInt8}
    {r : UInt8 × List UInt8} (h : c.chord names mods keys = .ok r) :
    ∃ kinds, List.Forall₂ (fun name k => keyKind name = .ok k) names kinds ∧
      kindsOf names = kinds := by
  induction names generalizing mods keys with
  | nil => exact ⟨[], .nil, rfl⟩
  | cons name names ih =>
      rw [Composer.chord] at h
      obtain ⟨k, hk, hrest⟩ := bind_eq_ok.mp h
      have hnames : ∃ mods keys, c.chord names mods keys = .ok r := by
        cases k with
        | modifier bit => exact ⟨_, _, hrest⟩
        | key u =>
            simp only at hrest
            split at hrest
            · exact ⟨_, _, hrest⟩
            · exact ⟨_, _, hrest⟩
      obtain ⟨mods', keys', hchord⟩ := hnames
      obtain ⟨kinds, hkinds, hof⟩ := ih hchord
      refine ⟨k :: kinds, .cons hk hkinds, ?_⟩
      rw [← hof, kindsOf, List.filterMap_cons, hk]
      rfl

/-- The keys that a chord presses besides those held. -/
def pressedBy (c : Composer) (kinds : List KeyKind) : List UInt8 :=
  newKeys c.heldKeys [] (kinds.map KeyKind.toKey)

theorem ne_zero_of_kinds {names : List (List Char)} {kinds : List KeyKind}
    (h : List.Forall₂ (fun name k => keyKind name = .ok k) names kinds) :
    ∀ u ∈ pressedBy c kinds, u ≠ 0 := by
  intro u hu
  rcases mem_newKeys.mp hu with hu | ⟨hu, -⟩
  · exact absurd hu List.not_mem_nil
  · obtain ⟨k, hk, hku⟩ := List.mem_map.mp (mem_usages.mp hu)
    obtain ⟨i, hi, rfl⟩ := List.getElem_of_mem hk
    have hname := h.get (h.length_eq ▸ hi) hi
    cases hkind : kinds[i] with
    | modifier bit =>
        rw [hkind] at hku
        cases hku
    | key v =>
        rw [hkind] at hku
        cases hku
        rw [List.get_eq_getElem, List.get_eq_getElem, hkind] at hname
        exact keyKind_ne_zero hname

/-- A chord that is not refused: its keys fit, and are pressed and let go. -/
theorem exists_kinds_of_combo {names : List (List Char)} {frames : List Frame}
    (h : c.combo names = .ok frames) :
    ∃ kinds, List.Forall₂ (fun name k => keyKind name = .ok k) names kinds ∧
      kindsOf names = kinds ∧ c.heldKeys.length + (pressedBy c kinds).length ≤ keySlots ∧
      frames = [c.kbd (bits (kinds.map KeyKind.toKey)) (pressedBy c kinds), c.kbd 0 []] := by
  obtain ⟨⟨mods, keys⟩, hchord, hframes⟩ := bind_eq_ok.mp h
  obtain ⟨kinds, hkinds, hof⟩ := exists_kinds_of_chord hchord
  rw [chord_of_kinds c hkinds] at hchord
  obtain ⟨rfl, rfl⟩ := Prod.mk.inj (Except.ok.inj hchord)
  simp only at hframes
  split at hframes
  · cases hframes
  · next hfits =>
      exact ⟨kinds, hkinds, hof, Nat.le_of_not_lt hfits, (Except.ok.inj hframes).symm⟩

end Chord

section Dispatched

/-- The verb of a line, in lower case. -/
def verbOf (line : List Char) : String :=
  String.ofList (toAsciiLowercase (Composer.splitLine line).1)

/-- What follows the verb. -/
def restOf (line : List Char) : List Char := (Composer.splitLine line).2

def argsOf (line : List Char) : List Char := trim (restOf line)

/-- A frame that is not for the keyboard: a pointer report or a control frame. -/
def OffKeyboard (f : Frame) : Prop :=
  (∃ (c : Composer) (wheel : Int), f = c.mouse wheel) ∨
    ∃ (cmd : UInt8) (args : List UInt8), args.length ≤ 2 ∧ f = frame fCtrl cmd args

/-- What an accepted line did: its verb, and what came of it. -/
inductive Dispatched (c : Composer) (line : List Char) : Composer → List Frame → Prop
  | type {frames} (hv : verbOf line = "type") (h : c.typeText (restOf line) = .ok frames) :
      Dispatched c line c frames
  | key {frames} (hv : verbOf line = "key") (h : c.key (argsOf line) = .ok frames) :
      Dispatched c line c frames
  | combo {frames} (hv : verbOf line = "combo")
      (h : c.combo (splitWhitespace (argsOf line)) = .ok frames) : Dispatched c line c frames
  | down {c' frames} (hv : verbOf line = "down") (h : c.down (argsOf line) = .ok (c', frames)) :
      Dispatched c line c' frames
  | up {c' frames} (hv : verbOf line = "up") (h : c.up (argsOf line) = .ok (c', frames)) :
      Dispatched c line c' frames
  | releaseall (hv : verbOf line = "releaseall") :
      Dispatched c line c.releaseall.1 c.releaseall.2
  | other {c' frames}
      (hv : verbOf line ∉ ["type", "key", "combo", "down", "up", "releaseall"])
      (hmods : c'.heldMods = c.heldMods) (hkeys : c'.heldKeys = c.heldKeys)
      (hframes : ∀ f ∈ frames, OffKeyboard f) : Dispatched c line c' frames

variable {c c' : Composer} {line : List Char} {frames : List Frame}

theorem offKeyboard_mouse (c : Composer) (wheel : Int) : OffKeyboard (c.mouse wheel) :=
  .inl ⟨c, wheel, rfl⟩

theorem offKeyboard_scrollLoop (c : Composer) (fuel : Nat) (left : Int) :
    ∀ f ∈ c.scrollLoop fuel left, OffKeyboard f := by
  induction fuel generalizing left with
  | zero => exact fun f hf => absurd hf List.not_mem_nil
  | succ fuel ih =>
      rw [Composer.scrollLoop]
      split
      · exact fun f hf => absurd hf List.not_mem_nil
      · intro f hf
        rcases List.mem_cons.mp hf with rfl | hf
        · exact offKeyboard_mouse _ _
        · exact ih _ f hf

theorem offKeyboard_ctrl {cmd : UInt8} {args : List UInt8} (h : args.length ≤ 2) :
    ∀ f ∈ [frame fCtrl cmd args], OffKeyboard f := by
  intro f hf
  rw [List.mem_singleton.mp hf]
  exact .inr ⟨cmd, args, h, rfl⟩

theorem of_ite {β : Type} {p q : Prop} [Decidable p] {x y : Except String β} {r : β}
    (hx : p → x = .ok r → q) (hy : ¬p → y = .ok r → q) : (if p then x else y) = .ok r → q := by
  by_cases hp : p
  · rw [if_pos hp]
    exact hx hp
  · rw [if_neg hp]
    exact hy hp

theorem offKeyboard_power {action : List Char} {secs : Option Nat} {f : Frame} :
    Composer.power action secs = .ok f → ∀ g ∈ [f], OffKeyboard g := by
  refine of_ite (fun _ h => ?_) fun _ => of_ite (fun _ h => ?_) fun _ => of_ite (fun _ h => ?_)
    fun _ h => ?_
  · cases h
    exact offKeyboard_ctrl (by decide)
  · cases h
    exact offKeyboard_ctrl (by decide)
  · cases secs with
    | none =>
        cases h
        exact offKeyboard_ctrl (by decide)
    | some secs =>
        cases h
        exact offKeyboard_ctrl (Nat.le_refl 2)
  · cases h

theorem dispatched_pointing {button : List Char}
    (hv : verbOf line ∉ ["type", "key", "combo", "down", "up", "releaseall"])
    {f : UInt8 → Composer × List Frame}
    (hf : ∀ b, (f b).1.heldMods = c.heldMods ∧ (f b).1.heldKeys = c.heldKeys ∧
      ∀ fr ∈ (f b).2, OffKeyboard fr)
    (h : (do return f (← buttonBit button)) = Except.ok (c', frames)) :
    Dispatched c line c' frames := by
  obtain ⟨b, -, hb⟩ := bind_eq_ok.mp h
  obtain ⟨hmods, hkeys, hframes⟩ := hf b
  rw [Except.ok.inj hb] at hmods hkeys hframes
  exact .other hv hmods hkeys hframes

theorem dispatched_of_dispatchVerb :
    c.dispatchVerb (Composer.splitLine line).1 (restOf line) = .ok (c', frames) →
      Dispatched c line c' frames := by
  have hmouse : ∀ (c : Composer) (fr : Frame), fr ∈ [c.mouse 0] → OffKeyboard fr := by
    intro c fr hfr
    rw [List.mem_singleton.mp hfr]
    exact offKeyboard_mouse c 0
  refine of_ite (fun hv h => ?_) fun htype => ?_
  · obtain ⟨fs, hfs, heq⟩ := bind_eq_ok.mp h
    cases heq
    exact .type hv hfs
  refine of_ite (fun hv h => ?_) fun hkey => ?_
  · obtain ⟨fs, hfs, heq⟩ := bind_eq_ok.mp h
    cases heq
    exact .key hv hfs
  refine of_ite (fun hv h => ?_) fun hcombo => ?_
  · obtain ⟨fs, hfs, heq⟩ := bind_eq_ok.mp h
    cases heq
    exact .combo hv hfs
  refine of_ite (fun hv h => .down hv h) fun hdown => ?_
  refine of_ite (fun hv h => .up hv h) fun hup => ?_
  refine of_ite (fun hv h => ?_) fun hrelease => ?_
  · cases h
    exact .releaseall hv
  have hother : verbOf line ∉ ["type", "key", "combo", "down", "up", "releaseall"] := by
    simp only [List.mem_cons, List.not_mem_nil, not_or, or_false]
    exact ⟨htype, hkey, hcombo, hdown, hup, hrelease⟩
  refine of_ite (fun hv h => ?_) fun _ => ?_
  · obtain ⟨xy, -, heq⟩ := bind_eq_ok.mp h
    cases heq
    exact .other hother rfl rfl (hmouse _)
  refine of_ite (fun hv h => ?_) fun _ => ?_
  · obtain ⟨xy, -, heq⟩ := bind_eq_ok.mp h
    cases heq
    exact .other hother rfl rfl (hmouse _)
  refine of_ite (fun hv h => dispatched_pointing hother (fun b => ⟨rfl, rfl, ?_⟩) h) fun _ => ?_
  · intro fr hfr
    rcases List.mem_cons.mp hfr with rfl | hfr
    · exact offKeyboard_mouse _ 0
    · exact hmouse _ fr hfr
  refine of_ite (fun hv h => dispatched_pointing hother (fun b => ⟨rfl, rfl, hmouse _⟩) h)
    fun _ => ?_
  refine of_ite (fun hv h => dispatched_pointing hother (fun b => ⟨rfl, rfl, hmouse _⟩) h)
    fun _ => ?_
  refine of_ite (fun hv h => ?_) fun _ => ?_
  · split at h
    · cases h
    · cases h
      exact .other hother rfl rfl (offKeyboard_scrollLoop _ _ _)
  refine of_ite (fun hv h => ?_) fun _ => ?_
  · cases h
    exact .other hother rfl rfl (offKeyboard_ctrl (Nat.zero_le 2))
  refine of_ite (fun hv h => ?_) fun _ => ?_
  · cases h
    exact .other hother rfl rfl (offKeyboard_ctrl (Nat.zero_le 2))
  refine of_ite (fun hv h => ?_) fun _ => ?_
  · obtain ⟨as, -, h⟩ := bind_eq_ok.mp h
    obtain ⟨f, hf, heq⟩ := bind_eq_ok.mp h
    cases heq
    exact .other hother rfl rfl (offKeyboard_power hf)
  refine of_ite (fun hv h => ?_) fun _ h => ?_
  · cases h
    exact .other hother rfl rfl nofun
  · cases h

/-- Every accepted line is one of these. -/
theorem dispatched (h : c.dispatch line = .ok (c', frames)) : Dispatched c line c' frames := by
  rw [Composer.dispatch] at h
  split at h
  · cases h
  · exact dispatched_of_dispatchVerb h

end Dispatched

end Hidrig

end Paniolo
