import Mathlib.Data.List.Basic

/-!
# Programs that write to a connection

A program writes to a connection that may break: a write then fails after some
of its bytes have left. An error ends the program. `Writes` is the rule for
what a program adds to the connection, when it ends well and when it does not.
-/

namespace Paniolo

/-- A connection: what has been written to it, and how many more bytes it takes before a write
fails; `none` is a connection that does not break. -/
structure Wire where
  sent : List UInt8
  room : Option Nat

/-- A program that writes, with a result or an error. -/
def Output (ε α : Type) : Type := Wire → Except ε α × Wire

namespace Output

variable {ε α β : Type}

def bind (x : Output ε α) (f : α → Output ε β) : Output ε β := fun w =>
  match x w with
  | (.ok a, w') => f a w'
  | (.error e, w') => (.error e, w')

instance : Monad (Output ε) where
  pure a := fun w => (.ok a, w)
  bind := bind

/-- A step that writes nothing. -/
def lift (r : Except ε α) : Output ε α := fun w => (r, w)

/-- Write all of `b`. -/
def writeAll (broken : ε) (b : List UInt8) : Output ε Unit := fun w =>
  match w.room with
  | none => (.ok (), { w with sent := w.sent ++ b })
  | some room =>
      if b.length ≤ room then (.ok (), ⟨w.sent ++ b, some (room - b.length)⟩)
      else (.error broken, ⟨w.sent ++ b.take room, some 0⟩)

/-- What the program adds to the connection: `P` of the result and the bytes when it ends well,
`Q` of the bytes when it does not. -/
def Writes (x : Output ε α) (P : α → List UInt8 → Prop) (Q : List UInt8 → Prop) : Prop :=
  ∀ w, ∃ b, (x w).2.sent = w.sent ++ b ∧ (∀ a, (x w).1 = .ok a → P a b) ∧
    ∀ e, (x w).1 = .error e → Q b

variable {x : Output ε α} {P : α → List UInt8 → Prop} {Q : List UInt8 → Prop}

theorem writes_pure {a : α} (h : P a []) : (pure a : Output ε α).Writes P Q := by
  intro w
  refine ⟨[], (List.append_nil _).symm, fun b hb => ?_, nofun⟩
  cases hb
  exact h

theorem writes_lift {r : Except ε α} (hok : ∀ a, r = .ok a → P a []) (herror : Q []) :
    (lift r).Writes P Q := by
  intro w
  exact ⟨[], (List.append_nil _).symm, hok, fun _ _ => herror⟩

theorem writes_writeAll {broken : ε} {P : Unit → List UInt8 → Prop} {b : List UInt8}
    (hok : P () b) (herror : ∀ c, c <+: b → c ≠ b → Q c) : (writeAll broken b).Writes P Q := by
  intro w
  rw [writeAll]
  cases w.room with
  | none => exact ⟨b, rfl, fun _ _ => hok, nofun⟩
  | some room =>
      simp only
      split
      · exact ⟨b, rfl, fun _ _ => hok, nofun⟩
      · next hroom =>
          refine ⟨b.take room, rfl, nofun, fun _ _ => herror _ (List.take_prefix room b) ?_⟩
          intro heq
          have hlen := congrArg List.length heq
          rw [List.length_take] at hlen
          omega

/-- A program and then another. -/
theorem Writes.bind {f : α → Output ε β} {P' : β → List UInt8 → Prop} {Q' : List UInt8 → Prop}
    (hx : x.Writes P Q)
    (hf : ∀ a b, P a b → (f a).Writes (fun a' b' => P' a' (b ++ b')) fun b' => Q' (b ++ b'))
    (hQ : ∀ b, Q b → Q' b) : (x >>= f).Writes P' Q' := by
  intro w
  obtain ⟨b, hb, hok, herror⟩ := hx w
  have hrun : (x >>= f) w = Output.bind x f w := rfl
  rw [hrun, Output.bind]
  cases hxw : x w with
  | mk r w' =>
      rw [hxw] at hb hok herror
      cases r with
      | error e =>
          refine ⟨b, hb, nofun, fun _ _ => hQ b (herror e rfl)⟩
      | ok a =>
          obtain ⟨b', hb', hok', herror'⟩ := hf a b (hok a rfl) w'
          refine ⟨b ++ b', ?_, hok', herror'⟩
          rw [← List.append_assoc, ← hb]
          exact hb'

theorem Writes.mono {P' : α → List UInt8 → Prop} {Q' : List UInt8 → Prop} (hx : x.Writes P Q)
    (hP : ∀ a b, P a b → P' a b) (hQ : ∀ b, Q b → Q' b) : x.Writes P' Q' := by
  intro w
  obtain ⟨b, hb, hok, herror⟩ := hx w
  exact ⟨b, hb, fun a ha => hP a b (hok a ha), fun e he => hQ b (herror e he)⟩

end Output

end Paniolo
