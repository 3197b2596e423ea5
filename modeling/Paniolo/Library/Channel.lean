import Mathlib.Logic.Function.Basic

/-!
# Channels

Go's buffered channels. A send waits for room in the buffer and panics on a closed channel, a
receive drains the buffer before it reports that the channel is closed, and closing twice panics.
-/

namespace Paniolo

/-- What an operation that may block or panic comes to. -/
inductive Effect (σ : Type*) where
  | done (s : σ)
  | blocks
  | panics

structure Channel (α : Type*) where
  capacity : Nat
  buffer : List α
  closed : Bool
deriving DecidableEq

namespace Channel

variable {α : Type*}

/-- `make(chan α, capacity)`. -/
def make (capacity : Nat) : Channel α := ⟨capacity, [], false⟩

def send (c : Channel α) (x : α) : Effect (Channel α) :=
  if c.closed then .panics
  else if c.buffer.length < c.capacity then .done { c with buffer := c.buffer ++ [x] }
  else .blocks

def close (c : Channel α) : Effect (Channel α) :=
  if c.closed then .panics else .done { c with closed := true }

/-- `x, ok := <-c`; nothing when it blocks. -/
def receive (c : Channel α) : Option (Option α × Channel α) :=
  match c.buffer with
  | x :: rest => some (some x, { c with buffer := rest })
  | [] => if c.closed then some (none, c) else none

theorem send_make {capacity : Nat} (h : 0 < capacity) (x : α) :
    (make capacity).send x = .done ⟨capacity, [x], false⟩ := by
  rw [send, make, if_neg Bool.false_ne_true, List.length_nil, if_pos h, List.nil_append]

/-- A receive takes the oldest value, or finds the channel closed and leaves it. -/
theorem receive_eq_some {c : Channel α} {r : Option α × Channel α} (h : c.receive = some r) :
    (∃ x rest, c.buffer = x :: rest ∧ r = (some x, { c with buffer := rest })) ∨ r = (none, c) := by
  rw [receive] at h
  split at h
  · next x rest hbuffer =>
      cases h
      exact Or.inl ⟨x, rest, hbuffer, rfl⟩
  · split at h
    · cases h
      exact Or.inr rfl
    · cases h

/-- Close the channels `cs` in turn. -/
def closeAll (chans : Nat → Channel α) : List Nat → Effect (Nat → Channel α)
  | [] => .done chans
  | c :: cs =>
      match (chans c).close with
      | .done closed => closeAll (Function.update chans c closed) cs
      | .blocks => .blocks
      | .panics => .panics

/-- Channels that are open and listed once can all be closed, and the others stay as they are. -/
theorem closeAll_eq_done {chans : Nat → Channel α} {cs : List Nat} (hnodup : cs.Nodup)
    (hopen : ∀ c ∈ cs, (chans c).closed = false) :
    closeAll chans cs =
      .done fun c => if c ∈ cs then { chans c with closed := true } else chans c := by
  induction cs generalizing chans with
  | nil => rfl
  | cons c cs ih =>
      obtain ⟨hc, hcs⟩ := List.nodup_cons.mp hnodup
      have hclose : (chans c).close = .done { chans c with closed := true } := by
        rw [close, hopen c (List.mem_cons_self ..), if_neg Bool.false_ne_true]
      have hother : ∀ d ∈ cs,
          Function.update chans c { chans c with closed := true } d = chans d := by
        intro d hd
        have hne : d ≠ c := fun h => hc (h ▸ hd)
        exact Function.update_of_ne hne _ _
      have hrest : ∀ d ∈ cs,
          (Function.update chans c { chans c with closed := true } d).closed = false := by
        intro d hd
        rw [hother d hd]
        exact hopen d (List.mem_cons_of_mem c hd)
      rw [closeAll, hclose]
      refine (ih hcs hrest).trans (congrArg Effect.done (funext fun d => ?_))
      by_cases hd : d ∈ cs
      · rw [if_pos hd, if_pos (List.mem_cons_of_mem c hd), hother d hd]
      · by_cases hdc : d = c
        · rw [if_neg hd, if_pos (hdc ▸ List.mem_cons_self ..), hdc, Function.update_self]
        · rw [if_neg hd, if_neg (fun h => (List.mem_cons.mp h).elim hdc hd),
            Function.update_of_ne hdc]

end Channel

end Paniolo
