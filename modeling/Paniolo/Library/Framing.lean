import Mathlib.Data.List.Basic
import Mathlib.Data.List.Forall2

/-!
# Messages in a buffer

A reader takes one message after another off the front of a buffer, until the
front is an incomplete message or an error; then more input is appended. When
more input never changes what the reader makes of the front, it does not matter
how the input was cut into pieces.
-/

namespace Paniolo

namespace Framing

variable {α ε μ : Type*}

/-- The bytes `p` are the message `m`, whatever follows them. -/
def Piece (next : List α → Except ε (Option (μ × List α))) (p : List α) (m : μ) : Prop :=
  p ≠ [] ∧ ∀ more, next (p ++ more) = .ok (some (m, more))

/-- More input does not change what was read. -/
structure Stable (next : List α → Except ε (Option (μ × List α))) : Prop where
  nil : next [] = .ok none
  message : ∀ {buf m rest}, next buf = .ok (some (m, rest)) → ∃ p, buf = p ++ rest ∧ Piece next p m
  error : ∀ {buf e}, next buf = .error e → ∀ more, next (buf ++ more) = .error e

variable {next : List α → Except ε (Option (μ × List α))}

/-! ### Reading until there is no complete message -/

/-- The messages, and the error or the bytes that are left. -/
def drain (next : List α → Except ε (Option (μ × List α))) :
    Nat → List α → List μ × Except ε (List α)
  | 0, buf => ([], .ok buf)
  | fuel + 1, buf =>
      match next buf with
      | .error e => ([], .error e)
      | .ok none => ([], .ok buf)
      | .ok (some (m, rest)) => (m :: (drain next fuel rest).1, (drain next fuel rest).2)

/-- A message is not empty, so the length of the buffer bounds the rounds. -/
def exhaust (next : List α → Except ε (Option (μ × List α))) (buf : List α) :
    List μ × Except ε (List α) :=
  drain next (buf.length + 1) buf

theorem exhaust_none {buf : List α} (h : next buf = .ok none) :
    exhaust next buf = ([], .ok buf) := by
  rw [exhaust, drain, h]

theorem exhaust_error {buf : List α} {e : ε} (h : next buf = .error e) :
    exhaust next buf = ([], .error e) := by
  rw [exhaust, drain, h]

namespace Stable

theorem drain_eq (hs : Stable next) {n k : Nat} {buf : List α} (hn : buf.length < n)
    (hk : buf.length < k) : drain next n buf = drain next k buf := by
  induction n generalizing k buf with
  | zero => exact absurd hn (Nat.not_lt_zero _)
  | succ n ih =>
      cases k with
      | zero => exact absurd hk (Nat.not_lt_zero _)
      | succ k =>
          rw [drain, drain]
          cases h : next buf with
          | error e => rfl
          | ok front =>
              cases front with
              | none => rfl
              | some front =>
                  obtain ⟨m, rest⟩ := front
                  obtain ⟨p, rfl, hp, -⟩ := hs.message h
                  have hpos : 0 < p.length := List.length_pos_iff.mpr hp
                  rw [List.length_append] at hn hk
                  have hrest : drain next n rest = drain next k rest := ih (by omega) (by omega)
                  simp only [hrest]

theorem exhaust_message (hs : Stable next) {p : List α} {m : μ} (hp : Piece next p m)
    (rest : List α) :
    exhaust next (p ++ rest) = (m :: (exhaust next rest).1, (exhaust next rest).2) := by
  have hpos : 0 < p.length := List.length_pos_iff.mpr hp.1
  have hfuel : drain next (p ++ rest).length rest = exhaust next rest := by
    apply hs.drain_eq
    · rw [List.length_append]
      omega
    · exact Nat.lt_succ_self _
  rw [exhaust, drain, hp.2 rest, ← hfuel]

/-- The three ways in which a buffer may begin. -/
theorem induct (hs : Stable next) {P : List α → Prop} (none : ∀ buf, next buf = .ok none → P buf)
    (error : ∀ buf e, next buf = .error e → P buf)
    (message : ∀ p m rest, Piece next p m → P rest → P (p ++ rest)) (buf : List α) : P buf := by
  induction hn : buf.length using Nat.strongRecOn generalizing buf with
  | ind n ih =>
      cases h : next buf with
      | error e => exact error buf e h
      | ok front =>
          cases front with
          | none => exact none buf h
          | some front =>
              obtain ⟨m, rest⟩ := front
              obtain ⟨p, rfl, hp⟩ := hs.message h
              have hpos : 0 < p.length := List.length_pos_iff.mpr hp.1
              rw [List.length_append] at hn
              exact message p m rest hp (ih rest.length (by omega) rest rfl)

theorem exhaust_append_error (hs : Stable next) {x : List α} {e : ε}
    (h : (exhaust next x).2 = .error e) (y : List α) : exhaust next (x ++ y) = exhaust next x := by
  induction x using hs.induct with
  | none x hx =>
      rw [exhaust_none hx] at h
      cases h
  | error x e hx => rw [exhaust_error hx, exhaust_error (hs.error hx y)]
  | message p m rest hp ih =>
      rw [hs.exhaust_message hp] at h
      rw [List.append_assoc, hs.exhaust_message hp, hs.exhaust_message hp, ih h]

theorem exhaust_append_ok (hs : Stable next) {x rest : List α}
    (h : (exhaust next x).2 = .ok rest) (y : List α) :
    exhaust next (x ++ y) =
      ((exhaust next x).1 ++ (exhaust next (rest ++ y)).1, (exhaust next (rest ++ y)).2) := by
  induction x using hs.induct with
  | none x hx =>
      rw [exhaust_none hx] at h
      cases h
      rw [exhaust_none hx]
      rfl
  | error x e hx =>
      rw [exhaust_error hx] at h
      cases h
  | message p m tail hp ih =>
      rw [hs.exhaust_message hp] at h
      rw [List.append_assoc, hs.exhaust_message hp, hs.exhaust_message hp, ih h]
      rfl

/-- What is left is no message yet. -/
theorem exhaust_left (hs : Stable next) {x rest : List α} (h : (exhaust next x).2 = .ok rest) :
    next rest = .ok none := by
  induction x using hs.induct with
  | none x hx =>
      rw [exhaust_none hx] at h
      cases h
      exact hx
  | error x e hx =>
      rw [exhaust_error hx] at h
      cases h
  | message p m tail hp ih =>
      rw [hs.exhaust_message hp] at h
      exact ih h

/-- Messages that are all there are read, and then what follows them. -/
theorem exhaust_pieces (hs : Stable next) {ps : List (List α)} {ms : List μ}
    (h : List.Forall₂ (Piece next) ps ms) (rest : List α) :
    exhaust next (ps.flatten ++ rest) =
      (ms ++ (exhaust next rest).1, (exhaust next rest).2) := by
  induction h with
  | nil => rfl
  | cons hp hrest ih =>
      rw [List.flatten_cons, List.append_assoc, hs.exhaust_message hp, ih]
      rfl

end Stable

/-- Reading stopped in front of `rest`: at an error, or where no complete message begins. -/
def Stops (next : List α → Except ε (Option (μ × List α))) (rest : List α) :
    Except ε (List α) → Prop
  | .error e => next rest = .error e
  | .ok left => left = rest ∧ ∀ p, p <+: rest → next p = .ok none

/-- What was read are the messages at the front, one by one, and no more could be read. -/
theorem Stable.exhaust_spec (hs : Stable next) (buf : List α) :
    ∃ ps rest, buf = ps.flatten ++ rest ∧ List.Forall₂ (Piece next) ps (exhaust next buf).1 ∧
      Stops next rest (exhaust next buf).2 := by
  induction buf using hs.induct with
  | none buf h =>
      rw [exhaust_none h]
      refine ⟨[], buf, rfl, .nil, rfl, fun p hp => ?_⟩
      obtain ⟨more, rfl⟩ := hp
      cases hnext : next p with
      | error e =>
          rw [hs.error hnext more] at h
          cases h
      | ok front =>
          cases front with
          | none => rfl
          | some front =>
              obtain ⟨m, rest⟩ := front
              obtain ⟨q, rfl, -, hq⟩ := hs.message hnext
              rw [List.append_assoc, hq] at h
              cases h
  | error buf e h =>
      rw [exhaust_error h]
      exact ⟨[], buf, rfl, .nil, h⟩
  | message p m tail hp ih =>
      obtain ⟨ps, rest, htail, hps, hstop⟩ := ih
      rw [hs.exhaust_message hp]
      refine ⟨p :: ps, rest, ?_, .cons hp hps, hstop⟩
      rw [List.flatten_cons, List.append_assoc, ← htail]

/-! ### Input in pieces -/

/-- Each piece of the input is appended to what is left, and the messages are read. -/
def feed (next : List α → Except ε (Option (μ × List α))) :
    List α → List (List α) → List μ × Except ε (List α)
  | buf, [] => ([], .ok buf)
  | buf, c :: cs =>
      match (exhaust next (buf ++ c)).2 with
      | .error e => ((exhaust next (buf ++ c)).1, .error e)
      | .ok rest =>
          ((exhaust next (buf ++ c)).1 ++ (feed next rest cs).1, (feed next rest cs).2)

theorem Stable.feed_eq (hs : Stable next) {buf : List α} (h : next buf = .ok none)
    (cs : List (List α)) : feed next buf cs = exhaust next (buf ++ cs.flatten) := by
  induction cs generalizing buf with
  | nil => rw [feed, List.flatten_nil, List.append_nil, exhaust_none h]
  | cons c cs ih =>
      rw [feed, List.flatten_cons, ← List.append_assoc]
      cases hx : (exhaust next (buf ++ c)).2 with
      | error e =>
          rw [hs.exhaust_append_error hx]
          exact Prod.ext rfl hx.symm
      | ok rest =>
          rw [hs.exhaust_append_ok hx, ← ih (hs.exhaust_left hx)]

end Framing

end Paniolo
