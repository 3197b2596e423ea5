import Mathlib.Data.List.DropRight

/-!
# A bounded broadcast channel

Every subscriber receives what is sent after it subscribed, from its own place
in the channel. The channel holds the last `capacity` values: a subscriber that
fell further behind is told how many it missed, and goes on with the oldest
value held. A value sent while nobody is subscribed is dropped.

`Follows later es n` says that the receptions `es` account for the first `n`
values of `later`, each once and in order, either by the value or by a count of
values missed.
-/

namespace Paniolo

/-- `sent` are the values that somebody was subscribed for. -/
structure Broadcast (α : Type*) where
  capacity : Nat
  receivers : Nat := 0
  sent : List α := []
deriving DecidableEq

namespace Broadcast

variable {α : Type*}

inductive Received (α : Type*) where
  | value (a : α)
  | lagged (missed : Nat)
deriving DecidableEq

def send (c : Broadcast α) (a : α) : Broadcast α :=
  if c.receivers = 0 then c else { c with sent := c.sent ++ [a] }

/-- The place of a new subscriber is the number of values sent. -/
def subscribe (c : Broadcast α) : Broadcast α := { c with receivers := c.receivers + 1 }

def unsubscribe (c : Broadcast α) : Broadcast α := { c with receivers := c.receivers - 1 }

/-- The place of the oldest value held. -/
def oldest (c : Broadcast α) : Nat := c.sent.length - c.capacity

/-- What a subscriber at the place receives, and its next place. -/
def recv (c : Broadcast α) (place : Nat) : Option (Received α × Nat) :=
  if place < c.oldest then some (.lagged (c.oldest - place), c.oldest)
  else c.sent[place]?.map fun a => (.value a, place + 1)

theorem send_of_ne {c : Broadcast α} (h : c.receivers ≠ 0) (a : α) :
    (c.send a).sent = c.sent ++ [a] := by
  rw [send, if_neg h]

@[simp] theorem receivers_send (c : Broadcast α) (a : α) : (c.send a).receivers = c.receivers := by
  rw [send]
  split <;> rfl

@[simp] theorem capacity_send (c : Broadcast α) (a : α) : (c.send a).capacity = c.capacity := by
  rw [send]
  split <;> rfl

namespace Received

def value? : Received α → Option α
  | value a => some a
  | lagged _ => none

end Received

inductive Follows (later : List α) : List (Received α) → Nat → Prop
  | nil : Follows later [] 0
  | value {es : List (Received α)} {n : Nat} {a : α} :
      Follows later es n → later[n]? = some a → Follows later (es ++ [.value a]) (n + 1)
  | lagged {es : List (Received α)} {n : Nat} {k : Nat} :
      Follows later es n → n + k ≤ later.length → Follows later (es ++ [.lagged k]) (n + k)

namespace Follows

variable {later : List α} {es : List (Received α)} {n : Nat}

theorem le_length (h : Follows later es n) : n ≤ later.length := by
  cases h with
  | nil => exact Nat.zero_le _
  | value _ ha =>
      obtain ⟨hn, -⟩ := List.getElem?_eq_some_iff.mp ha
      exact hn
  | lagged _ hk => exact hk

/-- More values may be sent. -/
theorem append (h : Follows later es n) (more : List α) : Follows (later ++ more) es n := by
  induction h with
  | nil => exact nil
  | value _ ha ih =>
      obtain ⟨hn, -⟩ := List.getElem?_eq_some_iff.mp ha
      exact ih.value ((List.getElem?_append_left hn).trans ha)
  | lagged _ hk ih =>
      refine ih.lagged (hk.trans ?_)
      rw [List.length_append]
      exact Nat.le_add_right _ _

/-- What is received is among the values sent, in their order. -/
theorem values_sublist (h : Follows later es n) :
    (es.filterMap Received.value?).Sublist (later.take n) := by
  induction h with
  | nil => exact List.nil_sublist _
  | value _ ha ih =>
      rw [List.filterMap_append, List.take_add_one, ha]
      exact ih.append (List.Sublist.refl _)
  | lagged _ _ ih =>
      rw [List.filterMap_append]
      change List.Sublist (_ ++ []) _
      rw [List.append_nil]
      exact ih.trans (List.take_sublist_take_left (Nat.le_add_right _ _))

/-- A subscriber that missed nothing has all that was sent, up to its place. -/
theorem values_eq_take (h : Follows later es n) (hall : ∀ k, .lagged k ∉ es) :
    es.filterMap Received.value? = later.take n := by
  induction h with
  | nil => exact List.take_zero.symm
  | value _ ha ih =>
      have hes := ih fun k hk => hall k (List.mem_append_left _ hk)
      rw [List.filterMap_append, List.take_add_one, ha, hes]
      rfl
  | @lagged _ _ k _ _ _ =>
      exact absurd (List.mem_append_right _ (List.mem_singleton_self _)) (hall k)

end Follows

/-- One reception goes on where the ones before it ended. -/
theorem follows_recv {c : Broadcast α} {first n place : Nat} {later : List α}
    {es : List (Received α)} {e : Received α} (hlater : c.sent.drop first = later)
    (hfirst : first ≤ c.sent.length) (h : Follows later es n)
    (hrecv : c.recv (first + n) = some (e, place)) :
    ∃ m, place = first + m ∧ Follows later (es ++ [e]) m := by
  subst hlater
  rw [recv] at hrecv
  split at hrecv
  next hlt =>
    cases hrecv
    have hend : n + (c.oldest - (first + n)) ≤ (c.sent.drop first).length := by
      rw [List.length_drop]
      have hle : c.oldest ≤ c.sent.length := Nat.sub_le _ _
      omega
    exact ⟨n + (c.oldest - (first + n)), by omega, h.lagged hend⟩
  next hge =>
    obtain ⟨a, ha, heq⟩ := Option.map_eq_some_iff.mp hrecv
    cases heq
    refine ⟨n + 1, Nat.add_assoc _ _ _, h.value ?_⟩
    rw [List.getElem?_drop, ha]

/-- Somebody who has nothing to receive is at the end of the channel. -/
theorem length_le_of_recv {c : Broadcast α} {place : Nat} (h : c.recv place = none) :
    c.sent.length ≤ place := by
  rw [recv] at h
  split at h
  next => cases h
  next => exact List.getElem?_eq_none_iff.mp (Option.map_eq_none_iff.mp h)

/-- Nobody misses a value before `capacity` values were sent after its place. -/
theorem lt_of_recv_lagged {c : Broadcast α} {place next k : Nat}
    (h : c.recv place = some (.lagged k, next)) : place + c.capacity < c.sent.length := by
  rw [recv] at h
  split at h
  next hlt =>
    rw [oldest] at hlt
    omega
  next =>
    obtain ⟨a, -, heq⟩ := Option.map_eq_some_iff.mp h
    cases heq

end Broadcast

end Paniolo
