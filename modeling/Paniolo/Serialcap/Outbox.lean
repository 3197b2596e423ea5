import Paniolo.Library.Machine
import Mathlib.Algebra.Order.BigOperators.Group.List
import Mathlib.Tactic.Ring

/-!
# The outbox of a serial interface

A bounded FIFO of write requests whose acknowledgements follow the writes. One
cursor and one counter serve the whole queue, whose head may be partly
written, cancelled midway, or exposed a byte at a time. Around the outbox
stands a ledger of every request ever enqueued with the number of its bytes
that were consumed; the outbox itself does not know it.
-/

namespace Paniolo

namespace Serialcap

namespace Outbox

def WRITE_CHUNK : Nat := 256

/-- One caller's write. `reply` says that somebody waits for the answer; `id` is the place of the
request in the order of arrival. -/
structure WriteRequest where
  id : Nat
  data : List UInt8
  pace : Nat
  generation : Nat
  reply : Bool
deriving DecidableEq

/-- The caller is gone; `closed` are the requests whose callers are. -/
def WriteRequest.cancelled (closed : List Nat) (r : WriteRequest) : Bool :=
  r.reply && closed.contains r.id

/-- Subtraction of `usize`, which must not go below zero. -/
def checkedSub (a b : Nat) : Option Nat :=
  if b ≤ a then some (a - b) else none

end Outbox

open Outbox (WriteRequest WRITE_CHUNK checkedSub)

structure Outbox where
  queue : List WriteRequest
  cursor : Nat
  pending : Nat
  nextByte : Option Nat
deriving DecidableEq

namespace Outbox

def empty : Outbox := ⟨[], 0, 0, none⟩

/-- The outbox with the request, and the requests acknowledged by it. -/
def enqueue (o : Outbox) (r : WriteRequest) : Outbox × List Nat :=
  if r.data = [] then (o, if r.reply then [r.id] else [])
  else ({ o with queue := o.queue ++ [r], pending := o.pending + r.data.length }, [])

/-- The slice that is offered to the driver next. -/
def front (o : Outbox) : List UInt8 :=
  match o.queue with
  | [] => []
  | head :: _ => (head.data.drop o.cursor).take (if head.pace = 0 then WRITE_CHUNK else 1)

/-- The driver has taken `n` bytes at the time `now`; `none` is an underflow. -/
def consume (o : Outbox) (now n : Nat) : Option (Outbox × List Nat) :=
  match o.queue with
  | [] => some (o, [])
  | head :: rest => do
      let left ← checkedSub head.data.length o.cursor
      let n := min n left
      if n = 0 then some (o, [])
      else do
        let pending ← checkedSub o.pending n
        let cursor := o.cursor + n
        let nextByte := if head.pace = 0 then none else some (now + head.pace)
        if cursor = head.data.length then
          some (⟨rest, 0, pending, nextByte⟩, if head.reply then [head.id] else [])
        else some (⟨o.queue, cursor, pending, nextByte⟩, [])

def discardLoop (closed : List Nat) (nextByte : Option Nat) :
    List WriteRequest → Nat → Nat → Option Outbox
  | [], cursor, pending => some ⟨[], cursor, pending, nextByte⟩
  | r :: rest, cursor, pending =>
      if r.cancelled closed then do
        let left ← checkedSub r.data.length cursor
        let pending ← checkedSub pending left
        discardLoop closed nextByte rest 0 pending
      else some ⟨r :: rest, cursor, pending, nextByte⟩

def discardCancelled (o : Outbox) (closed : List Nat) : Option Outbox :=
  discardLoop closed o.nextByte o.queue o.cursor o.pending

/-! ### The outbox at work -/

/-- The outbox with its callers and its driver. The ledger has every request ever enqueued, in
order, with the number of its bytes that the driver took. -/
structure World where
  outbox : Outbox
  ledger : List (WriteRequest × Nat)
  closed : List Nat
  written : List UInt8
  acked : List Nat

inductive Action
  | enqueue (data : List UInt8) (pace generation : Nat) (reply : Bool)
  | consume (now n : Nat)
  | discardCancelled
  | cancel (id : Nat)
deriving DecidableEq

namespace World

def start : World := ⟨empty, [], [], [], []⟩

/-- Note `n` more bytes of the request at the head of the queue. -/
def credit (w : World) (n : Nat) : List (WriteRequest × Nat) :=
  match w.outbox.queue with
  | [] => w.ledger
  | head :: _ => w.ledger.modify head.id fun e => (e.1, e.2 + n)

/-- `none` is an arithmetic underflow in the outbox. -/
def step (w : World) : Action → Option World
  | .enqueue data pace generation reply =>
      let r : WriteRequest := ⟨w.ledger.length, data, pace, generation, reply⟩
      let (outbox, acks) := w.outbox.enqueue r
      some { w with outbox := outbox, ledger := w.ledger ++ [(r, 0)], acked := w.acked ++ acks }
  | .consume now n => do
      let (outbox, acks) ← w.outbox.consume now n
      pure { w with
             outbox := outbox
             ledger := w.credit n
             written := w.written ++ w.outbox.front.take n
             acked := w.acked ++ acks }
  | .discardCancelled => do
      let outbox ← w.outbox.discardCancelled w.closed
      pure { w with outbox := outbox }
  | .cancel id => some { w with closed := id :: w.closed }

/-- The driver takes no more than it was offered. -/
def Allowed (w : World) : Action → Prop
  | .consume _ n => n ≤ w.outbox.front.length
  | _ => True

instance (w : World) : (a : Action) → Decidable (w.Allowed a)
  | .consume _ n => inferInstanceAs (Decidable (n ≤ w.outbox.front.length))
  | .enqueue _ _ _ _ => isTrue trivial
  | .discardCancelled => isTrue trivial
  | .cancel _ => isTrue trivial

/-- What was queued and not yet consumed. -/
def unsent (w : World) : List UInt8 :=
  (w.outbox.queue.flatMap WriteRequest.data).drop w.outbox.cursor

end World

/-! ### The invariant -/

/-- A request that left the queue: written to its end, or given up by its caller before that. -/
def Settled (closed : List Nat) (e : WriteRequest × Nat) : Prop :=
  e.2 = e.1.data.length ∨ (e.2 < e.1.data.length ∧ e.1.cancelled closed = true)

/-- How the queue lies in the ledger: everything before its head is settled, and nothing of what
came after it is consumed. Requests without data are settled when they come. -/
inductive Shape (closed : List Nat) (ledger : List (WriteRequest × Nat)) :
    List WriteRequest → Nat → Prop
  | idle (h : ∀ e ∈ ledger, Settled closed e) : Shape closed ledger [] 0
  | busy {past : List (WriteRequest × Nat)} {r : WriteRequest} {later : List WriteRequest}
      {cursor : Nat} (hledger : ledger = past ++ (r, cursor) :: later.map (·, 0))
      (hpast : ∀ e ∈ past, Settled closed e) (hcursor : cursor < r.data.length) :
      Shape closed ledger (r :: later.filter fun q => q.data ≠ []) cursor

def queuedBytes (queue : List WriteRequest) : Nat :=
  (queue.map fun r => r.data.length).sum

/-- The entry is of request `i`, whose caller waits and whose last byte was consumed. -/
def Acked (i : Nat) (e : WriteRequest × Nat) : Prop :=
  e.1.id = i ∧ e.1.reply = true ∧ e.2 = e.1.data.length

structure World.Inv (w : World) : Prop where
  ids : w.ledger.map (fun e => e.1.id) = List.range w.ledger.length
  shape : Shape w.closed w.ledger w.outbox.queue w.outbox.cursor
  pending : w.outbox.pending + w.outbox.cursor = queuedBytes w.outbox.queue
  written : w.written = w.ledger.flatMap fun e : WriteRequest × Nat => e.1.data.take e.2
  nodup : w.acked.Nodup
  acked : ∀ i, i ∈ w.acked ↔ ∃ e ∈ w.ledger, Acked i e

theorem Settled.mono {closed : List Nat} {e : WriteRequest × Nat} (h : Settled closed e) (id : Nat) :
    Settled (id :: closed) e := by
  refine h.imp_right fun ⟨hlt, hc⟩ => ⟨hlt, ?_⟩
  rw [WriteRequest.cancelled, Bool.and_eq_true] at hc ⊢
  refine ⟨hc.1, ?_⟩
  rw [List.contains_iff_mem] at hc ⊢
  exact List.mem_cons_of_mem _ hc.2

theorem Shape.mono {closed : List Nat} {ledger : List (WriteRequest × Nat)}
    {queue : List WriteRequest} {cursor : Nat} (h : Shape closed ledger queue cursor) (id : Nat) :
    Shape (id :: closed) ledger queue cursor := by
  cases h with
  | idle h => exact .idle fun e he => (h e he).mono id
  | busy hledger hpast hcursor => exact .busy hledger (fun e he => (hpast e he).mono id) hcursor

/-- Behind settled requests, the first one with data is the head. -/
theorem shape_of_later {closed : List Nat} (later : List WriteRequest) :
    ∀ past : List (WriteRequest × Nat), (∀ e ∈ past, Settled closed e) →
      Shape closed (past ++ later.map (·, 0)) (later.filter fun q => q.data ≠ []) 0 := by
  induction later with
  | nil =>
      intro past hpast
      rw [List.map_nil, List.append_nil]
      exact .idle hpast
  | cons r later ih =>
      intro past hpast
      by_cases hr : r.data = []
      · have hsettled : ∀ e ∈ past ++ [(r, 0)], Settled closed e := by
          intro e he
          rcases List.mem_append.mp he with he | he
          · exact hpast e he
          · rw [List.mem_singleton.mp he]
            exact Or.inl (by simp [hr])
        have hrest := ih (past ++ [(r, 0)]) hsettled
        rw [List.append_assoc] at hrest
        rw [List.filter_cons_of_neg (by simp [hr])]
        exact hrest
      · rw [List.filter_cons_of_pos (by simp [hr])]
        exact .busy rfl hpast (List.length_pos_iff.mpr hr)

theorem checkedSub_of_le {a b : Nat} (h : b ≤ a) : checkedSub a b = some (a - b) :=
  if_pos h

/-- The head leaves the queue: what came after it is as if it had just come. -/
theorem Shape.pop {closed : List Nat} {past : List (WriteRequest × Nat)} {r : WriteRequest}
    {later : List WriteRequest} {n : Nat} (hpast : ∀ e ∈ past, Settled closed e)
    (hr : Settled closed (r, n)) :
    Shape closed (past ++ (r, n) :: later.map (·, 0)) (later.filter fun q => q.data ≠ []) 0 := by
  have h := shape_of_later later (past ++ [(r, n)]) fun e he => by
    rcases List.mem_append.mp he with he | he
    · exact hpast e he
    · rw [List.mem_singleton.mp he]
      exact hr
  rwa [List.append_assoc] at h

theorem discardLoop_spec {closed : List Nat} {ledger : List (WriteRequest × Nat)}
    (nextByte : Option Nat) (queue : List WriteRequest) :
    ∀ cursor pending : Nat, Shape closed ledger queue cursor →
      pending + cursor = queuedBytes queue →
      ∃ o, discardLoop closed nextByte queue cursor pending = some o ∧
        Shape closed ledger o.queue o.cursor ∧ o.pending + o.cursor = queuedBytes o.queue := by
  induction queue with
  | nil => exact fun cursor pending hshape hpending => ⟨_, rfl, hshape, hpending⟩
  | cons r rest ih =>
      intro cursor pending hshape hpending
      rw [discardLoop]
      by_cases hc : r.cancelled closed = true
      · rw [if_pos hc]
        cases hshape with
        | @busy past r later cursor hledger hpast hcursor =>
            have hbytes : queuedBytes (r :: later.filter fun q => q.data ≠ []) =
                r.data.length + queuedBytes (later.filter fun q => q.data ≠ []) := by
              simp [queuedBytes]
            rw [hbytes] at hpending
            have hrest : Shape closed ledger (later.filter fun q => q.data ≠ []) 0 := by
              rw [hledger]
              exact Shape.pop hpast (Or.inr ⟨hcursor, hc⟩)
            obtain ⟨o, ho, hspec⟩ := ih 0 (pending - (r.data.length - cursor)) hrest (by omega)
            refine ⟨o, ?_, hspec⟩
            rw [checkedSub_of_le (by omega)]
            change (checkedSub pending (r.data.length - cursor)).bind _ = _
            rw [checkedSub_of_le (by omega)]
            exact ho
      · rw [if_neg hc]
        exact ⟨_, rfl, hshape, hpending⟩

theorem Shape.enqueue {closed : List Nat} {ledger : List (WriteRequest × Nat)}
    {queue : List WriteRequest} {cursor : Nat} (h : Shape closed ledger queue cursor)
    (r : WriteRequest) :
    Shape closed (ledger ++ [(r, 0)]) (queue ++ [r].filter fun q => q.data ≠ []) cursor := by
  cases h with
  | idle h => exact shape_of_later [r] ledger h
  | @busy past head later cursor hledger hpast hcursor =>
      rw [List.cons_append, ← List.filter_append]
      have hlonger : ledger ++ [(r, 0)] =
          past ++ (head, cursor) :: (later ++ [r]).map (·, 0) := by
        rw [hledger]
        simp
      exact .busy hlonger hpast hcursor

theorem queuedBytes_append (queue rest : List WriteRequest) :
    queuedBytes (queue ++ rest) = queuedBytes queue + queuedBytes rest := by
  simp [queuedBytes]

theorem enqueue_spec (o : Outbox) (r : WriteRequest) :
    (o.enqueue r).1.queue = o.queue ++ ([r].filter fun q => q.data ≠ []) ∧
      (o.enqueue r).1.cursor = o.cursor ∧
      (o.enqueue r).1.pending = o.pending + r.data.length ∧
      (o.enqueue r).2 = if r.data = [] ∧ r.reply = true then [r.id] else [] := by
  rw [enqueue]
  by_cases hr : r.data = []
  · rw [if_pos hr]
    simp [hr]
  · rw [if_neg hr]
    simp [hr]

theorem modify_middle {α : Type*} (past : List α) (e : α) (later : List α) (f : α → α) :
    (past ++ e :: later).modify past.length f = past ++ f e :: later := by
  induction past with
  | nil => rfl
  | cons a past ih => simp [ih]

namespace World.Inv

variable {w : World} (h : w.Inv)
include h

theorem id_lt {e : WriteRequest × Nat} (he : e ∈ w.ledger) : e.1.id < w.ledger.length := by
  have hmem : e.1.id ∈ w.ledger.map fun e => e.1.id := List.mem_map_of_mem he
  rwa [h.ids, List.mem_range] at hmem

theorem nodup_ids : (w.ledger.map fun e => e.1.id).Nodup := by
  rw [h.ids]
  exact List.nodup_range

theorem enqueue (r : WriteRequest) (hid : r.id = w.ledger.length) :
    World.Inv { w with
      outbox := (w.outbox.enqueue r).1
      ledger := w.ledger ++ [(r, 0)]
      acked := w.acked ++ (w.outbox.enqueue r).2 } := by
  obtain ⟨hqueue, hcursor, hpending, hacks⟩ := enqueue_spec w.outbox r
  have hfresh : r.id ∉ w.acked := by
    intro hmem
    obtain ⟨e, he, heq, -⟩ := (h.acked r.id).mp hmem
    have := h.id_lt he
    omega
  refine ⟨?_, ?_, ?_, ?_, ?_, ?_⟩
  · simp [h.ids, hid, List.range_succ]
  · rw [hqueue, hcursor]
    exact h.shape.enqueue r
  · have hone : queuedBytes ([r].filter fun q => q.data ≠ []) = r.data.length := by
      by_cases hr : r.data = [] <;> simp [queuedBytes, hr]
    rw [hpending, hcursor, hqueue, queuedBytes_append, hone, ← h.pending]
    omega
  · simp [h.written]
  · dsimp only
    rw [hacks]
    split
    · exact List.nodup_append.mpr ⟨h.nodup, by simp, fun a ha b hb hab => hfresh (by
        rw [List.mem_singleton.mp hb] at hab
        exact hab ▸ ha)⟩
    · rw [List.append_nil]
      exact h.nodup
  · intro i
    have hnew : i ∈ (if r.data = [] ∧ r.reply = true then [r.id] else []) ↔ Acked i (r, 0) := by
      rw [Acked]
      split
      · rename_i hr
        simp [hr.1, hr.2, eq_comm]
      · rename_i hr
        constructor
        · intro hi
          cases hi
        · rintro ⟨-, hreply, hlen⟩
          exact absurd ⟨List.length_eq_zero_iff.mp hlen.symm, hreply⟩ hr
    dsimp only
    rw [List.mem_append, h.acked, hacks, hnew]
    simp [or_and_right, exists_or]

theorem cancel (id : Nat) : World.Inv { w with closed := id :: w.closed } :=
  ⟨h.ids, h.shape.mono id, h.pending, h.written, h.nodup, h.acked⟩

theorem discardCancelled : ∃ o, w.outbox.discardCancelled w.closed = some o ∧
    World.Inv { w with outbox := o } := by
  obtain ⟨o, ho, hshape, hpending⟩ :=
    discardLoop_spec w.outbox.nextByte w.outbox.queue w.outbox.cursor w.outbox.pending h.shape h.pending
  exact ⟨o, ho, h.ids, hshape, hpending, h.written, h.nodup, h.acked⟩

/-- Some bytes of the head are consumed. -/
theorem consume_busy {past : List (WriteRequest × Nat)} {r : WriteRequest}
    {later : List WriteRequest} {n : Nat} (o : Outbox) (acks : List Nat)
    (hledger : w.ledger = past ++ (r, w.outbox.cursor) :: later.map (·, 0))
    (hpast : ∀ e ∈ past, Settled w.closed e) (hcursor : w.outbox.cursor < r.data.length)
    (hqueue : w.outbox.queue = r :: later.filter fun q => q.data ≠ [])
    (hn : n ≤ w.outbox.front.length) (hpending : o.pending + n = w.outbox.pending)
    (hacks : acks = if w.outbox.cursor + n = r.data.length ∧ r.reply = true then [r.id] else [])
    (hdone : w.outbox.cursor + n = r.data.length →
      o.queue = (later.filter fun q => q.data ≠ []) ∧ o.cursor = 0)
    (hmore : w.outbox.cursor + n < r.data.length →
      o.queue = w.outbox.queue ∧ o.cursor = w.outbox.cursor + n) :
    World.Inv { w with
      outbox := o
      ledger := w.credit n
      written := w.written ++ w.outbox.front.take n
      acked := w.acked ++ acks } := by
  have hfront : w.outbox.front =
      (r.data.drop w.outbox.cursor).take (if r.pace = 0 then WRITE_CHUNK else 1) := by
    rw [front, hqueue]
  have hle : w.outbox.cursor + n ≤ r.data.length := by
    rw [hfront, List.length_take, List.length_drop] at hn
    omega
  have hid : r.id = past.length := by
    have hget := congrArg (fun l => l[past.length]?) h.ids
    rw [hledger] at hget
    simpa using hget
  have hcredit : w.credit n = past ++ (r, w.outbox.cursor + n) :: later.map (·, 0) := by
    rw [World.credit, hqueue]
    dsimp only
    rw [hid, hledger]
    exact modify_middle past _ _ _
  have hother : ∀ e ∈ past ++ later.map (·, 0), e.1.id ≠ r.id := by
    have hnodup := h.nodup_ids
    rw [hledger] at hnodup
    rw [List.map_append, List.map_cons, List.perm_middle.nodup_iff] at hnodup
    intro e he heq
    refine (List.nodup_cons.mp hnodup).1 ?_
    rw [← List.map_append]
    exact List.mem_map.mpr ⟨e, he, heq⟩
  -- an entry of the ledger is the head's or one of the others
  have hsplit : ∀ (m i : Nat), (∃ e ∈ past ++ (r, m) :: later.map (·, 0), Acked i e) ↔
      (∃ e ∈ past ++ later.map (·, 0), Acked i e) ∨ Acked i (r, m) := by
    intro m i
    simp only [List.mem_append, List.mem_cons, or_and_right, exists_or, exists_eq_left]
    rw [or_assoc, or_comm (a := Acked i (r, m))]
  have hold : ∀ i, i ∈ w.acked ↔ ∃ e ∈ past ++ later.map (·, 0), Acked i e := by
    intro i
    rw [h.acked, hledger, hsplit, or_iff_left]
    rintro ⟨-, -, hlen⟩
    dsimp only at hlen
    omega
  have hnew : ∀ i, i ∈ acks ↔ Acked i (r, w.outbox.cursor + n) := by
    intro i
    rw [hacks, Acked]
    split
    · rename_i hall
      simp [hall.1, hall.2, eq_comm]
    · rename_i hnot
      constructor
      · intro hi
        cases hi
      · rintro ⟨-, hreply, hlen⟩
        exact absurd ⟨hlen, hreply⟩ hnot
  refine ⟨?_, ?_, ?_, ?_, ?_, ?_⟩
  · have hids := h.ids
    rw [hledger] at hids
    rw [hcredit]
    simpa using hids
  · dsimp only
    rw [hcredit]
    rcases Nat.lt_or_eq_of_le hle with hlt | heq
    · obtain ⟨hq, hc⟩ := hmore hlt
      rw [hq, hc, hqueue]
      exact .busy rfl hpast hlt
    · obtain ⟨hq, hc⟩ := hdone heq
      rw [hq, hc]
      exact Shape.pop hpast (Or.inl heq)
  · have hbytes : queuedBytes w.outbox.queue =
        r.data.length + queuedBytes (later.filter fun q => q.data ≠ []) := by
      simp [queuedBytes, hqueue]
    have hsum := h.pending
    dsimp only
    rcases Nat.lt_or_eq_of_le hle with hlt | heq
    · obtain ⟨hq, hc⟩ := hmore hlt
      rw [hq, hc]
      omega
    · obtain ⟨hq, hc⟩ := hdone heq
      rw [hq, hc]
      omega
  · have htake : w.outbox.front.take n = (r.data.drop w.outbox.cursor).take n := by
      rw [hfront] at hn ⊢
      rw [List.take_take, Nat.min_eq_left]
      exact Nat.le_trans hn (List.length_take_le _ _)
    have hnone : (later.map (·, 0)).flatMap (fun e : WriteRequest × Nat => e.1.data.take e.2) = [] := by
      simp [List.flatMap_map]
    dsimp only
    rw [h.written, hcredit, hledger, htake, List.flatMap_append, List.flatMap_append,
      List.flatMap_cons, List.flatMap_cons, hnone, List.append_nil, List.append_nil,
      List.append_assoc, List.take_add]
  · refine List.nodup_append.mpr ⟨h.nodup, ?_, ?_⟩
    · rw [hacks]
      split <;> simp
    · rintro a ha b hb rfl
      obtain ⟨e, he, hea, -⟩ := (hold a).mp ha
      exact hother e he (hea.trans ((hnew a).mp hb).1.symm)
  · intro i
    dsimp only
    rw [List.mem_append, hold, hnew, hcredit, hsplit]

theorem consume (now : Nat) {n : Nat} (hn : n ≤ w.outbox.front.length) :
    ∃ o acks, w.outbox.consume now n = some (o, acks) ∧
      World.Inv { w with
        outbox := o
        ledger := w.credit n
        written := w.written ++ w.outbox.front.take n
        acked := w.acked ++ acks } := by
  have hshape := h.shape
  generalize hq : w.outbox.queue = queue at hshape
  generalize hc : w.outbox.cursor = cursor at hshape
  cases hshape with
  | idle hall =>
      have hnil : w.outbox.front = [] := by rw [front, hq]
      have hn0 : n = 0 := by simpa [hnil] using hn
      refine ⟨w.outbox, [], by rw [Outbox.consume, hq], ?_⟩
      have hcredit : w.credit n = w.ledger := by rw [World.credit, hq]
      rw [hcredit, hnil, List.take_nil, List.append_nil, List.append_nil]
      exact h
  | @busy past r later cursor hledger hpast hcursor =>
      rw [← hc] at hledger hcursor
      have hleft : n ≤ r.data.length - w.outbox.cursor := by
        rw [front, hq] at hn
        simp only [List.length_take, List.length_drop] at hn
        omega
      have hsum := h.pending
      have hbytes : queuedBytes w.outbox.queue =
          r.data.length + queuedBytes (later.filter fun q => q.data ≠ []) := by
        simp [queuedBytes, hq]
      have hinv := fun o acks => h.consume_busy o acks hledger hpast hcursor hq hn
      simp only [Outbox.consume, hq, checkedSub_of_le (Nat.le_of_lt hcursor), Option.bind_eq_bind,
        Option.bind_some, Nat.min_eq_left hleft]
      by_cases hzero : n = 0
      · rw [if_pos hzero]
        refine ⟨w.outbox, [], rfl, hinv _ _ (by omega) ?_ ?_ ?_⟩
        · rw [if_neg]
          omega
        · omega
        · exact fun _ => ⟨rfl, by omega⟩
      · rw [if_neg hzero, checkedSub_of_le (by omega), Option.bind_some]
        by_cases hall : w.outbox.cursor + n = r.data.length
        · rw [if_pos hall]
          refine ⟨_, _, rfl, hinv _ _ (by dsimp only; omega) ?_ ?_ ?_⟩
          · simp [hall]
          · exact fun _ => ⟨rfl, rfl⟩
          · omega
        · rw [if_neg hall]
          refine ⟨_, _, rfl, hinv _ _ (by dsimp only; omega) ?_ ?_ ?_⟩
          · rw [if_neg fun hboth => hall hboth.1]
          · exact fun heq => absurd heq hall
          · exact fun _ => ⟨hq.symm, rfl⟩

end World.Inv

theorem World.inv_start : World.start.Inv :=
  ⟨rfl, .idle (by simp [World.start]), rfl, rfl, List.nodup_nil, by simp [World.start]⟩

theorem World.step_inv {w : World} (h : w.Inv) (a : Action) (ha : w.Allowed a) :
    ∃ w', w.step a = some w' ∧ w'.Inv := by
  cases a with
  | enqueue data pace generation reply => exact ⟨_, rfl, h.enqueue _ rfl⟩
  | consume now n =>
      obtain ⟨o, acks, ho, hinv⟩ := h.consume now ha
      exact ⟨_, by rw [World.step, ho]; rfl, hinv⟩
  | discardCancelled =>
      obtain ⟨o, ho, hinv⟩ := h.discardCancelled
      exact ⟨_, by rw [World.step, ho]; rfl, hinv⟩
  | cancel id => exact ⟨_, rfl, h.cancel id⟩

/-! ### What the callers and the driver see -/

theorem World.Inv.pending_eq {w : World} (h : w.Inv) : w.outbox.pending = w.unsent.length := by
  have hlen : (w.outbox.queue.flatMap WriteRequest.data).length = queuedBytes w.outbox.queue := by
    rw [List.length_flatMap]
    rfl
  rw [World.unsent, List.length_drop, hlen, ← h.pending]
  omega

theorem World.Inv.front_eq_nil {w : World} (h : w.Inv) :
    w.outbox.front = [] ↔ w.outbox.pending = 0 := by
  have hshape := h.shape
  have hpending := h.pending
  rw [front]
  generalize w.outbox.queue = queue at hshape hpending
  generalize w.outbox.cursor = cursor at hshape hpending
  cases hshape with
  | idle _ =>
      simp only [true_iff]
      simpa [queuedBytes] using hpending
  | @busy past r later cursor hledger hpast hcursor =>
      have hbytes : queuedBytes (r :: later.filter fun q => q.data ≠ []) =
          r.data.length + queuedBytes (later.filter fun q => q.data ≠ []) := by
        simp [queuedBytes]
      rw [hbytes] at hpending
      have hchunk : 0 < if r.pace = 0 then WRITE_CHUNK else 1 := by
        split
        · decide
        · decide
      dsimp only
      rw [List.take_eq_nil_iff, List.drop_eq_nil_iff]
      omega

/-- Where an entry of the ledger stands. -/
theorem World.Inv.entry {w : World} (h : w.Inv) {e : WriteRequest × Nat} (he : e ∈ w.ledger) :
    e.2 = e.1.data.length ∨ e.1.id ∈ w.closed ∨ w.outbox.queue.head? = some e.1 ∨
      (e.1 ∈ w.outbox.queue ∧ e.2 = 0) := by
  have hsettled : ∀ e, Settled w.closed e → e.2 = e.1.data.length ∨ e.1.id ∈ w.closed := by
    intro e hs
    refine hs.imp_right fun hc => ?_
    have hcancel := hc.2
    rw [WriteRequest.cancelled, Bool.and_eq_true, List.contains_iff_mem] at hcancel
    exact hcancel.2
  have hshape := h.shape
  generalize w.outbox.queue = queue at hshape
  generalize w.outbox.cursor = cursor at hshape
  cases hshape with
  | idle hall =>
      rcases hsettled e (hall e he) with hfull | hclosed
      · exact Or.inl hfull
      · exact Or.inr (Or.inl hclosed)
  | @busy past r later cursor hledger hpast hcursor =>
      rw [hledger, List.mem_append, List.mem_cons] at he
      rcases he with he | rfl | he
      · rcases hsettled e (hpast e he) with hfull | hclosed
        · exact Or.inl hfull
        · exact Or.inr (Or.inl hclosed)
      · exact Or.inr (Or.inr (Or.inl rfl))
      · obtain ⟨q, hq, rfl⟩ := List.mem_map.mp he
        by_cases hnil : q.data = []
        · exact Or.inl (by simp [hnil])
        · refine Or.inr (Or.inr (Or.inr ⟨List.mem_cons_of_mem r ?_, rfl⟩))
          exact List.mem_filter.mpr ⟨hq, by simp [hnil]⟩

/-- The outbox over every run: the counter is the queued bytes that are left, there is a slice
to write exactly while there are any, the bytes on the wire are prefixes of the requests in the order
of arrival, each complete unless its caller left or it is not through the queue, and a waiting
caller is told once, with the last byte. -/
theorem outbox_fifo (as : List Action) (h : Machine.meets World.step World.Allowed World.start as) :
    ∃ w, Machine.run World.step World.start as = some w ∧
      w.outbox.pending = w.unsent.length ∧ (w.outbox.front = [] ↔ w.outbox.pending = 0) ∧
      w.ledger.map (fun e => e.1.id) = List.range w.ledger.length ∧
      w.written = w.ledger.flatMap (fun e => e.1.data.take e.2) ∧
      (∀ e ∈ w.ledger, e.2 = e.1.data.length ∨ e.1.id ∈ w.closed ∨
        w.outbox.queue.head? = some e.1 ∨ (e.1 ∈ w.outbox.queue ∧ e.2 = 0)) ∧
      w.acked.Nodup ∧ ∀ i, i ∈ w.acked ↔
        ∃ e ∈ w.ledger, e.1.id = i ∧ e.1.reply = true ∧ e.2 = e.1.data.length := by
  obtain ⟨w, hrun, hinv⟩ := Machine.exists_run_of_meets (P := World.Inv)
    (fun m a hm ha => World.step_inv hm a ha) World.inv_start h
  exact ⟨w, hrun, hinv.pending_eq, hinv.front_eq_nil, hinv.ids, hinv.written,
    fun e he => hinv.entry he, hinv.nodup, hinv.acked⟩

/-- A paced request, one whose caller leaves midway, and one behind it. -/
theorem outbox_fifo_cancelled :
    ∃ w, Machine.run World.step World.start
        [.enqueue [1, 2] 5 0 true, .enqueue [3, 4] 0 0 true, .consume 0 1, .consume 5 1,
          .consume 9 1, .enqueue [6] 0 0 true, .cancel 1, .discardCancelled, .consume 9 1] = some w ∧
      w.outbox.pending = w.unsent.length ∧ (w.outbox.front = [] ↔ w.outbox.pending = 0) ∧
      w.ledger.map (fun e => e.1.id) = List.range w.ledger.length ∧
      w.written = w.ledger.flatMap (fun e => e.1.data.take e.2) ∧
      (∀ e ∈ w.ledger, e.2 = e.1.data.length ∨ e.1.id ∈ w.closed ∨
        w.outbox.queue.head? = some e.1 ∨ (e.1 ∈ w.outbox.queue ∧ e.2 = 0)) ∧
      w.acked.Nodup ∧ ∀ i, i ∈ w.acked ↔
        ∃ e ∈ w.ledger, e.1.id = i ∧ e.1.reply = true ∧ e.2 = e.1.data.length :=
  outbox_fifo _ (Machine.meets_of_check (B := fun w a => decide (w.Allowed a))
    (fun _ _ ha => of_decide_eq_true ha) (by decide))

end Outbox

end Serialcap

end Paniolo
