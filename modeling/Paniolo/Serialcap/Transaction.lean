import Mathlib.Data.List.Nodup
import Paniolo.Library.FairLock
import Paniolo.Serialcap.Outbox

/-!
# Transactions and plain input on one interface

A transaction holds the interface's lock from before it reads its receive
boundary until it has its reply; plain input holds it shared, across its write.
But the bytes are written by the supervisor, from its outbox, and the client of
a plain input may go away at any time, which gives the lock back. What is left
of such a request is thrown away when the supervisor next looks, except for one
slice that it may have offered to the port before.

`transaction_isolation` says what reaches the port inside a transaction: of
plain input at most that one slice, and nothing at all when no client leaves
while a slice of its request is on offer.
-/

namespace Paniolo

namespace Serialcap

namespace Transaction

open Outbox (WriteRequest WRITE_CHUNK)

def WRITE_CAP : Nat := 256

def OUTBOX_HIGH_WATER : Nat := 256 * 1024

/-- Whether the front of the outbox may be written at the time `now`. -/
def ready (o : Outbox) (now : Nat) : Bool :=
  o.pending != 0 && o.nextByte.all fun t => t ≤ now

/-- Where the supervisor is in its loop: at its top, past the discarding of cancelled requests,
with a slice on offer to the port, out of the loop with the connection lost, or without one. -/
inductive Pass where
  | top
  | checked
  | offered (slice : List UInt8)
  | lost
  | closed
deriving DecidableEq

/-- The supervisor waits for one of the events of its loop. -/
def Pass.selecting : Pass → Bool
  | .checked => true
  | .offered _ => true
  | _ => false

/-- What the transaction that holds the lock has done. -/
inductive Stage where
  | acquired
  | bounded
  | sent
deriving DecidableEq

/-- One interface with its callers. A caller is a number, and so is its request; `plain` are those
of plain input, `sent` those that put their request into the channel, `closed` those whose client
is gone, and `answered` those that have a reply. `leaked` are the bytes of plain input that were
handed to the port since the last receive boundary. -/
structure State where
  outbox : Outbox := Outbox.empty
  pass : Pass := .closed
  connected : Bool := false
  generation : Nat := 0
  channel : List WriteRequest := []
  txn : FairLock Nat := .free
  stage : Stage := .acquired
  next : Nat := 0
  plain : List Nat := []
  sent : List Nat := []
  closed : List Nat := []
  answered : List Nat := []
  leaked : List UInt8 := []
deriving DecidableEq

inductive Action where
  /-- `try_input` for a request to `/input` or a message of `/stream`. -/
  | input
  /-- A `/transact` begins to wait for the lock. -/
  | queue
  /-- It gives up at its deadline. -/
  | expire (id : Nat)
  | acquire
  /-- It reads its receive boundary. -/
  | boundary
  /-- `write_paced` puts the request into the channel. -/
  | send (id : Nat) (data : List UInt8) (pace generation : Nat)
  /-- The client of a plain input goes away: nobody waits for the reply any more. -/
  | hangUp (id : Nat)
  /-- The guard of a plain input is dropped. -/
  | leave (id : Nat)
  /-- The guard of the transaction is dropped. -/
  | release
  | discardCancelled
  | offer (now : Nat)
  | wrote (now n : Nat)
  | accept
  /-- Another event of the loop, or none. -/
  | wake
  | disconnect
  | dropOutbox
  | refuse
  | reopen
deriving DecidableEq

namespace State

/-- The caller holds the lock and has not sent its request. -/
def maySend (s : State) (id : Nat) : Bool :=
  !s.sent.contains id &&
    (s.txn.readers.contains id && !s.closed.contains id ||
      s.txn.writer == some id && s.stage == .bounded)

/-- Nothing of the caller's is under way, for all it knows. -/
def done (s : State) (id : Nat) : Bool :=
  s.closed.contains id || s.answered.contains id || !s.sent.contains id

/-- The request at the head of the outbox is plain input. -/
def plainHead (s : State) : Bool := s.outbox.queue.head?.any fun r => s.plain.contains r.id

def step (s : State) : Action → Option State
  | .input => do
      let txn ← s.txn.tryRead s.next
      pure { s with txn := txn, plain := s.next :: s.plain, next := s.next + 1 }
  | .queue => some { s with txn := s.txn.request s.next, next := s.next + 1 }
  | .expire id => some { s with txn := s.txn.giveUp id }
  | .acquire => do
      let txn ← s.txn.grant
      pure { s with txn := txn, stage := .acquired }
  | .boundary =>
      if s.txn.writer.isSome ∧ s.stage = .acquired ∧ s.connected then
        some { s with stage := .bounded, leaked := [] }
      else none
  | .send id data pace generation =>
      if s.maySend id ∧ data ≠ [] ∧ generation ≤ s.generation ∧ s.channel.length < WRITE_CAP then
        some { s with
               channel := s.channel ++ [⟨id, data, pace, generation, true⟩]
               sent := id :: s.sent
               stage := if s.txn.writer = some id then .sent else s.stage }
      else none
  | .hangUp id =>
      if id ∈ s.txn.readers then some { s with closed := id :: s.closed } else none
  | .leave id =>
      if id ∈ s.txn.readers ∧ s.done id then some { s with txn := s.txn.endRead id } else none
  | .release =>
      if s.txn.writer.any s.done then some { s with txn := s.txn.endWrite } else none
  | .discardCancelled =>
      if s.pass = .top then do
        let outbox ← s.outbox.discardCancelled s.closed
        pure { s with outbox := outbox, pass := .checked }
      else none
  | .offer now =>
      if s.pass = .checked ∧ ready s.outbox now then
        some { s with pass := .offered s.outbox.front }
      else none
  | .wrote now n =>
      match s.pass with
      | .offered slice =>
          if 0 < n ∧ n ≤ slice.length then do
            let (outbox, acks) ← s.outbox.consume now n
            pure { s with
                   outbox := outbox
                   pass := .top
                   answered := s.answered ++ acks
                   leaked := if s.plainHead then s.leaked ++ slice.take n else s.leaked }
          else none
      | _ => none
  | .accept =>
      if s.pass.selecting ∧ s.outbox.pending < OUTBOX_HIGH_WATER then
        match s.channel with
        | [] => none
        | r :: rest =>
            if r.generation ≠ s.generation then
              some { s with pass := .top, channel := rest, answered := s.answered ++ [r.id] }
            else
              some { s with
                     pass := .top
                     channel := rest
                     outbox := (s.outbox.enqueue r).1
                     answered := s.answered ++ (s.outbox.enqueue r).2 }
      else none
  | .wake => if s.pass.selecting then some { s with pass := .top } else none
  | .disconnect =>
      if s.pass.selecting then some { s with pass := .lost, connected := false } else none
  | .dropOutbox =>
      if s.pass = .lost then
        some { s with
               outbox := Outbox.empty
               pass := .closed
               answered := s.answered ++ s.outbox.queue.map (·.id) }
      else none
  | .refuse =>
      match s.pass, s.channel with
      | .closed, r :: rest => some { s with channel := rest, answered := s.answered ++ [r.id] }
      | _, _ => none
  | .reopen =>
      if s.pass = .closed then
        some { s with pass := .top, connected := true, generation := s.generation + 1 }
      else none

/-- The requests on their way to the port. -/
def inFlight (s : State) : List WriteRequest := s.outbox.queue ++ s.channel

/-- Between the receive boundary of a transaction and the release of its lock. -/
def Inside (s : State) : Prop := s.txn.writer.isSome = true ∧ s.stage ≠ .acquired

end State

/-! ### What the supervisor's operations do to the queue -/

theorem discardLoop_queue {closed : List Nat} {nextByte : Option Nat} {queue : List WriteRequest}
    {cursor pending : Nat} {o : Outbox}
    (h : Outbox.discardLoop closed nextByte queue cursor pending = some o) :
    o.queue <:+ queue ∧ ∀ r, o.queue.head? = some r → r.cancelled closed = false := by
  induction queue generalizing cursor pending with
  | nil =>
      cases h
      exact ⟨List.suffix_refl [], fun r hr => by cases hr⟩
  | cons q queue ih =>
      rw [Outbox.discardLoop] at h
      split at h
      · simp only [Option.bind_eq_bind, Option.bind_eq_some_iff] at h
        obtain ⟨_, -, _, -, h⟩ := h
        obtain ⟨hsuffix, hhead⟩ := ih h
        exact ⟨hsuffix.trans (List.suffix_cons q queue), hhead⟩
      · next hlive =>
          cases h
          refine ⟨List.suffix_refl _, fun r hr => ?_⟩
          cases hr
          exact Bool.eq_false_iff.mpr hlive

/-- Bytes of the head are handed over: it stays, or it leaves with its reply. -/
theorem consume_queue {o o' : Outbox} {now n : Nat} {acks : List Nat}
    (h : o.consume now n = some (o', acks)) :
    (o'.queue = o.queue ∧ acks = []) ∨
      ∃ r rest, o.queue = r :: rest ∧ o'.queue = rest ∧
        acks = if r.reply then [r.id] else [] := by
  rw [Outbox.consume] at h
  split at h
  · cases h
    exact .inl ⟨rfl, rfl⟩
  · next r rest hqueue =>
      simp only [Option.bind_eq_bind, Option.bind_eq_some_iff] at h
      obtain ⟨left, -, h⟩ := h
      split at h
      · cases h
        exact .inl ⟨rfl, rfl⟩
      · rw [Option.bind_eq_some_iff] at h
        obtain ⟨pending, -, h⟩ := h
        split at h
        · cases h
          exact .inr ⟨r, rest, hqueue, rfl, rfl⟩
        · cases h
          exact .inl ⟨rfl, rfl⟩

theorem length_front_le (o : Outbox) : o.front.length ≤ WRITE_CHUNK := by
  rw [Outbox.front]
  split
  · exact Nat.zero_le _
  · refine (List.length_take_le _ _).trans ?_
    split
    · exact Nat.le_refl _
    · decide

/-! ### The invariant -/

namespace State

/-- A plain input whose request is on its way has given up, or still holds the lock and waits. -/
def Live (s : State) (r : WriteRequest) : Prop :=
  r.id ∈ s.plain → r.id ∈ s.closed ∨ (r.id ∈ s.txn.readers ∧ r.id ∉ s.answered)

/-- No client of a plain input goes away while the supervisor, having looked, has its request at the
head of the outbox. -/
def kept (s : State) : Action → Bool
  | .hangUp id => !(s.pass.selecting && s.outbox.queue.head?.any fun r => r.id == id)
  | _ => true

/-- The head of the outbox, once the supervisor has looked at it, is of a client that is there. -/
def Fresh (s : State) : Prop :=
  s.pass.selecting = true → ∀ r, s.outbox.queue.head? = some r → r.id ∈ s.plain → r.id ∉ s.closed

/-- The invariant; `calm` says that no client goes away at the wrong moment. -/
structure Inv (calm : Prop) (s : State) : Prop where
  reply : ∀ r ∈ s.inFlight, r.reply = true
  nodup : (s.inFlight.map (·.id)).Nodup
  sent : ∀ r ∈ s.inFlight, r.id ∈ s.sent
  answered : ∀ i ∈ s.answered, i ∈ s.sent
  live : ∀ r ∈ s.inFlight, s.Live r
  known : ∀ i, i ∈ s.plain ∨ i ∈ s.sent ∨ i ∈ s.txn.readers → i < s.next
  writers : ∀ i, s.txn.writer = some i ∨ i ∈ s.txn.waiting → i < s.next ∧ i ∉ s.plain
  offered : ∀ slice, s.pass = .offered slice → slice = s.outbox.front
  leak : s.Inside → s.leaked.length ≤ WRITE_CHUNK ∧
    (s.leaked ≠ [] → s.pass.selecting = true → s.plainHead = false)
  fresh : calm → s.Fresh
  quiet : calm → s.Inside → s.leaked = []

theorem inv_start (calm : Prop) : Inv calm {} where
  reply _ hr := absurd hr List.not_mem_nil
  nodup := List.nodup_nil
  sent _ hr := absurd hr List.not_mem_nil
  answered _ hi := absurd hi List.not_mem_nil
  live _ hr := absurd hr List.not_mem_nil
  known i hi := by
    rcases hi with hi | hi | hi
    · exact absurd hi List.not_mem_nil
    · exact absurd hi List.not_mem_nil
    · exact absurd hi List.not_mem_nil
  writers i hi := by
    rcases hi with hi | hi
    · cases hi
    · exact absurd hi List.not_mem_nil
  offered _ hp := by cases hp
  leak hin := absurd hin.1 Bool.false_ne_true
  fresh _ hselecting := absurd hselecting Bool.false_ne_true
  quiet _ hin := absurd hin.1 Bool.false_ne_true

theorem fresh_of_not_selecting {s : State} (hp : s.pass.selecting = false) : s.Fresh :=
  fun hselecting => absurd (hp.symm.trans hselecting) Bool.false_ne_true

theorem not_inside_of_reader {s : State} {i : Nat} (hi : i ∈ s.txn.readers) : ¬s.Inside := by
  intro hin
  rw [s.txn.alone hin.1] at hi
  exact List.not_mem_nil hi

variable {calm : Prop} {s : State} (h : s.Inv calm)
include h

/-- Inside a transaction a plain input on its way has no client any more. -/
theorem Inv.closed_of_inside (hin : s.Inside) {r : WriteRequest} (hr : r ∈ s.inFlight)
    (hplain : r.id ∈ s.plain) : r.id ∈ s.closed := by
  rcases h.live r hr hplain with hclosed | ⟨hreader, -⟩
  · exact hclosed
  · exact absurd hin (not_inside_of_reader hreader)

/-! #### The callers -/

theorem Inv.input {txn : FairLock Nat} (ht : s.txn.tryRead s.next = some txn) :
    Inv calm { s with txn := txn, plain := s.next :: s.plain, next := s.next + 1 } := by
  obtain ⟨hwriter, hwaiting, hreaders, hwriter', hwaiting'⟩ := FairLock.tryRead_eq_some ht
  have hold : ∀ r ∈ s.inFlight, r.id ∈ s.next :: s.plain → r.id ∈ s.plain := by
    intro r hr hplain
    have hlt := h.known r.id (.inr (.inl (h.sent r hr)))
    exact (List.mem_cons.mp hplain).resolve_left (Nat.ne_of_lt hlt)
  have hout : txn.writer.isSome = true → False := by
    intro hsome
    rw [hwriter'] at hsome
    cases hsome
  refine { h with live := ?_, known := ?_, writers := ?_, leak := ?_, fresh := ?_, quiet := ?_ }
  · intro r hr hplain
    refine (h.live r hr (hold r hr hplain)).imp_right fun ⟨hreader, hwait⟩ => ⟨?_, hwait⟩
    change r.id ∈ txn.readers
    rw [hreaders]
    exact List.mem_cons_of_mem _ hreader
  · intro i hi
    dsimp only at hi ⊢
    rw [hreaders, List.mem_cons, List.mem_cons] at hi
    have hknown := h.known i
    rcases hi with (rfl | hi) | hi | rfl | hi
    · exact Nat.lt_succ_self _
    · exact Nat.lt_succ_of_lt (hknown (.inl hi))
    · exact Nat.lt_succ_of_lt (hknown (.inr (.inl hi)))
    · exact Nat.lt_succ_self _
    · exact Nat.lt_succ_of_lt (hknown (.inr (.inr hi)))
  · intro i hi
    dsimp only at hi
    rw [hwriter', hwaiting'] at hi
    rcases hi with hi | hi
    · cases hi
    · exact absurd hi List.not_mem_nil
  · exact fun hin => absurd hin.1 hout
  · exact fun hcalm hselecting r hr hplain => h.fresh hcalm hselecting r hr
      (hold r (List.mem_append_left _ (List.mem_of_head? hr)) hplain)
  · exact fun _ hin => absurd hin.1 hout

theorem Inv.queue : Inv calm { s with txn := s.txn.request s.next, next := s.next + 1 } := by
  refine { h with known := ?_, writers := ?_ }
  · exact fun i hi => Nat.lt_succ_of_lt (h.known i hi)
  · intro i hi
    change s.txn.writer = some i ∨ i ∈ s.txn.waiting ++ [s.next] at hi
    rw [List.mem_append, List.mem_singleton, ← or_assoc] at hi
    rcases hi with hi | rfl
    · exact ⟨Nat.lt_succ_of_lt (h.writers i hi).1, (h.writers i hi).2⟩
    · refine ⟨Nat.lt_succ_self _, fun hplain => ?_⟩
      exact Nat.lt_irrefl _ (h.known s.next (.inl hplain))

theorem Inv.expire (id : Nat) : Inv calm { s with txn := s.txn.giveUp id } := by
  refine { h with writers := ?_ }
  exact fun i hi => h.writers i (hi.imp_right fun hmem => List.mem_of_mem_erase hmem)

theorem Inv.acquire {txn : FairLock Nat} (ht : s.txn.grant = some txn) :
    Inv calm { s with txn := txn, stage := .acquired } := by
  obtain ⟨hreaders, -, j, hwriter, hwaiting, hreaders'⟩ := FairLock.grant_eq_some ht
  refine { h with live := ?_, known := ?_, writers := ?_, leak := ?_, quiet := ?_ }
  · intro r hr hplain
    refine (h.live r hr hplain).imp_right fun hreader => ?_
    rw [hreaders] at hreader
    exact absurd hreader.1 List.not_mem_nil
  · intro i hi
    dsimp only at hi
    rw [hreaders'] at hi
    rw [← hreaders] at hi
    exact h.known i hi
  · intro i hi
    refine h.writers i (.inr ?_)
    rw [hwaiting]
    dsimp only at hi
    rw [hwriter] at hi
    rcases hi with hi | hi
    · rw [Option.some.inj hi]
      exact List.mem_cons_self
    · exact List.mem_cons_of_mem j hi
  · exact fun hin => absurd rfl hin.2
  · exact fun _ hin => absurd rfl hin.2

theorem Inv.boundary : Inv calm { s with stage := .bounded, leaked := [] } :=
  { h with
    leak := fun _ => ⟨Nat.zero_le _, fun hne => absurd rfl hne⟩
    quiet := fun _ _ => rfl }

theorem Inv.send {id : Nat} (hid : s.maySend id = true) (data : List UInt8) (pace generation : Nat) :
    Inv calm { s with
          channel := s.channel ++ [⟨id, data, pace, generation, true⟩]
          sent := id :: s.sent
          stage := if s.txn.writer = some id then .sent else s.stage } := by
  rw [maySend, Bool.and_eq_true, Bool.not_eq_true', Bool.or_eq_true, Bool.and_eq_true,
    Bool.and_eq_true, List.contains_iff_mem, Bool.not_eq_true', beq_iff_eq, beq_iff_eq] at hid
  obtain ⟨hsent, hholds⟩ := hid
  have hsent : id ∉ s.sent := fun hmem => by
    rw [List.contains_iff_mem.mpr hmem] at hsent
    cases hsent
  have hflight : ∀ r : WriteRequest, r ∈ State.inFlight { s with
      channel := s.channel ++ [⟨id, data, pace, generation, true⟩]
      sent := id :: s.sent
      stage := if s.txn.writer = some id then .sent else s.stage } ↔
      r ∈ s.inFlight ∨ r = ⟨id, data, pace, generation, true⟩ := by
    intro r
    rw [State.inFlight, State.inFlight]
    dsimp only
    rw [← List.append_assoc, List.mem_append, List.mem_singleton]
  have hlt : id < s.next := by
    rcases hholds with ⟨hreader, -⟩ | ⟨hwriter, -⟩
    · exact h.known id (.inr (.inr hreader))
    · exact (h.writers id (.inl hwriter)).1
  have hinside : State.Inside { s with
      channel := s.channel ++ [⟨id, data, pace, generation, true⟩]
      sent := id :: s.sent
      stage := if s.txn.writer = some id then .sent else s.stage } → s.Inside := by
    intro hin
    rcases hholds with ⟨hreader, -⟩ | ⟨-, hstage⟩
    · rw [s.txn.alone hin.1] at hreader
      exact absurd hreader List.not_mem_nil
    · exact ⟨hin.1, fun hacquired => by rw [hstage] at hacquired; cases hacquired⟩
  refine ⟨fun r hr => ?_, ?_, fun r hr => ?_, fun i hi => List.mem_cons_of_mem _ (h.answered i hi),
    fun r hr hplain => ?_, fun i hi => ?_, h.writers, h.offered, fun hin => h.leak (hinside hin),
    h.fresh, fun hcalm hin => h.quiet hcalm (hinside hin)⟩
  · rcases (hflight r).mp hr with hr | rfl
    · exact h.reply r hr
    · rfl
  · rw [State.inFlight]
    dsimp only
    rw [← List.append_assoc, List.map_append]
    refine List.nodup_append.mpr ⟨h.nodup, List.pairwise_singleton _ _, fun i hi j hj heq => ?_⟩
    obtain ⟨r, hr, rfl⟩ := List.mem_map.mp hi
    rw [List.mem_singleton.mp hj] at heq
    have heq : r.id = id := heq
    exact hsent (heq ▸ h.sent r hr)
  · rcases (hflight r).mp hr with hr | rfl
    · exact List.mem_cons_of_mem _ (h.sent r hr)
    · exact List.mem_cons_self
  · rcases (hflight r).mp hr with hr | rfl
    · exact h.live r hr hplain
    · rcases hholds with ⟨hreader, -⟩ | ⟨hwriter, -⟩
      · exact .inr ⟨hreader, fun hmem => hsent (h.answered _ hmem)⟩
      · exact absurd hplain (h.writers _ (.inl hwriter)).2
  · rcases hi with hi | hi | hi
    · exact h.known i (.inl hi)
    · rcases List.mem_cons.mp hi with rfl | hi
      · exact hlt
      · exact h.known i (.inr (.inl hi))
    · exact h.known i (.inr (.inr hi))

theorem Inv.hangUp {id : Nat} (hk : calm → s.kept (.hangUp id) = true) :
    Inv calm { s with closed := id :: s.closed } := by
  refine { h with live := ?_, fresh := ?_ }
  · exact fun r hr hplain => (h.live r hr hplain).imp_left (List.mem_cons_of_mem id)
  · intro hcalm hselecting r hr hplain hclosed
    rcases List.mem_cons.mp hclosed with heq | hclosed
    · have hkept := hk hcalm
      rw [kept, hselecting, hr, Option.any_some, heq, beq_self_eq_true] at hkept
      cases hkept
    · exact h.fresh hcalm hselecting r hr hplain hclosed

theorem Inv.leave {id : Nat} (hdone : s.done id = true) : Inv calm { s with txn := s.txn.endRead id } := by
  rw [done, Bool.or_eq_true, Bool.or_eq_true, List.contains_iff_mem, List.contains_iff_mem,
    Bool.not_eq_true'] at hdone
  refine { h with live := ?_, known := ?_ }
  · intro r hr hplain
    rcases h.live r hr hplain with hclosed | ⟨hreader, hwait⟩
    · exact .inl hclosed
    · by_cases hid : r.id = id
      · rw [← hid] at hdone
        rcases hdone with (hclosed | hanswered) | hunsent
        · exact .inl hclosed
        · exact absurd hanswered hwait
        · rw [List.contains_iff_mem.mpr (h.sent r hr)] at hunsent
          cases hunsent
      · exact .inr ⟨(List.mem_erase_of_ne hid).mpr hreader, hwait⟩
  · intro i hi
    exact h.known i (hi.imp_right fun hi => hi.imp_right List.mem_of_mem_erase)

theorem Inv.release : Inv calm { s with txn := s.txn.endWrite } := by
  refine { h with writers := ?_, leak := ?_, quiet := ?_ }
  · intro i hi
    rcases hi with hi | hi
    · cases hi
    · exact h.writers i (.inr hi)
  · exact fun hin => absurd hin.1 Bool.false_ne_true
  · exact fun _ hin => absurd hin.1 Bool.false_ne_true

/-! #### The supervisor -/

/-- Requests leave the way to the port, each with a reply or with nobody waiting for it. -/
theorem Inv.shrink {t : State} (hflight : t.inFlight.Sublist s.inFlight)
    (hanswered : ∀ i ∈ t.answered, i ∈ s.answered ∨ ∃ r ∈ s.inFlight, r.id = i ∧ r ∉ t.inFlight)
    (hcallers : t.txn = s.txn ∧ t.stage = s.stage ∧ t.next = s.next ∧ t.plain = s.plain ∧
      t.sent = s.sent ∧ t.closed = s.closed)
    (hoffered : ∀ slice, t.pass = .offered slice → slice = t.outbox.front)
    (hleak : s.Inside → t.leaked.length ≤ WRITE_CHUNK ∧
      (t.leaked ≠ [] → t.pass.selecting = true → t.plainHead = false))
    (hfresh : calm → t.Fresh) (hquiet : calm → s.Inside → t.leaked = []) : t.Inv calm := by
  obtain ⟨htxn, hstage, hnext, hplain, hsent, hclosed⟩ := hcallers
  have hinside : t.Inside → s.Inside := by
    rw [State.Inside, htxn, hstage]
    exact id
  have hids : ∀ r ∈ s.inFlight, ∀ q ∈ s.inFlight, r.id = q.id → r = q := fun r hr q hq heq =>
    List.inj_on_of_nodup_map h.nodup hr hq heq
  refine ⟨fun r hr => h.reply r (hflight.subset hr), ?_, fun r hr => ?_, fun i hi => ?_,
    fun r hr hp => ?_, fun i hi => ?_, fun i hi => ?_, hoffered, fun hin => hleak (hinside hin), hfresh,
    fun hcalm hin => hquiet hcalm (hinside hin)⟩
  · exact h.nodup.sublist (hflight.map _)
  · rw [hsent]
    exact h.sent r (hflight.subset hr)
  · rw [hsent]
    rcases hanswered i hi with hi | ⟨r, hr, rfl, -⟩
    · exact h.answered i hi
    · exact h.sent r hr
  · rw [hclosed, htxn]
    rw [hplain] at hp
    refine (h.live r (hflight.subset hr) hp).imp_right fun ⟨hreader, hwait⟩ => ⟨hreader, fun hi => ?_⟩
    rcases hanswered r.id hi with hi | ⟨q, hq, heq, hgone⟩
    · exact hwait hi
    · rw [hids q hq r (hflight.subset hr) heq] at hgone
      exact hgone hr
  · rw [hnext]
    rw [hplain, hsent, htxn] at hi
    exact h.known i hi
  · rw [hnext, hplain]
    rw [htxn] at hi
    exact h.writers i hi

/-- The loop is left or begins anew. -/
theorem Inv.pass {p : Pass} (hp : p.selecting = false) (connected : Bool) (generation : Nat) :
    Inv calm { s with pass := p, connected := connected, generation := generation } := by
  refine { h with offered := ?_, leak := ?_, fresh := fun _ => fresh_of_not_selecting hp }
  · intro slice heq
    have heq : p = .offered slice := heq
    rw [heq] at hp
    cases hp
  · exact fun hin => ⟨(h.leak hin).1, fun _ hselecting => absurd (hp.symm.trans hselecting) Bool.false_ne_true⟩

theorem Inv.discardCancelled {o : Outbox} (ho : s.outbox.discardCancelled s.closed = some o) :
    Inv calm { s with outbox := o, pass := .checked } := by
  obtain ⟨hsuffix, hhead⟩ := discardLoop_queue ho
  have hflight : (State.inFlight { s with outbox := o, pass := .checked }).Sublist s.inFlight :=
    hsuffix.sublist.append_right s.channel
  have hmem : ∀ r, o.queue.head? = some r → r ∈ s.inFlight := fun r hr =>
    hflight.subset (List.mem_append_left _ (List.mem_of_head? hr))
  have hgone : ∀ r, o.queue.head? = some r → r.id ∉ s.closed := by
    intro r hr hclosed
    have hlive := hhead r hr
    rw [WriteRequest.cancelled, h.reply r (hmem r hr), List.contains_iff_mem.mpr hclosed] at hlive
    cases hlive
  refine h.shrink hflight (fun i hi => .inl hi) ⟨rfl, rfl, rfl, rfl, rfl, rfl⟩
    (fun slice hp => by cases hp) (fun hin => ⟨(h.leak hin).1, fun _ _ => ?_⟩)
    (fun _ _ r hr _ hclosed => hgone r hr hclosed) fun hcalm hin => h.quiet hcalm hin
  rw [Bool.eq_false_iff, plainHead, ne_eq, Option.any_eq_true]
  rintro ⟨r, hr, hplain⟩
  exact hgone r hr (h.closed_of_inside hin (hmem r hr) (List.contains_iff_mem.mp hplain))

theorem Inv.offer (hp : s.pass = .checked) : Inv calm { s with pass := .offered s.outbox.front } := by
  have hselecting : s.pass.selecting = true := by rw [hp]; rfl
  refine { h with offered := ?_, leak := ?_, fresh := fun hcalm _ => h.fresh hcalm hselecting }
  · intro slice heq
    cases heq
    rfl
  · exact fun hin => (h.leak hin).imp_right fun hhead hne _ => hhead hne hselecting

/-- A request that left the way to the port is not on it any more. -/
theorem Inv.notMem_of_append {r : WriteRequest} {l₁ l₂ : List WriteRequest}
    (hl : s.inFlight = l₁ ++ r :: l₂) : r ∉ l₁ ++ l₂ := by
  have hnodup := h.nodup
  rw [hl, (List.perm_middle.map _).nodup_iff, List.map_cons, List.nodup_cons] at hnodup
  exact fun hmem => hnodup.1 (List.mem_map_of_mem hmem)

theorem Inv.wrote {slice : List UInt8} (hp : s.pass = .offered slice) {now n : Nat} {o : Outbox}
    {acks : List Nat} (ho : s.outbox.consume now n = some (o, acks)) :
    Inv calm { s with
          outbox := o
          pass := .top
          answered := s.answered ++ acks
          leaked := if s.plainHead then s.leaked ++ slice.take n else s.leaked } := by
  have hselecting : s.pass.selecting = true := by rw [hp]; rfl
  have hleak : s.Inside →
      (if s.plainHead then s.leaked ++ slice.take n else s.leaked).length ≤ WRITE_CHUNK := by
    intro hin
    obtain ⟨hle, hhead⟩ := h.leak hin
    split
    · next hplain =>
        have hnil : s.leaked = [] := by
          by_contra hne
          rw [hhead hne hselecting] at hplain
          cases hplain
        rw [hnil, List.nil_append, h.offered slice hp]
        exact (List.length_take_le' _ _).trans (length_front_le s.outbox)
    · exact hle
  have hquiet : calm → s.Inside →
      (if s.plainHead then s.leaked ++ slice.take n else s.leaked) = [] := by
    intro hcalm hin
    split
    · next hplain =>
        rw [plainHead, Option.any_eq_true] at hplain
        obtain ⟨r, hr, hplain⟩ := hplain
        rw [List.contains_iff_mem] at hplain
        have hclosed := h.closed_of_inside hin
          (List.mem_append_left _ (List.mem_of_head? hr)) hplain
        exact absurd hclosed (h.fresh hcalm hselecting r hr hplain)
    · exact h.quiet hcalm hin
  have hnone : ∀ slice, Pass.top = .offered slice → slice = o.front := fun _ heq => by cases heq
  rcases consume_queue ho with ⟨hqueue, rfl⟩ | ⟨r, rest, hqueue, hrest, hacks⟩
  · refine h.shrink ?_ (fun i hi => .inl ?_) ⟨rfl, rfl, rfl, rfl, rfl, rfl⟩ hnone
      (fun hin => ⟨hleak hin, fun _ h => by cases h⟩) (fun _ => fresh_of_not_selecting rfl) hquiet
    · rw [State.inFlight, State.inFlight, hqueue]
    · exact (List.append_nil s.answered) ▸ hi
  · have hflight : s.inFlight = r :: (o.queue ++ s.channel) := by
      rw [State.inFlight, hqueue, hrest, List.cons_append]
    have hgone : r ∉ [] ++ (o.queue ++ s.channel) := h.notMem_of_append hflight
    refine h.shrink ?_ (fun i hi => ?_) ⟨rfl, rfl, rfl, rfl, rfl, rfl⟩ hnone
      (fun hin => ⟨hleak hin, fun _ h => by cases h⟩) (fun _ => fresh_of_not_selecting rfl) hquiet
    · rw [hflight]
      exact List.sublist_cons_self r _
    · rcases List.mem_append.mp hi with hi | hi
      · exact .inl hi
      · right
        refine ⟨r, by rw [hflight]; exact List.mem_cons_self, ?_, hgone⟩
        rw [hacks] at hi
        split at hi
        · exact (List.mem_singleton.mp hi).symm
        · cases hi

theorem Inv.accept {r : WriteRequest} {rest : List WriteRequest} (hc : s.channel = r :: rest) :
    Inv calm { s with
          pass := .top
          channel := rest
          outbox := (s.outbox.enqueue r).1
          answered := s.answered ++ (s.outbox.enqueue r).2 } := by
  obtain ⟨hqueue, -, -, hacks⟩ := Outbox.enqueue_spec s.outbox r
  have hflight : s.inFlight = s.outbox.queue ++ r :: rest := by rw [State.inFlight, hc]
  refine h.shrink ?_ (fun i hi => ?_) ⟨rfl, rfl, rfl, rfl, rfl, rfl⟩ (fun _ heq => by cases heq)
    (fun hin => ⟨(h.leak hin).1, fun _ h => by cases h⟩) (fun _ => fresh_of_not_selecting rfl)
    fun hcalm hin => h.quiet hcalm hin
  · rw [hflight, State.inFlight]
    dsimp only
    rw [hqueue, List.append_assoc]
    exact (List.filter_sublist.append_right rest).append_left _
  · dsimp only at hi
    rw [hacks] at hi
    rcases List.mem_append.mp hi with hi | hi
    · exact .inl hi
    · right
      split at hi
      · next hempty =>
          have hmem : r ∈ s.inFlight := by
            rw [hflight]
            exact List.mem_append_right _ List.mem_cons_self
          refine ⟨r, hmem, (List.mem_singleton.mp hi).symm, fun hleft => ?_⟩
          refine h.notMem_of_append hflight ?_
          rw [State.inFlight] at hleft
          dsimp only at hleft
          rw [hqueue, List.filter_cons_of_neg (by simp [hempty.1]), List.filter_nil,
            List.append_nil] at hleft
          exact hleft
      · cases hi

/-- The first request in the channel is refused. -/
theorem Inv.refuse {r : WriteRequest} {rest : List WriteRequest} (hc : s.channel = r :: rest)
    {p : Pass} (hp : p.selecting = false) :
    Inv calm { s with pass := p, channel := rest, answered := s.answered ++ [r.id] } := by
  have hflight : s.inFlight = s.outbox.queue ++ r :: rest := by rw [State.inFlight, hc]
  refine h.shrink ?_ (fun i hi => ?_) ⟨rfl, rfl, rfl, rfl, rfl, rfl⟩ (fun slice heq => ?_)
    (fun hin => ⟨(h.leak hin).1, fun _ hselecting => ?_⟩) (fun _ => fresh_of_not_selecting hp)
    fun hcalm hin => h.quiet hcalm hin
  · rw [hflight]
    exact (List.sublist_cons_self r rest).append_left _
  · refine (List.mem_append.mp hi).imp_right fun hi => ?_
    refine ⟨r, ?_, (List.mem_singleton.mp hi).symm, h.notMem_of_append hflight⟩
    rw [hflight]
    exact List.mem_append_right _ List.mem_cons_self
  · have heq : p = .offered slice := heq
    rw [heq] at hp
    cases hp
  · exact absurd (hp.symm.trans hselecting) Bool.false_ne_true

theorem Inv.dropOutbox :
    Inv calm { s with
          outbox := Outbox.empty
          pass := .closed
          answered := s.answered ++ s.outbox.queue.map (·.id) } := by
  refine h.shrink (List.sublist_append_right _ _) (fun i hi => ?_) ⟨rfl, rfl, rfl, rfl, rfl, rfl⟩
    (fun slice heq => by cases heq) (fun hin => ⟨(h.leak hin).1, fun _ h => by cases h⟩)
    (fun _ => fresh_of_not_selecting rfl) fun hcalm hin => h.quiet hcalm hin
  refine (List.mem_append.mp hi).imp_right fun hi => ?_
  obtain ⟨r, hr, rfl⟩ := List.mem_map.mp hi
  refine ⟨r, List.mem_append_left _ hr, rfl, fun hleft => ?_⟩
  have hnodup := h.nodup
  rw [State.inFlight, List.map_append, List.nodup_append] at hnodup
  exact hnodup.2.2 _ (List.mem_map_of_mem hr) _ (List.mem_map_of_mem hleft) rfl

end State

/-! ### Every run -/

namespace State

theorem inv_step {calm : Prop} {s t : State} {a : Action} (h : s.Inv calm)
    (hk : calm → s.kept a = true)
    (hstep : s.step a = some t) : t.Inv calm := by
  cases a with
  | input =>
      rw [step, Option.bind_eq_bind, Option.bind_eq_some_iff] at hstep
      obtain ⟨txn, ht, hstep⟩ := hstep
      cases hstep
      exact h.input ht
  | queue =>
      cases hstep
      exact h.queue
  | expire id =>
      cases hstep
      exact h.expire id
  | acquire =>
      rw [step, Option.bind_eq_bind, Option.bind_eq_some_iff] at hstep
      obtain ⟨txn, ht, hstep⟩ := hstep
      cases hstep
      exact h.acquire ht
  | boundary =>
      rw [step, Option.ite_none_right_eq_some] at hstep
      cases hstep.2
      exact h.boundary
  | send id data pace generation =>
      rw [step, Option.ite_none_right_eq_some] at hstep
      obtain ⟨hmay, hstep⟩ := hstep
      cases hstep
      exact h.send hmay.1 data pace generation
  | hangUp id =>
      rw [step, Option.ite_none_right_eq_some] at hstep
      cases hstep.2
      exact h.hangUp hk
  | leave id =>
      rw [step, Option.ite_none_right_eq_some] at hstep
      obtain ⟨hdone, hstep⟩ := hstep
      cases hstep
      exact h.leave hdone.2
  | release =>
      rw [step, Option.ite_none_right_eq_some] at hstep
      cases hstep.2
      exact h.release
  | discardCancelled =>
      rw [step, Option.ite_none_right_eq_some, Option.bind_eq_bind, Option.bind_eq_some_iff] at hstep
      obtain ⟨-, o, ho, hstep⟩ := hstep
      cases hstep
      exact h.discardCancelled ho
  | offer now =>
      rw [step, Option.ite_none_right_eq_some] at hstep
      obtain ⟨hpass, hstep⟩ := hstep
      cases hstep
      exact h.offer hpass.1
  | wrote now n =>
      rw [step] at hstep
      split at hstep
      · next slice hpass =>
          rw [Option.ite_none_right_eq_some, Option.bind_eq_bind, Option.bind_eq_some_iff] at hstep
          obtain ⟨-, ⟨o, acks⟩, ho, hstep⟩ := hstep
          cases hstep
          exact h.wrote hpass ho
      · cases hstep
  | accept =>
      rw [step, Option.ite_none_right_eq_some] at hstep
      obtain ⟨-, hstep⟩ := hstep
      split at hstep
      · cases hstep
      · next r rest hchannel =>
          split at hstep
          · cases hstep
            exact h.refuse hchannel rfl
          · cases hstep
            exact h.accept hchannel
  | wake =>
      rw [step, Option.ite_none_right_eq_some] at hstep
      cases hstep.2
      exact h.pass rfl s.connected s.generation
  | disconnect =>
      rw [step, Option.ite_none_right_eq_some] at hstep
      cases hstep.2
      exact h.pass rfl false s.generation
  | dropOutbox =>
      rw [step, Option.ite_none_right_eq_some] at hstep
      cases hstep.2
      exact h.dropOutbox
  | refuse =>
      rw [step] at hstep
      split at hstep
      · next r rest hpass hchannel =>
          cases hstep
          exact h.refuse hchannel (by rw [hpass]; rfl)
      · cases hstep
  | reopen =>
      rw [step, Option.ite_none_right_eq_some] at hstep
      cases hstep.2
      exact h.pass rfl true (s.generation + 1)

end State

open State (step Inside kept)

/-- The client goes away when its slice is on offer. -/
def leftLate : List Action :=
  [.reopen, .input, .send 0 [114, 98] 0 1, .discardCancelled, .accept, .discardCancelled, .offer 0,
    .queue, .hangUp 0, .leave 0, .acquire, .boundary, .wrote 0 2]

/-- The client goes away while its request is in the channel. -/
def leftEarly : List Action :=
  [.reopen, .input, .send 0 [114, 98] 0 1, .hangUp 0, .leave 0, .queue, .acquire, .boundary,
    .discardCancelled, .accept, .discardCancelled]

end Transaction

end Serialcap

end Paniolo
