import Paniolo.Library.Broadcast
import Paniolo.Library.Entries
import Paniolo.Library.Machine
import Paniolo.Library.Text

/-!
# The live stream of an interface

The supervisor gives every chunk, received or a marker of its own, to the
capture thread, and then, under the lock of the scrollback ring, to the ring and
to the broadcast channel of the clients. A client that attaches takes the same
lock to subscribe and to copy the ring, and sends the copy before anything else.

`attached_stream` says that the log on disk, the scrollback and the live clients
are one stream: a client has the last `RING_BYTES` bytes from before it attached
and then every chunk after them, once and in order, except for those that a
marker in its stream counts.
-/

namespace Paniolo

namespace Serialcap

namespace Stream

open Broadcast (Received Follows)

def RING_BYTES : Nat := 64 * 1024

def BROADCAST_CAP : Nat := 1024

/-- The capacity of the channel for the notices of one client. -/
def NOTICE_CAP : Nat := 8

def markerLine (label : String) (code secs : Nat) : List UInt8 :=
  let sod := secs % 86400
  let line := "\r\n\x1b[1;" ++ toString code ++ "m── serial " ++ label ++ " ["
    ++ String.ofList (Text.zeroPadded 2 (sod / 3600)) ++ ":"
    ++ String.ofList (Text.zeroPadded 2 (sod % 3600 / 60)) ++ ":"
    ++ String.ofList (Text.zeroPadded 2 (sod % 60)) ++ " UTC] ──\x1b[0m\r\n"
  line.toUTF8.data.toList

def pushRing (ring chunk : List UInt8) : List UInt8 :=
  let ring := ring ++ chunk
  let overflow := ring.length - RING_BYTES
  ring.drop overflow

/-- A message of the web socket. -/
inductive Frame where
  | scrollback (bytes : List UInt8)
  | chunk (bytes : List UInt8)
  | lagged (missed secs : Nat)
  | notice (bytes : List UInt8)
deriving DecidableEq

namespace Frame

def message : Frame → List UInt8
  | scrollback bytes => bytes
  | chunk bytes => bytes
  | lagged missed secs =>
      markerLine ("client lagged, dropped " ++ toString missed ++ " chunks") 33 secs
  | notice bytes => bytes

def ofReceived (secs : Nat) : Received (List UInt8) → Frame
  | .value bytes => chunk bytes
  | .lagged missed => lagged missed secs

def received? : Frame → Option (Received (List UInt8))
  | chunk bytes => some (.value bytes)
  | lagged missed _ => some (.lagged missed)
  | _ => none

def isStream : Frame → Bool
  | scrollback _ => true
  | chunk _ => true
  | _ => false

/-- The bytes of the interface's stream in a message. -/
def stream (f : Frame) : List UInt8 := if f.isStream then f.message else []

theorem received?_ofReceived (secs : Nat) (e : Received (List UInt8)) :
    (ofReceived secs e).received? = some e := by
  cases e <;> rfl

end Frame

/-- How far a client is: before the lock of the ring, holding it, with its subscription, with its
copy of the ring, sending what it receives, or gone. -/
inductive Stage where
  | waiting
  | locked
  | subscribed
  | attached
  | live
  | gone
deriving DecidableEq

/-- The client holds a subscription. -/
def Stage.reading : Stage → Bool
  | .subscribed => true
  | .attached => true
  | .live => true
  | _ => false

/-- A client of `/stream`: its place in the channel, its copy of the ring, the notices that wait to
be sent to it, and what was sent. It subscribed when `start` chunks were published. -/
structure Client where
  stage : Stage := .waiting
  place : Nat := 0
  snapshot : List UInt8 := []
  notices : List (List UInt8) := []
  out : List Frame := []
  start : Nat := 0
deriving DecidableEq

namespace Client

def received (c : Client) : List (Received (List UInt8)) := c.out.filterMap Frame.received?

def stream (c : Client) : List UInt8 := c.out.flatMap Frame.stream

end Client

/-- How far the supervisor is with a chunk: not begun, with the capture thread, holding the lock of
the ring, past the ring, or past the channel. -/
inductive Publisher where
  | idle
  | captured (chunk : List UInt8)
  | locked (chunk : List UInt8)
  | appended (chunk : List UInt8)
  | sent
deriving DecidableEq

namespace Publisher

/-- The chunk that is not published yet. -/
def pending : Publisher → List (List UInt8)
  | captured chunk => [chunk]
  | locked chunk => [chunk]
  | appended chunk => [chunk]
  | _ => []

/-- The chunk that is in the ring and not yet published. -/
def pushed : Publisher → List (List UInt8)
  | appended chunk => [chunk]
  | _ => []

def holdsRing : Publisher → Bool
  | locked _ => true
  | appended _ => true
  | sent => true
  | _ => false

end Publisher

inductive Owner where
  | publisher
  | client (i : Nat)
deriving DecidableEq

/-- One interface with its clients. `ringLock` is who holds the lock of the ring, `captured` what
the capture thread was given and `published` the chunks that are in the channel. -/
structure State where
  ring : List UInt8 := []
  ringLock : Option Owner := none
  toClients : Broadcast (List UInt8) := { capacity := BROADCAST_CAP }
  publisher : Publisher := .idle
  captureAlive : Bool := true
  captured : List (List UInt8) := []
  published : List (List UInt8) := []
  clients : List Client := []
deriving DecidableEq

inductive Action where
  /-- The supervisor hands a chunk to the capture thread, to publish it next. -/
  | publish (chunk : List UInt8)
  | captureDies
  | lockRing
  | pushRing
  | broadcast
  | unlockRing
  | connect
  | lock (i : Nat)
  | subscribe (i : Nat)
  /-- The client copies the ring and gives its lock back. -/
  | collect (i : Nat)
  /-- The copy is sent, if it holds anything. -/
  | greet (i : Nat)
  | receive (i secs : Nat)
  /-- Input of the client is refused, which it is to be told. -/
  | refuse (i secs : Nat)
  | notice (i : Nat)
  /-- The socket is closed, or a message cannot be sent. -/
  | leave (i : Nat)
deriving DecidableEq

namespace State

/-- Go on with the client, which has to be at the stage. -/
def atStage (s : State) (i : Nat) (stage : Stage) (f : Client → Option State) : Option State :=
  (s.clients[i]?).bind fun c => if c.stage = stage then f c else none

def setClient (s : State) (i : Nat) (c : Client) : State := { s with clients := s.clients.set i c }

def step (s : State) : Action → Option State
  | .publish chunk =>
      match s.publisher with
      | .idle => some { s with
          publisher := .captured chunk
          captured := if s.captureAlive then s.captured ++ [chunk] else s.captured }
      | _ => none
  | .captureDies => some { s with captureAlive := false }
  | .lockRing =>
      match s.publisher, s.ringLock with
      | .captured chunk, none => some { s with
          publisher := .locked chunk
          ringLock := some .publisher }
      | _, _ => none
  | .pushRing =>
      match s.publisher with
      | .locked chunk => some { s with
          ring := Stream.pushRing s.ring chunk
          publisher := .appended chunk }
      | _ => none
  | .broadcast =>
      match s.publisher with
      | .appended chunk => some { s with
          toClients := s.toClients.send chunk
          published := s.published ++ [chunk]
          publisher := .sent }
      | _ => none
  | .unlockRing =>
      match s.publisher with
      | .sent => some { s with publisher := .idle, ringLock := none }
      | _ => none
  | .connect => some { s with clients := s.clients ++ [{}] }
  | .lock i => s.atStage i .waiting fun c =>
      match s.ringLock with
      | none => some { s.setClient i { c with stage := .locked } with
          ringLock := some (.client i) }
      | some _ => none
  | .subscribe i => s.atStage i .locked fun c =>
      some { s.setClient i { c with
               stage := .subscribed
               place := s.toClients.sent.length
               start := s.published.length } with
        toClients := s.toClients.subscribe }
  | .collect i => s.atStage i .subscribed fun c =>
      some { s.setClient i { c with stage := .attached, snapshot := s.ring } with
        ringLock := none }
  | .greet i => s.atStage i .attached fun c =>
      some (s.setClient i { c with
        stage := .live
        out := if c.snapshot = [] then c.out else c.out ++ [.scrollback c.snapshot] })
  | .receive i secs => s.atStage i .live fun c =>
      (s.toClients.recv c.place).map fun r =>
        s.setClient i { c with place := r.2, out := c.out ++ [.ofReceived secs r.1] }
  | .refuse i secs => s.atStage i .live fun c =>
      some (s.setClient i { c with
        notices := if c.notices.length < NOTICE_CAP then
          c.notices ++ [markerLine "input refused: transaction in progress" 31 secs]
        else c.notices })
  | .notice i => s.atStage i .live fun c =>
      match c.notices with
      | marker :: rest => some (s.setClient i { c with
          notices := rest
          out := c.out ++ [.notice marker] })
      | [] => none
  | .leave i => (s.clients[i]?).bind fun c =>
      if c.stage = .attached ∨ c.stage = .live then
        some { s.setClient i { c with stage := .gone } with
          toClients := s.toClients.unsubscribe }
      else none

end State

/-! ### The invariant -/

/-- What the client has received of the chunks published since it subscribed, and its place in the
channel, in which it has the chunks from `first` on before it. -/
structure Client.Reads (published sent : List (List UInt8)) (c : Client) (first n : Nat) : Prop where
  first_le : first ≤ sent.length
  start_le : c.start ≤ published.length
  later : sent.drop first = published.drop c.start
  place : c.place = first + n
  follows : Follows (published.drop c.start) c.received n

/-- What holds of the client with the number `i`. -/
structure Client.Inv (ringLock : Option Owner) (published sent : List (List UInt8)) (i : Nat)
    (c : Client) : Prop where
  owns : (c.stage = .locked ∨ c.stage = .subscribed) ↔ ringLock = some (.client i)
  fresh : c.stage ≠ .live → c.stage ≠ .gone → c.out = []
  now : c.stage = .subscribed → c.start = published.length
  snapshot : c.stage = .attached ∨ c.stage = .live →
    c.snapshot = (published.take c.start).flatten.rtake RING_BYTES
  reads : c.stage.reading = true → ∃ first n, c.Reads published sent first n
  stream : c.stage = .live →
    c.stream = c.snapshot ++ (c.received.filterMap Received.value?).flatten
  lagged : c.stage.reading = true → ∀ k, .lagged k ∈ c.received →
    c.start + BROADCAST_CAP < published.length

structure State.Inv (s : State) : Prop where
  ring : s.ring = (s.published ++ s.publisher.pushed).flatten.rtake RING_BYTES
  owner : s.ringLock = some .publisher ↔ s.publisher.holdsRing = true
  held : ∀ i, s.ringLock = some (.client i) → i < s.clients.length
  recorded : s.captured <+: s.published ++ s.publisher.pending
  alive : s.captureAlive = true → s.captured = s.published ++ s.publisher.pending
  receivers : s.toClients.receivers = s.clients.countP (·.stage.reading)
  capacity : s.toClients.capacity = BROADCAST_CAP
  clients : ∀ (i : Nat) (c : Client), s.clients[i]? = some c →
    c.Inv s.ringLock s.published s.toClients.sent i

/-- The end of a list that grows is the end of its old end, grown. -/
theorem rtake_append_rtake {α : Type*} (l m : List α) (n : Nat) :
    (l.rtake n ++ m).rtake n = (l ++ m).rtake n := by
  rw [List.rtake_eq_reverse_take_reverse, List.rtake_eq_reverse_take_reverse,
    List.rtake_eq_reverse_take_reverse, List.reverse_append, List.reverse_reverse,
    List.reverse_append, List.take_append, List.take_append, List.take_take,
    Nat.min_eq_left (Nat.sub_le _ _)]

theorem pushRing_rtake (bytes chunk : List UInt8) :
    pushRing (bytes.rtake RING_BYTES) chunk = (bytes ++ chunk).rtake RING_BYTES :=
  rtake_append_rtake bytes chunk RING_BYTES

namespace Client

variable {ringLock ringLock' : Option Owner} {published sent : List (List UInt8)} {i : Nat}
  {c : Client}

theorem inv_new (h : ringLock ≠ some (.client i)) :
    ({} : Client).Inv ringLock published sent i where
  owns := by
    constructor
    · rintro (hstage | hstage) <;> cases hstage
    · intro hlock
      exact absurd hlock h
  fresh _ _ := rfl
  now hstage := by cases hstage
  snapshot hstage := by rcases hstage with hstage | hstage <;> cases hstage
  reads hreading := by cases hreading
  stream hstage := by cases hstage
  lagged hreading := by cases hreading

/-- The lock goes from one to another of the others. -/
theorem Inv.of_owns (h : c.Inv ringLock published sent i)
    (hlock : ringLock' = some (.client i) ↔ ringLock = some (.client i)) :
    c.Inv ringLock' published sent i where
  owns := h.owns.trans hlock.symm
  fresh := h.fresh
  now := h.now
  snapshot := h.snapshot
  reads := h.reads
  stream := h.stream
  lagged := h.lagged

/-- The reception is about the chunks received and the places only. -/
theorem Reads.of_eq {d : Client} {first n : Nat} (h : c.Reads published sent first n)
    (hstart : d.start = c.start) (hplace : d.place = c.place)
    (hreceived : d.received = c.received) : d.Reads published sent first n := by
  refine ⟨h.first_le, hstart ▸ h.start_le, hstart ▸ h.later, hplace.trans h.place, ?_⟩
  rw [hstart, hreceived]
  exact h.follows

theorem Reads.publish {first n : Nat} (h : c.Reads published sent first n) (chunk : List UInt8) :
    c.Reads (published ++ [chunk]) (sent ++ [chunk]) first n := by
  have hpublished : (published ++ [chunk]).drop c.start = published.drop c.start ++ [chunk] :=
    List.drop_append_of_le_length h.start_le
  refine ⟨?_, ?_, ?_, h.place, ?_⟩
  · rw [List.length_append]
    exact h.first_le.trans (Nat.le_add_right _ _)
  · rw [List.length_append]
    exact h.start_le.trans (Nat.le_add_right _ _)
  · rw [List.drop_append_of_le_length h.first_le, h.later, hpublished]
  · rw [hpublished]
    exact h.follows.append [chunk]

/-- Another chunk is published, which the channel holds if anybody is subscribed. -/
theorem Inv.publish {sent' : List (List UInt8)} {chunk : List UInt8}
    (h : c.Inv ringLock published sent i) (hlock : ringLock ≠ some (.client i))
    (hsent : c.stage.reading = true → sent' = sent ++ [chunk]) :
    c.Inv ringLock (published ++ [chunk]) sent' i where
  owns := h.owns
  fresh := h.fresh
  now hstage := absurd (h.owns.mp (.inr hstage)) hlock
  snapshot hstage := by
    have hreading : c.stage.reading = true := by
      rcases hstage with hstage | hstage <;> rw [hstage] <;> rfl
    obtain ⟨first, n, hreads⟩ := h.reads hreading
    rw [List.take_append_of_le_length hreads.start_le]
    exact h.snapshot hstage
  reads hreading := by
    obtain ⟨first, n, hreads⟩ := h.reads hreading
    rw [hsent hreading]
    exact ⟨first, n, hreads.publish chunk⟩
  stream := h.stream
  lagged hreading k hk := by
    rw [List.length_append]
    exact (h.lagged hreading k hk).trans_le (Nat.le_add_right _ _)

end Client

namespace State

variable {s t : State} {i : Nat}

theorem inv_start : ({} : State).Inv where
  ring := rfl
  owner := by
    constructor
    · intro h
      cases h
    · intro h
      cases h
  held _ h := by cases h
  recorded := List.nil_prefix
  alive _ := rfl
  receivers := rfl
  capacity := rfl
  clients _ _ h := by cases h

theorem atStage_eq_some {stage : Stage} {f : Client → Option State} :
    s.atStage i stage f = some t ↔ ∃ c, s.clients[i]? = some c ∧ c.stage = stage ∧ f c = some t := by
  rw [atStage, Option.bind_eq_some_iff]
  refine exists_congr fun c => and_congr_right fun _ => ?_
  split
  next h => exact ⟨fun hf => ⟨h, hf⟩, fun hf => hf.2⟩
  next h =>
    constructor
    · intro hf
      cases hf
    · rintro ⟨hstage, -⟩
      exact absurd hstage h

namespace Inv

/-- While the supervisor holds the lock, no client does. -/
theorem ne_client (h : s.Inv) (hholds : s.publisher.holdsRing = true) (j : Nat) :
    s.ringLock ≠ some (.client j) := by
  rw [h.owner.mpr hholds]
  rintro ⟨⟩

/-- While a client holds the lock, no chunk is half published. -/
theorem pushed_eq_nil (h : s.Inv) (hlock : s.ringLock = some (.client i)) :
    s.publisher.pushed = [] := by
  have hholds : s.publisher.holdsRing ≠ true := fun hholds => h.ne_client hholds i hlock
  cases hp : s.publisher with
  | appended chunk =>
      rw [hp] at hholds
      exact absurd rfl hholds
  | _ => rfl

/-- A step of one client. -/
theorem set_client (h : s.Inv) {c d : Client} (hc : s.clients[i]? = some c)
    {ringLock : Option Owner} {toClients : Broadcast (List UInt8)}
    (howner : ringLock = some .publisher ↔ s.ringLock = some .publisher)
    (hothers : ∀ j, j ≠ i → (ringLock = some (.client j) ↔ s.ringLock = some (.client j)))
    (hsent : toClients.sent = s.toClients.sent) (hcapacity : toClients.capacity = BROADCAST_CAP)
    (hreceivers : toClients.receivers + (if c.stage.reading then 1 else 0) =
      s.toClients.receivers + if d.stage.reading then 1 else 0)
    (hd : d.Inv ringLock s.published s.toClients.sent i) :
    { s.setClient i d with ringLock := ringLock, toClients := toClients : State }.Inv where
  ring := h.ring
  owner := howner.trans h.owner
  held j hj := by
    have hlt : j < s.clients.length := by
      by_cases hji : j = i
      · rw [hji]
        exact (List.getElem?_eq_some_iff.mp hc).1
      · exact h.held j ((hothers j hji).mp hj)
    exact hlt.trans_eq (List.length_set ..).symm
  recorded := h.recorded
  alive := h.alive
  receivers := by
    have hcount := Entries.countP_set hc d (·.stage.reading)
    rw [← h.receivers, ← hreceivers] at hcount
    exact (Nat.add_right_cancel hcount).symm
  capacity := hcapacity
  clients := by
    rw [hsent]
    refine Entries.forall_set hd fun j b hj hb => ?_
    exact (h.clients j b hb).of_owns (hothers j hj)

/-- A step of one client that keeps the lock and its subscription. -/
theorem set_client_of_eq (h : s.Inv) {c d : Client} (hc : s.clients[i]? = some c)
    (hreading : d.stage.reading = c.stage.reading)
    (hd : d.Inv s.ringLock s.published s.toClients.sent i) : (s.setClient i d).Inv :=
  h.set_client hc Iff.rfl (fun _ _ => Iff.rfl) rfl h.capacity (by rw [hreading]) hd

theorem captured_eq (h : s.Inv) (hidle : s.publisher = .idle) (halive : s.captureAlive = true) :
    s.captured = s.published := by
  have hpending : s.publisher.pending = [] := by rw [hidle]; rfl
  have heq := h.alive halive
  rw [hpending, List.append_nil] at heq
  exact heq

theorem publish (h : s.Inv) {chunk : List UInt8} (hidle : s.publisher = .idle) :
    { s with
      publisher := .captured chunk
      captured := if s.captureAlive then s.captured ++ [chunk] else s.captured : State }.Inv where
  ring := by
    have hring := h.ring
    rw [hidle] at hring
    exact hring
  owner := by
    have howner := h.owner
    rw [hidle] at howner
    exact howner
  held := h.held
  recorded := by
    split
    next halive =>
      rw [h.captured_eq hidle halive]
      exact ⟨[], List.append_nil _⟩
    next =>
      have hrecorded := h.recorded
      have hpending : s.publisher.pending = [] := by rw [hidle]; rfl
      rw [hpending, List.append_nil] at hrecorded
      exact hrecorded.trans (List.prefix_append _ _)
  alive halive := by
    change (if s.captureAlive then s.captured ++ [chunk] else s.captured) = s.published ++ [chunk]
    rw [if_pos halive, h.captured_eq hidle halive]
  receivers := h.receivers
  capacity := h.capacity
  clients := h.clients

theorem lock_ring (h : s.Inv) {chunk : List UInt8} (hcaptured : s.publisher = .captured chunk)
    (hfree : s.ringLock = none) :
    { s with publisher := .locked chunk, ringLock := some .publisher : State }.Inv where
  ring := by
    have hring := h.ring
    rw [hcaptured] at hring
    exact hring
  owner := ⟨fun _ => rfl, fun _ => rfl⟩
  held j hj := by cases hj
  recorded := by
    have hrecorded := h.recorded
    rw [hcaptured] at hrecorded
    exact hrecorded
  alive halive := by
    have heq := h.alive halive
    rw [hcaptured] at heq
    exact heq
  receivers := h.receivers
  capacity := h.capacity
  clients j b hb := by
    refine (h.clients j b hb).of_owns ?_
    rw [hfree]
    constructor
    · rintro ⟨⟩
    · rintro ⟨⟩

theorem push_ring (h : s.Inv) {chunk ring : List UInt8} (hlocked : s.publisher = .locked chunk)
    (heq : ring = pushRing s.ring chunk) :
    { s with ring := ring, publisher := .appended chunk : State }.Inv where
  ring := by
    have hpushed : s.publisher.pushed = [] := by rw [hlocked]; rfl
    have hring := h.ring
    rw [hpushed, List.append_nil] at hring
    rw [hring, pushRing_rtake] at heq
    rw [Publisher.pushed, List.flatten_concat]
    exact heq
  owner := by
    have howner := h.owner
    rw [hlocked] at howner
    exact howner
  held := h.held
  recorded := by
    have hrecorded := h.recorded
    rw [hlocked] at hrecorded
    exact hrecorded
  alive halive := by
    have heq := h.alive halive
    rw [hlocked] at heq
    exact heq
  receivers := h.receivers
  capacity := h.capacity
  clients := h.clients

theorem broadcast (h : s.Inv) {chunk : List UInt8} (happended : s.publisher = .appended chunk) :
    { s with
      toClients := s.toClients.send chunk
      published := s.published ++ [chunk]
      publisher := .sent : State }.Inv where
  ring := by
    have hring := h.ring
    rw [happended] at hring
    change s.ring = (s.published ++ [chunk] ++ []).flatten.rtake RING_BYTES
    rw [List.append_nil]
    exact hring
  owner := by
    have howner := h.owner
    rw [happended] at howner
    exact howner
  held := h.held
  recorded := by
    have hrecorded := h.recorded
    rw [happended] at hrecorded
    change s.captured <+: s.published ++ [chunk] ++ []
    rw [List.append_nil]
    exact hrecorded
  alive halive := by
    have heq := h.alive halive
    rw [happended] at heq
    change s.captured = s.published ++ [chunk] ++ []
    rw [List.append_nil]
    exact heq
  receivers := (Broadcast.receivers_send _ _).trans h.receivers
  capacity := (Broadcast.capacity_send _ _).trans h.capacity
  clients j b hb := by
    have hholds : s.publisher.holdsRing = true := by rw [happended]; rfl
    refine (h.clients j b hb).publish (h.ne_client hholds j) fun hreading => ?_
    refine Broadcast.send_of_ne ?_ chunk
    rw [h.receivers]
    exact (List.countP_pos_iff.mpr ⟨b, List.mem_of_getElem? hb, hreading⟩).ne'

theorem unlock_ring (h : s.Inv) (hsent : s.publisher = .sent) :
    { s with publisher := .idle, ringLock := none : State }.Inv where
  ring := by
    have hring := h.ring
    rw [hsent] at hring
    exact hring
  owner := by
    constructor
    · rintro ⟨⟩
    · rintro ⟨⟩
  held j hj := by cases hj
  recorded := by
    have hrecorded := h.recorded
    rw [hsent] at hrecorded
    exact hrecorded
  alive halive := by
    have heq := h.alive halive
    rw [hsent] at heq
    exact heq
  receivers := h.receivers
  capacity := h.capacity
  clients j b hb := by
    have hholds : s.publisher.holdsRing = true := by rw [hsent]; rfl
    refine (h.clients j b hb).of_owns ?_
    constructor
    · rintro ⟨⟩
    · intro hlock
      exact absurd hlock (h.ne_client hholds j)

theorem connect (h : s.Inv) : { s with clients := s.clients ++ [{}] : State }.Inv where
  ring := h.ring
  owner := h.owner
  held j hj := by
    rw [List.length_append]
    exact (h.held j hj).trans_le (Nat.le_add_right _ _)
  recorded := h.recorded
  alive := h.alive
  receivers := by
    rw [List.countP_append]
    exact h.receivers
  capacity := h.capacity
  clients := by
    refine Entries.forall_concat (Client.inv_new fun hlock => ?_) h.clients
    exact Nat.lt_irrefl _ (h.held _ hlock)

theorem lock_client (h : s.Inv) {c : Client} (hc : s.clients[i]? = some c)
    (hstage : c.stage = .waiting) (hfree : s.ringLock = none) :
    { s.setClient i { c with stage := .locked } with ringLock := some (.client i) : State }.Inv := by
  have hinv := h.clients i c hc
  refine h.set_client hc ?_ ?_ rfl h.capacity (by rw [hstage]; rfl) ?_
  · rw [hfree]
    constructor <;> rintro ⟨⟩
  · intro j hj
    rw [hfree]
    constructor
    · rintro ⟨⟩
      exact absurd rfl hj
    · rintro ⟨⟩
  · exact {
      owns := ⟨fun _ => rfl, fun _ => .inl rfl⟩
      fresh := fun _ _ => hinv.fresh (by rw [hstage]; decide) (by rw [hstage]; decide)
      now := by rintro ⟨⟩
      snapshot := by rintro (hstage | hstage) <;> cases hstage
      reads := by rintro ⟨⟩
      stream := by rintro ⟨⟩
      lagged := by rintro ⟨⟩ }

theorem subscribe_client (h : s.Inv) {c : Client} (hc : s.clients[i]? = some c)
    (hstage : c.stage = .locked) :
    { s.setClient i { c with
        stage := .subscribed
        place := s.toClients.sent.length
        start := s.published.length } with toClients := s.toClients.subscribe : State }.Inv := by
  have hinv := h.clients i c hc
  have hlock : s.ringLock = some (.client i) := hinv.owns.mp (.inl hstage)
  have hout : c.out = [] := hinv.fresh (by rw [hstage]; decide) (by rw [hstage]; decide)
  have hreceived : c.received = [] := by rw [Client.received, hout]; rfl
  refine h.set_client hc Iff.rfl (fun _ _ => Iff.rfl) rfl h.capacity (by rw [hstage]; rfl) ?_
  exact {
    owns := ⟨fun _ => hlock, fun _ => .inr rfl⟩
    fresh := fun _ _ => hout
    now := fun _ => rfl
    snapshot := by rintro (hstage | hstage) <;> cases hstage
    reads := fun _ => by
      refine ⟨s.toClients.sent.length, 0, le_rfl, le_rfl, ?_, rfl, ?_⟩
      · rw [List.drop_length, List.drop_length]
      · change Follows _ c.received 0
        rw [hreceived]
        exact .nil
    stream := by rintro ⟨⟩
    lagged := fun _ k hk => by
      change _ ∈ c.received at hk
      rw [hreceived] at hk
      cases hk }

theorem collect_client (h : s.Inv) {c : Client} (hc : s.clients[i]? = some c)
    (hstage : c.stage = .subscribed) :
    { s.setClient i { c with stage := .attached, snapshot := s.ring } with
      ringLock := none : State }.Inv := by
  have hinv := h.clients i c hc
  have hlock : s.ringLock = some (.client i) := hinv.owns.mp (.inr hstage)
  have hreading : c.stage.reading = true := by rw [hstage]; rfl
  refine h.set_client hc ?_ ?_ rfl h.capacity (by rw [hstage]; rfl) ?_
  · rw [hlock]
    constructor <;> rintro ⟨⟩
  · intro j hj
    rw [hlock]
    constructor
    · rintro ⟨⟩
    · rintro ⟨⟩
      exact absurd rfl hj
  · exact {
      owns := by
        constructor
        · rintro (hstage | hstage) <;> cases hstage
        · rintro ⟨⟩
      fresh := fun _ _ => hinv.fresh (by rw [hstage]; decide) (by rw [hstage]; decide)
      now := by rintro ⟨⟩
      snapshot := fun _ => by
        change s.ring = (s.published.take c.start).flatten.rtake RING_BYTES
        rw [h.ring, h.pushed_eq_nil hlock, hinv.now hstage, List.append_nil, List.take_length]
      reads := fun _ => by
        obtain ⟨first, n, hreads⟩ := hinv.reads hreading
        exact ⟨first, n, hreads.of_eq rfl rfl rfl⟩
      stream := by rintro ⟨⟩
      lagged := fun _ => hinv.lagged hreading }

theorem greet_client (h : s.Inv) {c : Client} (hc : s.clients[i]? = some c)
    (hstage : c.stage = .attached) :
    (s.setClient i { c with
      stage := .live
      out := if c.snapshot = [] then c.out else c.out ++ [.scrollback c.snapshot] }).Inv := by
  have hinv := h.clients i c hc
  have hreading : c.stage.reading = true := by rw [hstage]; rfl
  have hout : c.out = [] := hinv.fresh (by rw [hstage]; decide) (by rw [hstage]; decide)
  have hreceived : { c with
      stage := .live
      out := if c.snapshot = [] then c.out
        else c.out ++ [.scrollback c.snapshot] : Client }.received = c.received := by
    rw [Client.received, Client.received, hout]
    split <;> rfl
  refine h.set_client_of_eq hc (by rw [hstage]; rfl) ?_
  exact {
    owns := by
      constructor
      · rintro (hstage | hstage) <;> cases hstage
      · intro hlock
        have hlocked := hinv.owns.mpr hlock
        rw [hstage] at hlocked
        rcases hlocked with hlocked | hlocked <;> cases hlocked
    fresh := fun hlive => absurd rfl hlive
    now := by rintro ⟨⟩
    snapshot := fun _ => hinv.snapshot (.inl hstage)
    reads := fun _ => by
      obtain ⟨first, n, hreads⟩ := hinv.reads hreading
      exact ⟨first, n, hreads.of_eq rfl rfl hreceived⟩
    stream := fun _ => by
      rw [hreceived, Client.received, hout]
      change List.flatMap Frame.stream _ = _
      split
      next hempty =>
        rw [hempty]
        rfl
      next => rfl
    lagged := fun _ => by
      rw [hreceived]
      exact hinv.lagged hreading }

theorem receive_client (h : s.Inv) {c : Client} (hc : s.clients[i]? = some c)
    (hstage : c.stage = .live) (secs : Nat) {r : Received (List UInt8) × Nat}
    (hrecv : s.toClients.recv c.place = some r) :
    (s.setClient i { c with place := r.2, out := c.out ++ [.ofReceived secs r.1] }).Inv := by
  have hinv := h.clients i c hc
  have hreading : c.stage.reading = true := by rw [hstage]; rfl
  obtain ⟨first, n, hreads⟩ := hinv.reads hreading
  have hreceived : { c with
      place := r.2
      out := c.out ++ [.ofReceived secs r.1] : Client }.received = c.received ++ [r.1] := by
    rw [Client.received, Client.received, List.filterMap_append]
    cases r.1 <;> rfl
  refine h.set_client_of_eq hc rfl ?_
  exact {
    owns := hinv.owns
    fresh := fun hlive => absurd hstage hlive
    now := hinv.now
    snapshot := hinv.snapshot
    reads := fun _ => by
      rw [hreads.place] at hrecv
      obtain ⟨m, hm, hfollows⟩ := Broadcast.follows_recv hreads.later hreads.first_le
        hreads.follows hrecv
      refine ⟨first, m, hreads.first_le, hreads.start_le, hreads.later, hm, ?_⟩
      rw [hreceived]
      exact hfollows
    stream := fun _ => by
      rw [hreceived, List.filterMap_append, List.flatten_append, ← List.append_assoc,
        ← hinv.stream hstage]
      change List.flatMap Frame.stream _ = _
      rw [List.flatMap_append]
      refine congrArg (c.stream ++ ·) ?_
      cases r.1 with
      | value bytes => rfl
      | lagged missed => rfl
    lagged := fun _ k hk => by
      rw [hreceived] at hk
      rcases List.mem_append.mp hk with hk | hk
      · exact hinv.lagged hreading k hk
      · have hr : s.toClients.recv c.place = some (.lagged k, r.2) := by
          rw [hrecv, List.mem_singleton.mp hk]
        have hlt := Broadcast.lt_of_recv_lagged hr
        have hlater := congrArg List.length hreads.later
        rw [List.length_drop, List.length_drop] at hlater
        have hfirst := hreads.first_le
        have hstart := hreads.start_le
        rw [hreads.place, h.capacity] at hlt
        change c.start + BROADCAST_CAP < s.published.length
        omega }

/-- A step that sends nothing of the interface's stream. -/
theorem notice_client (h : s.Inv) {c d : Client} (hc : s.clients[i]? = some c)
    (hstage : c.stage = .live) {notices : List (List UInt8)} {out : List Frame}
    (hd : d = { c with notices := notices, out := out }) (hreceived : d.received = c.received)
    (hstream : d.stream = c.stream) : (s.setClient i d).Inv := by
  have hinv := h.clients i c hc
  have hreading : c.stage.reading = true := by rw [hstage]; rfl
  subst hd
  refine h.set_client_of_eq hc rfl ?_
  exact {
    owns := hinv.owns
    fresh := fun hlive => absurd hstage hlive
    now := hinv.now
    snapshot := hinv.snapshot
    reads := fun _ => by
      obtain ⟨first, n, hreads⟩ := hinv.reads hreading
      exact ⟨first, n, hreads.of_eq rfl rfl hreceived⟩
    stream := fun _ => by
      rw [hstream, hreceived]
      exact hinv.stream hstage
    lagged := fun _ => by
      rw [hreceived]
      exact hinv.lagged hreading }

theorem leave_client (h : s.Inv) {c : Client} (hc : s.clients[i]? = some c)
    (hstage : c.stage = .attached ∨ c.stage = .live) :
    { s.setClient i { c with stage := .gone } with
      toClients := s.toClients.unsubscribe : State }.Inv := by
  have hinv := h.clients i c hc
  have hreading : c.stage.reading = true := by rcases hstage with h | h <;> rw [h] <;> rfl
  have hpos : 0 < s.toClients.receivers := by
    rw [h.receivers]
    exact List.countP_pos_iff.mpr ⟨c, List.mem_of_getElem? hc, hreading⟩
  refine h.set_client hc Iff.rfl (fun _ _ => Iff.rfl) rfl h.capacity ?_ ?_
  · rw [if_pos hreading]
    exact Nat.sub_add_cancel hpos
  · exact {
      owns := by
        constructor
        · rintro (hstage | hstage) <;> cases hstage
        · intro hlock
          have hlocked := hinv.owns.mpr hlock
          rcases hstage with hstage | hstage <;> rw [hstage] at hlocked <;>
            rcases hlocked with hlocked | hlocked <;> cases hlocked
      fresh := fun _ hgone => absurd rfl hgone
      now := by rintro ⟨⟩
      snapshot := by rintro (hstage | hstage) <;> cases hstage
      reads := by rintro ⟨⟩
      stream := by rintro ⟨⟩
      lagged := by rintro ⟨⟩ }

end Inv

/-- Every action keeps the invariant. -/
theorem inv_step {a : Action} (h : s.Inv) (hstep : s.step a = some t) : t.Inv := by
  cases a with
  | publish chunk =>
      simp only [step] at hstep
      split at hstep
      · cases hstep
        exact h.publish ‹_›
      · cases hstep
  | captureDies =>
      cases hstep
      exact {
        ring := h.ring
        owner := h.owner
        held := h.held
        recorded := h.recorded
        alive := by rintro ⟨⟩
        receivers := h.receivers
        capacity := h.capacity
        clients := h.clients }
  | lockRing =>
      simp only [step] at hstep
      split at hstep
      · cases hstep
        exact h.lock_ring ‹_› ‹_›
      · cases hstep
  | pushRing =>
      simp only [step] at hstep
      split at hstep
      next chunk hlocked =>
        have hstep := Option.some.inj hstep
        subst hstep
        exact h.push_ring hlocked rfl
      next => cases hstep
  | broadcast =>
      simp only [step] at hstep
      split at hstep
      · cases hstep
        exact h.broadcast ‹_›
      · cases hstep
  | unlockRing =>
      simp only [step] at hstep
      split at hstep
      · cases hstep
        exact h.unlock_ring ‹_›
      · cases hstep
  | connect =>
      cases hstep
      exact h.connect
  | lock i =>
      obtain ⟨c, hc, hstage, hstep⟩ := atStage_eq_some.mp hstep
      split at hstep
      · cases hstep
        exact h.lock_client hc hstage ‹_›
      · cases hstep
  | subscribe i =>
      obtain ⟨c, hc, hstage, hstep⟩ := atStage_eq_some.mp hstep
      cases hstep
      exact h.subscribe_client hc hstage
  | collect i =>
      obtain ⟨c, hc, hstage, hstep⟩ := atStage_eq_some.mp hstep
      cases hstep
      exact h.collect_client hc hstage
  | greet i =>
      obtain ⟨c, hc, hstage, hstep⟩ := atStage_eq_some.mp hstep
      cases hstep
      exact h.greet_client hc hstage
  | receive i secs =>
      obtain ⟨c, hc, hstage, hstep⟩ := atStage_eq_some.mp hstep
      obtain ⟨r, hrecv, rfl⟩ := Option.map_eq_some_iff.mp hstep
      exact h.receive_client hc hstage secs hrecv
  | refuse i secs =>
      obtain ⟨c, hc, hstage, hstep⟩ := atStage_eq_some.mp hstep
      cases hstep
      exact h.notice_client hc hstage rfl rfl rfl
  | notice i =>
      obtain ⟨c, hc, hstage, hstep⟩ := atStage_eq_some.mp hstep
      split at hstep
      · cases hstep
        refine h.notice_client hc hstage rfl ?_ ?_
        · rw [Client.received, List.filterMap_append]
          exact List.append_nil _
        · rw [Client.stream, List.flatMap_append]
          exact List.append_nil _
      · cases hstep
  | leave i =>
      obtain ⟨c, hc, hstep⟩ := Option.bind_eq_some_iff.mp hstep
      split at hstep
      · cases hstep
        exact h.leave_client hc ‹_›
      · cases hstep

end State

/-! ### What a client sees -/

/-- The client has the end of what was published before it attached, and then the first `n` chunks
published after, but for those that a marker counts. -/
structure Client.Attached (s : State) (c : Client) (n : Nat) : Prop where
  snapshot : c.snapshot = (s.published.take c.start).flatten.rtake RING_BYTES
  follows : Follows (s.published.drop c.start) c.received n
  stream : c.stream = c.snapshot ++ (c.received.filterMap Received.value?).flatten
  lagged : ∀ k, .lagged k ∈ c.received → c.start + BROADCAST_CAP < s.published.length
  unbroken : (∀ k, .lagged k ∉ c.received) → c.stream =
    (s.published.take (c.start + n)).flatten.drop
      ((s.published.take c.start).flatten.length - RING_BYTES)
  caught_up : s.toClients.recv c.place = none → c.start + n = s.published.length

theorem Client.Inv.attached {s : State} {i : Nat} {c : Client}
    (h : c.Inv s.ringLock s.published s.toClients.sent i) (hstage : c.stage = .live) :
    ∃ n, c.Attached s n := by
  have hreading : c.stage.reading = true := by rw [hstage]; rfl
  obtain ⟨first, n, hreads⟩ := h.reads hreading
  refine ⟨n, h.snapshot (.inr hstage), hreads.follows, h.stream hstage, h.lagged hreading, ?_, ?_⟩
  · intro hall
    rw [h.stream hstage, hreads.follows.values_eq_take hall, h.snapshot (.inr hstage),
      List.take_add, List.flatten_append, List.rtake]
    exact (List.drop_append_of_le_length (Nat.sub_le _ _)).symm
  · intro hnone
    have hle := Broadcast.length_le_of_recv hnone
    have hlater := congrArg List.length hreads.later
    have hn := hreads.follows.le_length
    rw [List.length_drop, List.length_drop] at hlater
    rw [List.length_drop] at hn
    have hfirst := hreads.first_le
    have hstart := hreads.start_le
    rw [hreads.place] at hle
    omega

/-- In every run the capture thread is given what is published, in the same order, and every client
has that stream from the scrollback on. -/
theorem attached_stream {as : List Action} {s : State} (h : Machine.run State.step {} as = some s) :
    s.captured <+: s.published ++ s.publisher.pending ∧
      (s.captureAlive = true → s.captured = s.published ++ s.publisher.pending) ∧
      ∀ (i : Nat) (c : Client), s.clients[i]? = some c → c.stage = .live → ∃ n, c.Attached s n := by
  have hinv : s.Inv := Machine.run_induct State.inv_start
    (fun _ _ _ hm hstep => State.inv_step hm hstep) h
  exact ⟨hinv.recorded, hinv.alive, fun i c hc hstage => (hinv.clients i c hc).attached hstage⟩

/-- A client attaches between two chunks, the second of which is with the capture thread. -/
def betweenChunks : List Action :=
  [.publish [104], .lockRing, .connect, .pushRing, .broadcast, .unlockRing, .publish [105, 33],
    .lock 0, .subscribe 0, .collect 0, .lockRing, .pushRing, .greet 0, .broadcast, .receive 0 0,
    .unlockRing]

theorem attached_stream_between : ∃ s, Machine.run State.step {} betweenChunks = some s ∧
    ∃ c, s.clients[0]? = some c ∧ c.out = [.scrollback [104], .chunk [105, 33]] ∧
      ∃ n, c.Attached s n := by
  have hsome : (Machine.run State.step {} betweenChunks).isSome = true := by decide +kernel
  obtain ⟨s, hs⟩ := Option.isSome_iff_exists.mp hsome
  have hclient : (Machine.run State.step {} betweenChunks).bind (·.clients[0]?) =
      some ⟨.live, 1, [104], [], [.scrollback [104], .chunk [105, 33]], 1⟩ := by decide +kernel
  rw [hs] at hclient
  exact ⟨s, hs, _, hclient, rfl, (attached_stream hs).2.2 0 _ hclient rfl⟩

end Stream

end Serialcap

end Paniolo
