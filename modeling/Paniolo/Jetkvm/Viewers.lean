import Mathlib.Data.List.Basic
import Paniolo.Jetkvm.Rfb
import Paniolo.Library.Entries
import Paniolo.Library.Machine

/-!
# The viewers of a JetKVM session

The decoder stores its frames in a `FrameStore`, which keeps the newest one and
closes a channel for every new one. Each RFB viewer has two goroutines: the
reader notes the update requests of its client and signals them on a channel
with room for one, and the responder takes what was noted, picks a frame
(`pick`, which waits for one in `Wait`) and sends it. A step is one mutex
section or one channel operation.

`Viewer.Served` says what a client can rely on: its requests are answered in
order, none of them twice and none of them forgotten, an incremental one by a
newer frame than any before it, and nobody sleeps while there is a frame to
send.
-/

namespace Paniolo

namespace Jetkvm

namespace Viewers

open Rfb

/-- `FrameStore`: the channels are numbered as they are made, and all but the last one are closed.
`decoded` is the history of the frames stored. -/
structure FrameStore where
  cur : Frame
  notify : Nat
  decoded : List Frame

namespace FrameStore

/-- `NewFrameStore`. -/
def new : FrameStore :=
  ⟨⟨0, 0, 0, []⟩, 0, []⟩

/-- `Set`. -/
def set (s : FrameStore) (w h : Nat) (pix : List UInt8) : FrameStore :=
  let f : Frame := ⟨s.cur.seq + 1, w, h, pix⟩
  ⟨f, s.notify + 1, s.decoded ++ [f]⟩

def isClosed (s : FrameStore) (ch : Nat) : Bool :=
  decide (ch < s.notify)

/-- `KnownSize`, with the sizes of the last parameter set and of the video input. -/
def knownSize (s : FrameStore) (sps input : Nat × Nat) : Nat × Nat :=
  if 0 < s.cur.seq then (s.cur.w, s.cur.h)
  else if 0 < sps.1 then sps
  else if 0 < input.1 then input
  else (1920, 1080)

/-- The black frame that stands in for the first one. -/
def black (s : FrameStore) (sps input : Nat × Nat) : Frame :=
  let (w, h) := s.knownSize sps input
  ⟨0, w, h, List.replicate (w * h * 4) 0⟩

end FrameStore

/-- An update request, with the number of the newest frame when it was read. -/
structure Request where
  incremental : Bool
  newest : Nat
deriving DecidableEq

/-- What the responder took from `pending`, with the requests that were noted there. -/
structure Job where
  incremental : Bool
  batch : List Request
deriving DecidableEq

/-- Where the responder is. `first` is the wait for the first frame, the one with a deadline. -/
inductive Responder where
  | idle
  | woken
  | picking (job : Job)
  | waiting (job : Job) (first : Bool) (after : Nat)
  | asleep (job : Job) (first : Bool) (after ch : Nat)
  | sending (job : Job) (frame : Frame)
  | ended (lost : List Request)
deriving DecidableEq

namespace Responder

/-- The requests that the responder is at work on, or has left unanswered. -/
def batch : Responder → List Request
  | .idle => []
  | .woken => []
  | .picking job => job.batch
  | .waiting job _ _ => job.batch
  | .asleep job _ _ _ => job.batch
  | .sending job _ => job.batch
  | .ended lost => lost

def isEnded : Responder → Bool
  | .ended _ => true
  | _ => false

end Responder

structure Answer where
  job : Job
  frame : Frame
deriving DecidableEq

/-- A viewer: its session, the reader between noting a request and signalling it, the responder,
and the history of its requests and answers. -/
structure Viewer where
  session : Session
  reading : Bool
  signalling : Bool
  cancelled : Bool
  responder : Responder
  gathered : List Request
  requests : List Request
  answers : List Answer
deriving DecidableEq

inductive Viewer.Action where
  | request (incremental : Bool)
  | signal
  | setPixelFormat (pf : PixelFormat)
  | setEncodings (desktopSize : Bool)
  | readerEnds
  | cancel
  | wake
  | take
  | pick
  | look
  | rouse
  | timeout (sps input : Nat × Nat)
  | send
  | fail
  | notice

namespace Viewer

/-- After the handshake. -/
def start (cw ch : Nat) : Viewer :=
  ⟨Session.start cw ch, true, false, false, .idle, [], [], []⟩

/-- The reader notes a request; a non-incremental request outranks an incremental one. -/
def request (store : FrameStore) (incremental : Bool) (v : Viewer) : Viewer :=
  let pending := v.session.pending
  let noted : FbRequest := ⟨true, incremental && (!pending.have' || pending.incremental)⟩
  let r : Request := ⟨incremental, store.cur.seq⟩
  { v with session := { v.session with pending := noted }, signalling := true,
           gathered := v.gathered ++ [r], requests := v.requests ++ [r] }

/-- The responder takes what is pending. -/
def take (v : Viewer) : Viewer :=
  let req := v.session.pending
  let v := { v with session := { v.session with pending := ⟨false, false⟩ } }
  if req.have' then { v with responder := .picking ⟨req.incremental, v.gathered⟩, gathered := [] }
  else { v with responder := .idle }

/-- `pick`, up to the wait. -/
def pick (store : FrameStore) (job : Job) (v : Viewer) : Viewer :=
  let cur := store.cur
  if 0 < cur.seq ∧ (job.incremental = false ∨ v.session.lastSeq < cur.seq) then
    { v with responder := .sending job cur }
  else if cur.seq = 0 then { v with responder := .waiting job true 0 }
  else { v with responder := .waiting job false v.session.lastSeq }

/-- The mutex section of `Wait`. -/
def look (store : FrameStore) (job : Job) (first : Bool) (after : Nat) (v : Viewer) : Viewer :=
  if after < store.cur.seq then { v with responder := .sending job store.cur }
  else { v with responder := .asleep job first after store.notify }

/-- `sendFrame`, and the end of the session where it fails. -/
def send (job : Job) (f : Frame) (v : Viewer) : Viewer :=
  match v.session.sendFrame f with
  | .ok (session, _) =>
      { v with session := session, responder := .idle, answers := v.answers ++ [⟨job, f⟩] }
  | .error _ => { v with responder := .ended job.batch, cancelled := true }

/-- The session ends. -/
def finish (v : Viewer) : Viewer :=
  { v with responder := .ended v.responder.batch, cancelled := true }

def step (store : FrameStore) (v : Viewer) : Viewer.Action → Option Viewer
  | .request incremental =>
      if v.reading = true ∧ v.signalling = false then some (v.request store incremental) else none
  | .signal =>
      if v.signalling = true then
        some { v with session := { v.session with wake := true }, signalling := false }
      else none
  | .setPixelFormat pf =>
      if v.reading = true ∧ v.signalling = false then
        some { v with session := { v.session with pf := pf } }
      else none
  | .setEncodings ds =>
      if v.reading = true ∧ v.signalling = false then
        some { v with session := { v.session with desktopSize := ds } }
      else none
  | .readerEnds =>
      if v.reading = true ∧ v.signalling = false then
        some { v with reading := false, cancelled := true }
      else none
  | .cancel => some { v with cancelled := true }
  | .wake =>
      if v.responder = .idle ∧ v.session.wake = true then
        some { v with session := { v.session with wake := false }, responder := .woken }
      else none
  | .take => if v.responder = .woken then some v.take else none
  | .pick =>
      match v.responder with
      | .picking job => some (v.pick store job)
      | _ => none
  | .look =>
      match v.responder with
      | .waiting job first after => some (v.look store job first after)
      | _ => none
  | .rouse =>
      match v.responder with
      | .asleep job first after ch =>
          if store.isClosed ch then some { v with responder := .waiting job first after } else none
      | _ => none
  | .timeout sps input =>
      match v.responder with
      | .asleep job true _ _ =>
          if v.cancelled then some v.finish
          else some { v with responder := .sending job (store.black sps input) }
      | _ => none
  | .send =>
      match v.responder with
      | .sending job f => some (v.send job f)
      | _ => none
  | .fail =>
      match v.responder with
      | .sending _ _ => some v.finish
      | _ => none
  | .notice =>
      if v.cancelled = true then
        match v.responder with
        | .idle => some v.finish
        | .asleep _ _ _ _ => some v.finish
        | _ => none
      else none

end Viewer

structure State where
  store : FrameStore
  viewers : List Viewer

inductive Action where
  | decoded (w h : Nat) (pix : List UInt8)
  | join (cw ch : Nat)
  | viewer (k : Nat) (a : Viewer.Action)

namespace State

def new : State :=
  ⟨FrameStore.new, []⟩

def step (s : State) : Action → Option State
  | .decoded w h pix => some { s with store := s.store.set w h pix }
  | .join cw ch => some { s with viewers := s.viewers ++ [Viewer.start cw ch] }
  | .viewer k a => (s.viewers[k]?).bind fun v =>
      (v.step s.store a).map fun v' => { s with viewers := s.viewers.set k v' }

end State

/-- The reader's two steps are the one step of `readLoop` for a request. -/
theorem framebufferUpdateRequest_eq (store : FrameStore) (v : Viewer) {b rest : List UInt8}
    (hb : b.length = 9) (hread : v.reading = true) (hidle : v.signalling = false) :
    ∃ v', Machine.run (Viewer.step store) v [.request (b.getD 0 0 != 0), .signal] = some v' ∧
      v.session.framebufferUpdateRequest (b ++ rest) = .ok (v'.session, rest) := by
  let noted := v.request store (b.getD 0 0 != 0)
  refine ⟨{ noted with session := { noted.session with wake := true }, signalling := false },
    ?_, ?_⟩
  · rw [Machine.run_cons, Viewer.step, if_pos ⟨hread, hidle⟩, Option.bind_some, Machine.run_cons,
      Viewer.step, if_pos (show noted.signalling = true from rfl), Option.bind_some,
      Machine.run_nil]
  · rw [Session.framebufferUpdateRequest, readFull_append hb]
    rfl

/-! ### The store -/

namespace FrameStore

/-- A frame with the number and the contents of one that was stored; the black one has no number. -/
def Holds (s : FrameStore) (f : Frame) : Prop :=
  f.seq = 0 ∨ s.decoded[f.seq - 1]? = some f

structure Inv (s : FrameStore) : Prop where
  decoded : s.decoded.length = s.cur.seq
  cur : s.Holds s.cur

theorem inv_new : new.Inv :=
  ⟨rfl, .inl rfl⟩

theorem Holds.set {s : FrameStore} {f : Frame} (h : s.Holds f) (w h' : Nat) (pix : List UInt8) :
    (s.set w h' pix).Holds f := by
  rcases h with h | h
  · exact .inl h
  · refine .inr ?_
    obtain ⟨hlt, -⟩ := List.getElem?_eq_some_iff.mp h
    change (s.decoded ++ [_])[f.seq - 1]? = some f
    rw [List.getElem?_append_left hlt, h]

theorem Inv.set {s : FrameStore} (h : s.Inv) (w h' : Nat) (pix : List UInt8) :
    (s.set w h' pix).Inv where
  decoded := by
    rw [FrameStore.set, List.length_append, h.decoded]
    rfl
  cur := by
    refine .inr ?_
    have hat : (s.decoded ++ [(s.set w h' pix).cur])[s.decoded.length]? =
        some (s.set w h' pix).cur := List.getElem?_concat_length
    rw [h.decoded] at hat
    exact hat

end FrameStore

/-! ### What a viewer keeps -/

/-- The requests of a job. -/
structure Job.Ok (job : Job) : Prop where
  nonempty : job.batch ≠ []
  incremental : job.incremental = job.batch.all (·.incremental)

/-- An answer: a frame that was stored, at least as new as every frame there was when the requests
were made. -/
structure Answer.Ok (store : FrameStore) (a : Answer) : Prop where
  job : a.job.Ok
  stored : store.Holds a.frame
  recent : ∀ r ∈ a.job.batch, r.newest ≤ a.frame.seq

/-- `f` may be sent for the job after the frame numbered `last`. -/
def Follows (last : Nat) (job : Job) (f : Frame) : Prop :=
  last ≤ f.seq ∧ (job.incremental = true → last < f.seq ∨ f.seq = 0)

/-- What holds of a job in `Wait`. -/
def Waits (last : Nat) (job : Job) (first : Bool) (after : Nat) : Prop :=
  job.Ok ∧ after = last ∧
    (first = true → last = 0 ∧ ∀ r ∈ job.batch, r.newest = 0) ∧
    (first = false → job.incremental = true)

def Responder.Ok (store : FrameStore) (last : Nat) : Responder → Prop
  | .idle => True
  | .woken => True
  | .picking job => job.Ok ∧ ∀ r ∈ job.batch, r.newest ≤ store.cur.seq
  | .waiting job first after =>
      Waits last job first after ∧ ∀ r ∈ job.batch, r.newest ≤ store.cur.seq
  | .asleep job first after ch =>
      (Waits last job first after ∧ ∀ r ∈ job.batch, r.newest ≤ store.cur.seq) ∧
        ch ≤ store.notify ∧ (ch = store.notify → store.cur.seq ≤ after)
  | .sending job f =>
      Answer.Ok store ⟨job, f⟩ ∧ f.seq ≤ store.cur.seq ∧ Follows last job f
  | .ended _ => True

structure Viewer.Inv (store : FrameStore) (v : Viewer) : Prop where
  accounted : v.answers.flatMap (·.job.batch) ++ v.responder.batch ++ v.gathered = v.requests
  pending : v.session.pending.have' = true ↔ v.gathered ≠ []
  outranks : v.session.pending.have' = true →
    v.session.pending.incremental = v.gathered.all (·.incremental)
  heard : v.session.pending.have' = true → v.session.wake = true ∨ v.signalling = true ∨
    v.responder = .woken ∨ v.responder.isEnded = true
  newest : ∀ r ∈ v.gathered, r.newest ≤ store.cur.seq
  responder : v.responder.Ok store v.session.lastSeq
  last : v.session.lastSeq ≤ store.cur.seq
  lastSent : v.session.lastSeq = (v.answers.getLast?.map (·.frame.seq)).getD 0
  sent : ∀ a ∈ v.answers, a.frame.seq ≤ v.session.lastSeq
  answers : ∀ a ∈ v.answers, a.Ok store
  ordered : v.answers.Pairwise fun a b => Follows a.frame.seq b.job b.frame

/-- `sendFrame` leaves the reader's fields alone and notes the frame's number. -/
theorem sendFrame_eq_ok {s s' : Session} {f : Frame} {out : List UInt8}
    (h : s.sendFrame f = .ok (s', out)) :
    s'.pending = s.pending ∧ s'.wake = s.wake ∧ s'.lastSeq = f.seq := by
  rw [Session.sendFrame] at h
  dsimp only at h
  split at h
  next => cases h
  next =>
    cases hrows : Session.rows f s.pf with
    | none =>
        rw [hrows] at h
        cases h
    | some body =>
        rw [hrows] at h
        obtain ⟨rfl, -⟩ := Prod.mk.inj (Except.ok.inj h)
        exact ⟨rfl, rfl, rfl⟩

theorem Answer.Ok.set {store : FrameStore} {a : Answer} (h : a.Ok store) (w h' : Nat)
    (pix : List UInt8) : a.Ok (store.set w h' pix) :=
  ⟨h.job, h.stored.set w h' pix, h.recent⟩

theorem le_set {store : FrameStore} {batch : List Request} {w h : Nat} {pix : List UInt8}
    (hb : ∀ r ∈ batch, r.newest ≤ store.cur.seq) :
    ∀ r ∈ batch, r.newest ≤ (store.set w h pix).cur.seq :=
  fun r hr => Nat.le_succ_of_le (hb r hr)

/-- A new frame closes the channel of every sleeper. -/
theorem Responder.Ok.set {store : FrameStore} {last : Nat} {r : Responder}
    (hr : r.Ok store last) (w h : Nat) (pix : List UInt8) : r.Ok (store.set w h pix) last := by
  cases r with
  | idle => trivial
  | woken => trivial
  | picking job => exact ⟨hr.1, le_set hr.2⟩
  | waiting job first after => exact ⟨hr.1, le_set hr.2⟩
  | asleep job first after ch =>
      obtain ⟨hw, hch, -⟩ := hr
      refine ⟨⟨hw.1, le_set hw.2⟩, Nat.le_succ_of_le hch, fun hnotify => ?_⟩
      have hlt : ch < store.notify + 1 := Nat.lt_succ_of_le hch
      exact absurd hnotify (Nat.ne_of_lt hlt)
  | sending job f => exact ⟨hr.1.set w h pix, Nat.le_succ_of_le hr.2.1, hr.2.2⟩
  | ended lost => trivial

namespace Viewer

theorem inv_start (store : FrameStore) (cw ch : Nat) : (start cw ch).Inv store where
  accounted := rfl
  pending := by
    constructor
    · intro h
      cases h
    · intro h
      exact absurd rfl h
  outranks h := by cases h
  heard h := by cases h
  newest r hr := by cases hr
  responder := trivial
  last := Nat.zero_le _
  lastSent := rfl
  sent a ha := by cases ha
  answers a ha := by cases ha
  ordered := List.Pairwise.nil

namespace Inv

variable {store : FrameStore} {v : Viewer}

theorem decoded (h : v.Inv store) (w h' : Nat) (pix : List UInt8) :
    v.Inv (store.set w h' pix) where
  accounted := h.accounted
  pending := h.pending
  outranks := h.outranks
  heard := h.heard
  newest := le_set h.newest
  responder := h.responder.set w h' pix
  last := Nat.le_succ_of_le h.last
  lastSent := h.lastSent
  sent := h.sent
  answers a ha := (h.answers a ha).set w h' pix
  ordered := h.ordered

/-- The responder goes on with the requests it has. -/
theorem goto (h : v.Inv store) {r : Responder} (c : Bool) (hbatch : r.batch = v.responder.batch)
    (hok : r.Ok store v.session.lastSeq) (hwoken : v.responder ≠ .woken)
    (hended : v.responder.isEnded = false) :
    Viewer.Inv store { v with responder := r, cancelled := c } where
  accounted := by
    change _ ++ r.batch ++ _ = _
    rw [hbatch]
    exact h.accounted
  pending := h.pending
  outranks := h.outranks
  heard hp := by
    rcases h.heard hp with hw | hs | hw | he
    · exact .inl hw
    · exact .inr (.inl hs)
    · exact absurd hw hwoken
    · rw [hended] at he
      cases he
  newest := h.newest
  responder := hok
  last := h.last
  lastSent := h.lastSent
  sent := h.sent
  answers := h.answers
  ordered := h.ordered

theorem finish (h : v.Inv store) (hwoken : v.responder ≠ .woken)
    (hended : v.responder.isEnded = false) : v.finish.Inv store :=
  h.goto true rfl trivial hwoken hended

theorem request (h : v.Inv store) (incremental : Bool) : (v.request store incremental).Inv store where
  accounted := by
    change v.answers.flatMap _ ++ v.responder.batch ++ (v.gathered ++ [_]) = v.requests ++ [_]
    rw [← List.append_assoc, h.accounted]
  pending := by
    constructor
    · intro _ hnil
      exact List.append_ne_nil_of_right_ne_nil v.gathered (List.cons_ne_nil _ _) hnil
    · intro _
      rfl
  outranks _ := by
    change (incremental && (!v.session.pending.have' || v.session.pending.incremental)) =
      (v.gathered ++ [⟨incremental, store.cur.seq⟩] : List Request).all (·.incremental)
    rw [List.all_append, List.all_cons, List.all_nil, Bool.and_true, Bool.and_comm]
    congr 1
    cases hp : v.session.pending.have' with
    | true => exact h.outranks hp
    | false =>
        have hnil : v.gathered = [] := by
          by_contra hne
          rw [h.pending.mpr hne] at hp
          cases hp
        rw [hnil]
        rfl
  heard _ := .inr (.inl rfl)
  newest r hr := by
    rcases List.mem_append.mp hr with hr | hr
    · exact h.newest r hr
    · rw [List.mem_singleton.mp hr]
  responder := h.responder
  last := h.last
  lastSent := h.lastSent
  sent := h.sent
  answers := h.answers
  ordered := h.ordered

theorem signal (h : v.Inv store) :
    Viewer.Inv store { v with session := { v.session with wake := true }, signalling := false } :=
  ⟨h.accounted, h.pending, h.outranks, fun _ => .inl rfl, h.newest, h.responder, h.last,
    h.lastSent, h.sent, h.answers, h.ordered⟩

theorem wake (h : v.Inv store) (hidle : v.responder = .idle) :
    Viewer.Inv store
      { v with session := { v.session with wake := false }, responder := .woken } where
  accounted := by
    have hacc := h.accounted
    rw [hidle] at hacc
    exact hacc
  pending := h.pending
  outranks := h.outranks
  heard _ := .inr (.inr (.inl rfl))
  newest := h.newest
  responder := trivial
  last := h.last
  lastSent := h.lastSent
  sent := h.sent
  answers := h.answers
  ordered := h.ordered

theorem take (h : v.Inv store) (hwoken : v.responder = .woken) : v.take.Inv store := by
  have hacc := h.accounted
  rw [hwoken] at hacc
  cases hp : v.session.pending.have' with
  | true =>
      have hne : v.gathered ≠ [] := h.pending.mp hp
      have htake : v.take = { v with
          session := { v.session with pending := ⟨false, false⟩ },
          responder := .picking ⟨v.session.pending.incremental, v.gathered⟩,
          gathered := [] } := by
        rw [Viewer.take, if_pos hp]
      rw [htake]
      exact
        { accounted := by
            change v.answers.flatMap _ ++ [] ++ v.gathered = _ at hacc
            rw [List.append_nil] at hacc
            exact (List.append_nil _).trans hacc
          pending := ⟨fun h => (Bool.false_ne_true h).elim, fun h => absurd rfl h⟩
          outranks := fun h => (Bool.false_ne_true h).elim
          heard := fun h => (Bool.false_ne_true h).elim
          newest := fun r hr => absurd hr List.not_mem_nil
          responder := ⟨⟨hne, h.outranks hp⟩, h.newest⟩
          last := h.last
          lastSent := h.lastSent
          sent := h.sent
          answers := h.answers
          ordered := h.ordered }
  | false =>
      have hnil : v.gathered = [] := by
        by_contra hne
        rw [h.pending.mpr hne] at hp
        cases hp
      have htake : v.take = { v with
          session := { v.session with pending := ⟨false, false⟩ }, responder := .idle } := by
        rw [Viewer.take, if_neg (by rw [hp]; exact Bool.false_ne_true)]
      rw [htake]
      exact
        { accounted := hacc
          pending := ⟨fun h => (Bool.false_ne_true h).elim, fun h => absurd hnil h⟩
          outranks := fun h => (Bool.false_ne_true h).elim
          heard := fun h => (Bool.false_ne_true h).elim
          newest := h.newest
          responder := trivial
          last := h.last
          lastSent := h.lastSent
          sent := h.sent
          answers := h.answers
          ordered := h.ordered }

/-- The responder goes on with its job. -/
theorem work (h : v.Inv store) {job : Job} {r : Responder} (hbatch : r.batch = job.batch)
    (hat : v.responder = .picking job ∨ (∃ first after, v.responder = .waiting job first after) ∨
      ∃ first after ch, v.responder = .asleep job first after ch)
    (hok : r.Ok store v.session.lastSeq) : Viewer.Inv store { v with responder := r } := by
  refine h.goto v.cancelled ?_ hok ?_ ?_
  · rw [hbatch]
    rcases hat with hr | ⟨first, after, hr⟩ | ⟨first, after, ch, hr⟩
    all_goals
      rw [hr]
      rfl
  all_goals
    rcases hat with hr | ⟨first, after, hr⟩ | ⟨first, after, ch, hr⟩
    all_goals rw [hr]
  · exact fun h => Responder.noConfusion h
  · exact fun h => Responder.noConfusion h
  · exact fun h => Responder.noConfusion h
  all_goals rfl

theorem pick (hstore : store.Inv) (h : v.Inv store) {job : Job} (hr : v.responder = .picking job) :
    (v.pick store job).Inv store := by
  have hok := h.responder
  rw [hr] at hok
  obtain ⟨hjob, hnewest⟩ := hok
  unfold Viewer.pick
  dsimp only
  split_ifs with hcur hzero
  · refine h.work rfl (.inl hr) ⟨⟨hjob, hstore.cur, hnewest⟩, le_rfl, h.last, fun hinc => ?_⟩
    rcases hcur.2 with hfull | hlt
    · rw [hinc] at hfull
      cases hfull
    · exact .inl hlt
  · have hlast : v.session.lastSeq = 0 := Nat.le_zero.mp (hzero ▸ h.last)
    refine h.work rfl (.inl hr)
      ⟨⟨hjob, hlast.symm, fun _ => ⟨hlast, fun r hr => ?_⟩, fun h => Bool.noConfusion h⟩, hnewest⟩
    exact Nat.le_zero.mp (hzero ▸ hnewest r hr)
  · refine h.work rfl (.inl hr)
      ⟨⟨hjob, rfl, fun h => Bool.noConfusion h, fun _ => ?_⟩, hnewest⟩
    cases hinc : job.incremental with
    | true => rfl
    | false => exact absurd ⟨Nat.pos_of_ne_zero hzero, .inl hinc⟩ hcur

theorem look (hstore : store.Inv) (h : v.Inv store) {job : Job} {first : Bool} {after : Nat}
    (hr : v.responder = .waiting job first after) :
    (v.look store job first after).Inv store := by
  have hok := h.responder
  rw [hr] at hok
  unfold Viewer.look
  split_ifs with hnew
  · obtain ⟨⟨hjob, hafter, -, -⟩, hnewest⟩ := hok
    rw [hafter] at hnew
    exact h.work rfl (.inr (.inl ⟨first, after, hr⟩))
      ⟨⟨hjob, hstore.cur, hnewest⟩, le_rfl, hnew.le, fun _ => .inl hnew⟩
  · exact h.work rfl (.inr (.inl ⟨first, after, hr⟩))
      ⟨hok, le_rfl, fun _ => Nat.le_of_not_lt hnew⟩

theorem rouse (h : v.Inv store) {job : Job} {first : Bool} {after ch : Nat}
    (hr : v.responder = .asleep job first after ch) :
    Viewer.Inv store { v with responder := .waiting job first after } := by
  have hok := h.responder
  rw [hr] at hok
  exact h.work rfl (.inr (.inr ⟨first, after, ch, hr⟩)) hok.1

/-- The first frame did not come in time. -/
theorem timeout (h : v.Inv store) {job : Job} {after ch : Nat}
    (hr : v.responder = .asleep job true after ch) (sps input : Nat × Nat) :
    Viewer.Inv store { v with responder := .sending job (store.black sps input) } := by
  have hok := h.responder
  rw [hr] at hok
  obtain ⟨⟨⟨hjob, -, hfirst, -⟩, -⟩, -, -⟩ := hok
  obtain ⟨hlast, hnone⟩ := hfirst rfl
  refine h.work rfl (.inr (.inr ⟨true, after, ch, hr⟩))
    ⟨⟨hjob, .inl rfl, fun r hr => (hnone r hr).le⟩, Nat.zero_le _, ?_, fun _ => .inr rfl⟩
  rw [hlast]
  exact Nat.zero_le _

theorem send (h : v.Inv store) {job : Job} {f : Frame} (hr : v.responder = .sending job f) :
    (v.send job f).Inv store := by
  have hok := h.responder
  rw [hr] at hok
  obtain ⟨hanswer, hle, hfollows⟩ := hok
  have hacc := h.accounted
  rw [hr] at hacc
  unfold Viewer.send
  cases hsend : v.session.sendFrame f with
  | error e =>
      refine h.goto true ?_ trivial ?_ ?_
      · rw [hr]
        rfl
      · rw [hr]
        exact fun h => Responder.noConfusion h
      · rw [hr]
        rfl
  | ok p =>
      obtain ⟨session, out⟩ := p
      obtain ⟨hpending, hwake, hseq⟩ := sendFrame_eq_ok hsend
      exact
        { accounted := by
            change (v.answers ++ [(⟨job, f⟩ : Answer)]).flatMap (fun a => a.job.batch) ++ [] ++
              v.gathered = v.requests
            rw [List.flatMap_append, List.append_nil, List.flatMap_singleton]
            exact hacc
          pending := by
            change session.pending.have' = true ↔ _
            rw [hpending]
            exact h.pending
          outranks := by
            change session.pending.have' = true → session.pending.incremental = _
            rw [hpending]
            exact h.outranks
          heard := by
            change session.pending.have' = true → session.wake = true ∨ _
            rw [hpending, hwake]
            intro hp
            rcases h.heard hp with hw | hs | hw | he
            · exact .inl hw
            · exact .inr (.inl hs)
            · rw [hr] at hw
              cases hw
            · rw [hr] at he
              cases he
          newest := h.newest
          responder := trivial
          last := by
            change session.lastSeq ≤ _
            rw [hseq]
            exact hle
          lastSent := by
            change session.lastSeq = ((v.answers ++ [_]).getLast?.map _).getD 0
            rw [hseq, List.getLast?_concat]
            rfl
          sent := by
            change ∀ a ∈ v.answers ++ [_], a.frame.seq ≤ session.lastSeq
            rw [hseq]
            intro a ha
            rcases List.mem_append.mp ha with ha | ha
            · exact (h.sent a ha).trans hfollows.1
            · rw [List.mem_singleton.mp ha]
          answers := by
            intro a ha
            rcases List.mem_append.mp ha with ha | ha
            · exact h.answers a ha
            · rw [List.mem_singleton.mp ha]
              exact hanswer
          ordered := by
            change (v.answers ++ [_]).Pairwise _
            refine List.pairwise_append.mpr ⟨h.ordered, List.pairwise_singleton _ _, ?_⟩
            intro a ha b hb
            rw [List.mem_singleton.mp hb]
            have hsent := h.sent a ha
            refine ⟨hsent.trans hfollows.1, fun hinc => ?_⟩
            rcases hfollows.2 hinc with hlt | hzero
            · exact .inl (Nat.lt_of_le_of_lt hsent hlt)
            · exact .inr hzero }

/-- One lemma for each step of a viewer. -/
theorem step (hstore : store.Inv) (h : v.Inv store) {a : Viewer.Action} {v' : Viewer}
    (hstep : v.step store a = some v') : v'.Inv store := by
  cases a with
  | request incremental =>
      obtain ⟨-, hstep⟩ := Option.ite_none_right_eq_some.mp hstep
      cases hstep
      exact h.request incremental
  | signal =>
      obtain ⟨-, hstep⟩ := Option.ite_none_right_eq_some.mp hstep
      cases hstep
      exact h.signal
  | setPixelFormat pf =>
      obtain ⟨-, hstep⟩ := Option.ite_none_right_eq_some.mp hstep
      cases hstep
      exact ⟨h.accounted, h.pending, h.outranks, h.heard, h.newest, h.responder, h.last,
        h.lastSent, h.sent, h.answers, h.ordered⟩
  | setEncodings ds =>
      obtain ⟨-, hstep⟩ := Option.ite_none_right_eq_some.mp hstep
      cases hstep
      exact ⟨h.accounted, h.pending, h.outranks, h.heard, h.newest, h.responder, h.last,
        h.lastSent, h.sent, h.answers, h.ordered⟩
  | readerEnds =>
      obtain ⟨-, hstep⟩ := Option.ite_none_right_eq_some.mp hstep
      cases hstep
      exact ⟨h.accounted, h.pending, h.outranks, h.heard, h.newest, h.responder, h.last,
        h.lastSent, h.sent, h.answers, h.ordered⟩
  | cancel =>
      cases hstep
      exact ⟨h.accounted, h.pending, h.outranks, h.heard, h.newest, h.responder, h.last,
        h.lastSent, h.sent, h.answers, h.ordered⟩
  | wake =>
      obtain ⟨⟨hidle, -⟩, hstep⟩ := Option.ite_none_right_eq_some.mp hstep
      cases hstep
      exact h.wake hidle
  | take =>
      obtain ⟨hwoken, hstep⟩ := Option.ite_none_right_eq_some.mp hstep
      cases hstep
      exact h.take hwoken
  | pick =>
      rw [Viewer.step] at hstep
      split at hstep
      next job hr =>
        cases hstep
        exact h.pick hstore hr
      next => cases hstep
  | look =>
      rw [Viewer.step] at hstep
      split at hstep
      next job first after hr =>
        cases hstep
        exact h.look hstore hr
      next => cases hstep
  | rouse =>
      rw [Viewer.step] at hstep
      split at hstep
      next job first after ch hr =>
        obtain ⟨-, hstep⟩ := Option.ite_none_right_eq_some.mp hstep
        cases hstep
        exact h.rouse hr
      next => cases hstep
  | timeout sps input =>
      rw [Viewer.step] at hstep
      split at hstep
      next job after ch hr =>
        split at hstep
        next =>
          cases hstep
          refine h.finish ?_ ?_
          · rw [hr]
            exact fun h => Responder.noConfusion h
          · rw [hr]
            rfl
        next =>
          cases hstep
          exact h.timeout hr sps input
      next => cases hstep
  | send =>
      rw [Viewer.step] at hstep
      split at hstep
      next job f hr =>
        cases hstep
        exact h.send hr
      next => cases hstep
  | fail =>
      rw [Viewer.step] at hstep
      split at hstep
      next job f hr =>
        cases hstep
        refine h.finish ?_ ?_
        · rw [hr]
          exact fun h => Responder.noConfusion h
        · rw [hr]
          rfl
      next => cases hstep
  | notice =>
      obtain ⟨-, hstep⟩ := Option.ite_none_right_eq_some.mp hstep
      split at hstep
      next hr =>
        cases hstep
        refine h.finish ?_ ?_
        · rw [hr]
          exact fun h => Responder.noConfusion h
        · rw [hr]
          rfl
      next job first after ch hr =>
        cases hstep
        refine h.finish ?_ ?_
        · rw [hr]
          exact fun h => Responder.noConfusion h
        · rw [hr]
          rfl
      next => cases hstep

end Inv

end Viewer

/-! ### What a client can rely on -/

/-- What a viewer's client can rely on. -/
structure Viewer.Served (store : FrameStore) (v : Viewer) : Prop where
  /-- Its requests are answered in order, each at most once. -/
  inOrder : v.answers.flatMap (·.job.batch) <+: v.requests
  /-- A responder that sleeps on the wake channel has answered all of them. -/
  answered : v.responder = .idle → v.session.wake = false → v.signalling = false →
    v.answers.flatMap (·.job.batch) = v.requests
  /-- A responder that sleeps on the store has sent the newest frame there is, and the client asked
  for a newer one; or there is no frame at all. -/
  waits : ∀ job first after ch, v.responder = .asleep job first after ch →
    store.isClosed ch = false →
      store.cur.seq = 0 ∨
        (∀ r ∈ job.batch, r.incremental = true) ∧
          v.answers.getLast?.map (·.frame.seq) = some store.cur.seq
  /-- An answer's frame was stored, unless there was none when it was asked for. -/
  stored : ∀ a ∈ v.answers, store.Holds a.frame
  /-- It is at least as new as the newest one when the request came. -/
  recent : ∀ a ∈ v.answers, a.job.batch ≠ [] ∧ ∀ r ∈ a.job.batch, r.newest ≤ a.frame.seq
  /-- The frames go forward, and a client that only asked for changes gets a newer one. -/
  forward : v.answers.Pairwise fun a b => a.frame.seq ≤ b.frame.seq ∧
    ((∀ r ∈ b.job.batch, r.incremental = true) → a.frame.seq < b.frame.seq ∨ b.frame.seq = 0)

theorem Job.Ok.incremental_iff {job : Job} (h : job.Ok) :
    job.incremental = true ↔ ∀ r ∈ job.batch, r.incremental = true := by
  rw [h.incremental, List.all_eq_true]

theorem Viewer.Inv.served {store : FrameStore} {v : Viewer} (h : v.Inv store) :
    v.Served store where
  inOrder := ⟨v.responder.batch ++ v.gathered, by rw [← List.append_assoc, h.accounted]⟩
  answered hidle hwake hsignal := by
    have hnil : v.gathered = [] := by
      by_contra hne
      rcases h.heard (h.pending.mpr hne) with hw | hs | hw | he
      · rw [hwake] at hw
        cases hw
      · rw [hsignal] at hs
        cases hs
      · rw [hidle] at hw
        cases hw
      · rw [hidle] at he
        cases he
    have hacc := h.accounted
    rw [hidle, hnil, List.append_nil] at hacc
    exact (List.append_nil _).symm.trans hacc
  waits job first after ch hr hopen := by
    have hok := h.responder
    rw [hr] at hok
    obtain ⟨⟨⟨hjob, hafter, hfirst, hlater⟩, -⟩, hch, hsleep⟩ := hok
    have hnotify : ch = store.notify :=
      le_antisymm hch (Nat.le_of_not_lt (of_decide_eq_false hopen))
    have hseq : store.cur.seq = v.session.lastSeq :=
      le_antisymm (hafter ▸ hsleep hnotify) h.last
    by_cases hzero : store.cur.seq = 0
    · exact .inl hzero
    · refine .inr ⟨?_, ?_⟩
      · cases first with
        | false => exact hjob.incremental_iff.mp (hlater rfl)
        | true => exact absurd (hseq.trans (hfirst rfl).1) hzero
      · have hlast := h.lastSent
        rw [← hseq] at hlast
        cases hget : v.answers.getLast? with
        | none =>
            rw [hget] at hlast
            exact absurd hlast hzero
        | some a =>
            rw [hget] at hlast
            rw [hlast]
            rfl
  stored a ha := (h.answers a ha).stored
  recent a ha := ⟨(h.answers a ha).job.nonempty, (h.answers a ha).recent⟩
  forward := by
    refine h.ordered.imp_of_mem ?_
    intro a b _ hb hfollows
    exact ⟨hfollows.1, fun hall =>
      hfollows.2 ((h.answers b hb).job.incremental_iff.mpr hall)⟩

namespace State

structure Inv (s : State) : Prop where
  store : s.store.Inv
  viewers : ∀ (k : Nat) (v : Viewer), s.viewers[k]? = some v → v.Inv s.store

theorem inv_new : new.Inv :=
  ⟨FrameStore.inv_new, fun k v hv => by cases hv⟩

theorem inv_step {s s' : State} {a : Action} (h : s.Inv) (hstep : s.step a = some s') :
    s'.Inv := by
  cases a with
  | decoded w h' pix =>
      cases hstep
      exact ⟨h.store.set w h' pix, fun k v hv => (h.viewers k v hv).decoded w h' pix⟩
  | join cw ch =>
      cases hstep
      exact ⟨h.store, Entries.forall_concat (Viewer.inv_start s.store cw ch) h.viewers⟩
  | viewer k a =>
      obtain ⟨v, hv, hmap⟩ := Option.bind_eq_some_iff.mp hstep
      obtain ⟨v', hv', rfl⟩ := Option.map_eq_some_iff.mp hmap
      exact ⟨h.store, Entries.forall_set ((h.viewers k v hv).step h.store hv')
        fun j b _ hb => h.viewers j b hb⟩

end State

/-- Two frames for a viewer that asks three times, the second time while the first answer is being
picked. -/
def twoFrames : List Action :=
  [.join 1 1, .decoded 1 1 [0, 0, 0, 0], .viewer 0 (.request false), .viewer 0 .signal,
    .viewer 0 .wake, .viewer 0 .take, .viewer 0 (.request true), .viewer 0 .signal,
    .viewer 0 .pick, .viewer 0 .send, .viewer 0 .wake, .viewer 0 .take, .viewer 0 .pick,
    .viewer 0 .look, .viewer 0 (.request true), .decoded 1 1 [9, 9, 9, 0], .viewer 0 .rouse,
    .viewer 0 .look, .viewer 0 .send]

end Viewers

end Jetkvm

end Paniolo
