import Paniolo.Hidrig.Dispatch
import Paniolo.Hidrig.Uart
import Paniolo.Library.Machine
import Paniolo.Library.Utf8

/-!
# The owner loop of the control link

`run` of `hidrig/src/uart.rs`, step by step, with its clients, the control board and the link to it
going on in between. One control request waits for its reply at a time; `demux` hands it the next
control frame that arrives, whichever request that frame answers. Where nothing of an earlier
request is still to come when one is sent, `reply_of_meets` says that every reply answers its own
request.
-/

namespace Paniolo

namespace Hidrig

open Framing

/-- How long a control frame waits for its reply, in milliseconds. -/
def replyTimeout : Nat := 1500

/-- The size of the read buffer. -/
def readSize : Nat := 1024

/-- `Request`; the number stands for the channel that a line is answered on. -/
inductive Request where
  | line (id : Nat) (text : List Char)
  | release
deriving DecidableEq

/-- `Pending`. -/
structure PendingReply where
  id : Nat
  line : List Char
  deadline : Nat
deriving DecidableEq

/-- A call of `finish`. -/
structure Finished where
  id : Nat
  line : List Char
  result : Except String String
deriving DecidableEq

/-- Where the loop has come to. -/
inductive Phase where
  | reopen
  | drain
  | pump
  | inbound
  | deadline
deriving DecidableEq

/-- What the loop keeps in its variables. -/
structure Owner where
  phase : Phase
  composer : Composer
  inbuf : List UInt8
  pending : Option PendingReply

/-- How a write went. The board may have received what a write failed on. -/
inductive Write where
  | done
  | failed (msg : String) (received : Bool)

/-- The owner, the clients' requests and their outcomes, and the board: what it has yet to answer,
what is on the way from it, and what it replied to which request. -/
structure State where
  owner : Owner
  queue : List Request
  submitted : Nat
  gone : List Nat
  finished : List Finished
  console : List (List UInt8)
  owed : List (Nat × UInt8)
  wire : List UInt8
  replied : List (Nat × List UInt8)

inductive Action where
  | submit (text : List Char)
  | submitRelease
  | abandon (id : Nat)
  | reply (payload : List UInt8)
  | silent
  | output (b1 : UInt8) (payload : List UInt8)
  | lose (n : Nat)
  | opened
  | openFailed (msg : String)
  | service (w : Write) (now : Nat)
  | drained
  | pumped (w : Write)
  | read (n : Nat)
  | readFailed
  | checked (now : Nat)

def isControl (f : Frame) : Bool := f.head? == some fCtrl

/-- The request of each control frame, with the frame's command byte. -/
def owedFor (id : Nat) (frames : List Frame) : List (Nat × UInt8) :=
  (frames.filter isControl).map fun f => (id, f.getD 1 0)

/-- What `demux` does with the frames: the request still waiting, the replies handed out, and the
output for the console. -/
def route : Option PendingReply → List (UInt8 × List UInt8) →
    Option PendingReply × List Finished × List (List UInt8)
  | pending, [] => (pending, [], [])
  | pending, (ftype, payload) :: frames =>
      if ftype = fCtrl then
        match pending with
        | some pd =>
            let (left, replies, output) := route none frames
            (left, ⟨pd.id, pd.line, .ok (Utf8.lossy payload)⟩ :: replies, output)
        | none => route none frames
      else
        let (left, replies, output) := route pending frames
        (left, replies, payload :: output)

namespace State

variable (s : State)

/-- The start of a round, with the port open. -/
def roundPhase (pending : Option PendingReply) : Phase := if pending.isNone then .drain else .pump

/-- A request that waits is answered with an error. -/
def failPending (msg : String) : List Finished :=
  s.owner.pending.toList.map fun pd => ⟨pd.id, pd.line, .error msg⟩

/-- What comes of a lost port. -/
def reset : State :=
  { s with
    owner := { s.owner with phase := .reopen, pending := none }
    finished := s.finished ++ s.failPending "hid control link reset" }

/-- `drain_failing`. -/
def drainFailing (msg : String) : List Finished :=
  s.queue.filterMap fun
    | .line id text => some ⟨id, text, .error msg⟩
    | .release => none

/-- `service_request`, with `rest` behind it in the queue. -/
def serviceLine (id : Nat) (text : List Char) (rest : List Request) (w : Write) (now : Nat) :
    State :=
  if id ∈ s.gone then { s with queue := rest }
  else
    match s.owner.composer.dispatch text with
    | .error e => { s with queue := rest, finished := s.finished ++ [⟨id, text, .error e⟩] }
    | .ok (composer, frames) =>
        let owner := { s.owner with composer := composer }
        match w with
        | .failed msg received =>
            reset { s with
              owner := owner
              queue := rest
              finished := s.finished ++ [⟨id, text, .error msg⟩]
              owed := s.owed ++ if received then owedFor id frames else [] }
        | .done =>
            if frames.any isControl then
              { s with
                owner := { owner with
                  phase := .pump, pending := some ⟨id, text, now + replyTimeout⟩ }
                queue := rest
                owed := s.owed ++ owedFor id frames }
            else
              { s with
                owner := owner
                queue := rest
                finished := s.finished ++ [⟨id, text, .ok ""⟩] }

/-- `release` at shutdown. -/
def serviceRelease (rest : List Request) (w : Write) : State :=
  let owner := { s.owner with composer := s.owner.composer.releaseEverything.1 }
  match w with
  | .failed _ _ => reset { s with owner := owner, queue := rest }
  | .done => { s with owner := owner, queue := rest }

/-- `read_inbound` of the bytes `chunk`, and `demux`. -/
def demux (chunk : List UInt8) : State :=
  let inbuf := s.owner.inbuf ++ chunk
  let (frames, consumed) := splitFrames inbuf
  let (left, replies, output) := route s.owner.pending frames
  { s with
    owner := { s.owner with phase := .deadline, inbuf := inbuf.drop consumed, pending := left }
    finished := s.finished ++ replies
    console := s.console ++ output }

def step : Action → Option State
  | .submit text =>
      some { s with queue := s.queue ++ [.line s.submitted text], submitted := s.submitted + 1 }
  | .submitRelease => some { s with queue := s.queue ++ [.release] }
  | .abandon id => some { s with gone := id :: s.gone }
  | .reply payload =>
      match s.owed with
      | [] => none
      | (id, cmd) :: owed =>
          if payload.length ≤ maxPayload then
            some { s with
              owed := owed
              wire := s.wire ++ frame fCtrl cmd payload
              replied := s.replied ++ [(id, payload)] }
          else none
  | .silent => some { s with owed := s.owed.tail }
  | .output b1 payload =>
      if payload.length ≤ maxPayload then
        some { s with wire := s.wire ++ frame fConsole b1 payload }
      else none
  | .lose n => if s.owner.phase = .reopen then some { s with wire := s.wire.drop n } else none
  | .opened =>
      if s.owner.phase = .reopen then
        some { s with
          owner := { s.owner with phase := roundPhase s.owner.pending, inbuf := [] } }
      else none
  | .openFailed msg =>
      if s.owner.phase = .reopen then
        some { s with
          owner := { s.owner with pending := none }
          queue := []
          finished := s.finished ++ s.failPending msg ++ s.drainFailing msg }
      else none
  | .service w now =>
      if s.owner.phase = .drain then
        match s.queue with
        | [] => none
        | .line id text :: rest => some (s.serviceLine id text rest w now)
        | .release :: rest => some (s.serviceRelease rest w)
      else none
  | .drained =>
      if s.owner.phase = .drain ∧ s.queue = [] then
        some { s with owner := { s.owner with phase := .pump } }
      else none
  | .pumped w =>
      if s.owner.phase = .pump then
        match w with
        | .failed _ _ => some s.reset
        | .done => some { s with owner := { s.owner with phase := .inbound } }
      else none
  | .read n =>
      if s.owner.phase = .inbound then
        let n := min n readSize
        some (demux { s with wire := s.wire.drop n } (s.wire.take n))
      else none
  | .readFailed => if s.owner.phase = .inbound then some s.reset else none
  | .checked now =>
      if s.owner.phase = .deadline then
        if s.owner.pending.any fun pd => pd.deadline ≤ now then
          some (reset { s with
            owner := { s.owner with pending := none }
            finished := s.finished ++ s.failPending "timed out waiting for a control reply" })
        else some { s with owner := { s.owner with phase := roundPhase s.owner.pending } }
      else none

end State

/-- Nothing has been sent, and the port is not open. -/
def State.initial : State where
  owner := ⟨.reopen, .new, [], none⟩
  queue := []
  submitted := 0
  gone := []
  finished := []
  console := []
  owed := []
  wire := []
  replied := []

/-! ### The condition -/

/-- What is still to come from the board is console output in whole frames. -/
def Quiet (s : State) : Prop :=
  s.owed = [] ∧ (splitFrames (s.owner.inbuf ++ s.wire)).2 = (s.owner.inbuf ++ s.wire).length ∧
    ∀ f ∈ (splitFrames (s.owner.inbuf ++ s.wire)).1, f.1 ≠ fCtrl

instance (s : State) : Decidable (Quiet s) := inferInstanceAs (Decidable (_ ∧ _ ∧ _))

/-- The next request is a control request, and its client has not given up. -/
def asksBoard (s : State) : Bool :=
  match s.queue with
  | .line id text :: _ =>
      id ∉ s.gone && (s.owner.composer.dispatch text).toOption.any fun r => r.2.any isControl
  | _ => false

/-- A control request is sent when nothing of an earlier one is still to come. -/
def Condition (s : State) : Action → Prop
  | .service _ _ => asksBoard s = true → Quiet s
  | _ => True

/-! ### Control requests -/

/-- A ping, version or power request. -/
def asksControl (line : List Char) : Prop := verbOf line ∈ ["ping", "version", "power"]

instance (line : List Char) : Decidable (asksControl line) := inferInstanceAs (Decidable (_ ∈ _))

theorem isControl_power {action : List Char} {secs : Option Nat} {f : Frame} :
    Composer.power action secs = .ok f → isControl f = true := by
  refine of_ite (fun _ h => ?_) fun _ => of_ite (fun _ h => ?_) fun _ => of_ite (fun _ h => ?_)
    fun _ h => ?_
  · cases h
    rfl
  · cases h
    rfl
  · cases secs with
    | none =>
        cases h
        rfl
    | some s =>
        cases h
        rfl
  · cases h

/-- What such a request is composed to is a control frame. -/
theorem any_isControl_of_dispatch {c c' : Composer} {line : List Char} {frames : List Frame}
    (hv : asksControl line) (h : c.dispatch line = .ok (c', frames)) :
    frames.any isControl = true := by
  rw [Composer.dispatch] at h
  split at h
  · cases h
  · change c.dispatchVerb (Composer.splitLine line).1 (Composer.splitLine line).2 = _ at h
    rw [Composer.dispatchVerb] at h
    simp only [asksControl, verbOf, List.mem_cons, List.not_mem_nil, or_false] at hv
    rcases hv with hv | hv | hv
    · simp only [hv, String.reduceEq, if_false, if_true] at h
      cases h
      rfl
    · simp only [hv, String.reduceEq, if_false, if_true] at h
      cases h
      rfl
    · simp only [hv, String.reduceEq, if_false, if_true] at h
      obtain ⟨args, -, h⟩ := bind_eq_ok.mp h
      obtain ⟨f, hf, heq⟩ := bind_eq_ok.mp h
      cases heq
      rw [List.any_cons, isControl_power hf]
      rfl

/-! ### What is to come from the board -/

/-- The bytes to come are whole frames; their control frames, and what the board owes, are replies
to the one request. -/
structure Tracked (owed : List (Nat × UInt8)) (replied : List (Nat × List UInt8))
    (coming : List UInt8) (id : Nat) : Prop where
  framed : ∃ ms, exhaust (nextItem upstream) coming = (ms, .ok []) ∧
    ∀ f, some f ∈ ms → f.ftype = fCtrl → (id, f.payload) ∈ replied
  owed : ∀ o ∈ owed, o.1 = id

theorem exhaust_splitFrames (buf : List UInt8) :
    ∃ ms, exhaust (nextItem upstream) buf = (ms, .ok (buf.drop (splitFrames buf).2)) ∧
      (splitFrames buf).1 = (ms.filterMap id).map fun f => (f.ftype, f.payload) := by
  obtain ⟨ms, hms, hout, -⟩ := splitLoop_spec upstream (Nat.le_refl buf.length)
  refine ⟨ms, hms, ?_⟩
  rw [← hout]
  rfl

theorem mem_splitFrames {ms : List (Option WireFrame)} {ftype : UInt8} {payload : List UInt8} :
    (ftype, payload) ∈ ((ms.filterMap id).map fun f => (f.ftype, f.payload)) ↔
      ∃ f, some f ∈ ms ∧ f.ftype = ftype ∧ f.payload = payload := by
  rw [List.mem_map]
  constructor
  · rintro ⟨f, hf, heq⟩
    obtain ⟨m, hm, hmf⟩ := List.mem_filterMap.mp hf
    obtain ⟨rfl, rfl⟩ := Prod.mk.inj heq
    exact ⟨f, hmf ▸ hm, rfl, rfl⟩
  · rintro ⟨f, hf, rfl, rfl⟩
    exact ⟨f, List.mem_filterMap.mpr ⟨some f, hf, rfl⟩, rfl⟩

namespace Tracked

variable {owed : List (Nat × UInt8)} {replied : List (Nat × List UInt8)} {coming : List UInt8}
  {id : Nat}

theorem replied_append (h : Tracked owed replied coming id) (r : Nat × List UInt8) :
    Tracked owed (replied ++ [r]) coming id := by
  obtain ⟨ms, hms, hctrl⟩ := h.framed
  exact ⟨⟨ms, hms, fun f hf hft => List.mem_append_left _ (hctrl f hf hft)⟩, h.owed⟩

theorem append (h : Tracked owed replied coming id) {f : WireFrame} (hknown : upstream f.ftype = true)
    (hlen : f.payload.length ≤ maxPayload) (hctrl : f.ftype = fCtrl → (id, f.payload) ∈ replied) :
    Tracked owed replied (coming ++ f.bytes) id := by
  have hs := stable_nextItem upstream
  obtain ⟨ms, hms, hall⟩ := h.framed
  have hone := hs.exhaust_message (piece_frame hknown hlen) []
  rw [List.append_nil, exhaust_none hs.nil] at hone
  refine ⟨⟨ms ++ [some f], ?_, fun g hg hft => ?_⟩, h.owed⟩
  · rw [hs.exhaust_append_ok (congrArg Prod.snd hms), hms, List.nil_append, hone]
  · rcases List.mem_append.mp hg with hg | hg
    · exact hall g hg hft
    · cases List.mem_singleton.mp hg
      exact hctrl hft

/-- The frames split off what has been read are replies to the request, and so is what is left. -/
theorem split (inbuf rest : List UInt8) (h : Tracked owed replied (inbuf ++ rest) id) :
    (∀ payload, (fCtrl, payload) ∈ (splitFrames inbuf).1 → (id, payload) ∈ replied) ∧
      Tracked owed replied (inbuf.drop (splitFrames inbuf).2 ++ rest) id := by
  have hs := stable_nextItem upstream
  obtain ⟨ms, hms, hout⟩ := exhaust_splitFrames inbuf
  obtain ⟨all, hall, hctrl⟩ := h.framed
  rw [hs.exhaust_append_ok (congrArg Prod.snd hms)] at hall
  obtain ⟨hfirst, hlast⟩ := Prod.mk.inj hall
  rw [hms] at hfirst
  refine ⟨fun payload hp => ?_, ⟨_, Prod.ext rfl hlast, fun f hf hft => ?_⟩, h.owed⟩
  · rw [hout] at hp
    obtain ⟨f, hf, hft, rfl⟩ := mem_splitFrames.mp hp
    exact hctrl f (hfirst ▸ List.mem_append_left _ hf) hft
  · exact hctrl f (hfirst ▸ List.mem_append_right _ hf) hft

end Tracked

theorem owedFor_id (id : Nat) (frames : List Frame) : ∀ o ∈ owedFor id frames, o.1 = id := by
  intro o ho
  obtain ⟨f, -, rfl⟩ := List.mem_map.mp ho
  rfl

/-- When all is quiet, only the request that is sent is answered. -/
theorem Quiet.tracked {s : State} (h : Quiet s) (replied : List (Nat × List UInt8)) (id : Nat)
    (frames : List Frame) :
    Tracked (s.owed ++ owedFor id frames) replied (s.owner.inbuf ++ s.wire) id := by
  obtain ⟨howed, hlen, hconsole⟩ := h
  obtain ⟨ms, hms, hout⟩ := exhaust_splitFrames (s.owner.inbuf ++ s.wire)
  rw [hlen, List.drop_length] at hms
  refine ⟨⟨ms, hms, fun f hf hft => ?_⟩, ?_⟩
  · have hmem := mem_splitFrames.mpr ⟨f, hf, rfl, rfl⟩
    rw [← hout] at hmem
    exact absurd hft (hconsole _ hmem)
  · rw [howed, List.nil_append]
    exact owedFor_id id frames

/-! ### Routing -/

theorem route_none (frames : List (UInt8 × List UInt8)) :
    (route none frames).1 = none ∧ (route none frames).2.1 = [] := by
  induction frames with
  | nil => exact ⟨rfl, rfl⟩
  | cons f frames ih =>
      obtain ⟨ftype, payload⟩ := f
      rw [route]
      split
      · exact ih
      · exact ih

/-- The request that waits goes on waiting, or is answered with a control frame. -/
theorem route_some (pd : PendingReply) (frames : List (UInt8 × List UInt8)) :
    (∀ left ∈ (route (some pd) frames).1, left = pd) ∧
      ∀ e ∈ (route (some pd) frames).2.1, ∃ payload, (fCtrl, payload) ∈ frames ∧
        e = ⟨pd.id, pd.line, .ok (Utf8.lossy payload)⟩ := by
  induction frames with
  | nil => exact ⟨fun left h => (Option.some.inj h).symm, nofun⟩
  | cons f frames ih =>
      obtain ⟨ftype, payload⟩ := f
      obtain ⟨hnone, hnil⟩ := route_none frames
      rw [route]
      split
      · next hft =>
          dsimp only
          rw [hnone, hnil]
          refine ⟨nofun, fun e he => ⟨payload, ?_, List.mem_singleton.mp he⟩⟩
          rw [hft]
          exact List.mem_cons_self
      · refine ⟨ih.1, fun e he => ?_⟩
        obtain ⟨p, hp, heq⟩ := ih.2 e he
        exact ⟨p, List.mem_cons_of_mem _ hp, heq⟩

/-! ### Runs -/

/-- A control request that was answered without an error was answered with the board's reply to
it. -/
def Answered (replied : List (Nat × List UInt8)) (e : Finished) : Prop :=
  asksControl e.line → ∀ text, e.result = .ok text →
    ∃ payload, (e.id, payload) ∈ replied ∧ text = Utf8.lossy payload

structure Inv (s : State) : Prop where
  answered : ∀ e ∈ s.finished, Answered s.replied e
  tracked : ∀ pd ∈ s.owner.pending,
    Tracked s.owed s.replied (s.owner.inbuf ++ s.wire) pd.id
  closed : s.owner.phase = .reopen → s.owner.pending = none

theorem answered_of_error {replied : List (Nat × List UInt8)} {e : Finished} {msg : String}
    (h : e.result = .error msg) : Answered replied e := by
  intro _ text htext
  rw [h] at htext
  cases htext

theorem answered_failPending (s : State) (msg : String) (replied : List (Nat × List UInt8)) :
    ∀ e ∈ s.failPending msg, Answered replied e := by
  intro e he
  obtain ⟨pd, -, rfl⟩ := List.mem_map.mp he
  exact answered_of_error rfl

theorem answered_drainFailing (s : State) (msg : String) (replied : List (Nat × List UInt8)) :
    ∀ e ∈ s.drainFailing msg, Answered replied e := by
  intro e he
  obtain ⟨r, -, hr⟩ := List.mem_filterMap.mp he
  cases r with
  | line id text =>
      cases hr
      exact answered_of_error rfl
  | release => cases hr

theorem answered_append {replied : List (Nat × List UInt8)} {a b : List Finished}
    (ha : ∀ e ∈ a, Answered replied e) (hb : ∀ e ∈ b, Answered replied e) :
    ∀ e ∈ a ++ b, Answered replied e := by
  intro e he
  rcases List.mem_append.mp he with he | he
  · exact ha e he
  · exact hb e he

theorem answered_singleton {replied : List (Nat × List UInt8)} {e : Finished}
    (h : Answered replied e) : ∀ e' ∈ [e], Answered replied e' := by
  intro e' he'
  rw [List.mem_singleton.mp he']
  exact h

/-- With the port lost nothing waits any more. -/
theorem inv_reset {s : State} (h : ∀ e ∈ s.finished, Answered s.replied e) : Inv s.reset where
  answered := answered_append h (answered_failPending s _ _)
  tracked := nofun
  closed _ := rfl

namespace Inv

variable {s : State}

theorem serviceLine (h : Inv s) {id : Nat} {text : List Char} {rest : List Request} {w : Write}
    {now : Nat} (hphase : s.owner.phase = .drain) (hqueue : s.queue = .line id text :: rest)
    (hquiet : asksBoard s = true → Quiet s) : Inv (s.serviceLine id text rest w now) := by
  rw [State.serviceLine]
  split
  · exact ⟨h.answered, h.tracked, h.closed⟩
  · next hgone =>
      split
      · next e _ =>
          exact ⟨answered_append h.answered (answered_singleton (answered_of_error rfl)), h.tracked,
            h.closed⟩
      · next c' frames hdispatch =>
          cases w with
          | failed msg received =>
              exact inv_reset (answered_append h.answered
                (answered_singleton (answered_of_error rfl)))
          | done =>
              dsimp only
              split
              · next hany =>
                  have hasks : asksBoard s = true := by
                    rw [asksBoard, hqueue]
                    dsimp only
                    rw [hdispatch]
                    simpa [Except.toOption, hgone] using hany
                  refine ⟨h.answered, fun pd hpd => ?_, nofun⟩
                  cases hpd
                  exact (hquiet hasks).tracked s.replied id frames
              · next hany =>
                  have hfinished : Answered s.replied ⟨id, text, .ok ""⟩ := fun hcontrol =>
                    absurd (any_isControl_of_dispatch hcontrol hdispatch) hany
                  refine ⟨answered_append h.answered (answered_singleton hfinished), h.tracked, ?_⟩
                  intro hclosed
                  rw [hphase] at hclosed
                  cases hclosed

theorem serviceRelease (h : Inv s) {rest : List Request} {w : Write} :
    Inv (s.serviceRelease rest w) := by
  cases w with
  | failed msg received => exact inv_reset h.answered
  | done => exact ⟨h.answered, h.tracked, h.closed⟩

theorem demux {chunk rest : List UInt8} (h : Inv { s with wire := chunk ++ rest }) :
    Inv (State.demux { s with wire := rest } chunk) := by
  have htracked := h.tracked
  rw [State.demux]
  dsimp only
  cases hpending : s.owner.pending with
  | none =>
      obtain ⟨hnone, hnil⟩ := route_none (splitFrames (s.owner.inbuf ++ chunk)).1
      rw [hnone, hnil]
      refine ⟨?_, nofun, nofun⟩
      rw [List.append_nil]
      exact h.answered
  | some pd =>
      have hpd := htracked pd hpending
      dsimp only at hpd
      rw [← List.append_assoc] at hpd
      obtain ⟨hreplies, hrest⟩ := hpd.split
      obtain ⟨hleft, hout⟩ := route_some pd (splitFrames (s.owner.inbuf ++ chunk)).1
      refine ⟨answered_append h.answered fun e he => ?_, fun left hl => ?_, nofun⟩
      · obtain ⟨payload, hp, rfl⟩ := hout e he
        intro _ text htext
        exact ⟨payload, hreplies payload hp, (Except.ok.inj htext).symm⟩
      · rw [hleft left hl]
        exact hrest

theorem step {t : State} {a : Action} (h : Inv s) (hcond : Condition s a)
    (hstep : s.step a = some t) : Inv t := by
  cases a with
  | submit text | submitRelease | abandon id =>
      cases hstep
      exact ⟨h.answered, h.tracked, h.closed⟩
  | reply payload =>
      rw [State.step] at hstep
      split at hstep
      · cases hstep
      · next id cmd owed howed =>
          split at hstep
          · next hlen =>
              cases hstep
              refine ⟨fun e he hcontrol text htext => ?_, fun pd hpd => ?_, h.closed⟩
              · obtain ⟨p, hp, heq⟩ := h.answered e he hcontrol text htext
                exact ⟨p, List.mem_append_left _ hp, heq⟩
              · have hpd' := (h.tracked pd hpd).replied_append (id, payload)
                have hid : id = pd.id := hpd'.owed (id, cmd) (by rw [howed]; exact List.mem_cons_self)
                have happend := hpd'.append (f := ⟨fCtrl, cmd, payload⟩) rfl hlen fun _ => by
                  rw [hid]
                  exact List.mem_append_right _ List.mem_cons_self
                rw [List.append_assoc] at happend
                exact ⟨happend.framed, fun o ho => hpd'.owed o (by
                  rw [howed]
                  exact List.mem_cons_of_mem _ ho)⟩
          · cases hstep
  | silent =>
      cases hstep
      exact ⟨h.answered, fun pd hpd => ⟨(h.tracked pd hpd).framed, fun o ho =>
        (h.tracked pd hpd).owed o (List.mem_of_mem_tail ho)⟩, h.closed⟩
  | output b1 payload =>
      rw [State.step] at hstep
      split at hstep
      · next hlen =>
          cases hstep
          refine ⟨h.answered, fun pd hpd => ?_, h.closed⟩
          have happend := (h.tracked pd hpd).append (f := ⟨fConsole, b1, payload⟩) rfl hlen
            fun hft => absurd (Eq.trans hft rfl : fConsole = fCtrl) (by decide)
          rwa [List.append_assoc] at happend
      · cases hstep
  | lose n =>
      rw [State.step] at hstep
      split at hstep
      · next hphase =>
          cases hstep
          have hnone := h.closed hphase
          refine ⟨h.answered, fun pd hpd => ?_, h.closed⟩
          rw [hnone] at hpd
          cases hpd
      · cases hstep
  | opened =>
      rw [State.step] at hstep
      split at hstep
      · next hphase =>
          cases hstep
          have hnone := h.closed hphase
          refine ⟨h.answered, fun pd hpd => ?_, fun _ => hnone⟩
          rw [hnone] at hpd
          cases hpd
      · cases hstep
  | openFailed msg =>
      rw [State.step] at hstep
      split at hstep
      · cases hstep
        exact ⟨answered_append (answered_append h.answered (answered_failPending s msg _))
          (answered_drainFailing s msg _), nofun, fun _ => rfl⟩
      · cases hstep
  | service w now =>
      rw [State.step] at hstep
      split at hstep
      · next hphase =>
          split at hstep
          · cases hstep
          · next id text rest hqueue =>
              cases hstep
              exact h.serviceLine hphase hqueue hcond
          · cases hstep
            exact h.serviceRelease
      · cases hstep
  | drained =>
      rw [State.step] at hstep
      split at hstep
      · cases hstep
        exact ⟨h.answered, h.tracked, nofun⟩
      · cases hstep
  | pumped w =>
      simp only [State.step] at hstep
      split at hstep
      · cases w with
        | failed msg received =>
            cases hstep
            exact inv_reset h.answered
        | done =>
            cases hstep
            exact ⟨h.answered, h.tracked, nofun⟩
      · cases hstep
  | read n =>
      rw [State.step] at hstep
      split at hstep
      · cases hstep
        refine demux ?_
        rw [List.take_append_drop]
        exact h
      · cases hstep
  | readFailed =>
      rw [State.step] at hstep
      split at hstep
      · cases hstep
        exact inv_reset h.answered
      · cases hstep
  | checked now =>
      simp only [State.step] at hstep
      split at hstep
      · split at hstep
        · cases hstep
          exact inv_reset (answered_append h.answered (answered_failPending s _ _))
        · cases hstep
          refine ⟨h.answered, h.tracked, fun hclosed => ?_⟩
          change State.roundPhase s.owner.pending = .reopen at hclosed
          rw [State.roundPhase] at hclosed
          split at hclosed <;> cases hclosed
      · cases hstep

end Inv

theorem inv_initial : Inv State.initial := ⟨nofun, nofun, fun _ => rfl⟩

/-- In a run that sends a control request only when nothing of an earlier one is still to come,
every such request that is answered without an error is answered with the board's reply to it. -/
theorem reply_of_meets {actions : List Action} {s : State}
    (hmeets : Machine.meets State.step Condition State.initial actions)
    (hrun : Machine.run State.step State.initial actions = some s) :
    ∀ e ∈ s.finished, asksControl e.line → ∀ text, e.result = .ok text →
      ∃ payload, (e.id, payload) ∈ s.replied ∧ text = Utf8.lossy payload := by
  have hinv : Inv s := Machine.run_history_of_meets (P := fun _ t => Inv t) inv_initial
    (fun _ m a t _ hm hcond hstep => hm.step hcond hstep) actions s hmeets hrun
  exact hinv.answered

/-- A ping whose reply comes behind console output, in two reads. -/
def pinged : List Action :=
  [.submit "ping".toList, .opened, .service .done 0, .pumped .done, .output 0 [0x02, 0x01],
    .reply [0x6F, 0x6B], .read 7, .checked 5, .pumped .done, .read 100]

instance (s : State) : (a : Action) → Decidable (Condition s a)
  | .service _ _ => inferInstanceAs (Decidable (asksBoard s = true → Quiet s))
  | .submit _ | .submitRelease | .abandon _ | .reply _ | .silent | .output _ _ | .lose _ | .opened
  | .openFailed _ | .drained | .pumped _ | .read _ | .readFailed | .checked _ =>
      inferInstanceAs (Decidable True)

theorem reply_of_meets_pinged :
    ∃ s, Machine.run State.step State.initial pinged = some s ∧
      ⟨0, "ping".toList, .ok "ok"⟩ ∈ s.finished ∧
      ∃ payload, (0, payload) ∈ s.replied ∧ "ok" = Utf8.lossy payload := by
  have hmeets : Machine.check State.step (fun s a => decide (Condition s a)) State.initial pinged =
      true := by decide +kernel
  have hrun : ((Machine.run State.step State.initial pinged).any fun s =>
      decide (⟨0, "ping".toList, .ok "ok"⟩ ∈ s.finished)) = true := by decide +kernel
  obtain ⟨s, hs, hfinished⟩ := (Option.any_eq_true _ _).mp hrun
  have hmem := of_decide_eq_true hfinished
  have hcontrol : asksControl "ping".toList := by decide +kernel
  exact ⟨s, hs, hmem, reply_of_meets (Machine.meets_of_check (fun _ _ => of_decide_eq_true) hmeets)
    hs _ hmem hcontrol _ rfl⟩

/-- A power request times out, and the board's reply to it comes when a ping has been sent. -/
def lateReply : List Action :=
  [.submit "power on".toList, .opened, .service .done 0, .pumped .done, .read 0, .checked 1500,
    .submit "ping".toList, .opened, .service .done 2000, .pumped .done, .reply [0x6F, 0x6E],
    .read 100]

theorem not_reply_late :
    ¬∀ s, Machine.run State.step State.initial lateReply = some s →
      ∀ e ∈ s.finished, asksControl e.line → ∀ text, e.result = .ok text →
        ∃ payload, (e.id, payload) ∈ s.replied ∧ text = Utf8.lossy payload := by
  intro h
  have hrun : ((Machine.run State.step State.initial lateReply).any fun s =>
      decide (⟨1, "ping".toList, .ok "on"⟩ ∈ s.finished) &&
        decide (∀ r ∈ s.replied, r.1 ≠ 1)) = true := by decide +kernel
  obtain ⟨s, hs, hfacts⟩ := (Option.any_eq_true _ _).mp hrun
  obtain ⟨hfinished, hreplied⟩ := Bool.and_eq_true_iff.mp hfacts
  have hcontrol : asksControl "ping".toList := by decide +kernel
  obtain ⟨payload, hmem, -⟩ := h s hs _ (of_decide_eq_true hfinished) hcontrol _ rfl
  exact of_decide_eq_true hreplied _ hmem rfl

end Hidrig

end Paniolo
