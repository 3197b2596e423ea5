import Paniolo.Library.Channel
import Paniolo.Library.Machine

/-!
# Calls over one link

`Call`, `onMessage` and `Close` of `jetkvm/rpc.go`. Any number of calls run at once; one goroutine
takes the messages of the data channel; `Close` may be called from anywhere, also by that goroutine
when another client takes the session. Each section under the mutex and each operation on a channel
is one step. A call's channel carries the call's number.
-/

namespace Paniolo

namespace Jetkvm

namespace Calls

structure RPCError where
  code : Int
  message : String
deriving DecidableEq

/-- What `json.Unmarshal` makes of a message; the number of a call is a Go `int`. -/
structure RpcMessage where
  id : Int64
  result : List UInt8
  error : Option RPCError
  method : String
  params : List UInt8
deriving DecidableEq

/-- A request as it is sent, with its marshalled parameters. -/
structure Request where
  method : String
  id : Int64
  params : Option (List UInt8)
deriving DecidableEq

/-- How a call ends. -/
inductive Outcome where
  | result (r : List UInt8)
  | rpcError (e : RPCError)
  | kicked
  | sessionClosed
  | marshalError
  | sendError
  | ctxError
deriving DecidableEq

/-- Where a call stands: before its registration, at the steps that follow under its number, and
returned. `ending` is the evaluation of `closedErr`. -/
inductive Stage where
  | entering
  | registering
  | marshalling (id : Int64)
  | sending (r : Request)
  | selecting (id : Int64)
  | forgetting (id : Int64) (o : Option Outcome)
  | ending (id : Option Int64)
  | returned (id : Option Int64) (o : Outcome)
deriving DecidableEq

namespace Stage

/-- The number of the call, once it has one. -/
def id? : Stage → Option Int64
  | entering | registering => none
  | marshalling id | selecting id | forgetting id _ => some id
  | sending r => some r.id
  | ending id | returned id _ => id

/-- The number under which the call still has to be forgotten. -/
def waits : Stage → Option Int64
  | marshalling id | selecting id | forgetting id _ => some id
  | sending r => some r.id
  | entering | registering | ending _ | returned _ _ => none

end Stage

structure Call (P : Type) where
  method : String
  params : Option P
  stage : Stage

/-- Where the goroutine that takes the messages stands. -/
inductive Receiver where
  | idle
  | closing
  | awaiting
  | looking (m : RpcMessage)
  | delivering (m : RpcMessage) (c : Nat)
deriving DecidableEq

/-- `closeOnce`, with the steps of its body: close `done`, then sweep the waiters. -/
inductive Once where
  | fresh
  | closing
  | sweeping
  | finished
deriving DecidableEq

/-- A link with the calls made on it. The last four fields record what was sent and received, the
events that were passed on, and whether a goroutine has panicked. -/
structure Link (P : Type) where
  nextID : Int64
  waiters : List (Int64 × Nat)
  chans : Nat → Channel RpcMessage
  calls : Nat → Option (Call P)
  done : Channel Unit
  once : Once
  kicked : Bool
  receiver : Receiver
  sent : List Request
  received : List RpcMessage
  events : List (String × List UInt8)
  panicked : Bool

/-- What may happen next: a call is made, or takes its next step, which may be one that depends on
its surroundings; a message arrives, or the goroutine that took it goes on; `Close` is called, or
goes on. -/
inductive Action (P : Type) where
  | call (i : Nat) (method : String) (params : Option P)
  | proceed (i : Nat)
  | sendFails (i : Nat)
  | timeOut (i : Nat)
  | hungUp (i : Nat)
  | message (m : Option RpcMessage)
  | receive
  | close
  | closing

variable {P : Type}

def init : Link P :=
  ⟨0, [], fun _ => .make 1, fun _ => none, .make 0, .fresh, false, .idle, [], [], [], false⟩

namespace Link

variable (l : Link P)

/-- `delete(l.waiters, id)`. -/
def forget (id : Int64) : Link P := { l with waiters := l.waiters.filter fun e => e.1 ≠ id }

/-- Bring call `i` to a stage. -/
def move (i : Nat) (c : Call P) (stage : Stage) : Link P :=
  { l with calls := Function.update l.calls i (some { c with stage := stage }) }

def setChan (i : Nat) (c : Channel RpcMessage) : Link P :=
  { l with chans := Function.update l.chans i c }

def closedErr : Outcome := if l.kicked then .kicked else .sessionClosed

end Link

/-- What a call returns for the reply to it. -/
def RpcMessage.outcome (m : RpcMessage) : Outcome :=
  match m.error with
  | some e => .rpcError e
  | none => .result m.result

/-- The next step of a call, by itself. -/
def proceed (marshal : P → Option (List UInt8)) (l : Link P) (i : Nat) (c : Call P) :
    Option (Link P) :=
  match c.stage with
  | .entering => some (l.move i c (if l.done.closed then .ending none else .registering))
  | .registering =>
      let id := l.nextID + 1
      let l := l.forget id
      some ({ l with nextID := id, waiters := (id, i) :: l.waiters }.move i c (.marshalling id))
  | .marshalling id =>
      match c.params with
      | none => some (l.move i c (.sending ⟨c.method, id, none⟩))
      | some p =>
          match marshal p with
          | some b => some (l.move i c (.sending ⟨c.method, id, some b⟩))
          | none => some (l.move i c (.returned (some id) .marshalError))
  | .sending r => some ({ l with sent := r :: l.sent }.move i c (.selecting r.id))
  | .selecting id =>
      (l.chans i).receive.map fun r =>
        match r.1 with
        | some m => (l.setChan i r.2).move i c (.returned (some id) m.outcome)
        | none => l.move i c (.ending (some id))
  | .forgetting id o =>
      match o with
      | some o => some ((l.forget id).move i c (.returned (some id) o))
      | none => some ((l.forget id).move i c (.ending (some id)))
  | .ending id => some (l.move i c (.returned id l.closedErr))
  | .returned _ _ => none

/-- Enter `closeOnce.Do`. -/
def enter (l : Link P) : Link P := if l.once = .fresh then { l with once := .closing } else l

/-- What `onMessage` does with a message: at once, or with the steps that are left to do. -/
def onMessage (l : Link P) (m : RpcMessage) : Link P :=
  let l := { l with received := m :: l.received }
  if m.method ≠ "" then
    if m.method = "otherSessionConnected" then { l with kicked := true, receiver := .closing }
    else { l with events := (m.method, m.params) :: l.events }
  else { l with receiver := .looking m }

/-- The next step of the goroutine that takes the messages. -/
def receive (l : Link P) : Option (Link P) :=
  match l.receiver with
  | .idle => none
  | .closing => some { enter l with receiver := .awaiting }
  | .awaiting => if l.once = .finished then some { l with receiver := .idle } else none
  | .looking m =>
      match l.waiters.lookup m.id with
      | some c => some { l.forget m.id with receiver := .delivering m c }
      | none => some { l.forget m.id with receiver := .idle }
  | .delivering m c =>
      match (l.chans c).send m with
      | .done chan => some { l.setChan c chan with receiver := .idle }
      | .blocks => none
      | .panics => some { l with panicked := true }

/-- The next step of the body of `Close`. -/
def closing (l : Link P) : Option (Link P) :=
  match l.once with
  | .closing =>
      match l.done.close with
      | .done chan => some { l with done := chan, once := .sweeping }
      | .blocks => none
      | .panics => some { l with panicked := true }
  | .sweeping =>
      match Channel.closeAll l.chans (l.waiters.map Prod.snd) with
      | .done chans => some { l with chans := chans, waiters := [], once := .finished }
      | .blocks => none
      | .panics => some { l with panicked := true }
  | .fresh | .finished => none

/-- The step of a call that fails to send, times out or finds the link closed. -/
def divert (l : Link P) (i : Nat) (c : Call P) : Action P → Option (Link P)
  | .sendFails _ =>
      match c.stage with
      | .sending r => some (l.move i c (.forgetting r.id (some .sendError)))
      | _ => none
  | .timeOut _ =>
      match c.stage with
      | .selecting id => some (l.move i c (.forgetting id (some .ctxError)))
      | _ => none
  | .hungUp _ =>
      match c.stage with
      | .selecting id => if l.done.closed then some (l.move i c (.forgetting id none)) else none
      | _ => none
  | _ => none

/-- Perform an action. -/
def act (marshal : P → Option (List UInt8)) (l : Link P) : Action P → Option (Link P)
  | .call i method params =>
      match l.calls i with
      | none => some { l with calls := Function.update l.calls i (some ⟨method, params, .entering⟩) }
      | some _ => none
  | .proceed i => (l.calls i).bind (proceed marshal l i)
  | .sendFails i => (l.calls i).bind fun c => divert l i c (.sendFails i)
  | .timeOut i => (l.calls i).bind fun c => divert l i c (.timeOut i)
  | .hungUp i => (l.calls i).bind fun c => divert l i c (.hungUp i)
  | .message none => if l.receiver = .idle then some l else none
  | .message (some m) => if l.receiver = .idle then some (onMessage l m) else none
  | .receive => receive l
  | .close => some (enter l)
  | .closing => closing l

/-- A step of the program; after a panic there is none. -/
def step (marshal : P → Option (List UInt8)) (l : Link P) (a : Action P) : Option (Link P) :=
  if l.panicked then none else act marshal l a

/-! ### What holds in every state -/

/-- Call `i` goes by the number `id`. -/
def Registered (l : Link P) (id : Int64) (i : Nat) : Prop :=
  ∃ c, l.calls i = some c ∧ c.stage.id? = some id

/-- The message is a reply to call `i` that has been received. -/
def Answers (l : Link P) (m : RpcMessage) (i : Nat) : Prop :=
  Registered l m.id i ∧ m ∈ l.received ∧ m.method = ""

def Outcome.fromDevice : Outcome → Bool
  | .result _ | .rpcError _ => true
  | _ => false

/-- A request was sent for the method under the number. -/
def Requested (l : Link P) (method : String) (id : Int64) : Prop :=
  ∃ r ∈ l.sent, r.id = id ∧ r.method = method

/-- What a call at a stage has behind it: the request for which it waits, the message that it
returned. -/
def Sound (l : Link P) (method : String) : Stage → Prop
  | .sending r => r.method = method
  | .selecting id => Requested l method id
  | .forgetting _ o => ∀ x ∈ o, x.fromDevice = false
  | .returned id o => o.fromDevice = true →
      ∃ m ∈ l.received, id = some m.id ∧ m.method = "" ∧ m.outcome = o ∧ Requested l method m.id
  | _ => True

structure Inv (l : Link P) : Prop where
  calm : l.panicked = false
  waiting : ∀ e ∈ l.waiters, Registered l e.1 e.2 ∧ l.chans e.2 = .make 1
  nodup : (l.waiters.map Prod.snd).Nodup
  looking : ∀ m, l.receiver = .looking m → m ∈ l.received ∧ m.method = ""
  delivering : ∀ m i, l.receiver = .delivering m i →
    Answers l m i ∧ l.chans i = .make 1 ∧ i ∉ l.waiters.map Prod.snd
  unused : ∀ i, (∀ id, ¬Registered l id i) → l.chans i = .make 1
  buffered : ∀ i, ∀ m ∈ (l.chans i).buffer, Answers l m i
  sound : ∀ i c, l.calls i = some c → Sound l c.method c.stage
  done : l.done.closed = true → l.once = .sweeping ∨ l.once = .finished

variable {l : Link P} {i : Nat} {c : Call P}

theorem inv_init : Inv (init : Link P) where
  calm := rfl
  waiting := nofun
  nodup := List.nodup_nil
  looking := nofun
  delivering := nofun
  unused _ _ := rfl
  buffered := nofun
  sound := nofun
  done := nofun

theorem Registered.unique {id id' : Int64} (h : Registered l id i) (h' : Registered l id' i) :
    id = id' := by
  obtain ⟨c, hc, hid⟩ := h
  obtain ⟨c', hc', hid'⟩ := h'
  rw [hc, Option.some.injEq] at hc'
  rw [hc', hid', Option.some.injEq] at hid
  exact hid.symm

/-- A step that keeps a call's number keeps who goes by which. -/
theorem registered_move (hi : l.calls i = some c) {stage : Stage} (hid : stage.id? = c.stage.id?)
    {id : Int64} {j : Nat} : Registered (l.move i c stage) id j ↔ Registered l id j := by
  by_cases hj : j = i
  · subst hj
    have hmoved : (l.move j c stage).calls j = some { c with stage := stage } :=
      Function.update_self ..
    rw [Registered, Registered, hmoved, hi]
    constructor
    · rintro ⟨d, hd, hdid⟩
      cases hd
      exact ⟨c, rfl, hid ▸ hdid⟩
    · rintro ⟨d, hd, hdid⟩
      cases hd
      exact ⟨_, rfl, hid.trans hdid⟩
  · have hmoved : (l.move i c stage).calls j = l.calls j := Function.update_of_ne hj ..
    rw [Registered, Registered, hmoved]

theorem Inv.move (h : Inv l) (hi : l.calls i = some c) {stage : Stage}
    (hid : stage.id? = c.stage.id?) (hsound : Sound l c.method stage) :
    Inv (l.move i c stage) where
  calm := h.calm
  waiting e he := ⟨(registered_move hi hid).mpr (h.waiting e he).1, (h.waiting e he).2⟩
  nodup := h.nodup
  looking := h.looking
  delivering m j hm := by
    obtain ⟨⟨hreg, hfrom⟩, hrest⟩ := h.delivering m j hm
    exact ⟨⟨(registered_move hi hid).mpr hreg, hfrom⟩, hrest⟩
  unused j hj := h.unused j fun id hreg => hj id ((registered_move hi hid).mpr hreg)
  buffered j m hm := by
    obtain ⟨hreg, hfrom⟩ := h.buffered j m hm
    exact ⟨(registered_move hi hid).mpr hreg, hfrom⟩
  sound j d hd := by
    by_cases hj : j = i
    · subst hj
      have hmoved : (l.move j c stage).calls j = some { c with stage := stage } :=
        Function.update_self ..
      rw [hmoved] at hd
      cases hd
      exact hsound
    · have hmoved : (l.move i c stage).calls j = l.calls j := Function.update_of_ne hj ..
      rw [hmoved] at hd
      exact h.sound j d hd
  done := h.done

/-- Forgetting takes waiters away and nothing else. -/
theorem Inv.forget (h : Inv l) (id : Int64) : Inv (l.forget id) where
  calm := h.calm
  waiting e he := h.waiting e (List.mem_filter.mp he).1
  nodup := h.nodup.sublist (List.filter_sublist.map Prod.snd)
  looking := h.looking
  delivering m j hm := by
    obtain ⟨hanswers, hchan, hfree⟩ := h.delivering m j hm
    exact ⟨hanswers, hchan, fun hmem => hfree ((List.filter_sublist.map Prod.snd).subset hmem)⟩
  unused := h.unused
  buffered := h.buffered
  sound := h.sound
  done := h.done

/-- A call registers under the next number, whoever had it before. -/
theorem Inv.register (h : Inv l) (hi : l.calls i = some c) (hstage : c.stage = .registering)
    (id : Int64) :
    Inv ({ l.forget id with nextID := id, waiters := (id, i) :: (l.forget id).waiters }.move i c
      (.marshalling id)) := by
  have hnew : ∀ id', ¬Registered l id' i := by
    rintro id' ⟨d, hd, hdid⟩
    rw [hi] at hd
    cases hd
    rw [hstage] at hdid
    cases hdid
  have hother : ∀ {id' : Int64} {j : Nat}, Registered l id' j →
      Registered ({ l.forget id with
        nextID := id, waiters := (id, i) :: (l.forget id).waiters }.move i c
        (.marshalling id)) id' j := by
    rintro id' j ⟨d, hd, hdid⟩
    have hj : j ≠ i := fun hj => hnew id' ⟨d, hj ▸ hd, hdid⟩
    exact ⟨d, (Function.update_of_ne hj ..).trans hd, hdid⟩
  have hself : ({ l.forget id with
      nextID := id, waiters := (id, i) :: (l.forget id).waiters }.move i c
      (.marshalling id)).calls i = some { c with stage := .marshalling id } :=
    Function.update_self ..
  have hforget := h.forget id
  have hfree : i ∉ (l.forget id).waiters.map Prod.snd := by
    intro hmem
    obtain ⟨e, he, rfl⟩ := List.mem_map.mp hmem
    exact hnew e.1 (hforget.waiting e he).1
  refine ⟨h.calm, ?_, List.nodup_cons.mpr ⟨hfree, hforget.nodup⟩, h.looking, ?_, ?_, ?_, ?_, h.done⟩
  · intro e he
    rcases List.mem_cons.mp he with rfl | he
    · exact ⟨⟨_, hself, rfl⟩, h.unused i hnew⟩
    · exact ⟨hother (hforget.waiting e he).1, (hforget.waiting e he).2⟩
  · intro m j hm
    obtain ⟨⟨hreg, hfrom⟩, hchan, hout⟩ := hforget.delivering m j hm
    have hj : j ≠ i := fun hj => hnew m.id (hj ▸ hreg)
    exact ⟨⟨hother hreg, hfrom⟩, hchan, fun hmem => (List.mem_cons.mp hmem).elim hj hout⟩
  · exact fun j hj => h.unused j fun id' hreg => hj id' (hother hreg)
  · intro j m hm
    obtain ⟨hreg, hfrom⟩ := h.buffered j m hm
    exact ⟨hother hreg, hfrom⟩
  · intro j d hd
    by_cases hj : j = i
    · subst hj
      rw [hself] at hd
      cases hd
      trivial
    · exact h.sound j d ((Function.update_of_ne hj ..).symm.trans hd)

/-- A call whose channel holds something is not waited for any more. -/
theorem Inv.free_of_buffer (h : Inv l) (hbuffer : l.chans i ≠ .make 1) :
    i ∉ l.waiters.map Prod.snd ∧ ∀ m, l.receiver ≠ .delivering m i := by
  refine ⟨fun hmem => ?_, fun m hm => hbuffer (h.delivering m i hm).2.1⟩
  obtain ⟨e, he, rfl⟩ := List.mem_map.mp hmem
  exact hbuffer (h.waiting e he).2

/-- What a channel held may be taken out of it. -/
theorem Inv.take (h : Inv l) {chan : Channel RpcMessage} (hbuffer : l.chans i ≠ .make 1)
    (hreg : ∃ id, Registered l id i) (hchan : ∀ m ∈ chan.buffer, m ∈ (l.chans i).buffer) :
    Inv (l.setChan i chan) := by
  obtain ⟨hfree, hreceiver⟩ := h.free_of_buffer hbuffer
  have hother : ∀ {j : Nat}, j ≠ i → (l.setChan i chan).chans j = l.chans j :=
    fun hj => Function.update_of_ne hj ..
  have hself : (l.setChan i chan).chans i = chan := Function.update_self ..
  refine ⟨h.calm, ?_, h.nodup, h.looking, ?_, ?_, ?_, h.sound, h.done⟩
  · intro e he
    have hne : e.2 ≠ i := fun heq => hfree (List.mem_map.mpr ⟨e, he, heq⟩)
    exact ⟨(h.waiting e he).1, (hother hne).trans (h.waiting e he).2⟩
  · intro m j hm
    obtain ⟨hanswers, hempty, hout⟩ := h.delivering m j hm
    have hne : j ≠ i := fun heq => hreceiver m (heq ▸ hm)
    exact ⟨hanswers, (hother hne).trans hempty, hout⟩
  · intro j hj
    have hne : j ≠ i := fun heq => hreg.elim fun id hid => hj id (heq ▸ hid)
    exact (hother hne).trans (h.unused j hj)
  · intro j m hm
    by_cases hj : j = i
    · subst hj
      rw [hself] at hm
      exact h.buffered j m (hchan m hm)
    · rw [hother hj] at hm
      exact h.buffered j m hm

theorem Sound.mono {l l' : Link P} {method : String} {stage : Stage} (h : Sound l method stage)
    (hsent : ∀ r ∈ l.sent, r ∈ l'.sent) (hreceived : ∀ m ∈ l.received, m ∈ l'.received) :
    Sound l' method stage := by
  have hrequested : ∀ {id : Int64}, Requested l method id → Requested l' method id :=
    fun ⟨r, hr, hrest⟩ => ⟨r, hsent r hr, hrest⟩
  cases stage with
  | selecting id => exact hrequested h
  | returned id o =>
      intro ho
      obtain ⟨m, hm, hid, hmethod, houtcome, hreq⟩ := h ho
      exact ⟨m, hreceived m hm, hid, hmethod, houtcome, hrequested hreq⟩
  | sending r => exact h
  | entering => trivial
  | registering => trivial
  | marshalling id => trivial
  | forgetting id o => exact h
  | ending id => trivial

theorem Inv.send (h : Inv l) (r : Request) : Inv { l with sent := r :: l.sent } where
  calm := h.calm
  waiting := h.waiting
  nodup := h.nodup
  looking := h.looking
  delivering := h.delivering
  unused := h.unused
  buffered := h.buffered
  sound i c hi := (h.sound i c hi).mono (fun _ => List.mem_cons_of_mem r) fun _ => id
  done := h.done

theorem fromDevice_closedErr (l : Link P) : l.closedErr.fromDevice = false := by
  rw [Link.closedErr]
  split <;> rfl

/-- The message in a call's channel is the reply that the call returns. -/
theorem Inv.reply (h : Inv l) (hi : l.calls i = some c) {id : Int64}
    (hstage : c.stage = .selecting id) {m : RpcMessage} {rest : List RpcMessage}
    (hbuffer : (l.chans i).buffer = m :: rest) :
    Inv ((l.setChan i { l.chans i with buffer := rest }).move i c
      (.returned (some id) m.outcome)) := by
  have hreg : Registered l id i := ⟨c, hi, by rw [hstage]; rfl⟩
  have hne : l.chans i ≠ .make 1 := by
    intro hmake
    rw [hmake] at hbuffer
    cases hbuffer
  obtain ⟨hown, hreceived, hmethod⟩ := h.buffered i m (hbuffer ▸ List.mem_cons_self ..)
  have hid : id = m.id := hreg.unique hown
  have htake : Inv (l.setChan i { l.chans i with buffer := rest }) := by
    refine h.take hne ⟨id, hreg⟩ fun x hx => ?_
    rw [hbuffer]
    exact List.mem_cons_of_mem m hx
  refine htake.move hi (by rw [hstage]; rfl) fun _ => ?_
  have hrequested := h.sound i c hi
  rw [hstage] at hrequested
  exact ⟨m, hreceived, congrArg some hid, hmethod, rfl, hid ▸ hrequested⟩

theorem inv_proceed {marshal : P → Option (List UInt8)} {l' : Link P} (h : Inv l)
    (hi : l.calls i = some c) (hstep : proceed marshal l i c = some l') : Inv l' := by
  rw [proceed] at hstep
  split at hstep
  · next hstage =>
      cases hstep
      refine h.move hi ?_ ?_
      · rw [hstage]
        split <;> rfl
      · split <;> trivial
  · next hstage =>
      cases hstep
      exact h.register hi hstage _
  · next id hstage =>
      split at hstep
      · cases hstep
        exact h.move hi (by rw [hstage]; rfl) rfl
      · split at hstep
        · cases hstep
          exact h.move hi (by rw [hstage]; rfl) rfl
        · cases hstep
          exact h.move hi (by rw [hstage]; rfl) nofun
  · next r hstage =>
      cases hstep
      refine (h.send r).move hi (by rw [hstage]; rfl) ?_
      have hmethod := h.sound i c hi
      rw [hstage] at hmethod
      exact ⟨r, List.mem_cons_self .., rfl, hmethod⟩
  · next id hstage =>
      obtain ⟨r, hr, rfl⟩ := Option.map_eq_some_iff.mp hstep
      rcases Channel.receive_eq_some hr with ⟨m, rest, hbuffer, rfl⟩ | rfl
      · exact h.reply hi hstage hbuffer
      · exact h.move hi (by rw [hstage]; rfl) trivial
  · next id o hstage =>
      cases o with
      | some o =>
          cases hstep
          refine (h.forget id).move hi (by rw [hstage]; rfl) fun ho => ?_
          have hown := h.sound i c hi
          rw [hstage] at hown
          rw [hown o rfl] at ho
          cases ho
      | none =>
          cases hstep
          exact (h.forget id).move hi (by rw [hstage]; rfl) trivial
  · next id hstage =>
      cases hstep
      refine h.move hi (by rw [hstage]; rfl) fun ho => ?_
      rw [fromDevice_closedErr] at ho
      cases ho
  · cases hstep

/-- A call that is diverted goes to forget its number, with no reply. -/
theorem divert_eq_some {a : Action P} {l' : Link P} (hstep : divert l i c a = some l') :
    ∃ id o, c.stage.id? = some id ∧ c.stage.waits = some id ∧ (∀ x ∈ o, x.fromDevice = false) ∧
      l' = l.move i c (.forgetting id o) := by
  cases a with
  | sendFails j =>
      rw [divert] at hstep
      split at hstep
      · next r hstage =>
          cases hstep
          refine ⟨r.id, some .sendError, by rw [hstage]; rfl, by rw [hstage]; rfl, ?_, rfl⟩
          rintro x ⟨⟩
          rfl
      · cases hstep
  | timeOut j =>
      rw [divert] at hstep
      split at hstep
      · next id hstage =>
          cases hstep
          refine ⟨id, some .ctxError, by rw [hstage]; rfl, by rw [hstage]; rfl, ?_, rfl⟩
          rintro x ⟨⟩
          rfl
      · cases hstep
  | hungUp j =>
      rw [divert] at hstep
      split at hstep
      · next id hstage =>
          split at hstep
          · cases hstep
            exact ⟨id, none, by rw [hstage]; rfl, by rw [hstage]; rfl, nofun, rfl⟩
          · cases hstep
      · cases hstep
  | call j method params => cases hstep
  | proceed j => cases hstep
  | message m => cases hstep
  | receive => cases hstep
  | close => cases hstep
  | closing => cases hstep

theorem inv_divert {a : Action P} {l' : Link P} (h : Inv l) (hi : l.calls i = some c)
    (hstep : divert l i c a = some l') : Inv l' := by
  obtain ⟨id, o, hid, -, ho, rfl⟩ := divert_eq_some hstep
  exact h.move hi hid.symm ho

/-- The receiving goroutine goes where it has no message in hand. -/
theorem Inv.setReceiver (h : Inv l) {r : Receiver} (hlooking : ∀ m, r ≠ .looking m)
    (hdelivering : ∀ m i, r ≠ .delivering m i) : Inv { l with receiver := r } where
  calm := h.calm
  waiting := h.waiting
  nodup := h.nodup
  looking m hm := absurd hm (hlooking m)
  delivering m i hm := absurd hm (hdelivering m i)
  unused := h.unused
  buffered := h.buffered
  sound := h.sound
  done := h.done

theorem inv_enter (h : Inv l) : Inv (enter l) := by
  rw [enter]
  split
  · next hfresh =>
      refine { h with done := fun hclosed => ?_ }
      rcases h.done hclosed with hd | hd <;> rw [hfresh] at hd <;> cases hd
  · exact h

theorem mem_of_lookup {id : Int64} {e : List (Int64 × Nat)} (h : e.lookup id = some i) :
    (id, i) ∈ e := by
  induction e with
  | nil => cases h
  | cons x e ih =>
      obtain ⟨k, v⟩ := x
      by_cases hk : id = k
      · rw [hk, List.lookup_cons_self, Option.some.injEq] at h
        rw [hk, h]
        exact List.mem_cons_self ..
      · rw [List.lookup_cons, beq_eq_false_iff_ne.mpr hk] at h
        exact List.mem_cons_of_mem _ (ih h)

/-- Looking a message up takes its waiter out of the map. -/
theorem Inv.look (h : Inv l) {m : RpcMessage} (hlooking : l.receiver = .looking m)
    (hi : l.waiters.lookup m.id = some i) :
    Inv { l.forget m.id with receiver := .delivering m i } := by
  obtain ⟨hreceived, hmethod⟩ := h.looking m hlooking
  obtain ⟨hreg, hchan⟩ := h.waiting (m.id, i) (mem_of_lookup hi)
  refine { h.forget m.id with looking := nofun, delivering := ?_ }
  rintro m' j hj
  cases hj
  refine ⟨⟨hreg, hreceived, hmethod⟩, hchan, fun hmem => ?_⟩
  obtain ⟨e, he, hj⟩ := List.mem_map.mp hmem
  obtain ⟨hwaiter, hkept⟩ := List.mem_filter.mp he
  obtain rfl : e.2 = i := hj
  exact of_decide_eq_true hkept ((h.waiting e hwaiter).1.unique hreg)

/-- The send of a reply finds room. -/
theorem Inv.send_eq_done (h : Inv l) {m : RpcMessage} (hdelivering : l.receiver = .delivering m i) :
    (l.chans i).send m = .done ⟨1, [m], false⟩ := by
  rw [(h.delivering m i hdelivering).2.1, Channel.send_make Nat.one_pos]

theorem Inv.deliver (h : Inv l) {m : RpcMessage} (hdelivering : l.receiver = .delivering m i) :
    Inv { l.setChan i ⟨1, [m], false⟩ with receiver := .idle } := by
  obtain ⟨hanswers, -, hfree⟩ := h.delivering m i hdelivering
  have hother : ∀ {j : Nat}, j ≠ i → (l.setChan i ⟨1, [m], false⟩).chans j = l.chans j :=
    fun hj => Function.update_of_ne hj ..
  have hself : (l.setChan i ⟨1, [m], false⟩).chans i = ⟨1, [m], false⟩ := Function.update_self ..
  refine ⟨h.calm, ?_, h.nodup, nofun, nofun, ?_, ?_, h.sound, h.done⟩
  · intro e he
    have hne : e.2 ≠ i := fun heq => hfree (List.mem_map.mpr ⟨e, he, heq⟩)
    exact ⟨(h.waiting e he).1, (hother hne).trans (h.waiting e he).2⟩
  · intro j hj
    have hne : j ≠ i := fun heq => hj m.id (heq ▸ hanswers.1)
    exact (hother hne).trans (h.unused j hj)
  · intro j x hx
    change x ∈ ((l.setChan i ⟨1, [m], false⟩).chans j).buffer at hx
    by_cases hj : j = i
    · subst hj
      rw [hself] at hx
      cases List.mem_singleton.mp hx
      exact hanswers
    · rw [hother hj] at hx
      exact h.buffered j x hx

theorem inv_receive {l' : Link P} (h : Inv l) (hstep : receive l = some l') : Inv l' := by
  rw [receive] at hstep
  split at hstep
  · cases hstep
  · cases hstep
    exact (inv_enter h).setReceiver nofun nofun
  · split at hstep
    · cases hstep
      exact h.setReceiver nofun nofun
    · cases hstep
  · next m hlooking =>
      split at hstep
      · next j hj =>
          cases hstep
          exact h.look hlooking hj
      · cases hstep
        exact (h.forget m.id).setReceiver nofun nofun
  · next m j hdelivering =>
      rw [h.send_eq_done hdelivering] at hstep
      cases hstep
      exact h.deliver hdelivering

theorem inv_onMessage (h : Inv l) (hidle : l.receiver = .idle) (m : RpcMessage) :
    Inv (onMessage l m) := by
  have hnoted : Inv { l with received := m :: l.received } := by
    refine ⟨h.calm, h.waiting, h.nodup, ?_, ?_, h.unused, ?_, ?_, h.done⟩
    · intro x hx
      exact absurd (hidle.symm.trans hx) nofun
    · intro x j hx
      exact absurd (hidle.symm.trans hx) nofun
    · intro j x hx
      obtain ⟨hreg, hreceived, hmethod⟩ := h.buffered j x hx
      exact ⟨hreg, List.mem_cons_of_mem m hreceived, hmethod⟩
    · exact fun j d hd => (h.sound j d hd).mono (fun _ => id) fun _ => List.mem_cons_of_mem m
  rw [onMessage]
  split
  · split
    · exact { hnoted.setReceiver (r := .closing) nofun nofun with }
    · exact { hnoted with }
  · next hmethod =>
      refine { hnoted with looking := ?_, delivering := nofun }
      rintro x hx
      cases hx
      exact ⟨List.mem_cons_self .., not_ne_iff.mp hmethod⟩

/-- The sweep closes each waiter's channel, which is open, and no other. -/
theorem Inv.closeAll_waiters (h : Inv l) :
    Channel.closeAll l.chans (l.waiters.map Prod.snd) = .done fun i =>
      if i ∈ l.waiters.map Prod.snd then { l.chans i with closed := true } else l.chans i := by
  refine Channel.closeAll_eq_done h.nodup fun i hi => ?_
  obtain ⟨e, he, rfl⟩ := List.mem_map.mp hi
  rw [(h.waiting e he).2]
  rfl

theorem Inv.sweep (h : Inv l) (chans : Nat → Channel RpcMessage)
    (hchans : chans = fun i =>
      if i ∈ l.waiters.map Prod.snd then { l.chans i with closed := true } else l.chans i) :
    Inv { l with chans := chans, waiters := [], once := .finished } := by
  have hfree : ∀ {i : Nat}, i ∉ l.waiters.map Prod.snd → chans i = l.chans i := by
    intro i hi
    rw [hchans]
    exact if_neg hi
  refine ⟨h.calm, nofun, List.nodup_nil, h.looking, ?_, ?_, ?_, h.sound, fun _ => Or.inr rfl⟩
  · intro m i hm
    obtain ⟨hanswers, hchan, hout⟩ := h.delivering m i hm
    exact ⟨hanswers, (hfree hout).trans hchan, List.not_mem_nil⟩
  · intro i hi
    have hout : i ∉ l.waiters.map Prod.snd := by
      intro hmem
      obtain ⟨e, he, rfl⟩ := List.mem_map.mp hmem
      exact hi e.1 (h.waiting e he).1
    exact (hfree hout).trans (h.unused i hi)
  · intro i m hm
    have hbuffer : (chans i).buffer = (l.chans i).buffer := by
      rw [hchans]
      dsimp only
      split <;> rfl
    exact h.buffered i m (hbuffer ▸ hm)

theorem inv_closing {l' : Link P} (h : Inv l) (hstep : closing l = some l') : Inv l' := by
  rw [closing] at hstep
  split at hstep
  · next honce =>
      have hopen : l.done.closed = false := by
        refine Bool.eq_false_iff.mpr fun hclosed => ?_
        rcases h.done hclosed with hd | hd <;> rw [honce] at hd <;> cases hd
      rw [Channel.close, hopen, if_neg Bool.false_ne_true] at hstep
      cases hstep
      exact { h with done := fun _ => Or.inl rfl }
  · rw [h.closeAll_waiters] at hstep
    cases hstep
    exact h.sweep _ rfl
  · cases hstep
  · cases hstep

theorem Inv.call (h : Inv l) (hi : l.calls i = none) (method : String) (params : Option P) :
    Inv { l with calls := Function.update l.calls i (some ⟨method, params, .entering⟩) } := by
  have hregistered : ∀ {id : Int64} {j : Nat}, Registered
      { l with calls := Function.update l.calls i (some ⟨method, params, .entering⟩) } id j ↔
        Registered l id j := by
    intro id j
    by_cases hj : j = i
    · subst hj
      constructor
      · rintro ⟨d, hd, hid⟩
        cases (Function.update_self ..).symm.trans hd
        cases hid
      · rintro ⟨d, hd, -⟩
        exact absurd (hi.symm.trans hd) nofun
    · have hother : Function.update l.calls i (some ⟨method, params, .entering⟩) j = l.calls j :=
        Function.update_of_ne hj ..
      change (∃ d, Function.update l.calls i _ j = some d ∧ _) ↔ _
      rw [hother]
      exact Iff.rfl
  refine ⟨h.calm, ?_, h.nodup, h.looking, ?_, ?_, ?_, ?_, h.done⟩
  · exact fun e he => ⟨hregistered.mpr (h.waiting e he).1, (h.waiting e he).2⟩
  · intro m j hm
    obtain ⟨⟨hreg, hfrom⟩, hrest⟩ := h.delivering m j hm
    exact ⟨⟨hregistered.mpr hreg, hfrom⟩, hrest⟩
  · exact fun j hj => h.unused j fun id hreg => hj id (hregistered.mpr hreg)
  · exact fun j m hm => ⟨hregistered.mpr (h.buffered j m hm).1, (h.buffered j m hm).2⟩
  · intro j d hd
    by_cases hj : j = i
    · subst hj
      cases (Function.update_self ..).symm.trans hd
      trivial
    · exact h.sound j d ((Function.update_of_ne hj ..).symm.trans hd)

theorem inv_step {marshal : P → Option (List UInt8)} {a : Action P} {l' : Link P} (h : Inv l)
    (hstep : step marshal l a = some l') : Inv l' := by
  rw [step, if_neg (h.calm ▸ Bool.false_ne_true)] at hstep
  cases a with
  | call i method params =>
      rw [act] at hstep
      split at hstep
      · next hi =>
          cases hstep
          exact h.call hi method params
      · cases hstep
  | proceed i =>
      obtain ⟨c, hi, hstep⟩ := Option.bind_eq_some_iff.mp hstep
      exact inv_proceed h hi hstep
  | sendFails i =>
      obtain ⟨c, hi, hstep⟩ := Option.bind_eq_some_iff.mp hstep
      exact inv_divert h hi hstep
  | timeOut i =>
      obtain ⟨c, hi, hstep⟩ := Option.bind_eq_some_iff.mp hstep
      exact inv_divert h hi hstep
  | hungUp i =>
      obtain ⟨c, hi, hstep⟩ := Option.bind_eq_some_iff.mp hstep
      exact inv_divert h hi hstep
  | message m =>
      cases m with
      | none =>
          rw [act] at hstep
          split at hstep
          · cases hstep
            exact h
          · cases hstep
      | some m =>
          rw [act] at hstep
          split at hstep
          · next hidle =>
              cases hstep
              exact inv_onMessage h hidle m
          · cases hstep
  | receive => exact inv_receive h hstep
  | close =>
      cases hstep
      exact inv_enter h
  | closing => exact inv_closing h hstep

theorem inv_run {marshal : P → Option (List UInt8)} {as : List (Action P)}
    (hrun : Machine.run (step marshal) init as = some l) : Inv l :=
  Machine.run_induct inv_init (fun _ _ _ h hstep => inv_step h hstep) hrun

/-! ### No waiter is left behind -/

/-- The parameters of every call made can be marshalled. -/
def Marshals (marshal : P → Option (List UInt8)) : Action P → Prop
  | .call _ _ (some p) => marshal p ≠ none
  | _ => True

/-- Every waiter belongs to a call that will still forget it. -/
structure Tidy (marshal : P → Option (List UInt8)) (l : Link P) : Prop where
  marshals : ∀ i c p, l.calls i = some c → c.params = some p → marshal p ≠ none
  waits : ∀ e ∈ l.waiters, ∃ c, l.calls e.2 = some c ∧ c.stage.waits = some e.1

variable {marshal : P → Option (List UInt8)}

/-- A call may stop waiting once it is not in the map. -/
theorem Tidy.move (h : Tidy marshal l) (hi : l.calls i = some c) {stage : Stage}
    (hwaits : stage.waits = c.stage.waits ∨ i ∉ l.waiters.map Prod.snd) :
    Tidy marshal (l.move i c stage) where
  marshals j d p hd hp := by
    by_cases hj : j = i
    · subst hj
      cases (Function.update_self ..).symm.trans hd
      exact h.marshals j c p hi hp
    · exact h.marshals j d p ((Function.update_of_ne hj ..).symm.trans hd) hp
  waits e he := by
    obtain ⟨d, hd, hdwaits⟩ := h.waits e he
    by_cases hj : e.2 = i
    · rw [hj, hi] at hd
      cases hd
      have hkept := hwaits.resolve_right (not_not.mpr (List.mem_map.mpr ⟨e, he, hj⟩))
      exact ⟨{ c with stage := stage }, hj ▸ Function.update_self .., hkept.trans hdwaits⟩
    · exact ⟨d, (Function.update_of_ne hj ..).trans hd, hdwaits⟩

theorem Tidy.forget (h : Tidy marshal l) (id : Int64) : Tidy marshal (l.forget id) where
  marshals := h.marshals
  waits e he := h.waits e (List.mem_filter.mp he).1

/-- A call that forgets its number is in the map no more. -/
theorem Tidy.notMem_forget (h : Tidy marshal l) (hi : l.calls i = some c) {id : Int64}
    (hid : c.stage.waits = some id) : i ∉ (l.forget id).waiters.map Prod.snd := by
  intro hmem
  obtain ⟨e, he, rfl⟩ := List.mem_map.mp hmem
  obtain ⟨hwaiter, hkept⟩ := List.mem_filter.mp he
  obtain ⟨d, hd, hdwaits⟩ := h.waits e hwaiter
  rw [hi, Option.some.injEq] at hd
  rw [← hd, hid, Option.some.injEq] at hdwaits
  exact of_decide_eq_true hkept hdwaits.symm

theorem Tidy.register (h : Tidy marshal l) (hi : l.calls i = some c)
    (hstage : c.stage = .registering) (id : Int64) :
    Tidy marshal ({ l.forget id with
      nextID := id, waiters := (id, i) :: (l.forget id).waiters }.move i c (.marshalling id)) := by
  have hnone : i ∉ (l.forget id).waiters.map Prod.snd := by
    intro hmem
    obtain ⟨e, he, rfl⟩ := List.mem_map.mp hmem
    obtain ⟨d, hd, hdwaits⟩ := (h.forget id).waits e he
    cases hi.symm.trans hd
    rw [hstage] at hdwaits
    cases hdwaits
  have hmoved : Tidy marshal ((l.forget id).move i c (.marshalling id)) :=
    (h.forget id).move hi (Or.inr hnone)
  refine ⟨hmoved.marshals, fun e he => ?_⟩
  rcases List.mem_cons.mp he with rfl | he
  · exact ⟨_, Function.update_self .., rfl⟩
  · exact hmoved.waits e he

theorem tidy_proceed {l' : Link P} (hinv : Inv l) (h : Tidy marshal l) (hi : l.calls i = some c)
    (hstep : proceed marshal l i c = some l') : Tidy marshal l' := by
  rw [proceed] at hstep
  split at hstep
  · next hstage =>
      cases hstep
      refine h.move hi (Or.inl ?_)
      rw [hstage]
      split <;> rfl
  · next hstage =>
      cases hstep
      exact h.register hi hstage _
  · next id hstage =>
      split at hstep
      · cases hstep
        exact h.move hi (Or.inl (by rw [hstage]; rfl))
      · next p hp =>
          split at hstep
          · cases hstep
            exact h.move hi (Or.inl (by rw [hstage]; rfl))
          · next hfails => exact absurd hfails (h.marshals i c p hi hp)
  · next r hstage =>
      cases hstep
      have hsent : Tidy marshal { l with sent := r :: l.sent } := { h with }
      exact hsent.move hi (Or.inl (by rw [hstage]; rfl))
  · next id hstage =>
      obtain ⟨r, hr, rfl⟩ := Option.map_eq_some_iff.mp hstep
      have hne : l.chans i ≠ .make 1 := by
        intro hmake
        rw [hmake] at hr
        cases hr
      have hfree := (hinv.free_of_buffer hne).1
      have htaken : Tidy marshal (l.setChan i r.2) := { h with }
      split
      · exact htaken.move hi (Or.inr hfree)
      · exact h.move hi (Or.inr hfree)
  · next id o hstage =>
      have hfree := h.notMem_forget hi (show c.stage.waits = some id by rw [hstage]; rfl)
      cases o with
      | some o =>
          cases hstep
          exact (h.forget id).move hi (Or.inr hfree)
      | none =>
          cases hstep
          exact (h.forget id).move hi (Or.inr hfree)
  · next id hstage =>
      cases hstep
      exact h.move hi (Or.inl (by rw [hstage]; rfl))
  · cases hstep

theorem tidy_divert {a : Action P} {l' : Link P} (h : Tidy marshal l) (hi : l.calls i = some c)
    (hstep : divert l i c a = some l') : Tidy marshal l' := by
  obtain ⟨id, o, -, hwaits, -, rfl⟩ := divert_eq_some hstep
  exact h.move hi (Or.inl hwaits.symm)

theorem tidy_enter (h : Tidy marshal l) : Tidy marshal (enter l) := by
  rw [enter]
  split
  · exact { h with }
  · exact h

theorem tidy_receive {l' : Link P} (h : Tidy marshal l) (hstep : receive l = some l') :
    Tidy marshal l' := by
  rw [receive] at hstep
  split at hstep
  · cases hstep
  · cases hstep
    exact { tidy_enter h with }
  · split at hstep
    · cases hstep
      exact { h with }
    · cases hstep
  · next m _ => split at hstep <;> cases hstep <;> exact { h.forget m.id with }
  · split at hstep
    · cases hstep
      exact { h with }
    · cases hstep
    · cases hstep
      exact { h with }

theorem tidy_closing {l' : Link P} (h : Tidy marshal l) (hstep : closing l = some l') :
    Tidy marshal l' := by
  rw [closing] at hstep
  split at hstep
  · split at hstep
    · cases hstep
      exact { h with }
    · cases hstep
    · cases hstep
      exact { h with }
  · split at hstep
    · cases hstep
      exact { h with waits := nofun }
    · cases hstep
    · cases hstep
      exact { h with }
  · cases hstep
  · cases hstep

theorem Tidy.call (h : Tidy marshal l) (hi : l.calls i = none) {method : String}
    {params : Option P} (hparams : ∀ p, params = some p → marshal p ≠ none) :
    Tidy marshal
      { l with calls := Function.update l.calls i (some ⟨method, params, .entering⟩) } where
  marshals j d p hd hp := by
    by_cases hj : j = i
    · subst hj
      cases (Function.update_self ..).symm.trans hd
      exact hparams p hp
    · exact h.marshals j d p ((Function.update_of_ne hj ..).symm.trans hd) hp
  waits e he := by
    obtain ⟨d, hd, hdwaits⟩ := h.waits e he
    have hj : e.2 ≠ i := by
      intro hj
      rw [hj, hi] at hd
      cases hd
    exact ⟨d, (Function.update_of_ne hj ..).trans hd, hdwaits⟩

theorem tidy_step {a : Action P} {l' : Link P} (hinv : Inv l) (h : Tidy marshal l)
    (ha : Marshals marshal a) (hstep : step marshal l a = some l') : Tidy marshal l' := by
  rw [step, if_neg (hinv.calm ▸ Bool.false_ne_true)] at hstep
  cases a with
  | call i method params =>
      rw [act] at hstep
      split at hstep
      · next hi =>
          cases hstep
          refine h.call hi fun p hp => ?_
          subst hp
          exact ha
      · cases hstep
  | proceed i =>
      obtain ⟨c, hi, hstep⟩ := Option.bind_eq_some_iff.mp hstep
      exact tidy_proceed hinv h hi hstep
  | sendFails i =>
      obtain ⟨c, hi, hstep⟩ := Option.bind_eq_some_iff.mp hstep
      exact tidy_divert h hi hstep
  | timeOut i =>
      obtain ⟨c, hi, hstep⟩ := Option.bind_eq_some_iff.mp hstep
      exact tidy_divert h hi hstep
  | hungUp i =>
      obtain ⟨c, hi, hstep⟩ := Option.bind_eq_some_iff.mp hstep
      exact tidy_divert h hi hstep
  | message m =>
      cases m with
      | none =>
          rw [act] at hstep
          split at hstep
          · cases hstep
            exact h
          · cases hstep
      | some m =>
          rw [act] at hstep
          split at hstep
          · cases hstep
            rw [onMessage]
            split
            · split <;> exact { h with }
            · exact { h with }
          · cases hstep
  | receive => exact tidy_receive h hstep
  | close =>
      cases hstep
      exact tidy_enter h
  | closing => exact tidy_closing h hstep

theorem tidy_run (marshal : P → Option (List UInt8)) :
    ∀ as l, Machine.meets (step marshal) (fun _ a => Marshals marshal a) init as →
      Machine.run (step marshal) init as = some l → Tidy marshal l :=
  Machine.run_history_of_meets (P := fun _ l => Tidy marshal l) ⟨nofun, nofun⟩
    fun _ _ _ _ hrun h ha hstep => tidy_step (inv_run hrun) h ha hstep

/-- No call is in progress. -/
def Idle (l : Link P) : Prop :=
  ∀ i c, l.calls i = some c → ∃ id o, c.stage = .returned id o

/-- In every run nothing panics, the goroutine that takes the messages can always deliver, and what
a call returns from the device is the reply to its own request. When all parameters could be
marshalled, no waiter is left once no call is in progress. -/
theorem calls_answered (marshal : P → Option (List UInt8)) (as : List (Action P)) (l : Link P)
    (hrun : Machine.run (step marshal) init as = some l) :
    l.panicked = false ∧
    (∀ m i, l.receiver = .delivering m i →
      ∃ l', step marshal l .receive = some l' ∧ l'.panicked = false ∧ l'.receiver = .idle) ∧
    (∀ i c id o, l.calls i = some c → c.stage = .returned id o → o.fromDevice = true →
      ∃ m ∈ l.received, ∃ r ∈ l.sent, id = some m.id ∧ r.id = m.id ∧ r.method = c.method ∧
        m.method = "" ∧ m.outcome = o) ∧
    (Machine.meets (step marshal) (fun _ a => Marshals marshal a) init as → Idle l →
      l.waiters = []) := by
  have hinv := inv_run hrun
  refine ⟨hinv.calm, fun m i hm => ?_, fun i c id o hi hstage ho => ?_, fun hmeets hidle => ?_⟩
  · refine ⟨{ l.setChan i ⟨1, [m], false⟩ with receiver := .idle }, ?_, hinv.calm, rfl⟩
    rw [step, if_neg (hinv.calm ▸ Bool.false_ne_true), act, receive, hm]
    dsimp only
    rw [hinv.send_eq_done hm]
  · have hsound := hinv.sound i c hi
    rw [hstage] at hsound
    obtain ⟨m, hm, hid, hmethod, houtcome, r, hr, hrid, hrmethod⟩ := hsound ho
    exact ⟨m, hm, r, hr, hid, hrid, hrmethod, hmethod, houtcome⟩
  · refine List.eq_nil_iff_forall_not_mem.mpr fun e he => ?_
    obtain ⟨c, hc, hwaits⟩ := (tidy_run marshal as l hmeets hrun).waits e he
    obtain ⟨id, o, hstage⟩ := hidle e.2 c hc
    rw [hstage] at hwaits
    cases hwaits

/-- Integers as JSON has them; anything else stands for a value that it has not, like a channel. -/
def marshalInt (p : Option Int) : Option (List UInt8) :=
  p.map fun n => (toString n).toList.map fun c => UInt8.ofNat c.toNat

/-- One call and its reply. -/
def oneCall : List (Action (Option Int)) :=
  [.call 0 "wheelReport" (some (some 1)), .proceed 0, .proceed 0, .proceed 0, .proceed 0,
    .message (some ⟨1, [110, 117, 108, 108], none, "", []⟩), .receive, .receive, .proceed 0]

theorem calls_answered_oneCall :
    ∃ l, Machine.run (step marshalInt) init oneCall = some l ∧ l.panicked = false ∧
      ∃ m ∈ l.received, ∃ r ∈ l.sent, some (1 : Int64) = some m.id ∧ r.id = m.id ∧
        r.method = "wheelReport" ∧ m.method = "" ∧ m.outcome = .result [110, 117, 108, 108] := by
  refine ⟨_, rfl, (calls_answered marshalInt oneCall _ rfl).1, ?_⟩
  exact (calls_answered marshalInt oneCall _ rfl).2.2.1 0 _ _ _ rfl rfl rfl

/-- A call whose parameters cannot be marshalled returns and leaves its waiter in the map. -/
theorem waiter_left_behind :
    ∃ l, Machine.run (step marshalInt) init
        [.call 0 "wheelReport" (some none), .proceed 0, .proceed 0, .proceed 0] = some l ∧
      Idle l ∧ l.waiters = [(1, 0)] := by
  refine ⟨_, rfl, fun i c hi => ?_, rfl⟩
  cases i with
  | zero =>
      cases hi
      exact ⟨_, _, rfl⟩
  | succ i => cases hi

end Calls

end Jetkvm

end Paniolo
