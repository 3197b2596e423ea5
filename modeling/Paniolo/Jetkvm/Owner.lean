import Mathlib.Logic.Function.Basic
import Paniolo.Library.Machine
import Paniolo.Jetkvm.Hid

/-!
# The owner of the JetKVM session

`jetkvm/owner.go` and the keeper of `jetkvm/video.go`: one worker executes the
queued command lines and releases, `maintain` keeps the session alive, a keeper
runs for the clients of `/rfb`, and for every session a `watch` notes how it
ended. All of them dial through `ensureLink`. The goroutines are interleaved;
each section under a mutex is one step, and what is read in one section may be
out of date in the next.

The part that all of them share is `Core`. Its last three fields are no part of
the program: they record whether a dial would fight for a session that was taken
over, whether one did, and which goroutines act on something from before.
-/

namespace Paniolo

namespace Jetkvm

def reqCap : Nat := 256

/-- A second; time is in milliseconds. -/
def second : Nat := 1000
def pingEvery : Nat := 20 * second
def maxBackoff : Nat := 30 * second

def errKicked : String := "session taken over by another client"

/-- The goroutines that dial. -/
inductive Actor where
  | worker
  | maintain
  | keeper (i : Nat)
deriving DecidableEq, Repr

/-- A session: whether `Done` is closed, and what `Kicked` says. -/
structure Link where
  done : Bool
  kicked : Bool
deriving DecidableEq, Repr

/-- Where a goroutine is with respect to `ensureLink`: not on the way to it; in
the middle of something for which it may call it; or at one of its steps. -/
inductive Stage where
  | idle
  | busy
  | check
  | lock
  | recheck
  | dialing
  | dialed (l : Nat)
deriving DecidableEq, Repr

/-- The stages within the section of `connMu`. -/
def Stage.holds : Stage → Bool
  | .recheck | .dialing | .dialed _ => true
  | _ => false

/-- What `dial` returns. -/
inductive DialOutcome where
  | ok
  | error (e : String)
deriving DecidableEq, Repr

/-- What `ensureLink` has come to. -/
inductive Ensured where
  | waiting
  | got (l : Nat)
  | opened (l : Nat)
  | failed (e : String)
deriving DecidableEq, Repr

/-- What the goroutines share. -/
structure Core where
  /-- Every session dialed so far. -/
  links : List Link
  link : Option Nat
  kicked : Bool
  connMu : Option Actor
  stage : Actor → Stage
  /-- A session has ended kicked, and since then neither a command line was
  dequeued nor has a keeper taken its first step. -/
  barred : Bool
  /-- `dial` was called while barred. -/
  fought : Bool
  /-- The goroutine acts on something from before the last session that ended
  kicked, or on a flag that it read before that end was noted. -/
  stale : Actor → Bool

namespace Core

def initial : Core := ⟨[], none, false, none, fun _ => .idle, false, false, fun _ => false⟩

variable (c : Core)

def isLive (l : Nat) : Bool := c.links[l]?.any fun k => !k.done

def endedKicked (l : Nat) : Bool := c.links[l]?.any fun k => k.done && k.kicked

/-- `liveLink`. -/
def liveLink : Option Nat := c.link.filter c.isLive

/-- A session that ended kicked, in the owner's hands or about to be, and not yet
noted by its `watch`. -/
def unnoted : Bool :=
  c.link.any c.endedKicked || c.connMu.any fun a =>
    match c.stage a with
    | .dialed l => c.endedKicked l
    | _ => false

def move (me : Actor) (s : Stage) : Core := { c with stage := Function.update c.stage me s }

/-- What is explicit intent: a command line, the first step of a keeper. -/
def intend (me : Actor) (s : Stage) : Core :=
  { c with
    barred := false
    stale := Function.update c.stale me false
    stage := Function.update c.stage me s }

/-- A release finds the session up. -/
def resumeLive (me : Actor) (s : Stage) : Core :=
  { c with
    stale := Function.update c.stale me false
    stage := Function.update c.stage me s }

/-- A goroutine decides to connect by the flag it has just read. -/
def decideByFlag (me : Actor) : Core :=
  { c with
    stale := Function.update c.stale me c.unnoted
    stage := Function.update c.stage me .check }

/-- One step of `ensureLink`. -/
def ensureStep (me : Actor) (o : DialOutcome) : Option (Core × Ensured) :=
  match c.stage me with
  | .check =>
      match c.liveLink with
      | some l => some (c.move me .busy, .got l)
      | none => some (c.move me .lock, .waiting)
  | .lock =>
      if c.connMu = none then some ({ c with connMu := some me }.move me .recheck, .waiting)
      else none
  | .recheck =>
      match c.liveLink with
      | some l => some ({ c with connMu := none }.move me .busy, .got l)
      | none => some ({ c with fought := c.fought || c.barred }.move me .dialing, .waiting)
  | .dialing =>
      match o with
      | .ok =>
          let opened : Core := { c with links := c.links ++ [⟨false, false⟩] }
          some (opened.move me (.dialed c.links.length), .waiting)
      | .error e => some ({ c with connMu := none }.move me .busy, .failed e)
  | .dialed l =>
      some ({ c with link := some l, kicked := false, connMu := none }.move me .busy, .opened l)
  | .idle | .busy => none

/-- `Close` on a session. -/
def drop (l : Nat) : Core :=
  { c with links := c.links.modify l fun k => { k with done := true } }

/-- The message that another client took over: it ends a session that is up. -/
def kick (l : Nat) : Core :=
  if c.isLive l then
    { c with
      links := c.links.modify l fun _ => ⟨true, true⟩
      barred := true
      stale := fun _ => true }
  else { c with links := c.links.modify l fun k => { k with kicked := true } }

/-- The section of `watch`, when the session is the owner's. -/
def noteEnd (l : Nat) : Core := { c with link := none, kicked := c.kicked || c.endedKicked l }

end Core

/-- What is left of a command line after a call. -/
abbrev Prog := Dialogue Rpc Reply (Except String String × Session)

/-- `request`: a line and whether its client gave up, or a release. -/
inductive Request where
  | command (line : List Char) (gone : Bool)
  | release
deriving DecidableEq, Repr

/-- The worker: the line it executes (none for a release) and the call it is at. -/
inductive Worker where
  | idle
  | releasing
  | calling (job : Option (List Char)) (rpc : Rpc) (k : Reply → Prog)
  | inFlight (job : Option (List Char)) (l : Nat) (rpc : Rpc) (k : Reply → Prog)

inductive Maintain where
  | waiting
  | pinging (l : Nat)
  | dead
  | connecting
  | failed
deriving DecidableEq, Repr

inductive KeeperAt where
  | ready
  | looked (connected : Bool)
  | connecting
  | waiting
  | stopped
deriving DecidableEq, Repr

structure Keeper where
  first : Bool
  pc : KeeperAt
  cancelled : Bool
deriving DecidableEq, Repr

/-- `Video`, as far as it starts and stops keepers. -/
structure Video where
  available : Bool
  refs : Nat
  active : Bool
  closed : Bool
  lastErr : String
deriving DecidableEq, Repr

/-- How a call on a session comes back; a broken one drops the session. -/
inductive RpcOutcome where
  | ok (r : String)
  | rpcError (e : String)
  | broken (e : String)
deriving DecidableEq, Repr

def RpcOutcome.reply : RpcOutcome → Reply
  | .ok r => .ok r
  | .rpcError e => .error e
  | .broken e => .error e

/-- The daemon. -/
structure World where
  core : Core
  lastErr : String
  now : Nat
  nextTry : Nat
  backoff : Nat
  lastPing : Nat
  /-- The sessions whose `watch` has not come to its section. -/
  watches : List Nat
  session : Session
  reqs : List Request
  worker : Worker
  maintain : Maintain
  video : Video
  keepers : List Keeper
  /-- What was replied, with the line. -/
  answers : List (Option (List Char) × Except String String)

/-- The steps of the goroutines, of their clients, and of the sessions. -/
inductive Action where
  | submit (line : List Char)
  | submitRelease
  | giveUp (i : Nat)
  | dequeue
  | connected
  | workerEnsure (o : DialOutcome)
  | workerReply (o : RpcOutcome)
  | drop (l : Nat)
  | kick (l : Nat)
  | watch (l : Nat)
  | tick
  | pingReply (o : RpcOutcome)
  | readFlag
  | maintainEnsure (o : DialOutcome)
  | backOff
  | acquire
  | release
  | deactivate
  | closeVideo
  | look (i : Nat)
  | readKicked (i : Nat)
  | keeperEnsure (i : Nat) (o : DialOutcome)
  | keeperTick (i : Nat)
  | keeperStop (i : Nat)
  | pass (d : Nat)
deriving DecidableEq, Repr

namespace World

def initial (ffmpeg : Bool) : World where
  core := .initial
  lastErr := ""
  now := 0
  nextTry := 0
  backoff := 0
  lastPing := 0
  watches := []
  session := .new
  reqs := []
  worker := .idle
  maintain := .waiting
  video := ⟨ffmpeg, 0, false, false, ""⟩
  keepers := []
  answers := []

variable (w : World)

/-- One step of `ensureLink`, with what it leaves in the owner. -/
def ensureLink (me : Actor) (o : DialOutcome) : Option (World × Ensured) := do
  let (core, out) ← w.core.ensureStep me o
  match out with
  | .opened l =>
      return ({ w with core, lastErr := "", backoff := 0, watches := w.watches ++ [l] }, .got l)
  | .failed e => return ({ w with core, lastErr := e }, .failed e)
  | out => return ({ w with core }, out)

/-- `executeLine` up to its next call, or its end. -/
def resume (job : Option (List Char)) : Prog → World
  | .done (result, session) =>
      { w with
        core := w.core.move .worker .idle
        session := session
        worker := .idle
        answers := w.answers ++ [(job, result)] }
  | .call rpc k =>
      { w with core := w.core.move .worker .check, worker := .calling job rpc k }

def setKeeper (i : Nat) (k : Keeper) : World := { w with keepers := w.keepers.set i k }

/-- A keeper is done with one round. -/
def rested (i : Nat) (k : Keeper) (err : String) : World :=
  { w.setKeeper i { k with first := false, pc := .waiting } with
    core := w.core.move (.keeper i) .idle
    video := { w.video with lastErr := err } }

/-- The current keeper's context is cancelled. -/
def cancel : World :=
  { w with
    keepers := w.keepers.modify (w.keepers.length - 1) fun k => { k with cancelled := true } }

/-- `handle`, up to the first call. -/
def handle : Request → World
  | .release => { w with worker := .releasing }
  | .command line true =>
      { w with
        core := w.core.intend .worker .idle
        answers := w.answers ++ [(some line, .error "context canceled")] }
  | .command line false =>
      { w with core := w.core.intend .worker .busy }.resume (some line)
        (ExceptT.run (executeLine line) w.session)

/-- The section of `watch`. -/
def watch (l : Nat) : World :=
  let w := { w with watches := w.watches.erase l }
  if w.core.link = some l then
    if w.core.endedKicked l then
      { w with core := w.core.noteEnd l, lastErr := errKicked }
    else
      { w with
        core := w.core.noteEnd l
        lastErr := "session dropped"
        nextTry := w.now + second }
  else w

/-- A tick of `maintain`: a session that is up is pinged now and then. -/
def tick : World :=
  match w.core.liveLink with
  | some l =>
      if w.now - w.lastPing ≥ pingEvery then { w with lastPing := w.now, maintain := .pinging l }
      else w
  | none => { w with maintain := .dead }

/-- `maintain` reads the flag and decides. -/
def readFlag : World :=
  if w.core.kicked || decide (w.now < w.nextTry) then { w with maintain := .waiting }
  else { w with core := w.core.decideByFlag .maintain, maintain := .connecting }

/-- `maintain` failed to connect. -/
def backOff : World :=
  let backoff := if w.backoff = 0 then second else min (w.backoff * 2) maxBackoff
  { w with
    backoff := backoff
    nextTry := w.now + backoff
    maintain := .waiting
    lastPing := w.now }

/-- `Acquire`. -/
def acquire : World :=
  let w := { w with video := { w.video with refs := w.video.refs + 1 } }
  if w.video.active then w
  else
    { w with
      video := { w.video with active := true }
      keepers := w.keepers ++ [⟨true, .ready, false⟩] }

/-- A keeper reads the first half of the link state. -/
def look (i : Nat) (k : Keeper) : World :=
  { w.setKeeper i { k with pc := .looked w.core.liveLink.isSome } with
    core := if k.first then w.core.intend (.keeper i) .busy else w.core }

/-- A keeper reads the second half of the link state and decides. -/
def readKicked (i : Nat) (k : Keeper) (connected : Bool) : World :=
  if !connected && (k.first || !w.core.kicked) then
    { w.setKeeper i { k with pc := .connecting } with
      core := if k.first then w.core.move (.keeper i) .check else w.core.decideByFlag (.keeper i) }
  else if !connected && w.core.kicked then
    w.rested i k "session taken over by another client; reattach to retry"
  else w.rested i k w.video.lastErr

end World

/-- One step; `none` when it cannot be taken. -/
def step (w : World) : Action → Option World
  | .submit line =>
      if (line.rdropWhile isNewline).any isNewline = false ∧ w.reqs.length < reqCap then
        some { w with reqs := w.reqs ++ [.command line false] }
      else none
  | .submitRelease =>
      if w.reqs.length < reqCap then some { w with reqs := w.reqs ++ [.release] } else none
  | .giveUp i =>
      match w.reqs[i]? with
      | some (.command line _) => some { w with reqs := w.reqs.set i (.command line true) }
      | _ => none
  | .dequeue =>
      match w.worker, w.reqs with
      | .idle, r :: rest => some ({ w with reqs := rest }.handle r)
      | _, _ => none
  | .connected =>
      match w.worker with
      | .releasing =>
          match w.core.liveLink with
          | some _ =>
              some ({ w with core := w.core.resumeLive .worker .busy }.resume none
                (ExceptT.run (bare releaseAll) w.session))
          | none => some { w with worker := .idle, answers := w.answers ++ [(none, .ok "")] }
      | _ => none
  | .workerEnsure o =>
      match w.worker with
      | .calling job rpc k => do
          let (w, out) ← w.ensureLink .worker o
          match out with
          | .got l => return { w with worker := .inFlight job l rpc k }
          | .failed e => return w.resume job (k (.error e))
          | _ => return w
      | _ => none
  | .workerReply o =>
      match w.worker with
      | .inFlight job l _ k =>
          match o with
          | .broken _ => some ({ w with core := w.core.drop l }.resume job (k o.reply))
          | _ => some (w.resume job (k o.reply))
      | _ => none
  | .drop l => some { w with core := w.core.drop l }
  | .kick l => some { w with core := w.core.kick l }
  | .watch l =>
      if l ∈ w.watches ∧ w.core.isLive l = false then some (w.watch l) else none
  | .tick => if w.maintain = .waiting then some w.tick else none
  | .pingReply o =>
      match w.maintain, o with
      | .pinging l, .broken _ => some { w with core := w.core.drop l, maintain := .waiting }
      | .pinging _, _ => some { w with maintain := .waiting }
      | _, _ => none
  | .readFlag => if w.maintain = .dead then some w.readFlag else none
  | .maintainEnsure o =>
      if w.maintain = .connecting then do
        let (w, out) ← w.ensureLink .maintain o
        match out with
        | .got _ =>
            return { w with
              core := w.core.move .maintain .idle, maintain := .waiting, lastPing := w.now }
        | .failed _ => return { w with core := w.core.move .maintain .idle, maintain := .failed }
        | _ => return w
      else none
  | .backOff => if w.maintain = .failed then some w.backOff else none
  | .acquire =>
      if w.video.available = true ∧ w.video.closed = false then some w.acquire else none
  | .release => some { w with video := { w.video with refs := w.video.refs - 1 } }
  | .deactivate =>
      if w.video.refs = 0 ∧ w.video.active = true then
        some { w.cancel with video := { w.video with active := false } }
      else none
  | .closeVideo =>
      some { w.cancel with video := { w.video with closed := true, refs := 0, active := false } }
  | .look i =>
      match w.keepers[i]? with
      | some k => if k.pc = .ready then some (w.look i k) else none
      | none => none
  | .readKicked i =>
      match w.keepers[i]? with
      | some k =>
          match k.pc with
          | .looked connected => some (w.readKicked i k connected)
          | _ => none
      | none => none
  | .keeperEnsure i o =>
      match w.keepers[i]? with
      | some k =>
          if k.pc = .connecting then do
            let (w, out) ← w.ensureLink (.keeper i) o
            match out with
            | .got _ => return w.rested i k ""
            | .failed e => return w.rested i k ("JetKVM session: " ++ e)
            | _ => return w
          else none
      | none => none
  | .keeperTick i =>
      match w.keepers[i]? with
      | some k => if k.pc = .waiting then some (w.setKeeper i { k with pc := .ready }) else none
      | none => none
  | .keeperStop i =>
      match w.keepers[i]? with
      | some k =>
          if k.pc = .waiting ∧ k.cancelled = true then
            some (w.setKeeper i { k with pc := .stopped })
          else none
      | none => none
  | .pass d => some { w with now := w.now + d }

end Jetkvm

end Paniolo
