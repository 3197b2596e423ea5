import Mathlib.Logic.Function.Basic
import Paniolo.Library.Machine

/-!
# The zigplug daemon and its clients

One-shot invocations of `zigplug` route their operation through a daemon that
owns the Zigbee coordinator. They find it by its discovery file, and start one
under a lock file when there is none (`request`, `ensure`, `spawn`); a record
on whose port nothing listens is dropped (`call`, `forget`). The daemon opens
the coordinator, publishes its record, serves until it is stopped, removes the
file and only then closes the coordinator (`serve`).

The clients and the daemons are parts of one machine. Each action of it is one
access of a client or a daemon to something they share: the file, the lock, the
socket, the coordinator, a process. How long anything takes is left open, so
the actions of different processes come in any order.
-/

namespace Paniolo

namespace Zigplug

/-- A daemon as published in its discovery file. The token is drawn afresh by
every daemon, so it is the daemon's own number here. -/
structure Daemon where
  pid : Nat
  port : Nat
  device : String
  token : Nat
deriving DecidableEq, Repr

/-- How far a daemon process has come in `serve`. -/
inductive Stage where
  /-- No process of this number has been started. -/
  | unborn
  /-- Started by `Popen`; it will look for a running daemon first. -/
  | started
  /-- Opening the coordinator. -/
  | connecting
  /-- The coordinator is open. -/
  | opened
  /-- The socket is bound and listening. -/
  | listening
  /-- The discovery file is published. -/
  | serving
  /-- Stopped: the discovery file is removed. -/
  | stopping
  /-- The socket is closed. -/
  | cleaned
  /-- The coordinator is closed. -/
  | closed
  | exited
deriving DecidableEq, Repr

namespace Stage

/-- The process has the coordinator open. -/
def isOpen : Stage → Bool
  | opened | listening | serving | stopping | cleaned => true
  | _ => false

/-- The process exists. -/
def isAlive : Stage → Bool
  | unborn | exited => false
  | _ => true

/-- A connection to its port is accepted. -/
def isListening : Stage → Bool
  | listening | serving | stopping => true
  | _ => false

/-- On the way up, not yet published, or on the way down, no longer published
and the coordinator not yet closed. -/
def isPending : Stage → Bool
  | started | connecting | opened | listening | stopping | cleaned => true
  | _ => false

end Stage

structure Process where
  pid : Nat
  port : Nat
  device : String
  stage : Stage
deriving Repr

/-- Where a client is in `request`. -/
inductive Pc where
  | idle
  /-- `ensure` is about to look for a daemon. -/
  | ensure
  /-- `spawn` waits for the lock. -/
  | locking
  /-- `spawn` has the lock and is about to look again. -/
  | checking
  /-- It has found no daemon and is about to start one. -/
  | starting
  /-- The loop that waits for the daemon to come up. -/
  | polling
  /-- `call` is under way, of `/healthz` inside `spawn` or of the operation. -/
  | calling (d : Daemon) (inSpawn : Bool)
  /-- Nothing listens: `forget` is about to read the file. -/
  | comparing (d : Daemon) (inSpawn : Bool)
  /-- The file was the one of `d`: `forget` is about to remove it. -/
  | dropping (d : Daemon) (inSpawn : Bool)
deriving DecidableEq, Repr

/-- The client is inside `spawn`, past `flock`. -/
def Pc.isLocked : Pc → Bool
  | checking | starting | polling => true
  | calling _ inSpawn | comparing _ inSpawn | dropping _ inSpawn => inSpawn
  | _ => false

structure Client where
  device : String
  pc : Pc
  /-- `request` is in its second attempt. -/
  again : Bool
deriving Repr

structure State where
  /-- The discovery file. -/
  file : Option Daemon
  /-- The client that holds the spawn lock. -/
  lock : Option Nat
  /-- How many daemon processes have been started. -/
  born : Nat
  process : Nat → Process
  client : Nat → Client

def initial : State where
  file := none
  lock := none
  born := 0
  process := fun _ => ⟨0, 0, "", .unborn⟩
  client := fun _ => ⟨"", .idle, false⟩

/-- An access to what the processes share. `reused` says that the recorded pid
belongs to some process even if the daemon is dead. -/
inductive Action where
  | begin (c : Nat) (device : String)
  | find (c : Nat) (reused : Bool)
  | lock (c : Nat)
  | popen (c : Nat) (pid : Nat)
  /-- The daemon replies to a `call`. -/
  | answered (c : Nat)
  /-- The daemon replies with an error, or the call times out. -/
  | failed (c : Nat)
  | refused (c : Nat)
  | compare (c : Nat)
  | drop (c : Nat)
  /-- The daemon did not start within `SPAWN_TIMEOUT_S`. -/
  | timeout (c : Nat)
  /-- The client is interrupted. -/
  | die (c : Nat)
  | look (i : Nat) (reused : Bool)
  /-- The coordinator is open now. -/
  | connect (i : Nat)
  | listen (i : Nat) (port : Nat)
  | publish (i : Nat)
  /-- `/stop`, a signal or the loss of the radio. -/
  | stop (i : Nat)
  | cleanup (i : Nat)
  | shutdown (i : Nat)
  | exit (i : Nat)
  | crash (i : Nat)
deriving DecidableEq, Repr

namespace State

/-- What daemon `i` publishes. -/
def record (s : State) (i : Nat) : Daemon :=
  ⟨(s.process i).pid, (s.process i).port, (s.process i).device, i⟩

/-- `_pid_alive`. -/
def pidAlive (s : State) (reused : Bool) (pid : Nat) : Bool :=
  reused || (List.range s.born).any fun j =>
    (s.process j).pid == pid && (s.process j).stage.isAlive

/-- `read_discovery`. -/
def readDiscovery (s : State) (reused : Bool) : Option Daemon :=
  s.file.filter fun d => s.pidAlive reused d.pid

/-- `find_daemon`; a daemon that serves another device is an error. -/
def findDaemon (s : State) (reused : Bool) (device : String) : Except Daemon (Option Daemon) :=
  match s.readDiscovery reused with
  | none => .ok none
  | some d => if d.device = device then .ok (some d) else .error d

/-- Nothing accepts a connection to the port. -/
def isRefused (s : State) (port : Nat) : Bool :=
  (List.range s.born).all fun j =>
    !((s.process j).port == port && (s.process j).stage.isListening)

/-- Client `c` goes on at `pc`. -/
def goto (s : State) (c : Nat) (pc : Pc) : State :=
  { s with client := Function.update s.client c { s.client c with pc := pc } }

/-- Client `c` leaves `spawn`, and goes on at `pc`. -/
def unlock (s : State) (c : Nat) (pc : Pc) : State :=
  { s.goto c pc with lock := none }

/-- An exception leaves `request`; inside `spawn` the lock is released. -/
def fail (s : State) (c : Nat) : State :=
  if (s.client c).pc.isLocked then s.unlock c .idle else s.goto c .idle

/-- `DaemonGone`: the loop of `spawn` goes on, and `request` tries once more. -/
def gone (s : State) (c : Nat) (inSpawn : Bool) : State :=
  if inSpawn then s.goto c .polling
  else if (s.client c).again then s.goto c .idle
  else { s with client :=
    Function.update s.client c ⟨(s.client c).device, .ensure, true⟩ }

/-- Daemon `i` reaches `stage`. -/
def reach (s : State) (i : Nat) (stage : Stage) : State :=
  { s with process := Function.update s.process i { s.process i with stage := stage } }

end State

open State

/-- The daemon goes from one stage to the next. -/
def advance (s : State) (i : Nat) (old new : Stage) : Option State :=
  if (s.process i).stage = old then some (s.reach i new) else none

/-- What a client does with the answer of `find_daemon`. -/
def found (s : State) (c : Nat) (reused : Bool) : Option State :=
  match (s.client c).pc, s.findDaemon reused (s.client c).device with
  | .ensure, .ok none => some (s.goto c .locking)
  | .ensure, .ok (some d) => some (s.goto c (.calling d false))
  | .checking, .ok none => some (s.goto c .starting)
  | .checking, .ok (some d) => some (s.unlock c (.calling d false))
  | .polling, .ok none => some s
  | .polling, .ok (some d) => some (s.goto c (.calling d true))
  | .ensure, .error _ | .checking, .error _ | .polling, .error _ => some (s.fail c)
  | _, _ => none

def step (s : State) : Action → Option State
  | .begin c device =>
      if (s.client c).pc = .idle then
        some { s with client := Function.update s.client c ⟨device, .ensure, false⟩ }
      else none
  | .find c reused => found s c reused
  | .lock c =>
      if (s.client c).pc = .locking ∧ s.lock = none then
        some { s.goto c .checking with lock := some c }
      else none
  | .popen c pid =>
      if (s.client c).pc = .starting then
        some { s.goto c .polling with
          born := s.born + 1
          process := Function.update s.process s.born
            ⟨pid, 0, (s.client c).device, .started⟩ }
      else none
  | .answered c =>
      match (s.client c).pc with
      | .calling d true => some (s.unlock c (.calling d false))
      | .calling _ false => some (s.goto c .idle)
      | _ => none
  | .failed c =>
      match (s.client c).pc with
      | .calling _ true => some (s.goto c .polling)
      | .calling _ false => some (s.goto c .idle)
      | _ => none
  | .refused c =>
      match (s.client c).pc with
      | .calling d inSpawn =>
          if s.isRefused d.port then some (s.goto c (.comparing d inSpawn)) else none
      | _ => none
  | .compare c =>
      match (s.client c).pc with
      | .comparing d inSpawn =>
          if s.file = some d then some (s.goto c (.dropping d inSpawn))
          else some (s.gone c inSpawn)
      | _ => none
  | .drop c =>
      match (s.client c).pc with
      | .dropping _ inSpawn => some { s.gone c inSpawn with file := none }
      | _ => none
  | .timeout c =>
      if (s.client c).pc = .polling then some (s.fail c) else none
  | .die c => some (s.fail c)
  | .look i reused =>
      advance s i .started (if (s.readDiscovery reused).isSome then .exited else .connecting)
  | .connect i => advance s i .connecting .opened
  | .listen i port =>
      if (s.process i).stage = .opened then
        some { s with
          process := Function.update s.process i
            ⟨(s.process i).pid, port, (s.process i).device, .listening⟩ }
      else none
  | .publish i =>
      (advance s i .listening .serving).map fun t => { t with file := some (s.record i) }
  | .stop i => (advance s i .serving .stopping).map fun t => { t with file := none }
  | .cleanup i => advance s i .stopping .cleaned
  | .shutdown i => advance s i .cleaned .closed
  | .exit i => advance s i .closed .exited
  | .crash i =>
      if (s.process i).stage.isAlive then some (s.reach i .exited) else none

end Zigplug

end Paniolo
