import Mathlib.Data.List.Basic
import Mathlib.Tactic.Common
import Paniolo.Library.Entries
import Paniolo.Library.Machine

/-!
# The daemons' runtime directory

The helper daemons come up alike: each takes an advisory lock on `daemon.lock`
in its runtime directory, opens its device, binds a port, draws a token, and
publishes all this in `daemon.json` by writing a temporary file and renaming
it. On a stop it removes `daemon.json` and exits; the lock file stays. The
helpers' one-shots and the CLI read `daemon.json`, and some of them remove a
record of a process that is gone.

The model is one such directory, with any number of daemon processes that are
started, stopped or killed at any time, and any number of readers. A step is
one system call. `runtime_directory` says that one process at a time has the
device, that no reader sees half a record or the port of another daemon, and
that a daemon that serves can be found as long as no reader removes a record it
has not looked at.
-/

namespace Paniolo

namespace Daemon

/-- What the daemons differ in: the text for a second one, and whether a one-shot removes the record
of a dead process (`discover`). -/
structure Kind where
  alreadyRunning : String
  removesStale : Bool

namespace Kind

def serialcap : Kind := ⟨"another serialcap daemon is already running", true⟩

def hdmicap : Kind := ⟨"another hdmicap daemon is already running", true⟩

def hidrig : Kind := ⟨"another hid daemon is already running", false⟩

def ch9329 : Kind := ⟨"another hid daemon is already running", false⟩

def jetkvm : Kind := ⟨"another hid daemon is already running", false⟩

end Kind

/-- `Discovery`, as far as a reader needs it. -/
structure Record where
  pid : Nat
  port : Nat
  token : String
deriving DecidableEq

/-- A file that is being written holds the first part of its record. -/
structure Content where
  record : Record
  whole : Bool
deriving DecidableEq

/-- Where a daemon is in `run`, `write_private_file` included. -/
inductive Stage where
  | started
  | opened
  | locked
  | bound
  | cleared
  | created
  | written
  | serving
  | stopping
  | lingering
  | exited (error : Option String)
deriving DecidableEq

namespace Stage

/-- The process has the lock, and with it the device. -/
def hasLock : Stage → Bool
  | .started => false
  | .opened => false
  | .exited _ => false
  | _ => true

def isAlive : Stage → Bool
  | .exited _ => false
  | _ => true

/-- The process may have published its record, and keeps its port and token. -/
def isPublished : Stage → Bool
  | .serving => true
  | .stopping => true
  | .lingering => true
  | .exited _ => true
  | _ => false

end Stage

/-- A process; `inode` is the lock file it has opened. -/
structure Process where
  stage : Stage
  inode : Nat
  port : Nat
  token : String
deriving DecidableEq

/-- A helper's one-shot, or the CLI after it has ended the process of a number
(`remove_discovery_for_pid`). -/
inductive Purpose where
  | discover
  | removeFor (pid : Nat)
deriving DecidableEq

inductive Sight where
  | looking
  | saw (r : Record)
  | found (r : Record)
  | removing (r : Record)
  | malformed
  | nothing
deriving DecidableEq

structure Reader where
  purpose : Purpose
  sight : Sight
deriving DecidableEq

/-- The processes are numbered by their process ids, which are not used twice. -/
structure State where
  processes : List Process
  readers : List Reader
  lockFile : Option Nat
  inodes : Nat
  tmp : Option Content
  discovery : Option Content

inductive Action where
  | start
  | openLock (p : Nat)
  | tryLock (p : Nat)
  | bind (p : Nat) (port : Nat) (token : String)
  | clear (p : Nat)
  | create (p : Nat)
  | write (p : Nat)
  | rename (p : Nat)
  | stop (p : Nat)
  | unlink (p : Nat)
  | exit (p : Nat)
  | look (purpose : Purpose)
  | read (j : Nat)
  | check (j : Nat)
  | remove (j : Nat)

def Process.record (a : Process) (p : Nat) : Record :=
  ⟨p, a.port, a.token⟩

namespace State

def new : State :=
  ⟨[], [], none, 0, none, none⟩

def setProcess (s : State) (p : Nat) (a : Process) : State :=
  { s with processes := s.processes.set p a }

def goto (s : State) (p : Nat) (a : Process) (stage : Stage) : State :=
  s.setProcess p { a with stage := stage }

def see (s : State) (j : Nat) (b : Reader) (sight : Sight) : State :=
  { s with readers := s.readers.set j { b with sight := sight } }

/-- `pid_alive`. -/
def pidAlive (s : State) (pid : Nat) : Bool :=
  (s.processes[pid]?).any fun a => a.stage.isAlive

/-- Some process has the advisory lock of the file. -/
def isLocked (s : State) (inode : Nat) : Bool :=
  s.processes.any fun a => a.stage.hasLock && a.inode == inode

/-- `File::create` on the lock path: the file that is there, or a new one. -/
def openLock (s : State) (p : Nat) (a : Process) : State :=
  match s.lockFile with
  | some inode => s.setProcess p { a with stage := .opened, inode := inode }
  | none => { s.setProcess p { a with stage := .opened, inode := s.inodes } with
      lockFile := some s.inodes, inodes := s.inodes + 1 }

def tryLock (kind : Kind) (s : State) (p : Nat) (a : Process) : State :=
  if s.isLocked a.inode then s.goto p a (.exited (some kind.alreadyRunning)) else s.goto p a .locked

/-- `create_new`, which fails on a leftover. -/
def create (s : State) (p : Nat) (a : Process) : State :=
  match s.tmp with
  | some _ => s.goto p a (.exited (some "writing discovery file"))
  | none => { s.goto p a .created with tmp := some ⟨a.record p, false⟩ }

/-- The rest of the record goes to the file that the process created, if that still has a name. -/
def write (s : State) (p : Nat) (a : Process) : State :=
  match s.tmp with
  | some c => { s.goto p a .written with
      tmp := some (if c.record.pid = p then ⟨c.record, true⟩ else c) }
  | none => s.goto p a .written

def rename (s : State) (p : Nat) (a : Process) : State :=
  match s.tmp with
  | some c => { s.goto p a .serving with tmp := none, discovery := some c }
  | none => s.goto p a (.exited (some "writing discovery file"))

def read (s : State) (j : Nat) (b : Reader) : State :=
  match s.discovery with
  | some c => s.see j b (if c.whole then .saw c.record else .malformed)
  | none => s.see j b .nothing

def check (kind : Kind) (s : State) (j : Nat) (b : Reader) (r : Record) : State :=
  match b.purpose with
  | .discover =>
      if s.pidAlive r.pid then s.see j b (.found r)
      else if kind.removesStale then s.see j b (.removing r)
      else s.see j b .nothing
  | .removeFor pid => if r.pid = pid then s.see j b (.removing r) else s.see j b .nothing

/-- A process takes a step from a stage. -/
def stepFrom (s : State) (p : Nat) (stage : Stage) (f : Process → State) : Option State :=
  (s.processes[p]?).bind fun a => if a.stage = stage then some (f a) else none

def step (kind : Kind) (s : State) : Action → Option State
  | .start => some { s with processes := s.processes ++ [⟨.started, 0, 0, ""⟩] }
  | .openLock p => s.stepFrom p .started (s.openLock p)
  | .tryLock p => s.stepFrom p .opened (s.tryLock kind p)
  | .bind p port token => s.stepFrom p .locked fun a =>
      s.setProcess p { a with stage := .bound, port := port, token := token }
  | .clear p => s.stepFrom p .bound fun a => { s.goto p a .cleared with tmp := none }
  | .create p => s.stepFrom p .cleared (s.create p)
  | .write p => s.stepFrom p .created (s.write p)
  | .rename p => s.stepFrom p .written (s.rename p)
  | .stop p => s.stepFrom p .serving fun a => s.goto p a .stopping
  | .unlink p => s.stepFrom p .stopping fun a => { s.goto p a .lingering with discovery := none }
  | .exit p => (s.processes[p]?).bind fun a =>
      if a.stage.isAlive then some (s.goto p a (.exited none)) else none
  | .look purpose => some { s with readers := s.readers ++ [⟨purpose, .looking⟩] }
  | .read j => (s.readers[j]?).bind fun b =>
      if b.sight = .looking then some (s.read j b) else none
  | .check j => (s.readers[j]?).bind fun b =>
      match b.sight with
      | .saw r => some (s.check kind j b r)
      | _ => none
  | .remove j => (s.readers[j]?).bind fun b =>
      match b.sight with
      | .removing _ => some { s.see j b .nothing with discovery := none }
      | _ => none

/-- A record is removed only while the process it names is gone. -/
def Careful (s : State) : Action → Prop
  | .remove _ => ∀ c, s.discovery = some c → s.pidAlive c.record.pid = false
  | _ => True

/-- What the directory is worth. -/
structure Sound (s : State) : Prop where
  /-- One process at a time has the device. -/
  owner : ∀ (p q : Nat) (a b : Process), s.processes[p]? = some a → s.processes[q]? = some b →
    a.stage.hasLock = true → b.stage.hasLock = true → p = q
  /-- The file has a whole record. -/
  whole : ∀ c, s.discovery = some c → c.whole = true
  /-- No reader has seen less. -/
  wellFormed : ∀ (j : Nat) (b : Reader), s.readers[j]? = some b → b.sight ≠ .malformed
  /-- A record that a reader has seen, with a process that lives, is that of the daemon that has the
  device. -/
  endpoint : ∀ (j : Nat) (b : Reader) (r : Record), s.readers[j]? = some b → b.sight = .saw r →
    s.pidAlive r.pid = true →
      ∃ a, s.processes[r.pid]? = some a ∧ a.stage.hasLock = true ∧ a.record r.pid = r

/-- A daemon that serves is found in the file. -/
def Listed (s : State) : Prop :=
  ∀ (p : Nat) (a : Process), s.processes[p]? = some a → a.stage = .serving →
    s.discovery = some ⟨a.record p, true⟩

variable {kind : Kind} {s t : State} {p : Nat} {a b : Process}

theorem stepFrom_eq_some {stage : Stage} {f : Process → State} :
    s.stepFrom p stage f = some t ↔ ∃ a, s.processes[p]? = some a ∧ a.stage = stage ∧ f a = t := by
  rw [stepFrom, Option.bind_eq_some_iff]
  refine exists_congr fun a => and_congr_right fun _ => ?_
  rw [Option.ite_none_right_eq_some, Option.some_inj]

/-- The process of the record has published it. -/
def Published (s : State) (r : Record) : Prop :=
  ∃ a, s.processes[r.pid]? = some a ∧ a.stage.isPublished = true ∧ a.record r.pid = r

/-- What holds of the record that a reader has seen. -/
def Seen (s : State) : Sight → Prop
  | .looking => True
  | .saw r => s.Published r
  | .found r => s.Published r
  | .removing r => s.Published r
  | .malformed => False
  | .nothing => True

/-- What every run keeps. -/
structure Inv (s : State) : Prop where
  lockFile : ∀ (p : Nat) (a : Process), s.processes[p]? = some a →
    a.stage = .opened ∨ a.stage.hasLock = true → s.lockFile = some a.inode
  owner : ∀ (p q : Nat) (a b : Process), s.processes[p]? = some a → s.processes[q]? = some b →
    a.stage.hasLock = true → b.stage.hasLock = true → p = q
  tmp : ∀ (p : Nat) (a : Process), s.processes[p]? = some a →
    a.stage = .created ∨ a.stage = .written →
      ∃ w, s.tmp = some ⟨a.record p, w⟩ ∧ (a.stage = .written → w = true)
  discovery : ∀ c, s.discovery = some c → c.whole = true ∧ s.Published c.record
  readers : ∀ (j : Nat) (b : Reader), s.readers[j]? = some b → s.Seen b.sight

theorem inv_new : new.Inv where
  lockFile p a ha := by cases ha
  owner p q a b ha := by cases ha
  tmp p a ha := by cases ha
  discovery c hc := by cases hc
  readers j b hb := by cases hb

/-- A published record stays so while processes are added and go on. -/
theorem Published.mono {r : Record} (h : s.Published r)
    (hkeep : ∀ (q : Nat) (b : Process), s.processes[q]? = some b → b.stage.isPublished = true →
      ∃ b', t.processes[q]? = some b' ∧ b'.stage.isPublished = true ∧ b'.record q = b.record q) :
    t.Published r := by
  obtain ⟨a, ha, hpub, hrecord⟩ := h
  obtain ⟨a', ha', hpub', hrecord'⟩ := hkeep _ a ha hpub
  exact ⟨a', ha', hpub', hrecord'.trans hrecord⟩

/-- A daemon that lives and has published its record has the device. -/
theorem Published.endpoint {r : Record} (hr : s.Published r) (halive : s.pidAlive r.pid = true) :
    ∃ a, s.processes[r.pid]? = some a ∧ a.stage.hasLock = true ∧ a.record r.pid = r := by
  obtain ⟨a, ha, hpub, hrecord⟩ := hr
  rw [pidAlive, ha, Option.any_some] at halive
  refine ⟨a, ha, ?_, hrecord⟩
  cases hstage : a.stage with
  | exited error =>
      rw [hstage] at halive
      cases halive
  | _ =>
      rw [hstage] at hpub
      first
      | rfl
      | cases hpub

theorem Seen.mono {sight : Sight} (h : s.Seen sight)
    (hkeep : ∀ r, s.Published r → t.Published r) : t.Seen sight := by
  cases sight with
  | looking => trivial
  | saw r => exact hkeep r h
  | found r => exact hkeep r h
  | removing r => exact hkeep r h
  | malformed => exact h
  | nothing => trivial

theorem published_set {a' : Process} (ha : s.processes[p]? = some a)
    (hprocesses : t.processes = s.processes.set p a')
    (hpub : a.stage.isPublished = true → a'.stage.isPublished = true ∧ a'.record p = a.record p) :
    ∀ r, s.Published r → t.Published r := by
  refine fun r hr => hr.mono fun q b hb hb' => ?_
  rw [hprocesses]
  by_cases hpq : p = q
  · subst hpq
    cases ha.symm.trans hb
    obtain ⟨hlt, -⟩ := List.getElem?_eq_some_iff.mp ha
    exact ⟨a', List.getElem?_set_self hlt, (hpub hb').1, (hpub hb').2⟩
  · exact ⟨b, (List.getElem?_set_ne hpq).trans hb, hb', rfl⟩

theorem isLocked_iff {inode : Nat} : s.isLocked inode = true ↔
    ∃ (q : Nat) (b : Process), s.processes[q]? = some b ∧ b.stage.hasLock = true ∧
      b.inode = inode := by
  rw [isLocked, List.any_eq_true]
  constructor
  · rintro ⟨b, hb, hlocked⟩
    obtain ⟨q, hq⟩ := List.mem_iff_getElem?.mp hb
    rw [Bool.and_eq_true, beq_iff_eq] at hlocked
    exact ⟨q, b, hq, hlocked⟩
  · rintro ⟨q, b, hq, hlocked⟩
    refine ⟨b, List.mem_iff_getElem?.mpr ⟨q, hq⟩, ?_⟩
    rw [Bool.and_eq_true, beq_iff_eq]
    exact hlocked

namespace Inv

/-- The process that has the lock is alone in having it. -/
theorem alone (h : s.Inv) (ha : s.processes[p]? = some a) (hlock : a.stage.hasLock = true) :
    ∀ (q : Nat) (b : Process), s.processes[q]? = some b → b.stage.hasLock = true → q = p :=
  fun q b hb hb' => h.owner q p b a hb ha hb' hlock

/-- A process takes a step. -/
theorem move (h : s.Inv) {a' : Process} (ha : s.processes[p]? = some a)
    (hprocesses : t.processes = s.processes.set p a') (hreaders : t.readers = s.readers)
    (hpub : a.stage.isPublished = true → a'.stage.isPublished = true ∧ a'.record p = a.record p)
    (halone : a'.stage.hasLock = true →
      ∀ (q : Nat) (b : Process), s.processes[q]? = some b → b.stage.hasLock = true → q = p)
    (hinode : a'.stage = .opened ∨ a'.stage.hasLock = true → t.lockFile = some a'.inode)
    (hlockFile : ∀ n, s.lockFile = some n → t.lockFile = some n)
    (htmp : t.tmp = s.tmp ∨ a.stage.hasLock = true)
    (hown : a'.stage = .created ∨ a'.stage = .written →
      ∃ w, t.tmp = some ⟨a'.record p, w⟩ ∧ (a'.stage = .written → w = true))
    (hdiscovery : ∀ c, t.discovery = some c →
      s.discovery = some c ∨ c.whole = true ∧ t.Published c.record) : t.Inv where
  lockFile := by
    rw [hprocesses]
    exact Entries.forall_set hinode fun q b _ hb hb' => hlockFile _ (h.lockFile q b hb hb')
  owner := by
    rw [hprocesses]
    have hone : ∀ (q : Nat) (b : Process), (s.processes.set p a')[q]? = some b →
        b.stage.hasLock = true → a'.stage.hasLock = true → q = p := by
      refine Entries.forall_set (fun _ _ => rfl) fun q b _ hb hb' ha' => halone ha' q b hb hb'
    intro q r b c hb hc hb' hc'
    by_cases hq : p = q
    · subst hq
      obtain ⟨hlt, -⟩ := List.getElem?_eq_some_iff.mp ha
      rw [List.getElem?_set_self hlt] at hb
      cases hb
      exact (hone r c hc hc' hb').symm
    · by_cases hr : p = r
      · subst hr
        obtain ⟨hlt, -⟩ := List.getElem?_eq_some_iff.mp ha
        rw [List.getElem?_set_self hlt] at hc
        cases hc
        exact hone q b hb hb' hc'
      · rw [List.getElem?_set_ne hq] at hb
        rw [List.getElem?_set_ne hr] at hc
        exact h.owner q r b c hb hc hb' hc'
  tmp := by
    rw [hprocesses]
    refine Entries.forall_set hown fun q b hq hb hb' => ?_
    rcases htmp with htmp | hlock
    · rw [htmp]
      exact h.tmp q b hb hb'
    · have hb'' : b.stage.hasLock = true := by
        rcases hb' with hb' | hb'
        all_goals
          rw [hb']
          rfl
      exact absurd (h.alone ha hlock q b hb hb'') hq
  discovery c hc := by
    rcases hdiscovery c hc with hc' | hnew
    · exact ⟨(h.discovery c hc').1,
        published_set ha hprocesses hpub c.record (h.discovery c hc').2⟩
    · exact hnew
  readers := by
    rw [hreaders]
    exact fun j b hb => (h.readers j b hb).mono (published_set ha hprocesses hpub)

/-- A process goes to another stage and leaves the files alone. -/
theorem goto (h : s.Inv) {stage : Stage} (ha : s.processes[p]? = some a)
    (hpub : a.stage.isPublished = true → stage.isPublished = true)
    (halone : stage.hasLock = true →
      ∀ (q : Nat) (b : Process), s.processes[q]? = some b → b.stage.hasLock = true → q = p)
    (hinode : stage = .opened ∨ stage.hasLock = true → s.lockFile = some a.inode)
    (hown : stage ≠ .created ∧ stage ≠ .written) : (s.goto p a stage).Inv := by
  refine h.move ha rfl rfl (fun hp => ⟨hpub hp, rfl⟩) halone hinode (fun _ hn => hn) (.inl rfl)
    (fun hat => ?_) fun _ hc => .inl hc
  rcases hat with hat | hat
  · exact absurd hat hown.1
  · exact absurd hat hown.2

/-- The process ends, for whatever reason. -/
theorem exited (h : s.Inv) (ha : s.processes[p]? = some a) (error : Option String) :
    (s.goto p a (.exited error)).Inv := by
  refine h.goto ha (fun _ => rfl) (fun hlock => by cases hlock) (fun hat => ?_)
    ⟨fun h => Stage.noConfusion h, fun h => Stage.noConfusion h⟩
  rcases hat with hat | hat
  · cases hat
  · cases hat

/-- A reader takes a step and leaves the files alone. -/
theorem see (h : s.Inv) {j : Nat} {b : Reader} {sight : Sight} (hsight : s.Seen sight) :
    (s.see j b sight).Inv where
  lockFile := h.lockFile
  owner := h.owner
  tmp := h.tmp
  discovery := h.discovery
  readers := Entries.forall_set hsight fun i c _ hc => h.readers i c hc

theorem openLock (h : s.Inv) (ha : s.processes[p]? = some a) (hstage : a.stage = .started) :
    (s.openLock p a).Inv := by
  unfold State.openLock
  have hnot : a.stage.isPublished = true → False := by
    rw [hstage]
    exact Bool.false_ne_true
  split
  next inode hfile =>
    refine h.move ha rfl rfl (fun hp => (hnot hp).elim) (fun hlock => by cases hlock)
      (fun _ => hfile) (fun _ hn => hn) (.inl rfl) (fun hat => ?_) fun _ hc => .inl hc
    rcases hat with hat | hat
    · cases hat
    · cases hat
  next hfile =>
    refine h.move ha rfl rfl (fun hp => (hnot hp).elim) (fun hlock => by cases hlock)
      (fun _ => rfl) (fun n hn => ?_) (.inl rfl) (fun hat => ?_) fun _ hc => .inl hc
    · rw [hfile] at hn
      cases hn
    · rcases hat with hat | hat
      · cases hat
      · cases hat

theorem tryLock (h : s.Inv) (ha : s.processes[p]? = some a) (hstage : a.stage = .opened) :
    (s.tryLock kind p a).Inv := by
  unfold State.tryLock
  have hfile := h.lockFile p a ha (.inl hstage)
  split_ifs with hlocked
  · exact h.exited ha _
  · refine h.goto ha (fun hp => ?_) (fun _ q b hb hb' => ?_) (fun _ => hfile)
      ⟨fun h => Stage.noConfusion h, fun h => Stage.noConfusion h⟩
    · rw [hstage] at hp
      cases hp
    · have hsame : b.inode = a.inode :=
        Option.some.inj ((h.lockFile q b hb (.inr hb')).symm.trans hfile)
      exact absurd (isLocked_iff.mpr ⟨q, b, hb, hb', hsame⟩) hlocked

/-- The steps of the process that has the lock. -/
theorem locked (h : s.Inv) {a' : Process} (ha : s.processes[p]? = some a)
    (hprocesses : t.processes = s.processes.set p a') (hreaders : t.readers = s.readers)
    (hlockFile : t.lockFile = s.lockFile) (hlock : a.stage.hasLock = true)
    (hinode : a'.inode = a.inode)
    (hpub : a.stage.isPublished = true → a'.stage.isPublished = true ∧ a'.record p = a.record p)
    (hown : a'.stage = .created ∨ a'.stage = .written →
      ∃ w, t.tmp = some ⟨a'.record p, w⟩ ∧ (a'.stage = .written → w = true))
    (hdiscovery : ∀ c, t.discovery = some c →
      s.discovery = some c ∨ c.whole = true ∧ t.Published c.record) : t.Inv := by
  refine h.move ha hprocesses hreaders hpub (fun _ => h.alone ha hlock) (fun _ => ?_)
    (fun n hn => hlockFile.trans hn) (.inr hlock) hown hdiscovery
  rw [hlockFile, hinode]
  exact h.lockFile p a ha (.inr hlock)

theorem create (h : s.Inv) (ha : s.processes[p]? = some a) (hstage : a.stage = .cleared) :
    (s.create p a).Inv := by
  unfold State.create
  split
  next => exact h.exited ha _
  next =>
    refine h.locked ha rfl rfl rfl (by rw [hstage]; rfl) rfl (fun hp => ?_) (fun _ => ?_)
      fun _ hc => .inl hc
    · rw [hstage] at hp
      cases hp
    · exact ⟨false, rfl, fun hat => by cases hat⟩

theorem write (h : s.Inv) (ha : s.processes[p]? = some a) (hstage : a.stage = .created) :
    (s.write p a).Inv := by
  obtain ⟨w, htmp, -⟩ := h.tmp p a ha (.inl hstage)
  unfold State.write
  rw [htmp]
  refine h.locked ha rfl rfl rfl (by rw [hstage]; rfl) rfl (fun hp => ?_) (fun _ => ?_)
    fun _ hc => .inl hc
  · rw [hstage] at hp
    cases hp
  · exact ⟨true, congrArg some (if_pos rfl), fun _ => rfl⟩

theorem rename_eq (h : s.Inv) (ha : s.processes[p]? = some a) (hstage : a.stage = .written) :
    s.rename p a = { s.goto p a .serving with
      tmp := none, discovery := some ⟨a.record p, true⟩ } := by
  obtain ⟨w, htmp, hw⟩ := h.tmp p a ha (.inr hstage)
  unfold State.rename
  rw [htmp, hw hstage]

theorem rename (h : s.Inv) (ha : s.processes[p]? = some a) (hstage : a.stage = .written) :
    (s.rename p a).Inv := by
  rw [h.rename_eq ha hstage]
  refine h.locked ha rfl rfl rfl (by rw [hstage]; rfl) rfl (fun hp => ?_) (fun hat => ?_)
    fun c hc => .inr ?_
  · rw [hstage] at hp
    cases hp
  · rcases hat with hat | hat
    · cases hat
    · cases hat
  · cases hc
    obtain ⟨hlt, -⟩ := List.getElem?_eq_some_iff.mp ha
    exact ⟨rfl, _, List.getElem?_set_self hlt, rfl, rfl⟩

theorem read (h : s.Inv) {j : Nat} {b : Reader} : (s.read j b).Inv := by
  unfold State.read
  split
  next c hc =>
    obtain ⟨hwhole, hpub⟩ := h.discovery c hc
    rw [if_pos hwhole]
    exact h.see hpub
  next => exact h.see trivial

theorem check (h : s.Inv) {j : Nat} {b : Reader} {r : Record} (hr : s.Published r) :
    (s.check kind j b r).Inv := by
  unfold State.check
  split
  next =>
    split_ifs
    · exact h.see hr
    · exact h.see hr
    · exact h.see trivial
  next =>
    split_ifs
    · exact h.see hr
    · exact h.see trivial

/-- One lemma for each step. -/
theorem step (h : s.Inv) {act : Action} (hstep : s.step kind act = some t) : t.Inv := by
  cases act with
  | start =>
      cases hstep
      have hnew : ∀ {q : Nat} {b : Process}, s.processes[q]? = some b →
          (s.processes ++ [(⟨.started, 0, 0, ""⟩ : Process)])[q]? = some b := by
        intro q b hb
        obtain ⟨hlt, -⟩ := List.getElem?_eq_some_iff.mp hb
        exact (List.getElem?_append_left hlt).trans hb
      have hold : ∀ (q : Nat) (b : Process),
          (s.processes ++ [(⟨.started, 0, 0, ""⟩ : Process)])[q]? = some b →
            b.stage ≠ .started → s.processes[q]? = some b :=
        Entries.forall_concat (fun hne => absurd rfl hne) fun q b hb _ => hb
      have hkeep : ∀ r, s.Published r → State.Published
          { s with processes := s.processes ++ [⟨.started, 0, 0, ""⟩] } r :=
        fun r hr => hr.mono fun q b hb hb' => ⟨b, hnew hb, hb', rfl⟩
      refine ⟨?_, ?_, ?_, fun c hc => ?_, fun j b hb => (h.readers j b hb).mono hkeep⟩
      · refine fun q b hb hat => h.lockFile q b (hold q b hb fun hstarted => ?_) hat
        rw [hstarted] at hat
        rcases hat with hat | hat
        · cases hat
        · cases hat
      · refine fun q r b c hb hc hb' hc' =>
          h.owner q r b c (hold q b hb fun hb => ?_) (hold r c hc fun hc => ?_) hb' hc'
        · rw [hb] at hb'
          cases hb'
        · rw [hc] at hc'
          cases hc'
      · refine fun q b hb hat => h.tmp q b (hold q b hb fun hstarted => ?_) hat
        rw [hstarted] at hat
        rcases hat with hat | hat
        · cases hat
        · cases hat
      · exact ⟨(h.discovery c hc).1, hkeep _ (h.discovery c hc).2⟩
  | openLock p =>
      obtain ⟨a, ha, hstage, rfl⟩ := stepFrom_eq_some.mp hstep
      exact h.openLock ha hstage
  | tryLock p =>
      obtain ⟨a, ha, hstage, rfl⟩ := stepFrom_eq_some.mp hstep
      exact h.tryLock ha hstage
  | bind p port token =>
      obtain ⟨a, ha, hstage, rfl⟩ := stepFrom_eq_some.mp hstep
      refine h.locked ha rfl rfl rfl (by rw [hstage]; rfl) rfl (fun hp => ?_) (fun hat => ?_)
        fun _ hc => .inl hc
      · rw [hstage] at hp
        cases hp
      · rcases hat with hat | hat
        · cases hat
        · cases hat
  | clear p =>
      obtain ⟨a, ha, hstage, rfl⟩ := stepFrom_eq_some.mp hstep
      refine h.locked ha rfl rfl rfl (by rw [hstage]; rfl) rfl (fun hp => ?_) (fun hat => ?_)
        fun _ hc => .inl hc
      · rw [hstage] at hp
        cases hp
      · rcases hat with hat | hat
        · cases hat
        · cases hat
  | create p =>
      obtain ⟨a, ha, hstage, rfl⟩ := stepFrom_eq_some.mp hstep
      exact h.create ha hstage
  | write p =>
      obtain ⟨a, ha, hstage, rfl⟩ := stepFrom_eq_some.mp hstep
      exact h.write ha hstage
  | rename p =>
      obtain ⟨a, ha, hstage, rfl⟩ := stepFrom_eq_some.mp hstep
      exact h.rename ha hstage
  | stop p =>
      obtain ⟨a, ha, hstage, rfl⟩ := stepFrom_eq_some.mp hstep
      refine h.locked ha rfl rfl rfl (by rw [hstage]; rfl) rfl (fun _ => ⟨rfl, rfl⟩) (fun hat => ?_)
        fun _ hc => .inl hc
      rcases hat with hat | hat
      · cases hat
      · cases hat
  | unlink p =>
      obtain ⟨a, ha, hstage, rfl⟩ := stepFrom_eq_some.mp hstep
      refine h.locked ha rfl rfl rfl (by rw [hstage]; rfl) rfl (fun _ => ⟨rfl, rfl⟩) (fun hat => ?_)
        fun _ hc => by cases hc
      rcases hat with hat | hat
      · cases hat
      · cases hat
  | exit p =>
      obtain ⟨a, ha, hstep⟩ := Option.bind_eq_some_iff.mp hstep
      obtain ⟨-, hstep⟩ := Option.ite_none_right_eq_some.mp hstep
      cases hstep
      exact h.exited ha none
  | look purpose =>
      cases hstep
      exact ⟨h.lockFile, h.owner, h.tmp, h.discovery, Entries.forall_concat trivial h.readers⟩
  | read j =>
      obtain ⟨b, hb, hstep⟩ := Option.bind_eq_some_iff.mp hstep
      obtain ⟨-, hstep⟩ := Option.ite_none_right_eq_some.mp hstep
      cases hstep
      exact h.read
  | check j =>
      obtain ⟨b, hb, hstep⟩ := Option.bind_eq_some_iff.mp hstep
      split at hstep
      next r hsaw =>
        cases hstep
        have hseen := h.readers j b hb
        rw [hsaw] at hseen
        exact h.check hseen
      next => cases hstep
  | remove j =>
      obtain ⟨b, hb, hstep⟩ := Option.bind_eq_some_iff.mp hstep
      split at hstep
      next =>
        cases hstep
        have hsee := (h.see trivial : (s.see j b .nothing).Inv)
        exact ⟨hsee.lockFile, hsee.owner, hsee.tmp, (fun c hc => by cases hc), hsee.readers⟩
      next => cases hstep

theorem sound (h : s.Inv) : s.Sound where
  owner := h.owner
  whole c hc := (h.discovery c hc).1
  wellFormed j b hb hsight := by
    have hseen := h.readers j b hb
    rw [hsight] at hseen
    exact hseen
  endpoint j b r hb hsaw halive := by
    have hseen := h.readers j b hb
    rw [hsaw] at hseen
    exact hseen.endpoint halive

end Inv

/-! ### What the file is worth to those who look for a daemon -/

/-- The file is left alone by a step after which no other daemon serves. -/
theorem Listed.mono {p : Nat} {a' : Process} (h : s.Listed)
    (hprocesses : t.processes = s.processes.set p a') (hstage : a'.stage ≠ .serving)
    (hdiscovery : t.discovery = s.discovery) : t.Listed := by
  intro q b
  rw [hprocesses, hdiscovery]
  revert q b
  exact Entries.forall_set (fun hserving => absurd hserving hstage) fun q b _ hb => h q b hb

theorem Listed.step (h : s.Inv) (hl : s.Listed) {act : Action} (hcareful : s.Careful act)
    (hstep : s.step kind act = some t) : t.Listed := by
  cases act with
  | start =>
      cases hstep
      exact Entries.forall_concat (fun hserving => by cases hserving) hl
  | openLock p =>
      obtain ⟨a, ha, -, rfl⟩ := stepFrom_eq_some.mp hstep
      unfold State.openLock
      split
      next => exact hl.mono rfl (fun h => Stage.noConfusion h) rfl
      next => exact hl.mono rfl (fun h => Stage.noConfusion h) rfl
  | tryLock p =>
      obtain ⟨a, ha, -, rfl⟩ := stepFrom_eq_some.mp hstep
      unfold State.tryLock
      split_ifs
      · exact hl.mono rfl (fun h => Stage.noConfusion h) rfl
      · exact hl.mono rfl (fun h => Stage.noConfusion h) rfl
  | bind p port token =>
      obtain ⟨a, ha, -, rfl⟩ := stepFrom_eq_some.mp hstep
      exact hl.mono rfl (fun h => Stage.noConfusion h) rfl
  | clear p =>
      obtain ⟨a, ha, -, rfl⟩ := stepFrom_eq_some.mp hstep
      exact hl.mono rfl (fun h => Stage.noConfusion h) rfl
  | create p =>
      obtain ⟨a, ha, -, rfl⟩ := stepFrom_eq_some.mp hstep
      unfold State.create
      split
      next => exact hl.mono rfl (fun h => Stage.noConfusion h) rfl
      next => exact hl.mono rfl (fun h => Stage.noConfusion h) rfl
  | write p =>
      obtain ⟨a, ha, -, rfl⟩ := stepFrom_eq_some.mp hstep
      unfold State.write
      split
      next => exact hl.mono rfl (fun h => Stage.noConfusion h) rfl
      next => exact hl.mono rfl (fun h => Stage.noConfusion h) rfl
  | rename p =>
      obtain ⟨a, ha, hstage, rfl⟩ := stepFrom_eq_some.mp hstep
      rw [h.rename_eq ha hstage]
      refine Entries.forall_set (fun _ => rfl) fun q b hq hb hserving => ?_
      have hlock : a.stage.hasLock = true := by rw [hstage]; rfl
      exact absurd (h.alone ha hlock q b hb (by rw [hserving]; rfl)) hq
  | stop p =>
      obtain ⟨a, ha, -, rfl⟩ := stepFrom_eq_some.mp hstep
      exact hl.mono rfl (fun h => Stage.noConfusion h) rfl
  | unlink p =>
      obtain ⟨a, ha, hstage, rfl⟩ := stepFrom_eq_some.mp hstep
      refine Entries.forall_set (fun hserving => by cases hserving) fun q b hq hb hserving => ?_
      have hlock : a.stage.hasLock = true := by rw [hstage]; rfl
      exact absurd (h.alone ha hlock q b hb (by rw [hserving]; rfl)) hq
  | exit p =>
      obtain ⟨a, ha, hstep⟩ := Option.bind_eq_some_iff.mp hstep
      obtain ⟨-, hstep⟩ := Option.ite_none_right_eq_some.mp hstep
      cases hstep
      exact hl.mono rfl (fun h => Stage.noConfusion h) rfl
  | look purpose =>
      cases hstep
      exact hl
  | read j =>
      obtain ⟨b, hb, hstep⟩ := Option.bind_eq_some_iff.mp hstep
      obtain ⟨-, hstep⟩ := Option.ite_none_right_eq_some.mp hstep
      cases hstep
      unfold State.read
      split
      next => exact hl
      next => exact hl
  | check j =>
      obtain ⟨b, hb, hstep⟩ := Option.bind_eq_some_iff.mp hstep
      split at hstep
      next =>
        cases hstep
        unfold State.check
        split
        next =>
          split_ifs
          all_goals exact hl
        next =>
          split_ifs
          all_goals exact hl
      next => cases hstep
  | remove j =>
      obtain ⟨b, hb, hstep⟩ := Option.bind_eq_some_iff.mp hstep
      split at hstep
      next =>
        cases hstep
        intro q c hc hserving
        have hdead := hcareful _ (hl q c hc hserving)
        change s.pidAlive q = false at hdead
        change s.processes[q]? = some c at hc
        rw [pidAlive, hc, Option.any_some, hserving] at hdead
        cases hdead
      next => cases hstep

end State

/-- In every run one daemon at a time has the device and what is read of it is its own; and a daemon
that serves is listed while records are removed with care. -/
theorem runtime_directory {kind : Kind} {as : List Action} {s : State}
    (h : Machine.run (State.step kind) State.new as = some s) :
    s.Sound ∧ (Machine.meets (State.step kind) State.Careful State.new as → s.Listed) := by
  have hinv : ∀ (as : List Action) (s : State),
      Machine.run (State.step kind) State.new as = some s → s.Inv :=
    fun _ _ hrun => Machine.run_induct State.inv_new (fun _ _ _ hm hstep => hm.step hstep) hrun
  refine ⟨(hinv as s h).sound, fun hcareful => ?_⟩
  have hall : ∀ (as : List Action) (s : State),
      Machine.meets (State.step kind) State.Careful State.new as →
        Machine.run (State.step kind) State.new as = some s → s.Listed :=
    Machine.run_history_of_meets (fun p a ha => by cases ha)
      fun bs m _ _ hrun hl hcare hstep => hl.step (hinv bs m hrun) hcare hstep
  exact hall as s hcareful h

/-- A daemon is killed, the next one comes up, and a one-shot that has read the old record removes
it. -/
def killed : List Action :=
  [.start, .openLock 0, .tryLock 0, .bind 0 8723 "a", .clear 0, .create 0, .write 0, .rename 0,
    .exit 0, .look .discover, .read 0, .check 0, .remove 0, .start, .openLock 1, .tryLock 1,
    .bind 1 8724 "b", .clear 1, .create 1, .write 1, .rename 1, .start, .openLock 2, .tryLock 2]

/-- `Careful`, evaluated. -/
def State.isCareful (s : State) : Action → Bool
  | .remove _ => s.discovery.all fun c => !s.pidAlive c.record.pid
  | _ => true

theorem State.careful_of_check (s : State) (a : Action) (h : s.isCareful a = true) :
    s.Careful a := by
  cases a with
  | remove j =>
      intro c hc
      rw [isCareful, hc, Option.all_some, Bool.not_eq_true'] at h
      exact h
  | _ => trivial

theorem runtime_directory_killed :
    ∃ s, Machine.run (State.step Kind.serialcap) State.new killed = some s ∧
      s.discovery = some ⟨⟨1, 8724, "b"⟩, true⟩ ∧ s.Sound ∧ s.Listed := by
  have hsome : (Machine.run (State.step Kind.serialcap) State.new killed).map (·.discovery) =
      some (some ⟨⟨1, 8724, "b"⟩, true⟩) := by
    decide +kernel
  obtain ⟨s, hs, hdiscovery⟩ := Option.map_eq_some_iff.mp hsome
  have hcareful : Machine.meets (State.step Kind.serialcap) State.Careful State.new killed :=
    Machine.meets_of_check State.careful_of_check (by decide +kernel)
  obtain ⟨hsound, hlisted⟩ := runtime_directory hs
  exact ⟨s, hs, hdiscovery, hsound, hlisted hcareful⟩

end Daemon

end Paniolo
