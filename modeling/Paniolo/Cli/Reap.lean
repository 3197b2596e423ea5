import Mathlib.Data.List.Infix
import Paniolo.Library.Dialogue

/-!
# Waiting for a daemon to go

`wait_for_daemon_exit` and `reap_untracked` poll a pid until the process is gone,
and signal it if it stays. A process that the kernel tears down is alive and has
an empty command line: `is_named_process_pending` takes it for the daemon,
`is_named_child_alive` does not, and `reap_untracked` asks only the second.
-/

namespace Paniolo

namespace Cli

namespace Reap

inductive Signal where
  | term
  | kill
deriving DecidableEq, Repr

/-- What is asked of the system about the pid, or done to it. -/
inductive Question where
  | alive
  | cmdline
  /-- `Instant::now() < deadline`. -/
  | beforeDeadline
  | sleep
  | signal (s : Signal)
  | removeDiscovery
deriving DecidableEq, Repr

inductive Answer where
  | flag (b : Bool)
  | text (s : List Char)
  | refused (e : String)
  | done
deriving DecidableEq, Repr

namespace Answer

def isTrue : Answer → Bool
  | .flag b => b
  | _ => false

def chars : Answer → List Char
  | .text s => s
  | _ => []

def refusal : Answer → Option String
  | .refused e => some e
  | _ => none

end Answer

open Dialogue

abbrev Poll := Dialogue Question Answer

/-- How a function ends, unless it is still polling when the rounds run out. -/
inductive Outcome where
  | ok
  | failed (message : String)
  | polling
deriving DecidableEq, Repr

/-! ### The two looks at a process -/

def isPidAlive : Poll Bool := do return (← ask .alive).isTrue

def pidCmdline : Poll (List Char) := do return (← ask .cmdline).chars

/-- `str::contains`. -/
def contains (cmdline needle : List Char) : Bool := decide (needle <:+: cmdline)

def isNamedChildAlive (needle : List Char) : Poll Bool := do
  if ← isPidAlive then return contains (← pidCmdline) needle else return false

def namedProcessPending (alive : Bool) (cmdline needle : List Char) : Bool :=
  alive && (cmdline.isEmpty || contains cmdline needle)

def isNamedProcessPending (needle : List Char) : Poll Bool := do
  let alive ← isPidAlive
  let cmdline ← pidCmdline
  return namedProcessPending alive cmdline needle

/-- True if the pid is alive and its command line names one of `needles`. -/
def pidRunsOneOf (needles : List (List Char)) : Poll Bool := do
  if ← isPidAlive then
    let cmdline ← pidCmdline
    return needles.any (contains cmdline)
  else return false

def daemonProcessNeedles (name : String) : List (List Char) :=
  if name = "hid" then ["hidrig".toList, "ch9329".toList, "jetkvm".toList] else [name.toList]

/-! ### The two waits -/

/-- One of the needles is pending. -/
def anyPending : List (List Char) → Poll Bool
  | [] => return false
  | needle :: rest => do
      if ← isNamedProcessPending needle then return true else anyPending rest

/-- The polling loop; false if the rounds run out. -/
def pollWhile (pending : Poll Bool) : Nat → Poll Bool
  | 0 => return false
  | fuel + 1 => do
      if ← pending then
        if (← ask .beforeDeadline).isTrue then
          let _ ← ask .sleep
          pollWhile pending fuel
        else return true
      else return true

/-- A daemon that did not exit gracefully leaves its discovery file behind. -/
def removeDiscovery : Poll Outcome := do
  let _ ← ask .removeDiscovery
  return .ok

/-- The wait after the SIGKILL. -/
def exitAfterKill (fuel : Nat) (name : String) (pid : Int) (pending : Poll Bool) :
    Poll Outcome := do
  if ← pollWhile pending fuel then
    if ← pending then
      return .failed (s!"old {name} daemon (pid {pid}) is still running after SIGKILL; not starting a " ++
        "replacement that would race it for the device")
    else removeDiscovery
  else return .polling

/-- Wait until a stopped daemon releases its device, then clean up its discovery file. -/
def waitForDaemonExit (fuel : Nat) (name : String) (pid : Int) : Poll Outcome := do
  let needles := daemonProcessNeedles name
  if ← pollWhile (anyPending needles) fuel then
    if ← anyPending needles then
      if ← pidRunsOneOf needles then
        match (← ask (.signal .kill)).refusal with
        | some e =>
            return .failed s!"could not SIGKILL the old {name} daemon (pid {pid}): {e}"
        | none => exitAfterKill fuel name pid (anyPending needles)
      else exitAfterKill fuel name pid (anyPending needles)
    else removeDiscovery
  else return .polling

/-- The second half of `reap_untracked`: the SIGKILL and the wait after it. -/
def reapByKill (fuel : Nat) (name : String) (pid : Int) (stillIt : Poll Bool) : Poll Outcome := do
  match (← ask (.signal .kill)).refusal with
  | some e =>
      return .failed s!"could not SIGKILL the untracked {name} daemon (pid {pid}): {e}"
  | none =>
      if ← pollWhile stillIt fuel then
        if ← stillIt then
          return .failed (s!"untracked {name} daemon (pid {pid}) is still running after SIGKILL; " ++
            "not starting a replacement that would race it for the device")
        else return .ok
      else return .polling

/-- TERM (then KILL) an untracked daemon and wait for the process to go. -/
def reapUntracked (fuel : Nat) (name : String) (pid : Int) : Poll Outcome := do
  let stillIt := isNamedChildAlive name.toList
  if ← stillIt then
    match (← ask (.signal .term)).refusal with
    | some _ => return .failed s!"could not stop the untracked {name} daemon (pid {pid})"
    | none =>
        if ← pollWhile stillIt fuel then
          if ← stillIt then reapByKill fuel name pid stillIt else return .ok
        else return .polling
  else return .ok

/-! ### The life of the old process -/

/-- Where the old process is. After it has gone its pid is free, or another process has it. -/
inductive Phase where
  | running
  | teardown
  | gone (occupant : Option (List Char))
deriving DecidableEq, Repr

namespace Phase

def isAlive : Phase → Bool
  | running => true
  | teardown => true
  | gone occupant => occupant.isSome

/-- What the command line of the pid reads, when that of the daemon is `cmdline`. -/
def reads (cmdline : List Char) : Phase → List Char
  | running => cmdline
  | teardown => []
  | gone occupant => occupant.getD []

/-- The phases come in this order. -/
def rank : Phase → Nat
  | running => 0
  | teardown => 1
  | gone _ => 2

/-- The old process no longer exists. -/
def Gone (p : Phase) : Prop := p.rank = 2

theorem rank_le_two (p : Phase) : p.rank ≤ 2 := by
  cases p <;> simp [rank]

/-- A process that is not alive is gone. -/
theorem gone_of_not_alive {p : Phase} (h : p.isAlive = false) : p.Gone := by
  cases p with
  | running => cases h
  | teardown => cases h
  | gone occupant => rfl

end Phase

/-- The phase at every question, counted from 1. The daemon's command line names it, and that of
a process which has the pid after it does not. -/
structure Lifetime (needles : List (List Char)) where
  cmdline : List Char
  phase : Nat → Phase
  mono : ∀ n, (phase n).rank ≤ (phase (n + 1)).rank
  named : ∃ needle ∈ needles, needle <:+: cmdline
  other : ∀ n occupant, phase n = .gone (some occupant) →
    ∀ needle ∈ needles, ¬ needle <:+: occupant

/-- What is learnt: the phase when the question comes, a clock that may say anything, and what
becomes of a signal. -/
def answers {needles : List (List Char)} (life : Lifetime needles) (clock : Nat → Bool)
    (refused : Nat → Option String) (asked : List Question) : Answer :=
  match asked.getLast? with
  | some .alive => .flag (life.phase asked.length).isAlive
  | some .cmdline => .text ((life.phase asked.length).reads life.cmdline)
  | some .beforeDeadline => .flag (clock asked.length)
  | some (.signal _) =>
      match refused asked.length with
      | some e => .refused e
      | none => .done
  | _ => .done

section Runs

variable {needles : List (List Char)} (life : Lifetime needles) {clock : Nat → Bool}
  {refused : Nat → Option String}

/-- The old process is gone by the latest question. -/
def GoneBy (asked : List Question) : Prop := (life.phase asked.length).Gone

/-- The latest look at the process read a command line that names the daemon. -/
def Named (asked : List Question) : Prop :=
  ∃ before after, asked = before ++ .cmdline :: after ∧
    (∀ q ∈ after, q ≠ .alive ∧ q ≠ .cmdline) ∧
    ∃ needle ∈ needles, needle <:+: (life.phase (before.length + 1)).reads life.cmdline

/-- Every signal comes after such a look. -/
def Careful (asked : List Question) : Prop :=
  ∀ before s after, asked = before ++ .signal s :: after → Named life before

/-- Some command line was read while the kernel tore the process down. -/
def ReadInTeardown (asked : List Question) : Prop :=
  ∃ before after, asked = before ++ .cmdline :: after ∧
    life.phase (before.length + 1) = .teardown

theorem rank_phase_le {n m : Nat} (h : n ≤ m) : (life.phase n).rank ≤ (life.phase m).rank := by
  induction m, h using Nat.le_induction with
  | base => exact le_rfl
  | succ m _ ih => exact ih.trans (life.mono m)

/-- Once gone, it stays gone. -/
theorem gone_of_le {n m : Nat} (h : n ≤ m) (hgone : (life.phase n).Gone) :
    (life.phase m).Gone := by
  have hle := rank_phase_le life h
  have htwo := (life.phase m).rank_le_two
  rw [Phase.Gone] at hgone ⊢
  omega

theorem goneBy_append {asked more : List Question} (h : GoneBy life asked) :
    GoneBy life (asked ++ more) :=
  gone_of_le life (by rw [List.length_append]; exact Nat.le_add_right _ _) h

theorem careful_nil : Careful life [] := by
  intro before s after h
  exact absurd h (by simp)

theorem careful_ask {asked : List Question} (h : Careful life asked) {q : Question}
    (hq : ∀ s, q = .signal s → Named life asked) : Careful life (asked ++ [q]) := by
  intro before s after heq
  rcases List.eq_nil_or_concat after with rfl | ⟨rest, last, rfl⟩
  · obtain ⟨rfl, hlast⟩ := List.append_inj' heq rfl
    exact hq s (List.cons.inj hlast).1
  · have hsplit : asked ++ [q] = (before ++ .signal s :: rest) ++ [last] := by
      rw [heq, List.concat_eq_append, List.append_assoc, List.cons_append]
    exact h before s rest (List.append_inj' hsplit rfl).1

theorem isTrue_answers_alive (asked : List Question) :
    (answers life clock refused (asked ++ [.alive])).isTrue =
      (life.phase (asked ++ [Question.alive]).length).isAlive := by
  rw [answers, List.getLast?_concat]
  rfl

theorem chars_answers_cmdline (asked : List Question) :
    (answers life clock refused (asked ++ [.cmdline])).chars =
      (life.phase (asked ++ [Question.cmdline]).length).reads life.cmdline := by
  rw [answers, List.getLast?_concat]
  rfl

/-! ### The looks -/

/-- A question that sends no signal. -/
theorem ensures_ask {q : Question} (hq : ∀ s, q ≠ .signal s) :
    Ensures (answers life clock refused) (Careful life) (ask q)
      fun _ asked => Careful life asked :=
  .ask fun _ h => careful_ask life h fun s hs => absurd hs (hq s)

theorem ensures_isPidAlive :
    Ensures (answers life clock refused) (Careful life) isPidAlive
      fun b asked => Careful life asked ∧ (b = false → GoneBy life asked) := by
  intro asked h
  refine ⟨careful_ask life h nofun, fun hb => Phase.gone_of_not_alive ?_⟩
  exact (isTrue_answers_alive life asked).symm.trans hb

/-- Reading the command line. -/
theorem ensures_pidCmdline {pre : List Question → Prop} (hpre : ∀ asked, pre asked → Careful life asked) :
    Ensures (answers life clock refused) pre pidCmdline
      fun cmdline asked => Careful life asked ∧ ∃ before, asked = before ++ [.cmdline] ∧ pre before ∧
        cmdline = (life.phase asked.length).reads life.cmdline :=
  fun asked h => ⟨careful_ask life (hpre asked h) nofun, asked, rfl, h,
    chars_answers_cmdline life asked⟩

/-- A command line that does not name the daemon is read in teardown, or after it has gone. -/
theorem teardown_or_gone {n : Nat}
    (h : ∀ needle ∈ needles, ¬ needle <:+: (life.phase n).reads life.cmdline) :
    life.phase n = .teardown ∨ (life.phase n).Gone := by
  cases hp : life.phase n with
  | running =>
      obtain ⟨needle, hneedle, hin⟩ := life.named
      rw [hp] at h
      exact absurd hin (h needle hneedle)
  | teardown => exact .inl rfl
  | gone occupant => exact .inr rfl

/-- `pid_runs_one_of` has just seen the daemon when it says so; otherwise it is gone, or being
torn down. -/
theorem ensures_pidRunsOneOf :
    Ensures (answers life clock refused) (Careful life) (pidRunsOneOf needles)
      fun b asked => Careful life asked ∧ (b = true → Named life asked) ∧
        (b = false → GoneBy life asked ∨ ReadInTeardown life asked) := by
  refine .bind (ensures_isPidAlive life) fun alive => .ite (fun _ => ?_) fun halive => ?_
  · refine .bind (ensures_pidCmdline life fun _ h => h.1) fun cmdline => .pure ?_
    rintro asked ⟨hcareful, before, rfl, -, hread⟩
    refine ⟨hcareful, fun hb => ?_, fun hb => ?_⟩
    · obtain ⟨needle, hneedle, hin⟩ := List.any_eq_true.mp hb
      rw [hread, List.length_append] at hin
      exact ⟨before, [], rfl, fun _ hq => absurd hq List.not_mem_nil, needle, hneedle,
        of_decide_eq_true hin⟩
    · have hnone : ∀ needle ∈ needles, ¬ needle <:+:
          (life.phase (before ++ [Question.cmdline]).length).reads life.cmdline := by
        intro needle hneedle hin
        rw [← hread] at hin
        exact absurd (decide_eq_true hin) (List.any_eq_false.mp hb needle hneedle)
      rcases teardown_or_gone life hnone with hdown | hgone
      · rw [List.length_append] at hdown
        exact .inr ⟨before, [], rfl, hdown⟩
      · exact .inl hgone
  · refine .pure fun asked h => ⟨h.1, nofun, fun _ => .inl (h.2 ?_)⟩
    exact eq_false_of_ne_true halive

/-- Looking for one name is looking for a list of it. -/
theorem isNamedChildAlive_eq (needle : List Char) :
    isNamedChildAlive needle = pidRunsOneOf [needle] := by
  rw [isNamedChildAlive, pidRunsOneOf]
  simp only [List.any_cons, List.any_nil, Bool.or_false]

/-- A name that is not pending is not the daemon's, or the daemon is gone. -/
theorem ensures_isNamedProcessPending (needle : List Char) :
    Ensures (answers life clock refused) (Careful life) (isNamedProcessPending needle)
      fun b asked => Careful life asked ∧
        (b = false → GoneBy life asked ∨ ¬ needle <:+: life.cmdline) := by
  refine .bind (ensures_isPidAlive life) fun alive =>
    .bind (ensures_pidCmdline life fun _ h => h.1) fun cmdline => .pure ?_
  rintro asked ⟨hcareful, before, rfl, ⟨-, halive⟩, hread⟩
  refine ⟨hcareful, fun hb => ?_⟩
  rw [namedProcessPending, Bool.and_eq_false_iff, Bool.or_eq_false_iff] at hb
  rcases hb with hdead | ⟨hempty, hother⟩
  · exact .inl (goneBy_append life (halive hdead))
  · cases hp : life.phase (before ++ [Question.cmdline]).length with
    | running =>
        rw [hread, hp] at hother
        exact .inr (of_decide_eq_false hother)
    | teardown =>
        rw [hread, hp] at hempty
        cases hempty
    | gone occupant => exact .inl (congrArg Phase.rank hp)

/-- When none of the names is pending, the daemon is gone. -/
theorem ensures_anyPending :
    Ensures (answers life clock refused) (Careful life) (anyPending needles)
      fun b asked => Careful life asked ∧ (b = false → GoneBy life asked) := by
  have hlist : ∀ l : List (List Char),
      Ensures (answers life clock refused) (Careful life) (anyPending l) fun b asked =>
        Careful life asked ∧
          (b = false → GoneBy life asked ∨ ∀ needle ∈ l, ¬ needle <:+: life.cmdline) := by
    intro l
    induction l with
    | nil => exact .pure fun asked h => ⟨h, fun _ => .inr fun _ hm => absurd hm List.not_mem_nil⟩
    | cons needle rest ih =>
        refine .bind (ensures_isNamedProcessPending life needle) fun b =>
          .ite (fun _ => .pure fun asked h => ⟨h.1, nofun⟩) fun hb => ?_
        have hkept : ∀ asked more, (GoneBy life asked ∨ ¬ needle <:+: life.cmdline) →
            GoneBy life (asked ++ more) ∨ ¬ needle <:+: life.cmdline :=
          fun asked more h => h.imp_left (goneBy_append life)
        refine (ih.frame hkept).mono (fun asked h => ⟨h.1, h.2 (eq_false_of_ne_true hb)⟩) ?_
        rintro b' asked ⟨⟨hcareful, hrest⟩, hfirst⟩
        refine ⟨hcareful, fun hb' => ?_⟩
        rcases hfirst with hgone | hfirst
        · exact .inl hgone
        · rcases hrest hb' with hgone | hrest
          · exact .inl hgone
          · exact .inr (List.forall_mem_cons.mpr ⟨hfirst, hrest⟩)
  refine (hlist needles).mono (fun _ h => h) fun b asked h => ⟨h.1, fun hb => ?_⟩
  obtain ⟨needle, hneedle, hin⟩ := life.named
  exact (h.2 hb).resolve_right fun hnone => hnone needle hneedle hin

/-- The polling loop looks and sleeps, and sends no signal. -/
theorem ensures_pollWhile {pending : Poll Bool} {post : Bool → List Question → Prop}
    (hpending : Ensures (answers life clock refused) (Careful life) pending
      fun b asked => Careful life asked ∧ post b asked) (fuel : Nat) :
    Ensures (answers life clock refused) (Careful life) (pollWhile pending fuel)
      fun _ asked => Careful life asked := by
  induction fuel with
  | zero => exact .pure fun _ h => h
  | succ fuel ih =>
      refine .bind hpending fun b => .ite (fun _ => ?_) fun _ => .pure fun _ h => h.1
      have hclock : Ensures (answers life clock refused)
          (fun asked => Careful life asked ∧ post b asked) (ask .beforeDeadline)
          fun _ asked => Careful life asked :=
        (ensures_ask life (q := .beforeDeadline) nofun).mono (fun _ h => h.1) fun _ _ h => h
      refine .bind hclock fun before => .ite (fun _ => ?_) fun _ => .pure fun _ h => h
      exact .bind (ensures_ask life (q := .sleep) nofun) fun _ => ih

/-- A signal right after the daemon was named. -/
theorem ensures_signal (s : Signal) :
    Ensures (answers life clock refused) (fun asked => Careful life asked ∧ Named life asked)
      (ask (.signal s)) fun _ asked => Careful life asked :=
  .ask fun _ h => careful_ask life h.1 fun _ _ => h.2

/-! ### The waits -/

/-- `wait_for_daemon_exit` is done only when the daemon is gone. -/
def Waited (outcome : Outcome) (asked : List Question) : Prop :=
  Careful life asked ∧ (outcome = .ok → GoneBy life asked)

theorem ensures_removeDiscovery :
    Ensures (answers life clock refused) (fun asked => Careful life asked ∧ GoneBy life asked)
      removeDiscovery (Waited life) := by
  have hask : Ensures (answers life clock refused) (Careful life) (ask .removeDiscovery)
      fun _ asked => Careful life asked := ensures_ask life nofun
  have hkept : ∀ asked more, GoneBy life asked → GoneBy life (asked ++ more) :=
    fun _ _ => goneBy_append life
  exact .bind (hask.frame hkept) fun _ => .pure fun asked h => ⟨h.1, fun _ => h.2⟩

theorem ensures_exitAfterKill (fuel : Nat) (name : String) (pid : Int) :
    Ensures (answers life clock refused) (Careful life)
      (exitAfterKill fuel name pid (anyPending needles)) (Waited life) := by
  refine .bind (ensures_pollWhile life (ensures_anyPending life) fuel) fun ended =>
    .ite (fun _ => ?_) fun _ => .pure fun _ h => ⟨h, nofun⟩
  refine .bind (ensures_anyPending life) fun b =>
    .ite (fun _ => .pure fun _ h => ⟨h.1, nofun⟩) fun hb => ?_
  exact (ensures_removeDiscovery life).mono
    (fun _ h => ⟨h.1, h.2 (eq_false_of_ne_true hb)⟩) fun _ _ h => h

end Runs

/-- The wait for a daemon that was told to stop. -/
theorem ensures_waitForDaemonExit (name : String) (life : Lifetime (daemonProcessNeedles name))
    {clock : Nat → Bool} {refused : Nat → Option String} (fuel : Nat) (pid : Int) :
    Ensures (answers life clock refused) (Careful life) (waitForDaemonExit fuel name pid)
      (Waited life) := by
  refine .bind (ensures_pollWhile life (ensures_anyPending life) fuel) fun ended =>
    .ite (fun _ => ?_) fun _ => .pure fun _ h => ⟨h, nofun⟩
  refine .bind (ensures_anyPending life) fun b => .ite (fun _ => ?_) fun hb => ?_
  · refine .bind ((ensures_pidRunsOneOf life).mono (fun _ h => h.1) fun _ _ h => h) fun named =>
      .ite (fun hnamed => ?_) fun _ => ?_
    · refine .bind ((ensures_signal life .kill).mono (fun _ h => ⟨h.1, h.2.1 hnamed⟩)
        fun _ _ h => h) fun answer => ?_
      split
      · exact .pure fun _ h => ⟨h, nofun⟩
      · exact ensures_exitAfterKill life fuel name pid
    · exact (ensures_exitAfterKill life fuel name pid).mono (fun _ h => h.1) fun _ _ h => h
  · exact (ensures_removeDiscovery life).mono
      (fun _ h => ⟨h.1, h.2 (eq_false_of_ne_true hb)⟩) fun _ _ h => h

/-- `reap_untracked` is done only when the daemon is gone, or its command line was read while it
was being torn down. -/
def Reaped {needles : List (List Char)} (life : Lifetime needles) (outcome : Outcome)
    (asked : List Question) : Prop :=
  Careful life asked ∧ (outcome = .ok → GoneBy life asked ∨ ReadInTeardown life asked)

section Untracked

variable {name : String} (life : Lifetime [name.toList]) {clock : Nat → Bool}
  {refused : Nat → Option String}

theorem ensures_stillIt :
    Ensures (answers life clock refused) (Careful life) (isNamedChildAlive name.toList)
      fun b asked => Careful life asked ∧ (b = true → Named life asked) ∧
        (b = false → GoneBy life asked ∨ ReadInTeardown life asked) := by
  rw [isNamedChildAlive_eq]
  exact ensures_pidRunsOneOf life

theorem ensures_reapByKill (fuel : Nat) (pid : Int) :
    Ensures (answers life clock refused) (fun asked => Careful life asked ∧ Named life asked)
      (reapByKill fuel name pid (isNamedChildAlive name.toList)) (Reaped life) := by
  refine .bind (ensures_signal life .kill) fun answer => ?_
  split
  · exact .pure fun _ h => ⟨h, nofun⟩
  · refine .bind (ensures_pollWhile life (ensures_stillIt life) fuel) fun ended =>
      .ite (fun _ => ?_) fun _ => .pure fun _ h => ⟨h, nofun⟩
    exact .bind (ensures_stillIt life) fun b => .ite (fun _ => .pure fun _ h => ⟨h.1, nofun⟩)
      fun hb => .pure fun _ h => ⟨h.1, fun _ => h.2.2 (eq_false_of_ne_true hb)⟩

/-- The reaping of a daemon that no file records. -/
theorem ensures_reapUntracked (fuel : Nat) (pid : Int) :
    Ensures (answers life clock refused) (Careful life) (reapUntracked fuel name pid)
      (Reaped life) := by
  refine .bind (ensures_stillIt life) fun b => .ite (fun hb => ?_) fun hb =>
    .pure fun _ h => ⟨h.1, fun _ => h.2.2 (eq_false_of_ne_true hb)⟩
  refine .bind ((ensures_signal life .term).mono (fun _ h => ⟨h.1, h.2.1 hb⟩) fun _ _ h => h)
    fun answer => ?_
  split
  · exact .pure fun _ h => ⟨h, nofun⟩
  · refine .bind (ensures_pollWhile life (ensures_stillIt life) fuel) fun ended =>
      .ite (fun _ => ?_) fun _ => .pure fun _ h => ⟨h, nofun⟩
    refine .bind (ensures_stillIt life) fun b' => .ite (fun hb' => ?_) fun hb' =>
      .pure fun _ h => ⟨h.1, fun _ => h.2.2 (eq_false_of_ne_true hb')⟩
    exact (ensures_reapByKill life fuel pid).mono (fun _ h => ⟨h.1, h.2.1 hb'⟩) fun _ _ h => h

end Untracked

/-- A daemon that has exited before its reaper looks. -/
def exited : Lifetime ["hdmicap".toList] where
  cmdline := "/usr/bin/hdmicap daemon".toList
  phase _ := .gone none
  mono _ := le_rfl
  named := ⟨_, List.mem_cons_self, by decide⟩
  other _ _ h := by cases h

/-- A daemon that is running when its reaper looks first, and in teardown from the TERM on. -/
def dying : Lifetime ["hdmicap".toList] where
  cmdline := "/usr/bin/hdmicap daemon".toList
  phase n := if n ≤ 3 then .running else .teardown
  mono n := by
    split <;> split <;> simp only [Phase.rank, le_refl, Nat.zero_le]
    omega
  named := ⟨_, List.mem_cons_self, by decide⟩
  other n occupant h := by split at h <;> cases h

end Reap

end Cli

end Paniolo
