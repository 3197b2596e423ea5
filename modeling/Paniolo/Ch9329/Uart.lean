import Paniolo.Library.Machine
import Paniolo.Ch9329.Proto

/-!
# The owner of the CH9329 link

`ch9329/src/uart.rs`: one thread owns the session and serves the queued command
lines one after the other. A line whose client has given up is dropped before
anything is written; a line is executed again only when its reply was lost and
it is a query. Clients submit lines and give up at any moment, and the device
behaves as the environment says.
-/

namespace Paniolo

namespace Ch9329

open Text Session

def reqCap : Nat := 256

/-- `is_transport_error`: the session is gone. -/
def isTransportError (msg : String) : Bool :=
  ["cannot open", "serial write failed", "serial read failed", "timed out", "serial port closed",
    "CH9329 did not respond"].any fun start => start.toList.isPrefixOf msg.toList

/-- The verbs that `is_idempotent_query` accepts. -/
def queries : List String := ["ping", "info", "version"]

/-- `is_idempotent_query`: by the first word, whatever white space ends it. -/
def isIdempotentQuery (line : List Char) : Bool :=
  String.ofList (toAsciiLowercase ((splitWhitespace line).headD [])) ∈ queries

/-- `retry_once_on_timeout`: the outcomes of the attempts made, in order. The
last one is the result. -/
def retryOnceOnTimeout (idempotent : Bool) (attempt : WireM String) (wire : Wire) :
    List (Except String String) × Wire :=
  let (first, wire) := attempt.run wire
  match first with
  | .error msg =>
      if idempotent && isTimeout msg then
        let (second, wire) := attempt.run wire
        ([.error msg, second], wire)
      else ([.error msg], wire)
  | .ok data => ([.ok data], wire)

/-- `execute_line_with_retry`. -/
def executeLineWithRetry (env : Env) (line : List Char) (wire : Wire) :
    List (Except String String) × Wire :=
  retryOnceOnTimeout (isIdempotentQuery line) (executeLine env line) wire

/-- The owner's state; the port outlives the sessions on it. -/
structure Owner where
  session : Option Session
  lastBaud : Option Nat
  port : Port
deriving DecidableEq, Repr

/-- What serving a line does: the executions made and the answer given. -/
structure Served where
  executions : List (Except String String)
  answer : Except String String
deriving DecidableEq, Repr

/-- The session to serve with, opened if there is none. -/
def Owner.ensureOpen (env : Env) (o : Owner) : Except String Session × Port :=
  match o.session with
  | some s => (.ok s, o.port)
  | none => openPreferring env o.lastBaud o.port

/-- `serve_line`, after the check that the client still waits. -/
def serveLine (env : Env) (line : List Char) (o : Owner) : Served × Owner :=
  match o.ensureOpen env with
  | (.error msg, port) => (⟨[], .error msg⟩, { o with port := port })
  | (.ok s, port) =>
      let (executions, wire) := executeLineWithRetry env line ⟨s, port⟩
      let result := executions.getLast?.getD (.error "")
      let lost := match result with
        | .error msg => isTransportError msg
        | .ok _ => false
      (⟨executions, result⟩,
        ⟨if lost then none else some wire.session, some wire.session.baud, wire.port⟩)

/-- `handle_release`. -/
def handleRelease (env : Env) (o : Owner) : Owner :=
  match o.ensureOpen env with
  | (.error _, port) => { o with port := port }
  | (.ok s, port) =>
      let (_, wire) := (releaseEverything env).run ⟨s, port⟩
      { o with session := some wire.session, port := wire.port }

/-- What is known of a submitted line, in the order of submission: whether its
client has given up, whether it had when the line was dequeued, and what was
executed, written and answered for it. -/
structure Record where
  line : List Char
  gaveUp : Bool
  gaveUpQueued : Bool
  executions : List (Except String String)
  writes : List (List UInt8)
  answers : List (Except String String)
deriving DecidableEq, Repr

def Record.new (line : List Char) : Record := ⟨line, false, false, [], [], []⟩

/-- An item of the queue; a line is named by its place among the records. -/
inductive Request where
  | line (id : Nat)
  | release
deriving DecidableEq, Repr

/-- What the owner is at: waiting for a request, holding one it has taken off
the queue, or serving a line whose client was still there. -/
inductive Stage where
  | idle
  | taken (request : Request)
  | serving (id : Nat)
deriving DecidableEq, Repr

structure System where
  records : List Record
  queue : List Request
  stage : Stage
  owner : Owner
deriving DecidableEq, Repr

def System.initial : System := ⟨[], [], .idle, ⟨none, none, ⟨0, []⟩⟩⟩

inductive Action where
  /-- A client queues a line: no newline in it, and there is room. -/
  | submit (line : List Char)
  | submitRelease
  /-- The client of a line gives up. -/
  | giveUp (id : Nat)
  | dequeue
  /-- `reply.is_closed()`, or the whole of a release. -/
  | check
  | serve
deriving DecidableEq, Repr

/-- The record of a line changed. -/
def System.update (s : System) (id : Nat) (f : Record → Record) : System :=
  { s with records := s.records.modify id f }

def step (env : Env) (s : System) : Action → Option System
  | .submit line =>
      if line.any isNewline || reqCap ≤ s.queue.length then none
      else
        some { s with
          records := s.records ++ [Record.new line]
          queue := s.queue ++ [.line s.records.length] }
  | .submitRelease =>
      if reqCap ≤ s.queue.length then none else some { s with queue := s.queue ++ [.release] }
  | .giveUp id => some (s.update id fun r => { r with gaveUp := true })
  | .dequeue =>
      match s.stage, s.queue with
      | .idle, .release :: queue => some { s with queue := queue, stage := .taken .release }
      | .idle, .line id :: queue =>
          some (System.update { s with queue := queue, stage := .taken (.line id) } id fun r =>
            { r with gaveUpQueued := r.gaveUp })
      | _, _ => none
  | .check =>
      match s.stage with
      | .taken .release => some { s with stage := .idle, owner := handleRelease env s.owner }
      | .taken (.line id) =>
          match s.records[id]? with
          | none => none
          | some r => some { s with stage := if r.gaveUp then .idle else .serving id }
      | _ => none
  | .serve =>
      match s.stage with
      | .serving id =>
          match s.records[id]? with
          | none => none
          | some r =>
              let (served, owner) := serveLine env r.line s.owner
              some (System.update { s with stage := .idle, owner := owner } id fun r =>
                { r with
                  executions := r.executions ++ served.executions
                  writes := r.writes ++ owner.port.sent.drop s.owner.port.sent.length
                  answers := r.answers ++ [served.answer] })
      | _ => none

section Verb

/-- The verbs that `execute_line` knows. -/
def knownVerbs : List String :=
  ["type", "key", "combo", "down", "up", "releaseall", "move", "moveabs", "click", "mdown", "mup",
    "scroll", "ping", "version", "info", "baud", "usb"]

theorem executeVerb_unknown (env : Env) {parts : Parts}
    (h : String.ofList (toAsciiLowercase parts.head) ∉ knownVerbs) :
    executeVerb env parts =
      throw ("unknown command: " ++ String.ofList (toAsciiLowercase parts.head)) := by
  have hne {v : String} (hv : v ∈ knownVerbs) :
      String.ofList (toAsciiLowercase parts.head) ≠ v := fun hh => h (hh ▸ hv)
  rw [executeVerb]
  simp only [hne (show "type" ∈ knownVerbs by decide), hne (show "key" ∈ knownVerbs by decide),
    hne (show "combo" ∈ knownVerbs by decide), hne (show "down" ∈ knownVerbs by decide),
    hne (show "up" ∈ knownVerbs by decide), hne (show "releaseall" ∈ knownVerbs by decide),
    hne (show "move" ∈ knownVerbs by decide), hne (show "moveabs" ∈ knownVerbs by decide),
    hne (show "click" ∈ knownVerbs by decide), hne (show "mdown" ∈ knownVerbs by decide),
    hne (show "mup" ∈ knownVerbs by decide), hne (show "scroll" ∈ knownVerbs by decide),
    hne (show "ping" ∈ knownVerbs by decide), hne (show "version" ∈ knownVerbs by decide),
    hne (show "info" ∈ knownVerbs by decide), hne (show "baud" ∈ knownVerbs by decide),
    hne (show "usb" ∈ knownVerbs by decide), if_false]

/-- The head of a known verb has no white space in it. -/
theorem not_isWhitespace_of_known {head : List Char}
    (h : String.ofList (toAsciiLowercase head) ∈ knownVerbs) :
    ∀ c ∈ head, isWhitespace c = false := by
  intro c hc
  by_contra hw
  rw [Bool.not_eq_false] at hw
  have hmem : c ∈ (String.ofList (toAsciiLowercase head)).toList := by
    rw [String.toList_ofList]
    exact List.mem_map.mpr ⟨c, hc, toLower_of_isWhitespace hw⟩
  have hall : ∀ v ∈ knownVerbs,
      v.toList.isEmpty = false ∧ (v.toList.all fun c => !isWhitespace c) = true := by decide
  have hword := hall _ h
  rw [(isWord_of_all hword.1 hword.2).2 c hmem] at hw
  cases hw

theorem splitLine_head (line : List Char) :
    ∃ r, trimStart (line.rdropWhile isNewline) = (splitLine line).head ++ r ∧
      (r = [] ∨ ∃ r', r = ' ' :: r') := by
  rw [splitLine]
  cases h : splitOnce (· == ' ') (trimStart (line.rdropWhile isNewline)) with
  | none => exact ⟨[], (List.append_nil _).symm, Or.inl rfl⟩
  | some parts =>
      obtain ⟨head, rest⟩ := parts
      obtain ⟨c, hc, hline, -⟩ := splitOnce_eq_some h
      rw [beq_iff_eq] at hc
      subst hc
      exact ⟨' ' :: rest, hline, Or.inr ⟨rest, rfl⟩⟩

/-- A head without white space is the first word of the line. -/
theorem headD_splitWhitespace_of_head {line : List Char} (hne : (splitLine line).head ≠ [])
    (hhead : ∀ c ∈ (splitLine line).head, isWhitespace c = false) :
    (splitWhitespace line).headD [] = (splitLine line).head := by
  obtain ⟨t, ht, hnl⟩ := exists_rdropWhile isNewline line
  obtain ⟨r, hr, hblank⟩ := splitLine_head line
  -- what follows the head is nothing, a blank or the end of the line
  have hnext : ∀ x ∈ (r ++ t).head?, isWhitespace x = true := by
    intro x hx
    rcases hblank with rfl | ⟨r', rfl⟩
    · have hxt := hnl x (List.mem_of_mem_head? hx)
      rw [isNewline, Bool.or_eq_true, beq_iff_eq, beq_iff_eq] at hxt
      rcases hxt with rfl | rfl
      · decide
      · decide
    · rw [List.cons_append, List.head?_cons, Option.mem_some_iff] at hx
      rw [← hx]
      decide
  obtain ⟨c, h, hch⟩ := List.exists_cons_of_ne_nil hne
  have hc : isWhitespace c = false := hhead c (hch ▸ List.mem_cons_self)
  have htrim : trimStart line = (splitLine line).head ++ (r ++ t) := by
    have hempty : ((line.rdropWhile isNewline).dropWhile isWhitespace).isEmpty = false := by
      rw [trimStart] at hr
      rw [hr, hch]
      rfl
    rw [trimStart] at hr ⊢
    nth_rewrite 1 [ht]
    rw [List.dropWhile_append, hempty, if_neg (by simp), hr, List.append_assoc]
  have htake : ((splitLine line).head ++ (r ++ t)).takeWhile (fun c => !isWhitespace c) =
      (splitLine line).head := by
    rw [List.takeWhile_append_of_pos (fun x hx => by rw [hhead x hx]; rfl)]
    cases hrt : r ++ t with
    | nil => exact List.append_nil _
    | cons x rt =>
        rw [hrt] at hnext
        rw [List.takeWhile_cons, hnext x rfl]
        exact List.append_nil _
  rw [← splitWhitespace_trimStart, htrim, List.headD_eq_head?_getD, List.head?_eq_getElem?]
  rw [hch, List.cons_append] at htake ⊢
  rw [splitWhitespace_head hc, Option.getD_some, htake]

/-- A line that the retry takes for a query and `execute_line` does not is
refused without an exchange, and not as timed out. -/
theorem executeLine_of_not_query (env : Env) {line : List Char}
    (hq : isIdempotentQuery line = true) (hv : String.ofList (verb line) ∉ queries) :
    ∃ e, isTimeout e = false ∧ ∀ wire, (executeLine env line).run wire = (.error e, wire) := by
  rw [executeLine]
  split_ifs with hn
  · refine ⟨_, ?_, fun wire => rfl⟩
    rw [isTimeout, String.toList_append]
    rfl
  · have hunknown : String.ofList (verb line) ∉ knownVerbs := by
      intro hk
      have hhead := not_isWhitespace_of_known hk
      have hne : (splitLine line).head ≠ [] := by
        intro hnil
        rw [verb, hnil] at hk
        exact absurd hk (by decide)
      rw [isIdempotentQuery, headD_splitWhitespace_of_head hne hhead, decide_eq_true_eq] at hq
      exact hv hq
    rw [executeVerb_unknown env hunknown]
    refine ⟨_, ?_, fun wire => rfl⟩
    rw [isTimeout, String.toList_append]
    rfl

end Verb

section Once

theorem retryOnceOnTimeout_ne_nil (idempotent : Bool) (attempt : WireM String) (wire : Wire) :
    (retryOnceOnTimeout idempotent attempt wire).1 ≠ [] := by
  rw [retryOnceOnTimeout]
  obtain ⟨first, wire⟩ := attempt.run wire
  cases first with
  | ok data => exact List.cons_ne_nil _ _
  | error msg =>
      dsimp only
      split_ifs <;> exact List.cons_ne_nil _ _

/-- A line that is no query to `execute_line` is executed once. -/
theorem length_executeLineWithRetry (env : Env) (line : List Char) (wire : Wire)
    (hv : String.ofList (verb line) ∉ queries) :
    (executeLineWithRetry env line wire).1.length = 1 := by
  rw [executeLineWithRetry, retryOnceOnTimeout]
  cases hq : isIdempotentQuery line with
  | false =>
      obtain ⟨first, wire⟩ := (executeLine env line).run wire
      cases first <;> rfl
  | true =>
      obtain ⟨e, he, hrun⟩ := executeLine_of_not_query env hq hv
      rw [hrun wire]
      dsimp only
      rw [he]
      rfl

/-- What serving a line executes and answers. -/
theorem serveLine_spec (env : Env) (line : List Char) (o : Owner) :
    (String.ofList (verb line) ∉ queries → (serveLine env line o).1.executions.length ≤ 1) ∧
      ((serveLine env line o).1.executions.getLast? = some (serveLine env line o).1.answer ∨
        (serveLine env line o).1.executions = [] ∧
          ∃ e, (serveLine env line o).1.answer = .error e) := by
  rw [serveLine]
  obtain ⟨opened, port⟩ := o.ensureOpen env
  cases opened with
  | error msg => exact ⟨fun _ => Nat.zero_le _, Or.inr ⟨rfl, _, rfl⟩⟩
  | ok s =>
      have hne : (executeLineWithRetry env line ⟨s, port⟩).1 ≠ [] := retryOnceOnTimeout_ne_nil _ _ _
      have hone := length_executeLineWithRetry env line ⟨s, port⟩
      dsimp only
      generalize executeLineWithRetry env line ⟨s, port⟩ = ran at hne hone ⊢
      obtain ⟨executions, wire⟩ := ran
      refine ⟨fun hv => (hone hv).le, Or.inl ?_⟩
      dsimp only at hne ⊢
      rw [List.getLast?_eq_some_getLast hne]
      rfl

/-- Nothing has been done for a line. -/
structure Untouched (r : Record) : Prop where
  executions : r.executions = []
  writes : r.writes = []
  answers : r.answers = []

/-- What holds of every line: it is executed once unless it is a query, nothing
is done for it if its client had given up, and it is answered once, with what
its own execution came to. -/
structure Once (r : Record) : Prop where
  executions : String.ofList (verb r.line) ∉ queries → r.executions.length ≤ 1
  dropped : r.gaveUpQueued = true → r.gaveUp = true ∧ Untouched r
  answers : r.answers.length ≤ 1
  outcome : ∀ a ∈ r.answers, r.executions.getLast? = some a ∨ r.executions = [] ∧ ∃ e, a = .error e

theorem Untouched.once {r : Record} (h : Untouched r)
    (hg : r.gaveUpQueued = true → r.gaveUp = true) : Once r where
  executions _ := by
    rw [h.executions]
    exact Nat.zero_le _
  dropped hq := ⟨hg hq, h⟩
  answers := by
    rw [h.answers]
    exact Nat.zero_le _
  outcome a ha := by
    rw [h.answers] at ha
    cases ha

/-- The line of a request. -/
def Request.id? : Request → Option Nat
  | .line id => some id
  | .release => none

/-- The line the owner has in hand. -/
def Stage.id? : Stage → Option Nat
  | .idle => none
  | .taken request => request.id?
  | .serving id => some id

/-- The lines that are still to be served. -/
def System.waiting (s : System) : List Nat := s.stage.id?.toList ++ s.queue.filterMap Request.id?

/-- Every line still to be served is a different one, and untouched. -/
structure Inv (s : System) : Prop where
  once : ∀ (id : Nat) r, s.records[id]? = some r → Once r
  nodup : s.waiting.Nodup
  untouched : ∀ id ∈ s.waiting, ∃ r, s.records[id]? = some r ∧ Untouched r
  serving : ∀ id r, s.stage = .serving id → s.records[id]? = some r → r.gaveUpQueued = false

theorem inv_initial : Inv System.initial where
  once id r h := by cases h
  nodup := List.nodup_nil
  untouched id h := by cases h
  serving id r h := by cases h

theorem getElem?_update {s : System} {id j : Nat} {f : Record → Record} {r' : Record}
    (h : (s.update id f).records[j]? = some r') :
    ∃ r, s.records[j]? = some r ∧ r' = if id = j then f r else r := by
  rw [System.update, List.getElem?_modify] at h
  obtain ⟨r, hr, rfl⟩ := Option.map_eq_some_iff.mp h
  exact ⟨r, hr, rfl⟩

/-- A change of one record that keeps it `Once`, and untouched while it waits,
keeps the invariant. -/
theorem inv_update {s : System} (h : Inv s) {id : Nat} {f : Record → Record}
    (honce : ∀ r, s.records[id]? = some r → Once (f r))
    (huntouched : ∀ r, id ∈ s.waiting → Untouched r → Untouched (f r))
    (hserving : ∀ r, s.stage = .serving id → r.gaveUpQueued = false →
      (f r).gaveUpQueued = false) : Inv (s.update id f) where
  once j r' hr' := by
    obtain ⟨r, hr, rfl⟩ := getElem?_update hr'
    split_ifs with hj
    · subst hj
      exact honce r hr
    · exact h.once j r hr
  nodup := h.nodup
  untouched j hj := by
    obtain ⟨r, hr, hu⟩ := h.untouched j hj
    refine ⟨if id = j then f r else r, ?_, ?_⟩
    · rw [System.update, List.getElem?_modify, hr]
      rfl
    · split_ifs with hij
      · subst hij
        exact huntouched r hj hu
      · exact hu
  serving j r' hstage hr' := by
    obtain ⟨r, hr, rfl⟩ := getElem?_update hr'
    split_ifs with hj
    · subst hj
      exact hserving r hstage (h.serving _ r hstage hr)
    · exact h.serving j r hstage hr

/-- A move that leaves the records alone and lets no further line wait. -/
theorem inv_of_sublist {s s' : System} (h : Inv s) (hrecords : s'.records = s.records)
    (hwaiting : s'.waiting.Sublist s.waiting)
    (hserving : ∀ id r, s'.stage = .serving id → s.records[id]? = some r →
      r.gaveUpQueued = false) : Inv s' where
  once id r hr := h.once id r (hrecords ▸ hr)
  nodup := hwaiting.nodup h.nodup
  untouched id hid := by
    obtain ⟨r, hr, hu⟩ := h.untouched id (hwaiting.subset hid)
    exact ⟨r, by rw [hrecords, hr], hu⟩
  serving id r hstage hr := hserving id r hstage (hrecords ▸ hr)

theorem lt_of_waiting {s : System} (h : Inv s) {id : Nat} (hid : id ∈ s.waiting) :
    id < s.records.length := by
  obtain ⟨r, hr, -⟩ := h.untouched id hid
  exact (List.getElem?_eq_some_iff.mp hr).1

theorem inv_submit {s : System} (h : Inv s) (line : List Char) :
    Inv { s with
      records := s.records ++ [Record.new line]
      queue := s.queue ++ [.line s.records.length] } := by
  have hwaiting : System.waiting { s with
      records := s.records ++ [Record.new line]
      queue := s.queue ++ [.line s.records.length] } = s.waiting ++ [s.records.length] := by
    rw [System.waiting, System.waiting, List.filterMap_append, List.append_assoc]
    rfl
  have hnew : Untouched (Record.new line) := ⟨rfl, rfl, rfl⟩
  have hget {id : Nat} {r : Record} (hr : (s.records ++ [Record.new line])[id]? = some r) :
      s.records[id]? = some r ∨ r = Record.new line := by
    by_cases hid : id < s.records.length
    · rw [List.getElem?_append_left hid] at hr
      exact Or.inl hr
    · rw [List.getElem?_append_right (not_lt.mp hid)] at hr
      exact Or.inr (List.mem_singleton.mp (List.mem_of_getElem? hr))
  refine ⟨?_, ?_, ?_, ?_⟩
  · intro id r hr
    rcases hget hr with hr | rfl
    · exact h.once id r hr
    · exact hnew.once fun hq => by cases hq
  · rw [hwaiting, List.nodup_append]
    refine ⟨h.nodup, List.pairwise_singleton _ _, ?_⟩
    intro a ha b hb
    rw [List.mem_singleton] at hb
    have := lt_of_waiting h ha
    omega
  · rw [hwaiting]
    intro id hid
    rcases List.mem_append.mp hid with hid | hid
    · obtain ⟨r, hr, hu⟩ := h.untouched id hid
      exact ⟨r, by rw [List.getElem?_append_left (lt_of_waiting h hid), hr], hu⟩
    · obtain rfl := List.mem_singleton.mp hid
      exact ⟨_, by rw [List.getElem?_append_right le_rfl, Nat.sub_self]; rfl, hnew⟩
  · intro id r hstage hr
    rcases hget hr with hr | rfl
    · exact h.serving id r hstage hr
    · rfl

theorem inv_dequeue {s : System} (h : Inv s) {id : Nat} {queue : List Request}
    (hstage : s.stage = .idle) (hqueue : s.queue = .line id :: queue) :
    Inv (System.update { s with queue := queue, stage := .taken (.line id) } id fun r =>
      { r with gaveUpQueued := r.gaveUp }) := by
  have hwaiting : System.waiting { s with queue := queue, stage := .taken (.line id) } =
      s.waiting := by
    rw [System.waiting, System.waiting, hstage, hqueue]
    rfl
  have hmoved : Inv { s with queue := queue, stage := .taken (.line id) } := by
    refine inv_of_sublist h rfl ?_ ?_
    · rw [hwaiting]
    · intro j r hj
      cases hj
  have hmem : id ∈ s.waiting := by
    rw [← hwaiting]
    exact List.mem_append_left _ (List.mem_singleton_self id)
  apply inv_update hmoved
  · intro r hr
    obtain ⟨r', hr', hu⟩ := h.untouched id hmem
    have heq : r = r' := Option.some.inj (hr.symm.trans hr')
    exact Untouched.once ⟨heq ▸ hu.1, heq ▸ hu.2, heq ▸ hu.3⟩ fun hq => hq
  · intro r _ hu
    exact ⟨hu.1, hu.2, hu.3⟩
  · intro r hj
    cases hj

theorem inv_check {s : System} (h : Inv s) {id : Nat} {r : Record}
    (hstage : s.stage = .taken (.line id)) (hr : s.records[id]? = some r) :
    Inv { s with stage := if r.gaveUp then .idle else .serving id } := by
  refine inv_of_sublist h rfl ?_ ?_
  · rw [System.waiting, System.waiting, hstage]
    split_ifs
    · exact List.sublist_append_right _ _
    · exact List.Sublist.refl _
  · intro j r' hj hr'
    split_ifs at hj with hg
    cases hj
    obtain rfl := Option.some.inj (hr.symm.trans hr')
    by_contra hq
    rw [Bool.not_eq_false] at hq
    exact hg ((h.once _ _ hr).dropped hq).1

theorem inv_serve {env : Env} {s : System} (h : Inv s) {id : Nat} {r : Record}
    (hstage : s.stage = .serving id) (hr : s.records[id]? = some r) (owner : Owner)
    (frames : List (List UInt8)) :
    Inv (System.update { s with stage := .idle, owner := owner } id fun r' =>
      { r' with
        executions := r'.executions ++ (serveLine env r.line s.owner).1.executions
        writes := r'.writes ++ frames
        answers := r'.answers ++ [(serveLine env r.line s.owner).1.answer] }) := by
  have hwaiting : s.waiting =
      id :: System.waiting { s with stage := .idle, owner := owner } := by
    rw [System.waiting, System.waiting, hstage]
    rfl
  have hmoved : Inv { s with stage := .idle, owner := owner } := by
    refine inv_of_sublist h rfl ?_ ?_
    · rw [hwaiting]
      exact List.sublist_cons_self _ _
    · intro j r hj
      cases hj
  have hnodup := h.nodup
  rw [hwaiting, List.nodup_cons] at hnodup
  obtain ⟨r', hr', hu⟩ := h.untouched id (hwaiting ▸ List.mem_cons_self)
  obtain rfl := Option.some.inj (hr.symm.trans hr')
  obtain ⟨hone, hlast⟩ := serveLine_spec env r.line s.owner
  apply inv_update hmoved
  · intro r' hr'
    obtain rfl := Option.some.inj (hr.symm.trans hr')
    have hq := h.serving id r hstage hr
    rw [hu.executions, hu.answers]
    refine ⟨hone, ?_, Nat.le_refl 1, ?_⟩
    · intro hq'
      rw [hq] at hq'
      cases hq'
    · intro a ha
      obtain rfl := List.mem_singleton.mp ha
      exact hlast
  · intro r' hid
    exact absurd hid hnodup.1
  · intro r' hj
    cases hj

theorem inv_step {env : Env} {s s' : System} {a : Action} (h : Inv s)
    (hstep : step env s a = some s') : Inv s' := by
  cases a with
  | submit line =>
      rw [step] at hstep
      split_ifs at hstep
      cases hstep
      exact inv_submit h line
  | submitRelease =>
      rw [step] at hstep
      split_ifs at hstep
      cases hstep
      refine inv_of_sublist h rfl ?_ ?_
      · rw [System.waiting, System.waiting, List.filterMap_append]
        exact (List.append_nil _).symm ▸ List.Sublist.refl _
      · exact h.serving
  | giveUp id =>
      cases hstep
      apply inv_update h
      · intro r hr
        have honce := h.once id r hr
        refine ⟨honce.executions, fun hq => ⟨rfl, ?_⟩, honce.answers, honce.outcome⟩
        obtain ⟨-, hu⟩ := honce.dropped hq
        exact ⟨hu.1, hu.2, hu.3⟩
      · intro r _ hu
        exact ⟨hu.1, hu.2, hu.3⟩
      · intro r _ hq
        exact hq
  | dequeue =>
      rw [step] at hstep
      split at hstep
      · rename_i queue hstage hqueue
        cases hstep
        refine inv_of_sublist h rfl ?_ ?_
        · rw [System.waiting, System.waiting, hstage, hqueue]
          exact List.Sublist.refl _
        · intro j r hj
          cases hj
      · rename_i id queue hstage hqueue
        cases hstep
        exact inv_dequeue h hstage hqueue
      · cases hstep
  | check =>
      rw [step] at hstep
      split at hstep
      · rename_i hstage
        cases hstep
        refine inv_of_sublist h rfl ?_ ?_
        · rw [System.waiting, System.waiting, hstage]
          exact List.Sublist.refl _
        · intro j r hj
          cases hj
      · rename_i id hstage
        cases hr : s.records[id]? with
        | none =>
            rw [hr] at hstep
            cases hstep
        | some r =>
            rw [hr] at hstep
            cases hstep
            exact inv_check h hstage hr
      · cases hstep
  | serve =>
      rw [step] at hstep
      split at hstep
      · rename_i id hstage
        cases hr : s.records[id]? with
        | none =>
            rw [hr] at hstep
            cases hstep
        | some r =>
            rw [hr] at hstep
            cases hstep
            exact inv_serve h hstage hr _ _
      · cases hstep

/-- In every run, whatever the device does and whenever clients give up: a line
is executed at most once unless its verb is a query's, nothing is executed or
written for a line whose client had given up before it was dequeued, and a line
is answered at most once, with the outcome of its last execution or, if the link
could not be opened for it, with that error. -/
theorem line_executed_at_most_once {env : Env} {as : List Action} {s : System}
    (h : Machine.run (step env) System.initial as = some s) {r : Record} (hr : r ∈ s.records) :
    (String.ofList (verb r.line) ∉ ["ping", "info", "version"] → r.executions.length ≤ 1) ∧
      (r.gaveUpQueued = true → r.executions = [] ∧ r.writes = []) ∧
      r.answers.length ≤ 1 ∧
      ∀ a ∈ r.answers,
        r.executions.getLast? = some a ∨ r.executions = [] ∧ ∃ e, a = .error e := by
  have hinv : Inv s := Machine.run_induct inv_initial (fun _ _ _ hm hstep => inv_step hm hstep) h
  obtain ⟨id, hid⟩ := List.mem_iff_getElem?.mp hr
  have honce := hinv.once id r hid
  refine ⟨honce.executions, ?_, honce.answers, honce.outcome⟩
  intro hq
  obtain ⟨-, hu⟩ := honce.dropped hq
  exact ⟨hu.executions, hu.writes⟩

/-- A device that opens and answers, but loses the reply to the first `ping` and
to the release of the first key. -/
def lossyEnv : Env where
  device := "/dev/ttyUSB0"
  opens _ := true
  exchange n :=
    if n = 4 ∨ n = 7 then ⟨none, [], .timedOut⟩
    else if n = 1 ∨ n = 5 then ⟨none, frame 0x81 [0x38, 1, 0], .timedOut⟩
    else if n = 3 then ⟨none, frame 0x85 [0], .timedOut⟩
    else ⟨none, frame 0x82 [0], .timedOut⟩
  setBaudRate _ := none
  openterfaceCdc _ := false

/-- Three lines, the client of the last one gone before its turn. -/
def lossyRun : List Action :=
  [.submit "ping".toList, .submit "key ENTER".toList, .submit "type x".toList, .giveUp 2,
    .dequeue, .check, .serve, .dequeue, .check, .serve, .dequeue, .check]

theorem line_executed_at_most_once_lossy :
    ∃ s r, Machine.run (step lossyEnv) System.initial lossyRun = some s ∧ r ∈ s.records ∧
      r.line = "key ENTER".toList ∧ r.writes.length = 3 ∧ r.answers ≠ [] ∧
      r.executions.length ≤ 1 := by
  have hrun : (Machine.run (step lossyEnv) System.initial lossyRun).any (fun s =>
      s.records.any fun r =>
        r.line == "key ENTER".toList && r.writes.length == 3 && r.answers != []) = true := by
    decide +kernel
  obtain ⟨s, hs, hrecords⟩ := (Option.any_eq_true _ _).mp hrun
  obtain ⟨r, hr, hline⟩ := List.any_eq_true.mp hrecords
  simp only [Bool.and_eq_true, beq_iff_eq, bne_iff_ne] at hline
  refine ⟨s, r, hs, hr, hline.1.1, hline.1.2, hline.2, ?_⟩
  apply (line_executed_at_most_once hs hr).1
  rw [hline.1.1]
  decide

end Once

end Ch9329

end Paniolo
