import Paniolo.Serialcap.Wait.Run
import Mathlib.Logic.Relation

/-!
# What a pass of the loop changes

Whatever the outside answers, a pass changes the account in two ways only: it
notes a diagnostic, or it takes over a record that passed every check. A whole
run is a sequence of such changes, so what both of them keep holds at the end.
-/

namespace Paniolo

namespace Serialcap

namespace Wait

variable {request : Request} {startedAtMs : UInt64} {t : Turn}

/-- A record that passes every check, and what is acquired with it. -/
structure Accepts (request : Request) (startedAtMs : UInt64) (s : State) (record : JsonValue)
    (candidate : Acquired) : Prop where
  seq : ∃ seq, (record.get "rx_seq").asU64 = some seq ∧ s.acquired.cursor < seq
  epoch : (record.get "epoch").asStr = some request.epoch
  raw : ∃ raw, (record.get "bytes").asArray = some raw ∧
    s.acquired.bytes.length + raw.length ≤ request.maxBytes.toNat
  append : s.acquired.append record = .ok candidate
  fits : s.emittedBytes + eventBytes request (newEvents s.acquired candidate) + 1 +
    FINISH_RESERVE + worstLen request startedAtMs candidate ≤ request.maxOutputBytes.toNat

/-- The account is as before, but for a diagnostic at most. -/
structure Noted (s s' : State) : Prop where
  acquired : s'.acquired = s.acquired
  emitted : s'.emitted = s.emitted
  emittedBytes : s'.emittedBytes = s.emittedBytes
  diagnostics : s'.diagnostics = s.diagnostics ∨ ∃ v, s'.diagnostics = s.diagnostics.push v

/-- A record was taken over, and its lines handed out if they are to be followed. -/
structure Committed (request : Request) (startedAtMs : UInt64) (s : State) (record : JsonValue)
    (s' : State) : Prop where
  accepts : Accepts request startedAtMs s record s'.acquired
  emitted : s'.emitted = s.emitted ++
    if request.follow then newEvents s.acquired s'.acquired else []
  emittedBytes : s'.emittedBytes =
    s.emittedBytes + eventBytes request (newEvents s.acquired s'.acquired)
  diagnostics : s'.diagnostics = s.diagnostics
  generation : s'.generation = s.generation
  firstRead : s'.firstRead = s.firstRead

inductive Change (request : Request) (startedAtMs : UInt64) (s s' : State) : Prop where
  | note (h : Noted s s')
  | commit (record : JsonValue) (h : Committed request startedAtMs s record s')

def Changes (request : Request) (startedAtMs : UInt64) : State → State → Prop :=
  Relation.ReflTransGen (Change request startedAtMs)

theorem Changes.refl (s : State) : Changes request startedAtMs s s := Relation.ReflTransGen.refl

theorem Changes.trans {a b d : State} (h : Changes request startedAtMs a b)
    (h' : Changes request startedAtMs b d) : Changes request startedAtMs a d :=
  Relation.ReflTransGen.trans h h'

theorem noted_push (s : State) (v : JsonValue) : Noted s (s.push v) :=
  ⟨rfl, rfl, rfl, Or.inr ⟨v, rfl⟩⟩

theorem Noted.changes {s s' : State} (h : Noted s s') : Changes request startedAtMs s s' :=
  Relation.ReflTransGen.single (.note h)

/-- What both kinds of change keep is kept along a run. -/
theorem Changes.induct {P : State → Prop} {s s' : State}
    (h : Changes request startedAtMs s s') (hs : P s)
    (hstep : ∀ a b, P a → Change request startedAtMs a b → P b) : P s' := by
  induction h with
  | refl => exact hs
  | tail _ hab ih => exact hstep _ _ ih hab

/-- A stage that goes on or breaks has only changed the account. -/
def Flow.From (request : Request) (startedAtMs : UInt64) (s : State) : Flow → Prop
  | .go s' => Changes request startedAtMs s s'
  | .stop _ s' => Changes request startedAtMs s s'
  | .fail _ _ => True

theorem Flow.From.of_changes {s m : State} {f : Flow} (h : Changes request startedAtMs s m)
    (hf : f.From request startedAtMs m) : f.From request startedAtMs s := by
  cases f with
  | go s' => exact h.trans hf
  | stop status s' => exact h.trans hf
  | fail e s' => trivial

theorem Flow.From.bind {s : State} {f : Flow} {next : State → Flow}
    (hf : f.From request startedAtMs s) (hnext : ∀ m, (next m).From request startedAtMs m) :
    (f.bind next).From request startedAtMs s := by
  cases f with
  | go m => exact .of_changes hf (hnext m)
  | stop status m => exact hf
  | fail e m => trivial

theorem Flow.bind_eq_go {f : Flow} {next : State → Flow} {s' : State}
    (h : f.bind next = .go s') : ∃ m, f = .go m ∧ next m = .go s' := by
  cases f with
  | go m => exact ⟨m, rfl, h⟩
  | stop status m => cases h
  | fail e m => cases h

theorem Flow.bind_eq_stop {f : Flow} {next : State → Flow} {status : Status} {s' : State}
    (h : f.bind next = .stop status s') :
    f = .stop status s' ∨ ∃ m, f = .go m ∧ next m = .stop status s' := by
  cases f with
  | go m => exact Or.inr ⟨m, rfl, h⟩
  | stop status m => exact Or.inl h
  | fail e m => cases h

/-! ### The stages -/

theorem from_preflightStage (s : State) :
    (preflightStage request t s).1.From request startedAtMs s := by
  rw [preflightStage]
  split
  · split
    · exact .refl _
    · split
      · exact .refl _
      · split
        · exact Noted.changes ⟨rfl, rfl, rfl, Or.inl rfl⟩
        · exact Noted.changes ⟨rfl, rfl, rfl, Or.inl rfl⟩
  · exact .refl _

theorem changes_sortNote (s : State) (v : JsonValue) :
    Changes request startedAtMs s (sortNote s v) := by
  rw [sortNote]
  split
  · exact Noted.changes ⟨rfl, rfl, rfl, Or.inl rfl⟩
  · exact (noted_push s v).changes

theorem changes_foldl_sortNote (notes : List JsonValue) :
    ∀ s : State, Changes request startedAtMs s (notes.foldl sortNote s) := by
  induction notes with
  | nil => exact fun s => .refl s
  | cons v notes ih => exact fun s => (changes_sortNote s v).trans (ih (sortNote s v))

/-- Events that were all handed out are on record, and nothing else changed. -/
theorem emitAll_go {events : List JsonValue} :
    ∀ {s s' : State}, emitAll t events s = .go s' →
      s' = { s with emitted := s.emitted ++ events } := by
  induction events with
  | nil =>
      intro s s' h
      cases h
      simp
  | cons e rest ih =>
      intro s s' h
      rw [emitAll] at h
      split at h
      · cases h
      · rw [ih h]
        simp

theorem emitAll_not_stop {events : List JsonValue} {status : Status} :
    ∀ {s s' : State}, emitAll t events s ≠ .stop status s' := by
  induction events with
  | nil => exact fun h => by cases h
  | cons e rest ih =>
      intro s s' h
      rw [emitAll] at h
      split at h
      · cases h
      · exact ih h

theorem takeRecord_stop {i : Nat} {record : JsonValue} {s s' : State} {status : Status}
    (h : takeRecord request startedAtMs t i record s = .stop status s') : Noted s s' := by
  rw [takeRecord] at h
  split at h
  · cases h
    exact ⟨rfl, rfl, rfl, Or.inl rfl⟩
  · split at h
    · cases h
      exact noted_push s _
    · split at h
      · cases h
        exact noted_push s _
      · split at h
        · cases h
          exact noted_push s _
        · split at h
          · cases h
            exact ⟨rfl, rfl, rfl, Or.inl rfl⟩
          · rw [commitRecord] at h
            split at h
            · cases h
              exact noted_push s _
            · dsimp only at h
              split at h
              · cases h
                exact ⟨rfl, rfl, rfl, Or.inl rfl⟩
              · -- handing out the events goes on or fails
                rcases Flow.bind_eq_stop h with hemit | ⟨m, -, hm⟩
                · split at hemit
                  · exact absurd hemit emitAll_not_stop
                  · cases hemit
                · cases hm

theorem takeRecord_go {i : Nat} {record : JsonValue} {s s' : State}
    (h : takeRecord request startedAtMs t i record s = .go s') :
    Committed request startedAtMs s record s' := by
  rw [takeRecord] at h
  split at h
  · cases h
  · split at h
    · cases h
    · rename_i seq hseq
      split at h
      · cases h
      · rename_i hbound
        rw [not_or, not_not, UInt64.not_le] at hbound
        split at h
        · cases h
        · rename_i raw hraw
          split at h
          · cases h
          · rename_i hroom
            rw [commitRecord] at h
            split at h
            · cases h
            · rename_i candidate happend
              dsimp only at h
              split at h
              · cases h
              · rename_i hfits
                obtain ⟨m, hemit, hm⟩ := Flow.bind_eq_go h
                cases hm
                have hmid : m = { s with emitted := s.emitted ++
                    if request.follow then newEvents s.acquired candidate else [] } := by
                  split at hemit
                  · rename_i hfollow
                    rw [emitAll_go hemit, if_pos hfollow]
                  · rename_i hfollow
                    cases hemit
                    rw [if_neg hfollow, List.append_nil]
                rw [hmid]
                exact ⟨⟨⟨seq, hseq, hbound.2⟩, hbound.1, ⟨raw, hraw, Nat.not_lt.mp hroom⟩, happend,
                  Nat.not_lt.mp hfits⟩, rfl, rfl, rfl, rfl, rfl⟩

theorem from_takeRecords (records : List JsonValue) :
    ∀ (i : Nat) (s : State),
      (takeRecords request startedAtMs t i records s).From request startedAtMs s := by
  induction records with
  | nil => exact fun i s => Changes.refl s
  | cons record rest ih =>
      intro i s
      refine Flow.From.bind ?_ (ih (i + 1))
      cases h : takeRecord request startedAtMs t i record s with
      | go s' => exact Relation.ReflTransGen.single (.commit record (takeRecord_go h))
      | stop status s' => exact (takeRecord_stop h).changes
      | fail e s' => trivial

theorem from_readStage (s : State) :
    (readStage request startedAtMs t s).1.From request startedAtMs s := by
  rw [readStage]
  split
  · exact (noted_push s _).changes
  · refine .of_changes ?_ (from_takeRecords _ 0 _)
    refine Changes.trans ?_ (changes_foldl_sortNote _ _)
    split
    · exact Noted.changes ⟨rfl, rfl, rfl, Or.inl rfl⟩
    · exact .refl s

theorem from_envelopeStage (envelope : JsonValue) (s : State) :
    (envelopeStage envelope s).From request startedAtMs s := by
  rw [envelopeStage]
  split
  · exact Changes.refl s
  · split
    · exact Changes.refl s
    · split <;> exact Changes.refl s

theorem from_healthStage (state : JsonValue) (s : State) :
    (healthStage request state s).From request startedAtMs s := by
  rw [healthStage]
  split
  · exact Changes.refl s
  · split
    · exact Changes.refl s
    · split
      · exact (noted_push s _).changes
      · rw [generationStage]
        split
        · exact Changes.refl s
        · split
          · exact Changes.refl s
          · exact Noted.changes ⟨rfl, rfl, rfl, Or.inl rfl⟩

theorem from_probeStage (preflight : Option (Except HealthError JsonValue)) (s : State) :
    (probeStage request t preflight s).1.From request startedAtMs s := by
  rw [probeStage]
  split
  · exact Changes.refl s
  · split
    · split
      · exact Changes.refl s
      · exact (noted_push s _).changes
    · split
      · exact Changes.refl s
      · exact from_healthStage _ s

theorem from_endStage (envelope state : JsonValue) (s : State) :
    (endStage request t envelope state s).From request startedAtMs s := by
  rw [endStage]
  split
  · exact Changes.refl s
  · split
    · exact Changes.refl s
    · split
      · exact Changes.refl s
      · exact Noted.changes ⟨rfl, rfl, rfl, Or.inl rfl⟩

theorem from_turn (s : State) : (turn request startedAtMs t s).From request startedAtMs s := by
  refine (from_preflightStage s).bind fun s => (from_readStage s).bind fun s => ?_
  refine (from_envelopeStage _ s).bind fun s => (from_probeStage _ s).bind fun s => ?_
  exact from_endStage _ _ s

/-- The whole loop. -/
theorem from_acquireLoop (turns : List Turn) :
    ∀ s : State, (acquireLoop request startedAtMs turns s).From request startedAtMs s := by
  induction turns with
  | nil => exact fun s => Changes.refl s
  | cons t turns ih => exact fun s => (from_turn s).bind ih

theorem endStage_ne_go (ht : t.lateEnd = true) (envelope state : JsonValue) (s s' : State) :
    endStage request t envelope state s ≠ .go s' := by
  intro h
  rw [endStage, if_pos ht] at h
  split at h
  · cases h
  · split at h
    · cases h
    · cases h

/-- A pass that ends behind the deadline is the last. -/
theorem turn_ne_go_of_lateEnd (ht : t.lateEnd = true) (s s' : State) :
    turn request startedAtMs t s ≠ .go s' := by
  intro h
  obtain ⟨m, -, h⟩ := Flow.bind_eq_go h
  obtain ⟨m, -, h⟩ := Flow.bind_eq_go h
  obtain ⟨m, -, h⟩ := Flow.bind_eq_go h
  obtain ⟨m, -, h⟩ := Flow.bind_eq_go h
  exact endStage_ne_go ht _ _ m s' h

/-- So a run comes to an end as soon as the clock does. -/
theorem run_ends (finishedAtMs elapsedMs : UInt64) {turns : List Turn} (ht : t ∈ turns)
    (hlate : t.lateEnd = true) :
    ∃ answer, run request startedAtMs finishedAtMs elapsedMs turns = some answer := by
  have hloop : ∀ s s', acquireLoop request startedAtMs turns s ≠ .go s' := by
    induction turns with
    | nil => cases ht
    | cons u turns ih =>
        intro s s' h
        obtain ⟨m, hm, h⟩ := Flow.bind_eq_go h
        rcases List.mem_cons.mp ht with rfl | ht
        · exact turn_ne_go_of_lateEnd hlate s m hm
        · exact ih ht m s' h
  rw [run]
  split
  · exact ⟨_, rfl⟩
  · split
    · exact ⟨_, rfl⟩
    · split
      · exact ⟨_, rfl⟩
      · split
        · rename_i s hs
          exact absurd hs (hloop _ s)
        · exact ⟨_, rfl⟩
        · exact ⟨_, rfl⟩

/-! ### A short run -/

/-- Follow the lines after chunk 4 until one says ok. -/
def promptRequest : Request where
  epoch := "7-1"
  since := 4
  timeoutMs := 1000
  maxBytes := 64
  maxOutputBytes := 4096
  follow := true
  pattern := some "ok"
  includePending := true

/-- The status of a daemon that has received and persisted chunk 5. -/
def promptStatus : JsonValue :=
  .obj [("connected", .bool true), ("health", .obj [("epoch", .str "7-1"),
    ("capture_alive", .bool true), ("evidence_error", .null), ("last_rx_seq", JsonValue.nat 5),
    ("evidence_through_seq", JsonValue.nat 5), ("connection_generation", JsonValue.nat 1)])]

def promptRecord : JsonValue :=
  .obj [("epoch", .str "7-1"), ("rx_seq", JsonValue.nat 5),
    ("connection_generation", JsonValue.nat 1), ("bytes", byteArray [111, 107, 10])]

/-- A pass in time that reads that chunk. -/
def promptTurn : Turn where
  lateStart := false
  preflight := .ok promptStatus
  latePreflight := false
  envelope := .ok (.obj [("records", .arr [promptRecord])])
  lateRecord := fun _ => false
  emitError := fun _ => none
  lateProbe := false
  probe := .ok promptStatus
  lateError := false
  lateAnswer := false
  lateEnd := false

def promptRun : Option (Except RunError JsonValue × List JsonValue) :=
  run promptRequest 1000 1005 5 [promptTurn]

theorem exists_of_any_isOk {x : Option (Except RunError JsonValue × List JsonValue)}
    (h : (x.any fun p => p.1.isOk) = true) : ∃ output emitted, x = some (.ok output, emitted) := by
  obtain ⟨⟨answer, emitted⟩, rfl, hok⟩ := (Option.any_eq_true _ _).mp h
  cases answer with
  | error e => cases hok
  | ok output => exact ⟨output, emitted, rfl⟩

theorem exists_promptRun : ∃ output emitted, promptRun = some (.ok output, emitted) :=
  exists_of_any_isOk (by decide +kernel)

end Wait

end Serialcap

end Paniolo
