import Paniolo.Serialcap.Wait.Acquisition

/-!
# Reconnections during a wait

A pass compares the connection that the daemon reports with those of the
records and with the last report. The boundary of the wait itself carries no
connection: a reconnection between the boundary and the first report shows only
in records from before it.
-/

namespace Paniolo

namespace Serialcap

namespace Wait

variable {request : Request} {startedAtMs : UInt64} {t : Turn}

/-- The answer that a pass goes by: that of the preflight if it said to wait. -/
def evaluated (request : Request) (first : Bool) (t : Turn) : Except HealthError JsonValue :=
  if first && behind request t.preflight then t.preflight else t.probe

/-- The connection that an answer reports. -/
def reported (answer : Except HealthError JsonValue) : Option UInt64 :=
  answer.toOption.bind fun state => ((state.get "health").get "connection_generation").asU64

/-- The records that the first pass is given. -/
def firstRecords (request : Request) (t : Turn) : List JsonValue :=
  if behind request t.preflight then []
  else t.envelope.toOption.elim [] fun envelope => arrayField envelope "records"

/-! ### What a pass that goes on, or matches, has checked -/

/-- The connection is the one of every record and the one last seen. -/
structure Connected (request : Request) (t : Turn) (s s' : State) : Prop where
  records : ∀ r ∈ s'.acquired.records,
    (r.get "connection_generation").asU64 = reported (evaluated request s.firstRead t)
  last : ∀ g, s.generation = some g → reported (evaluated request s.firstRead t) = some g
  generation : s'.generation = reported (evaluated request s.firstRead t)
  firstRead : s'.firstRead = (s.firstRead && behind request t.preflight)

theorem preflightStage_go {s s' : State} (h : (preflightStage request t s).1 = .go s') :
    s'.acquired = s.acquired ∧ s'.generation = s.generation ∧
      s'.firstRead = (s.firstRead && behind request t.preflight) ∧
      ((preflightStage request t s).2.getD t.probe) = evaluated request s.firstRead t ∧
      s'.shouldRead = (if s.firstRead then !behind request t.preflight else s.shouldRead) := by
  rw [preflightStage] at h ⊢
  rw [evaluated]
  by_cases hfirst : s.firstRead = true
  · rw [if_pos hfirst] at h ⊢
    split at h
    · cases h
    · rename_i hstart
      rw [if_neg hstart]
      split at h
      · cases h
      · rename_i hlate
        rw [if_neg hlate]
        split at h
        · rename_i hbehind
          rw [if_pos hbehind]
          cases h
          simp [hfirst, hbehind]
        · rename_i hbehind
          rw [if_neg hbehind]
          cases h
          simp [hfirst, hbehind]
  · rw [if_neg hfirst] at h ⊢
    cases h
    simp [hfirst]

theorem takeRecords_go {records : List JsonValue} :
    ∀ {i : Nat} {s s' : State}, takeRecords request startedAtMs t i records s = .go s' →
      s'.acquired.records = s.acquired.records ++ records ∧ s'.generation = s.generation ∧
        s'.firstRead = s.firstRead := by
  induction records with
  | nil =>
      intro i s s' h
      cases h
      simp
  | cons record rest ih =>
      intro i s s' h
      obtain ⟨m, hm, h⟩ := Flow.bind_eq_go h
      have hone := takeRecord_go hm
      obtain ⟨seq, bytes, -, -, -, -, hrecords, -⟩ :=
        append_ok request.since hone.accepts.append
      obtain ⟨hrest, hgen, hfirst⟩ := ih h
      refine ⟨?_, hgen.trans hone.generation, hfirst.trans hone.firstRead⟩
      rw [hrest, hrecords, List.append_assoc]
      rfl

theorem foldl_sortNote_frame (notes : List JsonValue) :
    ∀ s : State, (notes.foldl sortNote s).acquired = s.acquired ∧
      (notes.foldl sortNote s).generation = s.generation ∧
      (notes.foldl sortNote s).firstRead = s.firstRead := by
  induction notes with
  | nil => exact fun s => ⟨rfl, rfl, rfl⟩
  | cons v notes ih =>
      intro s
      have hone : (sortNote s v).acquired = s.acquired ∧ (sortNote s v).generation = s.generation ∧
          (sortNote s v).firstRead = s.firstRead := by
        rw [sortNote]
        split <;> exact ⟨rfl, rfl, rfl⟩
      obtain ⟨h1, h2, h3⟩ := ih (sortNote s v)
      exact ⟨h1.trans hone.1, h2.trans hone.2.1, h3.trans hone.2.2⟩

/-- A read that goes on has taken over every record it was given. -/
theorem readStage_go {s s' : State} (h : (readStage request startedAtMs t s).1 = .go s') :
    s'.acquired.records = s.acquired.records ++ (if s.shouldRead then
      t.envelope.toOption.elim [] fun envelope => arrayField envelope "records" else []) ∧
      s'.generation = s.generation ∧ s'.firstRead = s.firstRead := by
  rw [readStage] at h
  split at h
  · cases h
  · rename_i envelope henv
    obtain ⟨hrecords, hgen, hfirst⟩ := takeRecords_go h
    obtain ⟨hacq, hgen', hfirst'⟩ := foldl_sortNote_frame (arrayField envelope "diagnostics")
      (if s.shouldRead then { s with pendingDiagnostics := [] } else s)
    rw [hrecords, hgen, hfirst, hacq, hgen', hfirst']
    by_cases hread : s.shouldRead = true
    · rw [if_pos hread] at henv ⊢
      rw [if_pos hread, henv]
      exact ⟨rfl, rfl, rfl⟩
    · rw [if_neg hread] at henv ⊢
      rw [if_neg hread]
      cases henv
      exact ⟨rfl, rfl, rfl⟩

theorem envelopeStage_go {envelope : JsonValue} {s s' : State}
    (h : envelopeStage envelope s = .go s') : s' = s := by
  rw [envelopeStage] at h
  split at h
  · cases h
  · split at h
    · cases h
    · split at h
      · cases h
      · cases h
        rfl

theorem healthStage_go {state : JsonValue} {s s' : State}
    (h : healthStage request state s = .go s') :
    (∀ r ∈ s.acquired.records, (r.get "connection_generation").asU64 = reported (.ok state)) ∧
      (∀ g, s.generation = some g → reported (.ok state) = some g) ∧
      s' = { s with generation := reported (.ok state) } := by
  have hreported : reported (.ok state) =
      ((state.get "health").get "connection_generation").asU64 := rfl
  rw [hreported]
  rw [healthStage] at h
  split at h
  · cases h
  · split at h
    · cases h
    · split at h
      · cases h
      · rw [generationStage] at h
        split at h
        · cases h
        · rename_i hrecords
          split at h
          · cases h
          · rename_i hlast
            cases h
            refine ⟨fun r hr => ?_, fun g hg => ?_, rfl⟩
            · refine Decidable.byContradiction fun hne => hrecords ?_
              rw [List.any_eq_true]
              exact ⟨r, hr, by simpa using hne⟩
            · rw [hg] at hlast
              simpa using hlast

theorem probeStage_go {preflight : Option (Except HealthError JsonValue)} {s s' : State}
    (h : (probeStage request t preflight s).1 = .go s') :
    ∃ state, preflight.getD t.probe = .ok state ∧ healthStage request state s = .go s' := by
  rw [probeStage] at h
  split at h
  · cases h
  · split at h
    · split at h
      · cases h
      · cases h
    · rename_i state hstate
      split at h
      · cases h
      · exact ⟨state, hstate, h⟩

/-! ### Only the last stage matches -/

def Flow.Unmatched : Flow → Prop
  | .stop status _ => status ≠ .matched
  | _ => True

theorem Flow.Unmatched.of_stop {f : Flow} (h : f.Unmatched) {status : Status} {s : State}
    (hf : f = .stop status s) : status ≠ .matched := by
  rw [hf] at h
  exact h

theorem unmatched_preflightStage (s : State) : (preflightStage request t s).1.Unmatched := by
  rw [preflightStage]
  split
  · split
    · exact Status.noConfusion
    · split
      · exact Status.noConfusion
      · split <;> trivial
  · trivial

theorem unmatched_takeRecord (i : Nat) (record : JsonValue) (s : State) :
    (takeRecord request startedAtMs t i record s).Unmatched := by
  cases hf : takeRecord request startedAtMs t i record s with
  | go s' => trivial
  | fail e s' => trivial
  | stop status s' =>
      rw [takeRecord] at hf
      split at hf
      · cases hf
        exact Status.noConfusion
      · split at hf
        · cases hf
          exact Status.noConfusion
        · split at hf
          · cases hf
            exact Status.noConfusion
          · split at hf
            · cases hf
              exact Status.noConfusion
            · split at hf
              · cases hf
                exact Status.noConfusion
              · rw [commitRecord] at hf
                split at hf
                · cases hf
                  exact Status.noConfusion
                · dsimp only at hf
                  split at hf
                  · cases hf
                    exact Status.noConfusion
                  · rcases Flow.bind_eq_stop hf with hemit | ⟨m, -, hm⟩
                    · split at hemit
                      · exact absurd hemit emitAll_not_stop
                      · cases hemit
                    · cases hm

theorem Flow.Unmatched.bind {f : Flow} {next : State → Flow} (hf : f.Unmatched)
    (hnext : ∀ s, (next s).Unmatched) : (f.bind next).Unmatched := by
  cases f with
  | go s => exact hnext s
  | stop status s => exact hf
  | fail e s => trivial

theorem unmatched_takeRecords (records : List JsonValue) :
    ∀ (i : Nat) (s : State), (takeRecords request startedAtMs t i records s).Unmatched := by
  induction records with
  | nil => exact fun _ _ => trivial
  | cons record rest ih => exact fun i s => (unmatched_takeRecord i record s).bind (ih (i + 1))

theorem unmatched_readStage (s : State) : (readStage request startedAtMs t s).1.Unmatched := by
  rw [readStage]
  split
  · exact Status.noConfusion
  · exact unmatched_takeRecords _ 0 _

theorem unmatched_envelopeStage (envelope : JsonValue) (s : State) :
    (envelopeStage envelope s).Unmatched := by
  rw [envelopeStage]
  split
  · exact Status.noConfusion
  · split
    · exact Status.noConfusion
    · split
      · exact Status.noConfusion
      · trivial

theorem unmatched_probeStage (preflight : Option (Except HealthError JsonValue)) (s : State) :
    (probeStage request t preflight s).1.Unmatched := by
  rw [probeStage]
  split
  · exact Status.noConfusion
  · split
    · split
      · exact Status.noConfusion
      · exact Status.noConfusion
    · split
      · exact Status.noConfusion
      · rename_i state _ _
        dsimp only
        rw [healthStage]
        split
        · split <;> exact Status.noConfusion
        · split
          · exact Status.noConfusion
          · split
            · exact Status.noConfusion
            · rw [generationStage]
              split
              · exact Status.noConfusion
              · split
                · exact Status.noConfusion
                · trivial

theorem endStage_cases {envelope state : JsonValue} {s s' : State}
    (h : endStage request t envelope state s = .go s' ∨
      endStage request t envelope state s = .stop .matched s') :
    s'.acquired = s.acquired ∧ s'.generation = s.generation ∧ s'.firstRead = s.firstRead := by
  rw [endStage] at h
  split at h
  · rcases h with h | h
    · cases h
    · cases h
      exact ⟨rfl, rfl, rfl⟩
  · split at h
    · rcases h with h | h
      · cases h
      · cases h
    · split at h
      · rcases h with h | h
        · cases h
        · cases h
      · rcases h with h | h
        · cases h
          exact ⟨rfl, rfl, rfl⟩
        · cases h

/-! ### The pass and the run -/

/-- A pass that goes on or matches has seen one connection throughout. -/
theorem turn_connected {s s' : State}
    (h : turn request startedAtMs t s = .go s' ∨
      turn request startedAtMs t s = .stop .matched s') :
    Connected request t s s' ∧ (s.firstRead = true →
      ∀ r ∈ firstRecords request t, r ∈ s'.acquired.records) := by
  -- the stages before the last went on
  obtain ⟨m₁, hm₁, m₂, hm₂, m₃, hm₃, m₄, hm₄, hend⟩ : ∃ m₁, (preflightStage request t s).1 = .go m₁ ∧
      ∃ m₂, (readStage request startedAtMs t m₁).1 = .go m₂ ∧
      ∃ m₃, envelopeStage (readStage request startedAtMs t m₁).2 m₂ = .go m₃ ∧
      ∃ m₄, (probeStage request t (preflightStage request t s).2 m₃).1 = .go m₄ ∧
        (endStage request t (readStage request startedAtMs t m₁).2
            (probeStage request t (preflightStage request t s).2 m₃).2 m₄ = .go s' ∨
          endStage request t (readStage request startedAtMs t m₁).2
            (probeStage request t (preflightStage request t s).2 m₃).2 m₄ = .stop .matched s') := by
    rcases h with h | h
    · obtain ⟨m₁, hm₁, h⟩ := Flow.bind_eq_go h
      obtain ⟨m₂, hm₂, h⟩ := Flow.bind_eq_go h
      obtain ⟨m₃, hm₃, h⟩ := Flow.bind_eq_go h
      obtain ⟨m₄, hm₄, h⟩ := Flow.bind_eq_go h
      exact ⟨m₁, hm₁, m₂, hm₂, m₃, hm₃, m₄, hm₄, Or.inl h⟩
    · rcases Flow.bind_eq_stop h with h | ⟨m₁, hm₁, h⟩
      · exact absurd rfl ((unmatched_preflightStage s).of_stop h)
      · rcases Flow.bind_eq_stop h with h | ⟨m₂, hm₂, h⟩
        · exact absurd rfl ((unmatched_readStage m₁).of_stop h)
        · rcases Flow.bind_eq_stop h with h | ⟨m₃, hm₃, h⟩
          · exact absurd rfl ((unmatched_envelopeStage _ m₂).of_stop h)
          · rcases Flow.bind_eq_stop h with h | ⟨m₄, hm₄, h⟩
            · exact absurd rfl ((unmatched_probeStage _ m₃).of_stop h)
            · exact ⟨m₁, hm₁, m₂, hm₂, m₃, hm₃, m₄, hm₄, Or.inr h⟩
  obtain ⟨hacq₁, hgen₁, hfirst₁, hprobe, hread⟩ := preflightStage_go hm₁
  obtain ⟨hrec₂, hgen₂, hfirst₂⟩ := readStage_go hm₂
  obtain ⟨state, hstate, hhealth⟩ := probeStage_go hm₄
  rw [hprobe] at hstate
  rw [envelopeStage_go hm₃] at hhealth
  obtain ⟨hrecords, hlast, rfl⟩ := healthStage_go hhealth
  obtain ⟨hacq, hgen, hfirst⟩ := endStage_cases hend
  rw [← hstate] at hrecords hlast hgen
  dsimp only at hacq hgen hfirst
  refine ⟨⟨?_, ?_, hgen, ?_⟩, ?_⟩
  · rw [hacq]
    exact hrecords
  · intro g hg
    exact hlast g (by rw [hgen₂, hgen₁, hg])
  · rw [hfirst, hfirst₂, hfirst₁]
  · intro hsf r hr
    rw [hacq, hrec₂, List.mem_append]
    refine Or.inr ?_
    rw [hread, if_pos hsf]
    rw [firstRecords] at hr
    by_cases hbehind : behind request t.preflight = true
    · rw [if_pos hbehind] at hr
      cases hr
    · rw [if_neg hbehind] at hr
      rw [if_pos (by simpa using hbehind)]
      exact hr

theorem acquireLoop_append (init : List Turn) (last : Turn) :
    ∀ s : State, acquireLoop request startedAtMs (init ++ [last]) s =
      (acquireLoop request startedAtMs init s).bind (turn request startedAtMs last) := by
  have hgo : ∀ f : Flow, f.bind .go = f := fun f => by cases f <;> rfl
  have hassoc : ∀ (f : Flow) (g k : State → Flow), (f.bind g).bind k = f.bind fun s => (g s).bind k :=
    fun f g k => by cases f <;> rfl
  induction init with
  | nil =>
      intro s
      exact hgo _
  | cons t init ih =>
      intro s
      rw [List.cons_append, acquireLoop, acquireLoop, hassoc]
      congr 1
      funext m
      exact ih m

theorem acquireLoop_connected {turns : List Turn} :
    ∀ {s s' : State}, acquireLoop request startedAtMs turns s = .go s' →
      (∀ g, s.generation = some g → s'.generation = some g) ∧
        s'.firstRead = (s.firstRead && turns.all fun t => behind request t.preflight) := by
  induction turns with
  | nil =>
      intro s s' h
      cases h
      simp
  | cons t turns ih =>
      intro s s' h
      obtain ⟨m, hm, h⟩ := Flow.bind_eq_go h
      have hc := (turn_connected (Or.inl hm)).1
      obtain ⟨hgen, hfirst⟩ := ih h
      refine ⟨fun g hg => hgen g ?_, ?_⟩
      · rw [hc.generation, hc.last g hg]
      · rw [hfirst, hc.firstRead, List.all_cons, Bool.and_assoc]

theorem acquireLoop_of_run {finishedAtMs elapsedMs : UInt64} {turns : List Turn}
    (h : run request startedAtMs finishedAtMs elapsedMs turns = none) :
    ∃ s, acquireLoop request startedAtMs turns { acquired := .new request.since } = .go s := by
  rw [run] at h
  split at h
  · cases h
  · split at h
    · cases h
    · split at h
      · cases h
      · split at h
        · rename_i s hs
          exact ⟨s, hs⟩
        · cases h
        · cases h

theorem stop_of_run {finishedAtMs elapsedMs : UInt64} {turns : List Turn} {output : JsonValue}
    {emitted : List JsonValue}
    (h : run request startedAtMs finishedAtMs elapsedMs turns = some (.ok output, emitted)) :
    ∃ status s notes m,
      acquireLoop request startedAtMs turns { acquired := .new request.since } = .stop status s ∧
        output = result request s.acquired status notes m := by
  rw [run] at h
  split at h
  · cases h
  · split at h
    · cases h
    · split at h
      · cases h
      · split at h
        · cases h
        · cases h
        · rename_i status s hs
          rw [finish] at h
          split at h
          · cases h
          · cases h
            exact ⟨status, s, _, _, hs, rfl⟩

theorem status_result (a : Acquired) (status : Status) (notes : Diagnostics) (m : ResultMeta) :
    ((result request a status notes m).get "status").asStr = some status.text := by
  rfl

theorem eq_matched_of_text {status : Status} (h : status.text = "matched") : status = .matched := by
  cases status <;> first | rfl | exact absurd h (by decide)

/-- As long as the first answer the wait goes by is still of the connection at the boundary, or a
record it was given by then shows another, a reconnection up to the last answer is never reported
as a match. -/
theorem reconnection_not_matched {finishedAtMs elapsedMs : UInt64} {g : UInt64}
    {init : List Turn} {last : Turn} {output : JsonValue} {emitted : List JsonValue}
    (hfirst : ∀ t, (init ++ [last]).head? = some t →
      reported (evaluated request true t) = some g ∨
        ∃ r ∈ firstRecords request t,
          (r.get "connection_generation").asU64 ≠ reported (evaluated request true t))
    (hgoing : run request startedAtMs finishedAtMs elapsedMs init = none)
    (h : run request startedAtMs finishedAtMs elapsedMs (init ++ [last]) = some (.ok output, emitted))
    (hreconnected : reported (evaluated request (init.all fun t => behind request t.preflight) last) ≠
      some g) :
    (output.get "status").asStr ≠ some "matched" := by
  intro hmatched
  obtain ⟨status, s', notes, m, hstop, rfl⟩ := stop_of_run h
  obtain ⟨s, hs⟩ := acquireLoop_of_run hgoing
  rw [status_result] at hmatched
  cases eq_matched_of_text (Option.some.inj hmatched)
  rw [acquireLoop_append, hs] at hstop
  obtain ⟨hc, hgiven⟩ := turn_connected (Or.inr hstop)
  obtain ⟨-, hsfirst⟩ := acquireLoop_connected hs
  rw [Bool.true_and] at hsfirst
  cases init with
  | nil =>
      cases hs
      rcases hfirst last rfl with hg | ⟨r, hr, hne⟩
      · exact hreconnected hg
      · exact hne (hc.records r (hgiven rfl r hr))
  | cons t init =>
      obtain ⟨m₁, hm₁, hrest⟩ := Flow.bind_eq_go hs
      obtain ⟨hc₁, hgiven₁⟩ := turn_connected (Or.inl hm₁)
      have hgen : m₁.generation = some g := by
        rcases hfirst t rfl with hg | ⟨r, hr, hne⟩
        · exact hc₁.generation.trans hg
        · exact absurd (hc₁.records r (hgiven₁ rfl r hr)) hne
      have hlast := hc.last g ((acquireLoop_connected hrest).1 g hgen)
      rw [hsfirst] at hlast
      exact hreconnected hlast

/-! ### Two short runs -/

/-- A pass during which the daemon reports connection `g` and the journal has `records`. -/
def passOn (g : Nat) (records : List JsonValue) : Turn :=
  let status : JsonValue := .obj [("connected", .bool true), ("health", .obj [("epoch", .str "7-1"),
    ("capture_alive", .bool true), ("evidence_error", .null), ("last_rx_seq", JsonValue.nat 5),
    ("evidence_through_seq", JsonValue.nat 5), ("connection_generation", JsonValue.nat g)])]
  { promptTurn with
    preflight := .ok status
    probe := .ok status
    envelope := .ok (.obj [("records", .arr records)]) }

/-- Chunk 5 as received on connection `g`. -/
def chunkOn (g : Nat) : JsonValue :=
  .obj [("epoch", .str "7-1"), ("rx_seq", JsonValue.nat 5),
    ("connection_generation", JsonValue.nat g), ("bytes", byteArray [111, 107, 10])]

def statusOf (answer : Option (Except RunError JsonValue × List JsonValue)) : Option String :=
  answer.bind fun p => p.1.toOption.bind fun output => (output.get "status").asStr

/-- Quiet on connection 1, then the awaited text on connection 2. -/
theorem reconnection_not_matched_quiet :
    ∃ output emitted,
      run promptRequest 1000 1005 5 [passOn 1 [], passOn 2 [chunkOn 2]] = some (.ok output, emitted) ∧
        (output.get "status").asStr ≠ some "matched" := by
  obtain ⟨output, emitted, hrun⟩ : ∃ output emitted,
      run promptRequest 1000 1005 5 ([passOn 1 []] ++ [passOn 2 [chunkOn 2]]) =
        some (.ok output, emitted) := exists_of_any_isOk (by decide +kernel)
  have hgoing : run promptRequest 1000 1005 5 [passOn 1 []] = none :=
    Option.isNone_iff_eq_none.mp (by decide +kernel)
  have hg : ∀ t, ([passOn 1 []] ++ [passOn 2 [chunkOn 2]]).head? = some t →
      reported (evaluated promptRequest true t) = some 1 := by
    intro t ht
    rw [← Option.some.inj ht]
    decide +kernel
  have hlater : reported (evaluated promptRequest
      ([passOn 1 []].all fun t => behind promptRequest t.preflight) (passOn 2 [chunkOn 2])) ≠
        some 1 := by decide +kernel
  exact ⟨output, emitted, hrun,
    reconnection_not_matched (fun t ht => Or.inl (hg t ht)) hgoing hrun hlater⟩

/-- The connection at the boundary was 1; the awaited text comes on connection 2, before the first
pass: the wait reports a match. -/
theorem reconnection_matched_early :
    reported (evaluated promptRequest true (passOn 2 [chunkOn 2])) ≠ some 1 ∧
      statusOf (run promptRequest 1000 1005 5 [passOn 2 [chunkOn 2]]) = some "matched" := by
  decide +kernel

end Wait

end Serialcap

end Paniolo
