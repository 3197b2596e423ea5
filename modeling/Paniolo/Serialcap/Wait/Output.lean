import Paniolo.Serialcap.Wait.Steps

/-!
# The output budget of a wait

Every record is taken over only if the result would still fit with the largest
numbers and a reserve for what may come: diagnostics, their counts and the
time of the end. The reserve is enough, so the last check never fails.
-/

namespace Paniolo

namespace Serialcap

namespace Wait

open JsonValue (nat optNat encodedLen Grows)

/-! ### Diagnostics -/

/-- The list of diagnostics never outgrows its budget. -/
theorem encodedLen_push_le {d : Diagnostics} (v : JsonValue)
    (h : encodedLen (.arr d.values) ≤ DIAGNOSTIC_BUDGET) :
    encodedLen (.arr (d.push v).values) ≤ DIAGNOSTIC_BUDGET := by
  have htrim : (d.trim v).1.values = d.values := by
    rw [Diagnostics.trim]
    split <;> rfl
  rw [Diagnostics.push]
  generalize d.trim v = kept at htrim
  obtain ⟨d', kept, rawBytes⟩ := kept
  dsimp only at htrim ⊢
  rw [htrim]
  split
  · exact h
  · rename_i hfits
    dsimp only
    rw [JsonValue.encodedLen_arr_concat]
    have hcomma : (if d.values = [] then 0 else 1) ≤ 1 := by
      split <;> omega
    omega

theorem encodedLen_foldl_push_le (notes : List JsonValue) :
    ∀ d : Diagnostics, encodedLen (.arr d.values) ≤ DIAGNOSTIC_BUDGET →
      encodedLen (.arr (notes.foldl Diagnostics.push d).values) ≤ DIAGNOSTIC_BUDGET := by
  induction notes with
  | nil => exact fun _ h => h
  | cons v notes ih => exact fun d h => ih (d.push v) (encodedLen_push_le v h)

/-! ### The reserve -/

theorem encodedLen_status_le (status : Status) :
    encodedLen (.str status.text) ≤ encodedLen (.str Status.daemonUnavailable.text) + 0 := by
  cases status <;> decide

theorem encodedLen_bool_le (b : Bool) : encodedLen (.bool b) ≤ 5 := by
  cases b <;> decide

theorem encodedLen_nat_max : encodedLen (nat U64_MAX) = 20 := by decide +kernel

/-- The result is longer than the one the checks measure by less than the reserve. -/
theorem encodedLen_result_le (request : Request) (startedAtMs : UInt64) (a : Acquired)
    (status : Status) {notes : Diagnostics}
    (hnotes : encodedLen (.arr notes.values) ≤ DIAGNOSTIC_BUDGET) (finishedAtMs elapsedMs : UInt64)
    (next required : Option Nat) :
    encodedLen (result request a status notes
        ⟨startedAtMs, finishedAtMs, elapsedMs, next, required⟩) ≤
      worstLen request startedAtMs a + FINISH_RESERVE := by
  have hnat : ∀ n k, encodedLen (nat n) ≤ encodedLen (nat k) + 20 := fun n k =>
    Nat.le_add_left_of_le (JsonValue.encodedLen_nat_le n)
  have hbool : ∀ b, encodedLen (.bool b) ≤ encodedLen (.bool false) + 0 := encodedLen_bool_le
  have hmax : ∀ n, encodedLen (optNat n) ≤ encodedLen (optNat (some U64_MAX)) + 0 := by
    intro n
    have hn := JsonValue.encodedLen_optNat_le n
    rw [← encodedLen_nat_max] at hn
    exact hn
  have hdiagnostics : encodedLen (.arr notes.values) ≤ encodedLen (.arr []) + DIAGNOSTIC_BUDGET :=
    Nat.le_add_left_of_le hnotes
  obtain ⟨n, hn, hgrows⟩ : ∃ n, n ≤ FINISH_RESERVE ∧
      Grows (resultFields request a .daemonUnavailable {} (worstMeta startedAtMs))
        (resultFields request a status notes
          ⟨startedAtMs, finishedAtMs, elapsedMs, next, required⟩) n := by
    refine ⟨_, ?_, .same _ (.field _ (encodedLen_status_le status) (.same _ (.same _ (.same _ (.same _
      (.field _ (hnat _ _) (.field _ (hnat _ _) (.field _ (hnat _ _) (.field _ (hnat _ _) (.same _
      (.same _ (.same _ (.same _ (.field _ hdiagnostics (.field _ (hnat _ _) (.field _ (hbool _)
      (.field _ (hbool _) (.field _ (hmax _) (.field _ (hmax _) (.same _ .nil))))))))))))))))))))⟩
    decide
  exact Nat.le_trans hgrows.encodedLen_le (Nat.add_le_add_left hn _)

/-! ### The account -/

/-- The result fits whatever comes, and the count is that of the events handed out. -/
structure Budgeted (request : Request) (startedAtMs : UInt64) (s : State) : Prop where
  room : s.emittedBytes + 1 + FINISH_RESERVE + worstLen request startedAtMs s.acquired ≤
    request.maxOutputBytes.toNat
  counted : s.emittedBytes = (s.emitted.map fun e => encodedLen e + 1).sum
  notes : encodedLen (.arr s.diagnostics.values) ≤ DIAGNOSTIC_BUDGET

theorem Budgeted.change {request : Request} {startedAtMs : UInt64} {s s' : State}
    (h : Budgeted request startedAtMs s) (hc : Change request startedAtMs s s') :
    Budgeted request startedAtMs s' := by
  cases hc with
  | note hn =>
      refine ⟨?_, ?_, ?_⟩
      · rw [hn.acquired, hn.emittedBytes]
        exact h.room
      · rw [hn.emitted, hn.emittedBytes]
        exact h.counted
      · rcases hn.diagnostics with hd | ⟨v, hd⟩
        · rw [hd]
          exact h.notes
        · rw [hd]
          exact encodedLen_push_le v h.notes
  | commit record hn =>
      refine ⟨?_, ?_, ?_⟩
      · have hfits := hn.accepts.fits
        rw [hn.emittedBytes]
        omega
      · rw [hn.emittedBytes, hn.emitted, h.counted, List.map_append, List.sum_append, eventBytes]
        split <;> rfl
      · rw [hn.diagnostics]
        exact h.notes

/-- Whatever the outside answers: what is handed out and the result stay within the budget, and
the last check passes. -/
theorem output_within_budget (request : Request) (startedAtMs finishedAtMs elapsedMs : UInt64)
    (turns : List Turn) {answer : Except RunError JsonValue} {emitted : List JsonValue}
    (h : run request startedAtMs finishedAtMs elapsedMs turns = some (answer, emitted)) :
    (∀ e, answer = .error e → e ≠ .accounting) ∧
      ∀ output, answer = .ok output →
        (emitted.map fun e => encodedLen e + 1).sum + (encodedLen output + 1) ≤
          request.maxOutputBytes.toNat := by
  have hother : ∀ e : RunError, e ≠ .accounting → ∀ n,
      (∀ e', (.error e : Except RunError JsonValue) = .error e' → e' ≠ .accounting) ∧
        ∀ output, (.error e : Except RunError JsonValue) = .ok output →
          n + (encodedLen output + 1) ≤ request.maxOutputBytes.toNat := by
    intro e he n
    constructor
    · intro e' heq
      cases heq
      exact he
    · intro output heq
      cases heq
  rw [run] at h
  split at h
  · cases h
    exact hother _ (by simp) _
  · split at h
    · cases h
      exact hother _ (by simp) _
    · split at h
      · cases h
        exact hother _ (by simp) _
      · rename_i hroom
        have hstart : Budgeted request startedAtMs { acquired := .new request.since } := by
          refine ⟨?_, rfl, ?_⟩
          · dsimp only
            omega
          · exact (by decide : encodedLen (.arr []) ≤ DIAGNOSTIC_BUDGET)
        have hloop : (acquireLoop request startedAtMs turns
            { acquired := .new request.since }).From request startedAtMs
              { acquired := .new request.since } := from_acquireLoop turns _
        split at h
        · cases h
        · cases h
          exact hother _ (by simp) _
        · rename_i status s hs
          rw [hs] at hloop
          have hbudget : Budgeted request startedAtMs s :=
            Changes.induct hloop hstart fun a b ha hab => ha.change hab
          have hnotes := encodedLen_foldl_push_le s.pendingDiagnostics s.diagnostics hbudget.notes
          have hlen := encodedLen_result_le request startedAtMs s.acquired status hnotes
            finishedAtMs elapsedMs s.nextRecordBytes s.requiredOutputBytes
          have hroom := hbudget.room
          cases h
          rw [finish, if_neg (by omega)]
          constructor
          · intro e he
            cases he
          · intro output ho
            cases ho
            rw [← hbudget.counted]
            rw [result] at hlen ⊢
            omega

theorem output_within_budget_prompt :
    ∃ output emitted, promptRun = some (.ok output, emitted) ∧
      (emitted.map fun e => encodedLen e + 1).sum + (encodedLen output + 1) ≤ 4096 := by
  obtain ⟨output, emitted, hrun⟩ := exists_promptRun
  exact ⟨output, emitted, hrun,
    (output_within_budget promptRequest 1000 1005 5 [promptTurn] hrun).2 output rfl⟩

end Wait

end Serialcap

end Paniolo
