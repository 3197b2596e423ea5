import Mathlib.Data.List.Basic

/-!
# The link to the hid daemon

`hid_link.rs`: everything that a view types or points at goes through one queue
to one task, which writes it to the daemon. The task takes what is queued in
batches of any size; of several pointer moves in a row it writes only the last,
and none that repeats the position written last.

A connection is recorded with what was taken from the queue while it lasted and
what was written to it, so that the two can be compared.
-/

namespace Paniolo

namespace Hdmicap

namespace HidLink

/-- What is queued: a command line, or a position to point at (sent as `moveabs x y`). -/
inductive Item (L : Type) where
  | line (l : L)
  | move (x y : Nat)
deriving DecidableEq, Repr

variable {L : Type}

def Item.isMove : Item L → Bool
  | .line _ => false
  | .move _ _ => true

/-- Write a batch in order; the write after `fails` others fails. A move is skipped when the next
item is a move, or when it is to the position written last. -/
def writeBatch : List (Item L) → Option (Nat × Nat) → Option Nat → List (Item L) →
    Option (List (Item L) × Option (Nat × Nat))
  | [], sentPos, _, sent => some (sent, sentPos)
  | .line l :: batch, sentPos, fails, sent =>
      if fails = some 0 then none
      else writeBatch batch sentPos (fails.map (· - 1)) (sent ++ [.line l])
  | .move x y :: batch, sentPos, fails, sent =>
      if batch.head?.any Item.isMove || sentPos = some (x, y) then
        writeBatch batch sentPos fails sent
      else if fails = some 0 then none
      else writeBatch batch (some (x, y)) (fails.map (· - 1)) (sent ++ [.move x y])

/-- A connection: what was taken from the queue for it, and what was written to it. -/
structure Wire (L : Type) where
  queued : List (Item L)
  sent : List (Item L)

/-- The task: its connection, whether connecting failed the last time, and the last position
written. -/
structure Task (L : Type) where
  ws : Option (Wire L)
  failed : Bool
  sentPos : Option (Nat × Nat)

/-- A batch is taken (with the time to try again passed or not, and the daemon there or not), a
message of the daemon comes, or the connection ends. -/
inductive Event (L : Type) where
  | batch (items : List (Item L)) (retry connects : Bool) (fails : Option Nat)
  | evt
  | closed

namespace Task

def initial : Task L := ⟨none, false, none⟩

/-- Connect when there is no connection and it is time to try. -/
def connect (t : Task L) (retry connects : Bool) : Task L :=
  if t.ws.isNone && (!t.failed || retry) then
    if connects then { t with ws := some ⟨[], []⟩, failed := false } else { t with failed := true }
  else t

/-- One round of `run`. Without a daemon what was taken is dropped. -/
def step (t : Task L) : Event L → Task L
  | .batch items retry connects fails =>
      let t := t.connect retry connects
      match t.ws with
      | none => t
      | some w =>
          match writeBatch items t.sentPos fails w.sent with
          | some (sent, sentPos) =>
              { t with ws := some ⟨w.queued ++ items, sent⟩, sentPos := sentPos }
          | none => { t with ws := none, sentPos := none }
  | .evt => t
  | .closed => if t.ws.isSome then { t with ws := none, sentPos := none } else t

end Task

/-! ### Where the lines happen -/

/-- The last position of some items, after the position `pos`. -/
def lastPos (pos : Option (Nat × Nat)) : List (Item L) → Option (Nat × Nat)
  | [] => pos
  | .line _ :: items => lastPos pos items
  | .move x y :: items => lastPos (some (x, y)) items

/-- The lines in order, each with the last position before it. -/
def linesAt (pos : Option (Nat × Nat)) : List (Item L) → List (L × Option (Nat × Nat))
  | [] => []
  | .line l :: items => (l, pos) :: linesAt pos items
  | .move x y :: items => linesAt (some (x, y)) items

theorem lastPos_append (pos : Option (Nat × Nat)) (a b : List (Item L)) :
    lastPos pos (a ++ b) = lastPos (lastPos pos a) b := by
  induction a generalizing pos with
  | nil => rfl
  | cons i a ih =>
      cases i with
      | line l => exact ih pos
      | move x y => exact ih (some (x, y))

theorem linesAt_append (pos : Option (Nat × Nat)) (a b : List (Item L)) :
    linesAt pos (a ++ b) = linesAt pos a ++ linesAt (lastPos pos a) b := by
  induction a generalizing pos with
  | nil => rfl
  | cons i a ih =>
      cases i with
      | line l => exact congrArg ((l, pos) :: ·) (ih pos)
      | move x y => exact ih (some (x, y))

/-- A position before a move does not matter. -/
theorem lastPos_of_isMove {items : List (Item L)} (h : items.head?.any Item.isMove = true)
    (p q : Option (Nat × Nat)) : lastPos p items = lastPos q items := by
  cases items with
  | nil => cases h
  | cons i items =>
      cases i with
      | line l => cases h
      | move x y => rfl

theorem linesAt_of_isMove {items : List (Item L)} (h : items.head?.any Item.isMove = true)
    (p q : Option (Nat × Nat)) : linesAt p items = linesAt q items := by
  cases items with
  | nil => cases h
  | cons i items =>
      cases i with
      | line l => cases h
      | move x y => rfl

/-- What a batch writes puts every line where the queue had it, when the position written last is
the last one queued. -/
theorem writeBatch_spec (items : List (Item L)) :
    ∀ {pos : Option (Nat × Nat)} {fails : Option Nat} {sent sent' : List (Item L)}
      {pos' : Option (Nat × Nat)}, writeBatch items pos fails sent = some (sent', pos') →
      ∃ out, sent' = sent ++ out ∧ linesAt pos out = linesAt pos items ∧
        lastPos pos out = pos' ∧ lastPos pos items = pos' := by
  induction items with
  | nil =>
      intro pos fails sent sent' pos' h
      cases h
      exact ⟨[], (List.append_nil _).symm, rfl, rfl, rfl⟩
  | cons i items ih =>
      intro pos fails sent sent' pos' h
      cases i with
      | line l =>
          rw [writeBatch] at h
          split at h
          · cases h
          · obtain ⟨out, hsent, hlines, hout, hitems⟩ := ih h
            refine ⟨.line l :: out, ?_, congrArg ((l, pos) :: ·) hlines, hout, hitems⟩
            rw [hsent, List.append_assoc]
            rfl
      | move x y =>
          rw [writeBatch] at h
          split at h
          · next hskip =>
              -- Skipped: what follows does not see this position, or it is the current one.
              obtain ⟨out, hsent, hlines, hout, hitems⟩ := ih h
              rw [Bool.or_eq_true, decide_eq_true_eq] at hskip
              refine ⟨out, hsent, ?_, hout, ?_⟩
              · rcases hskip with hmove | hsame
                · exact hlines.trans (linesAt_of_isMove hmove pos (some (x, y)))
                · rw [linesAt, ← hsame, hlines]
              · rcases hskip with hmove | hsame
                · exact (lastPos_of_isMove hmove (some (x, y)) pos).trans hitems
                · rw [lastPos, ← hsame, hitems]
          · split at h
            · cases h
            · obtain ⟨out, hsent, hlines, hout, hitems⟩ := ih h
              refine ⟨.move x y :: out, ?_, hlines, hout, hitems⟩
              rw [hsent, List.append_assoc]
              rfl

/-- A batch without a failing write is written to its end. -/
theorem exists_writeBatch (items : List (Item L)) :
    ∀ (pos : Option (Nat × Nat)) (sent : List (Item L)),
      ∃ out pos', writeBatch items pos none sent = some (sent ++ out, pos') := by
  induction items with
  | nil => exact fun pos sent => ⟨[], pos, by rw [writeBatch, List.append_nil]⟩
  | cons i items ih =>
      intro pos sent
      cases i with
      | line l =>
          obtain ⟨out, pos', h⟩ := ih pos (sent ++ [.line l])
          refine ⟨.line l :: out, pos', ?_⟩
          rw [writeBatch, if_neg nofun, Option.map_none, h, List.append_assoc]
          rfl
      | move x y =>
          rw [writeBatch]
          split
          · exact ih pos sent
          · obtain ⟨out, pos', h⟩ := ih (some (x, y)) (sent ++ [.move x y])
            refine ⟨.move x y :: out, pos', ?_⟩
            rw [if_neg nofun, Option.map_none, h, List.append_assoc]
            rfl

/-! ### Runs -/

namespace Task

/-- On a connection, the lines written are the lines queued, each at its position. -/
structure Faithful (t : Task L) : Prop where
  lines : ∀ w, t.ws = some w → linesAt none w.sent = linesAt none w.queued
  sent : ∀ w, t.ws = some w → lastPos none w.sent = t.sentPos
  queued : ∀ w, t.ws = some w → lastPos none w.queued = t.sentPos
  fresh : t.ws = none → t.sentPos = none

theorem faithful_closed (failed : Bool) : (⟨none, failed, none⟩ : Task L).Faithful :=
  ⟨nofun, nofun, nofun, fun _ => rfl⟩

theorem Faithful.connect {t : Task L} (h : t.Faithful) (retry connects : Bool) :
    (t.connect retry connects).Faithful := by
  rw [Task.connect]
  split
  · next hnone =>
      rw [Bool.and_eq_true, Option.isNone_iff_eq_none] at hnone
      have hfresh := h.fresh hnone.1
      split
      · refine ⟨fun w hw => ?_, fun w hw => ?_, fun w hw => ?_, nofun⟩
        · cases hw
          rfl
        · cases hw
          exact hfresh.symm
        · cases hw
          exact hfresh.symm
      · exact ⟨h.lines, h.sent, h.queued, h.fresh⟩
  · exact h

theorem Faithful.step {t : Task L} (h : t.Faithful) (e : Event L) : (t.step e).Faithful := by
  cases e with
  | batch items retry connects fails =>
      have hc := h.connect retry connects
      simp only [Task.step]
      split
      · exact hc
      · next w hw =>
          split
          · next sent pos hbatch =>
              obtain ⟨out, rfl, hlines, hout, hitems⟩ := writeBatch_spec items hbatch
              refine ⟨fun w' hw' => ?_, fun w' hw' => ?_, fun w' hw' => ?_, nofun⟩
              · cases hw'
                rw [linesAt_append, linesAt_append, hc.lines w hw, hc.sent w hw, hc.queued w hw,
                  hlines]
              · cases hw'
                rw [lastPos_append, hc.sent w hw, hout]
              · cases hw'
                rw [lastPos_append, hc.queued w hw, hitems]
          · exact faithful_closed _
  | evt => exact h
  | closed =>
      simp only [Task.step]
      split
      · exact faithful_closed _
      · exact h

def run (es : List (Event L)) : Task L := es.foldl step initial

theorem faithful_run (es : List (Event L)) : (run es).Faithful := by
  rw [run]
  generalize hinit : (initial : Task L) = t
  have ht : t.Faithful := hinit ▸ faithful_closed false
  clear hinit
  induction es generalizing t with
  | nil => exact ht
  | cons e es ih => exact ih (t.step e) (ht.step e)

/-- A connection lasts through a batch without a failing write. -/
theorem step_batch {t : Task L} {w : Wire L} (hw : t.ws = some w) (items : List (Item L))
    (retry connects : Bool) :
    ∃ out, (t.step (.batch items retry connects none)).ws =
      some ⟨w.queued ++ items, w.sent ++ out⟩ := by
  obtain ⟨out, pos', h⟩ := exists_writeBatch items t.sentPos w.sent
  have hconnect : t.connect retry connects = t := by
    rw [Task.connect, hw]
    rfl
  refine ⟨out, ?_⟩
  simp only [Task.step, hconnect, hw, h]

/-- In every state of the task the lines that its connection was sent are those queued for it, in
order, each at the last position queued before it; and a batch of any items, of which no write
fails, goes to the same connection. -/
theorem linesAt_sent_eq (es : List (Event L)) (w : Wire L) (h : (run es).ws = some w) :
    linesAt none w.sent = linesAt none w.queued ∧
      ∀ items retry connects, ∃ out, (run (es ++ [.batch items retry connects none])).ws =
        some ⟨w.queued ++ items, w.sent ++ out⟩ := by
  refine ⟨(faithful_run es).lines w h, fun items retry connects => ?_⟩
  rw [run, List.foldl_append]
  exact step_batch h items retry connects

/-- Two batches that split a run of moves, with a press between two of them. -/
theorem linesAt_sent_press :
    (run [.batch [.move 1 1, .move 2 2] false true none,
      .batch [.move 2 2, .line "mdown left", .move 3 3] false false none] : Task String).ws =
        some ⟨[.move 1 1, .move 2 2, .move 2 2, .line "mdown left", .move 3 3],
          [.move 2 2, .line "mdown left", .move 3 3]⟩ ∧
      linesAt none [.move 2 2, .line "mdown left", .move 3 3] =
        linesAt none [.move 1 1, .move 2 2, .move 2 2, .line "mdown left", .move 3 3] :=
  ⟨rfl, (linesAt_sent_eq [.batch [.move 1 1, .move 2 2] false true none,
    .batch [.move 2 2, .line "mdown left", .move 3 3] false false none] _ rfl).1⟩

end Task

end HidLink

end Hdmicap

end Paniolo
