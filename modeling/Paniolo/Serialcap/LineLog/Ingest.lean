import Paniolo.Library.Utf8Cut

/-!
# Assembling lines of the capture log

`LineLog::ingest` collects received bytes until a newline and commits the text
of each line. A line that never ends is flushed in pieces of `MAX_PENDING`
bytes, and `utf8_floor_boundary` keeps the end of a piece back for the next
when a character is cut there.

It looks only at the first ill-formed sequence of the piece. A stray byte
further up hides the character at the end, which is then replaced in both
pieces: `ingest_lossy_iff` says for which streams that happens.
-/

namespace Paniolo

namespace Serialcap

namespace LineLog

open Utf8

/-- Hard cap on a single unterminated line. -/
def MAX_PENDING : Nat := 64 * 1024

/-- The largest prefix of `bytes` that is safe to treat as complete UTF-8. -/
def utf8FloorBoundary (bytes : List UInt8) : Nat :=
  match utf8Error bytes with
  | none => bytes.length
  | some e =>
      match e.errorLen with
      | none => e.validUpTo
      | some _ => bytes.length

/-- The fields of the log that hold the line being received. -/
structure Pending where
  pending : List UInt8
  pendingTs : Option Nat
deriving DecidableEq, Repr

/-- What `LineLog::open` starts with. -/
def Pending.empty : Pending := ⟨[], none⟩

/-- A timestamp and a text, as they are handed to `commit`. -/
structure Commit where
  ts : Nat
  text : String
deriving DecidableEq, Repr

/-- One round of the loop of `ingest`, where a line may end at `limit` bytes. -/
def ingestByte (limit now : Nat) (p : Pending) (b : UInt8) : Pending × List Commit :=
  if b = 10 then
    let line := if p.pending.getLast? = some 13 then p.pending.dropLast else p.pending
    (⟨[], none⟩, [⟨p.pendingTs.getD now, lossy line⟩])
  else
    let ts := if p.pending.isEmpty then some now else p.pendingTs
    let pending := p.pending ++ [b]
    if limit ≤ pending.length then
      let boundary := utf8FloorBoundary pending
      let rest := pending.drop boundary
      (⟨rest, if rest.isEmpty then none else some now⟩,
        [⟨ts.getD now, lossy (pending.take boundary)⟩])
    else (⟨pending, ts⟩, [])

/-- `LineLog::ingest` of one chunk received at time `now`: the line left over
and what was committed. -/
def ingestAt (limit now : Nat) (p : Pending) : List UInt8 → Pending × List Commit
  | [] => (p, [])
  | b :: bytes =>
      let (p, committed) := ingestByte limit now p b
      let (p, rest) := ingestAt limit now p bytes
      (p, committed ++ rest)

/-- A chunk and the time it is received at. -/
structure Chunk where
  now : Nat
  bytes : List UInt8
deriving DecidableEq, Repr

/-- One call of `ingest` for each chunk. -/
def ingestChunks (limit : Nat) (p : Pending) : List Chunk → Pending × List Commit
  | [] => (p, [])
  | c :: chunks =>
      let (p, committed) := ingestAt limit c.now p c.bytes
      let (p, rest) := ingestChunks limit p chunks
      (p, committed ++ rest)

/-- The stream that the chunks were cut from. -/
def stream (chunks : List Chunk) : List UInt8 := chunks.flatMap Chunk.bytes

/-- Everything that can be read of the stream: the committed texts, and the
text of the line left over. -/
def shown (r : Pending × List Commit) : String :=
  String.join (r.2.map Commit.text) ++ lossy r.1.pending

/-! ### The boundary -/

/-- The pending line is flushed whole, or what is kept back is the beginning of a
character and the rest is decoded as it would be in the whole stream. -/
theorem utf8FloorBoundary_cases (l : List UInt8) :
    utf8FloorBoundary l = l.length ∨
      (utf8FloorBoundary l < l.length ∧ l.length < utf8FloorBoundary l + 4 ∧
        ∀ r, decode (l ++ r) = decode (l.take (utf8FloorBoundary l)) ++
          decode (l.drop (utf8FloorBoundary l) ++ r)) := by
  rw [utf8FloorBoundary]
  cases he : utf8Error l with
  | none => exact Or.inl rfl
  | some e =>
      obtain ⟨v, n⟩ := e
      cases n with
      | some n => exact Or.inl rfl
      | none =>
          right
          obtain ⟨p, t, rfl, hv, ht, hp⟩ := exists_of_utf8ErrorLoop he
          rw [Nat.zero_add] at hv
          subst hv
          have hlen := length_lt_of_isCut ht
          have hpos : 0 < t.length := by
            cases t with
            | nil => exact ht.elim
            | cons b t => exact Nat.succ_pos _
          dsimp only
          refine ⟨?_, ?_, fun r => ?_⟩
          · rw [List.length_append]
            omega
          · rw [List.length_append]
            omega
          · rw [List.take_left, List.drop_left, List.append_assoc, hp]

theorem utf8FloorBoundary_le (l : List UInt8) : utf8FloorBoundary l ≤ l.length := by
  rcases utf8FloorBoundary_cases l with h | ⟨h, -, -⟩
  · exact Nat.le_of_eq h
  · exact Nat.le_of_lt h

theorem utf8FloorBoundary_pos {l : List UInt8} (h : 4 ≤ l.length) : 0 < utf8FloorBoundary l := by
  rcases utf8FloorBoundary_cases l with h | ⟨-, h, -⟩
  · omega
  · omega

/-! ### Streams that are torn -/

/-- Somewhere in the stream a pending line that has reached `limit` bytes is flushed
whole although it ends with the beginning of a character, and the next byte
goes on with that character. -/
inductive Torn (limit : Nat) : List UInt8 → Prop where
  | here {line rest : List UInt8} {c : UInt8} (hlen : line.length = limit)
      (hfull : utf8FloorBoundary line = line.length) (hc : goesOn (openTail line) c = true) :
      Torn limit (line ++ c :: rest)
  | later {line rest : List UInt8} (hlen : line.length = limit)
      (h : Torn limit (line.drop (utf8FloorBoundary line) ++ rest)) : Torn limit (line ++ rest)

theorem Torn.le_length {limit : Nat} {l : List UInt8} (h : Torn limit l) : limit ≤ l.length := by
  cases h with
  | here hlen hfull hc =>
      rw [List.length_append]
      omega
  | later hlen h =>
      rw [List.length_append]
      omega

theorem torn_append_iff {limit : Nat} {line : List UInt8} (hlen : line.length = limit)
    (rest : List UInt8) : Torn limit (line ++ rest) ↔
      (∃ c r, rest = c :: r ∧ utf8FloorBoundary line = line.length ∧
        goesOn (openTail line) c = true) ∨
      Torn limit (line.drop (utf8FloorBoundary line) ++ rest) := by
  constructor
  · intro h
    generalize hl : line ++ rest = l at h
    cases h with
    | here hlen' hfull hc =>
        obtain ⟨rfl, rfl⟩ := List.append_inj hl (hlen.trans hlen'.symm)
        exact Or.inl ⟨_, _, rfl, hfull, hc⟩
    | later hlen' h =>
        obtain ⟨rfl, rfl⟩ := List.append_inj hl (hlen.trans hlen'.symm)
        exact Or.inr h
  · rintro (⟨c, r, rfl, hfull, hc⟩ | h)
    · exact .here hlen hfull hc
    · exact .later hlen h

/-! ### The whole stream -/

/-- The chunks as one sequence of bytes, each with the time it is received at. -/
def ingestStamped (limit : Nat) (p : Pending) : List (Nat × UInt8) → Pending × List Commit
  | [] => (p, [])
  | x :: bytes =>
      let (p, committed) := ingestByte limit x.1 p x.2
      let (p, rest) := ingestStamped limit p bytes
      (p, committed ++ rest)

def stamped (chunks : List Chunk) : List (Nat × UInt8) :=
  chunks.flatMap fun c => c.bytes.map fun b => (c.now, b)

theorem ingestStamped_append (limit : Nat) (p : Pending) (xs ys : List (Nat × UInt8)) :
    ingestStamped limit p (xs ++ ys) =
      ((ingestStamped limit (ingestStamped limit p xs).1 ys).1,
        (ingestStamped limit p xs).2 ++
          (ingestStamped limit (ingestStamped limit p xs).1 ys).2) := by
  induction xs generalizing p with
  | nil => rfl
  | cons x xs ih =>
      rw [List.cons_append, ingestStamped, ingestStamped]
      dsimp only
      rw [ih, List.append_assoc]

theorem ingestAt_eq (limit now : Nat) (p : Pending) (bytes : List UInt8) :
    ingestAt limit now p bytes = ingestStamped limit p (bytes.map fun b => (now, b)) := by
  induction bytes generalizing p with
  | nil => rfl
  | cons b bytes ih =>
      rw [ingestAt, List.map_cons, ingestStamped]
      dsimp only
      rw [ih]

theorem ingestChunks_eq (limit : Nat) (p : Pending) (chunks : List Chunk) :
    ingestChunks limit p chunks = ingestStamped limit p (stamped chunks) := by
  induction chunks generalizing p with
  | nil => rfl
  | cons c chunks ih =>
      rw [ingestChunks, stamped, List.flatMap_cons, ingestStamped_append, ← ingestAt_eq]
      dsimp only
      rw [ih]
      rfl

theorem map_stamped (chunks : List Chunk) : (stamped chunks).map Prod.snd = stream chunks := by
  induction chunks with
  | nil => rfl
  | cons c chunks ih =>
      rw [stamped, List.flatMap_cons, List.map_append, stream, List.flatMap_cons]
      congr 1
      rw [List.map_map]
      exact List.map_id _

/-- The characters that `shown` is made of. -/
def shownChars (r : Pending × List Commit) : List Char :=
  r.2.flatMap (fun c => c.text.toList) ++ decode r.1.pending

theorem shown_eq (r : Pending × List Commit) : shown r = String.ofList (shownChars r) := by
  rw [shown, shownChars, String.ofList_append]
  congr 1
  rw [← String.toList_inj, String.toList_ofList, String.toList_join, List.flatMap_map]

theorem shownChars_append (p : Pending) (xs ys : List Commit) :
    shownChars (p, xs ++ ys) = xs.flatMap (fun c => c.text.toList) ++ shownChars (p, ys) := by
  rw [shownChars, shownChars, List.flatMap_append, List.append_assoc]

/-- A byte that is not a newline and does not fill the line is kept. -/
theorem ingestByte_of_lt {limit : Nat} (now : Nat) {p : Pending} {b : UInt8} (hb : b ≠ 10)
    (h : p.pending.length + 1 < limit) :
    (ingestByte limit now p b).1.pending = p.pending ++ [b] ∧ (ingestByte limit now p b).2 = [] := by
  have hlt : ¬limit ≤ (p.pending ++ [b]).length := by
    rw [List.length_append, List.length_singleton]
    omega
  rw [ingestByte, if_neg hb]
  dsimp only
  rw [if_neg hlt]
  exact ⟨rfl, rfl⟩

/-- The byte that fills the line flushes it up to the boundary. -/
theorem ingestByte_of_full {limit : Nat} (now : Nat) {p : Pending} {b : UInt8} (hb : b ≠ 10)
    (h : p.pending.length + 1 = limit) :
    (ingestByte limit now p b).1.pending =
        (p.pending ++ [b]).drop (utf8FloorBoundary (p.pending ++ [b])) ∧
      (ingestByte limit now p b).2.flatMap (fun c => c.text.toList) =
        decode ((p.pending ++ [b]).take (utf8FloorBoundary (p.pending ++ [b]))) := by
  have hle : limit ≤ (p.pending ++ [b]).length := by
    rw [List.length_append, List.length_singleton]
    omega
  rw [ingestByte, if_neg hb]
  dsimp only
  rw [if_pos hle]
  refine ⟨rfl, ?_⟩
  rw [List.flatMap_singleton, lossy, String.toList_ofList, decode]

/-- How the characters shown compare with the characters of the stream `l`. -/
def Faithful (limit : Nat) (l : List UInt8) (cs : List Char) : Prop :=
  ¬Torn limit l ∧ cs = decode l ∨ Torn limit l ∧ (decode l).length < cs.length

/-- A piece `line` of full length is flushed before `rest` is received. -/
theorem faithful_flush {limit : Nat} {line rest : List UInt8} {cs : List Char}
    (hlen : line.length = limit)
    (h : Faithful limit (line.drop (utf8FloorBoundary line) ++ rest) cs) :
    Faithful limit (line ++ rest) (decode (line.take (utf8FloorBoundary line)) ++ cs) := by
  have hiff := torn_append_iff hlen rest
  rcases utf8FloorBoundary_cases line with hfull | ⟨hlt, -, hdecode⟩
  · rw [hfull, List.drop_length, List.nil_append] at h
    rw [hfull, List.take_length]
    rw [hfull, List.drop_length, List.nil_append] at hiff
    by_cases hgo : ∃ c r, rest = c :: r ∧ goesOn (openTail line) c = true
    · obtain ⟨c, r, rfl, hc⟩ := hgo
      right
      refine ⟨hiff.mpr (Or.inl ⟨c, r, rfl, rfl, hc⟩), ?_⟩
      have hlt := length_decode_append_lt (l := line) (r := r) hc
      have hle : (decode (c :: r)).length ≤ cs.length := by
        rcases h with ⟨-, rfl⟩ | ⟨-, h⟩
        · exact Nat.le_refl _
        · exact Nat.le_of_lt h
      rw [List.length_append] at hlt ⊢
      omega
    · have hnot : ∀ c r', rest = c :: r' → goesOn (openTail line) c = false := by
        intro c r' hr
        rw [← Bool.not_eq_true]
        exact fun hc => hgo ⟨c, r', hr, hc⟩
      rw [Faithful, decode_append_of_not_goesOn hnot]
      rcases h with ⟨ht, rfl⟩ | ⟨ht, hlt⟩
      · left
        refine ⟨fun hall => ?_, rfl⟩
        rcases hiff.mp hall with ⟨c, r, hr, -, hc⟩ | hrest
        · exact hgo ⟨c, r, hr, hc⟩
        · exact ht hrest
      · right
        refine ⟨hiff.mpr (Or.inr ht), ?_⟩
        rw [List.length_append, List.length_append]
        omega
  · rw [Faithful, hdecode]
    rcases h with ⟨ht, rfl⟩ | ⟨ht, hlt'⟩
    · left
      refine ⟨fun hall => ?_, rfl⟩
      rcases hiff.mp hall with ⟨c, r, hr, hfull, hc⟩ | hrest
      · omega
      · exact ht hrest
    · right
      refine ⟨hiff.mpr (Or.inr ht), ?_⟩
      rw [List.length_append, List.length_append]
      omega

/-- What is shown of a stream without newlines, received after the pending line `p`. -/
theorem faithful_ingestStamped {limit : Nat} (hlimit : 4 ≤ limit) {p : Pending}
    (hp : p.pending.length < limit) {bytes : List (Nat × UInt8)} (hnl : ∀ x ∈ bytes, x.2 ≠ 10) :
    Faithful limit (p.pending ++ bytes.map Prod.snd)
      (shownChars (ingestStamped limit p bytes)) := by
  induction bytes generalizing p with
  | nil =>
      left
      refine ⟨fun ht => ?_, ?_⟩
      · have := ht.le_length
        rw [List.map_nil, List.append_nil] at this
        omega
      · rw [List.map_nil, List.append_nil]
        rfl
  | cons x bytes ih =>
      have hx : x.2 ≠ 10 := hnl x List.mem_cons_self
      have hrest : ∀ y ∈ bytes, y.2 ≠ 10 := fun y hy => hnl y (List.mem_cons_of_mem _ hy)
      have hline : p.pending ++ (x :: bytes).map Prod.snd =
          (p.pending ++ [x.2]) ++ bytes.map Prod.snd := by
        rw [List.map_cons, List.append_assoc, List.singleton_append]
      rw [hline, ingestStamped]
      dsimp only
      rw [shownChars_append]
      rcases Nat.lt_or_ge (p.pending.length + 1) limit with hlt | hge
      · obtain ⟨hpending, hnone⟩ := ingestByte_of_lt x.1 hx hlt
        rw [hnone, ← hpending]
        apply ih _ hrest
        rw [hpending, List.length_append, List.length_singleton]
        exact hlt
      · have hfull : p.pending.length + 1 = limit := by omega
        have hlen : (p.pending ++ [x.2]).length = limit := by
          rw [List.length_append, List.length_singleton]
          exact hfull
        obtain ⟨hpending, htext⟩ := ingestByte_of_full x.1 hx hfull
        have hpos := utf8FloorBoundary_pos (l := p.pending ++ [x.2]) (by omega)
        rw [htext]
        apply faithful_flush hlen
        rw [← hpending]
        apply ih _ hrest
        rw [hpending, List.length_drop]
        omega

theorem faithful_ingestChunks {limit : Nat} (hlimit : 4 ≤ limit) {chunks : List Chunk}
    (hnl : 10 ∉ stream chunks) :
    Faithful limit (stream chunks) (shownChars (ingestChunks limit Pending.empty chunks)) := by
  have hbytes : ∀ x ∈ stamped chunks, x.2 ≠ 10 := by
    intro x hx h
    apply hnl
    rw [← map_stamped, ← h]
    exact List.mem_map_of_mem hx
  have := faithful_ingestStamped hlimit (p := Pending.empty) (by change 0 < limit; omega) hbytes
  rw [map_stamped, ← ingestChunks_eq] at this
  exact this

theorem shown_eq_lossy_iff {limit : Nat} (hlimit : 4 ≤ limit) {chunks : List Chunk}
    (hnl : 10 ∉ stream chunks) :
    shown (ingestChunks limit Pending.empty chunks) = lossy (stream chunks) ↔
      ¬Torn limit (stream chunks) := by
  have hlossy : lossy (stream chunks) = String.ofList (decode (stream chunks)) := rfl
  rw [shown_eq, hlossy, String.ofList_inj]
  rcases faithful_ingestChunks hlimit hnl with ⟨ht, h⟩ | ⟨ht, hlt⟩
  · exact ⟨fun _ => ht, fun _ => h⟩
  · refine ⟨fun h => ?_, fun hnot => absurd ht hnot⟩
    rw [h] at hlt
    exact absurd hlt (Nat.lt_irrefl _)

/-- A stream without newlines is shown as it decodes in one piece exactly when
no flush tears a character of it. -/
theorem ingest_lossy_iff (chunks : List Chunk) (hnl : 10 ∉ stream chunks) :
    shown (ingestChunks MAX_PENDING Pending.empty chunks) = lossy (stream chunks) ↔
      ¬Torn MAX_PENDING (stream chunks) :=
  shown_eq_lossy_iff (by decide) hnl

/-- A prompt that arrives in two chunks, cut in the euro sign. -/
def euroPrompt : List Chunk := [⟨1, [0x61, 0xE2]⟩, ⟨2, [0x82, 0xAC, 0x3E]⟩]

theorem ingest_lossy_euroPrompt :
    10 ∉ stream euroPrompt ∧
      shown (ingestChunks MAX_PENDING Pending.empty euroPrompt) = lossy (stream euroPrompt) := by
  have hnl : 10 ∉ stream euroPrompt := by decide
  refine ⟨hnl, (ingest_lossy_iff euroPrompt hnl).mpr fun ht => ?_⟩
  have hlen : (stream euroPrompt).length = 5 := rfl
  have := ht.le_length
  rw [hlen] at this
  exact absurd this (by decide)

/-! ### A stray byte and a character at the end of the piece -/

theorem openTail_cons {b : UInt8} {l : List UInt8} (h : (head b l).width = 1)
    (hcut : head b l ≠ .cut) : openTail (b :: l) = openTail l := by
  rw [openTail, List.length_cons, openTailLoop, if_neg hcut, h]
  rfl

theorem openTail_replicate (n : Nat) (l : List UInt8) :
    openTail (List.replicate n 0x61 ++ l) = openTail l := by
  induction n with
  | zero => rfl
  | succ n ih =>
      rw [List.replicate_succ, List.cons_append, openTail_cons rfl Head.noConfusion, ih]

/-- A stray 0xFF, letters, and a euro sign whose first byte is the last of the piece. -/
def strayThenEuro (limit : Nat) : List UInt8 :=
  (0xFF :: (List.replicate (limit - 2) 0x61 ++ [0xE2])) ++ [0x82, 0xAC]

theorem torn_strayThenEuro {limit : Nat} (hlimit : 4 ≤ limit) :
    Torn limit (strayThenEuro limit) := by
  apply Torn.here
  · rw [List.length_cons, List.length_append, List.length_replicate, List.length_singleton]
    omega
  · rw [utf8FloorBoundary, utf8Error, List.length_cons, utf8ErrorLoop]
    rfl
  · rw [openTail_cons rfl Head.noConfusion, openTail_replicate]
    rfl

theorem newline_notMem_strayThenEuro (limit : Nat) : 10 ∉ strayThenEuro limit := by
  intro h
  simp only [strayThenEuro, List.mem_append, List.mem_cons, List.mem_replicate,
    List.not_mem_nil, or_false] at h
  rcases h with (h | h | h) | h | h
  · cases h
  · cases h.2
  · cases h
  · cases h
  · cases h

/-- The euro sign is gone: each half of it is replaced. -/
theorem ingest_lossy_strayThenEuro :
    10 ∉ stream [⟨0, strayThenEuro MAX_PENDING⟩] ∧
      shown (ingestChunks MAX_PENDING Pending.empty [⟨0, strayThenEuro MAX_PENDING⟩]) ≠
        lossy (stream [⟨0, strayThenEuro MAX_PENDING⟩]) := by
  have hstream : stream [⟨0, strayThenEuro MAX_PENDING⟩] = strayThenEuro MAX_PENDING :=
    List.append_nil _
  have hnl : 10 ∉ stream [⟨0, strayThenEuro MAX_PENDING⟩] := by
    rw [hstream]
    exact newline_notMem_strayThenEuro MAX_PENDING
  refine ⟨hnl, fun h => ?_⟩
  have hnot := (shown_eq_lossy_iff (by decide) hnl).mp h
  rw [hstream] at hnot
  exact hnot (torn_strayThenEuro (by decide))

end LineLog

end Serialcap

end Paniolo
