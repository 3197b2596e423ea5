import Paniolo.Serialcap.Wait.Steps

/-!
# What a wait has acquired

Bytes, lines, records, cursor and events agree at every point of a run: the
records are those of the epoch behind the cursor, in order, their bytes are
the lines and what is pending, and the lines are the events handed out.
-/

namespace Paniolo

namespace Serialcap

namespace Wait

/-- The raw bytes of a record, if all of them are bytes. -/
def recordBytes (record : JsonValue) : Option (List UInt8) :=
  (record.get "bytes").asArray.bind fun raw => raw.mapM Acquired.rawByte

theorem length_of_mapM_rawByte {raw : List JsonValue} :
    ∀ {bytes : List UInt8}, raw.mapM Acquired.rawByte = some bytes → bytes.length = raw.length := by
  induction raw with
  | nil =>
      intro bytes h
      cases h
      rfl
  | cons v rest ih =>
      intro bytes h
      rw [List.mapM_cons] at h
      obtain ⟨byte, -, h⟩ := Option.bind_eq_some_iff.mp h
      obtain ⟨more, hmore, h⟩ := Option.bind_eq_some_iff.mp h
      cases h
      rw [List.length_cons, List.length_cons, ih hmore]

/-- The bytes are the complete lines and the pending part of the next. Only the first line can
have begun before the cursor. -/
structure Lined (since : UInt64) (a : Acquired) : Prop where
  split : a.bytes = a.lines.flatMap Line.bytes ++ a.pending
  whole : ∀ l ∈ a.lines, ∃ body, l.bytes = body ++ [newline] ∧ newline ∉ body
  pending : newline ∉ a.pending
  first : ∀ l ∈ a.lines.head?, l.prefixUnknown = decide (since > 0)
  later : ∀ l ∈ a.lines.tail, l.prefixUnknown = false
  flag : a.prefixUnknown = (a.lines.isEmpty && decide (since > 0))

theorem lined_new (since : UInt64) : Lined since (.new since) :=
  ⟨rfl, by simp [Acquired.new], by simp [Acquired.new], by simp [Acquired.new],
    by simp [Acquired.new], rfl⟩

namespace Lined

variable {since : UInt64} {a : Acquired}

theorem pushByte (h : Lined since a) (record : JsonValue) (byte : UInt8) :
    Lined since (a.pushByte record byte) := by
  rw [Acquired.pushByte]
  dsimp only
  by_cases hnl : byte = newline
  · rw [if_pos hnl]
    refine ⟨?_, ?_, List.not_mem_nil, ?_, ?_, ?_⟩
    · dsimp only
      rw [h.split, List.flatMap_append, List.flatMap_singleton, List.append_nil, List.append_assoc]
    · intro l hl
      rcases List.mem_append.mp hl with hl | hl
      · exact h.whole l hl
      · rw [List.mem_singleton.mp hl]
        exact ⟨a.pending, by rw [hnl], h.pending⟩
    · intro l hl
      dsimp only at hl
      cases hlines : a.lines with
      | nil =>
          rw [hlines] at hl
          cases hl
          have hflag := h.flag
          rw [hlines] at hflag
          exact hflag
      | cons first rest =>
          rw [hlines] at hl
          exact h.first l (by rw [hlines]; exact hl)
    · intro l hl
      dsimp only at hl
      cases hlines : a.lines with
      | nil =>
          rw [hlines] at hl
          cases hl
      | cons first rest =>
          have hflag := h.flag
          rw [hlines] at hl hflag
          rcases List.mem_append.mp hl with hl | hl
          · exact h.later l (by rw [hlines]; exact hl)
          · rw [List.mem_singleton.mp hl]
            exact hflag
    · dsimp only
      simp
  · rw [if_neg hnl]
    refine ⟨?_, h.whole, ?_, h.first, h.later, h.flag⟩
    · dsimp only
      rw [h.split, List.append_assoc]
    · dsimp only
      rw [List.mem_append, List.mem_singleton, not_or]
      exact ⟨h.pending, fun heq => hnl heq.symm⟩

end Lined

theorem pushByte_spec (a : Acquired) (record : JsonValue) (byte : UInt8) :
    (a.pushByte record byte).bytes = a.bytes ++ [byte] ∧
      (a.pushByte record byte).records = a.records ∧
      a.lines <+: (a.pushByte record byte).lines := by
  rw [Acquired.pushByte]
  dsimp only
  split
  · exact ⟨rfl, rfl, List.prefix_append _ _⟩
  · exact ⟨rfl, rfl, List.prefix_refl _⟩

theorem pushBytes_ok (since : UInt64) {record : JsonValue} {raw : List JsonValue} :
    ∀ {a a' : Acquired}, Acquired.pushBytes record raw a = .ok a' →
      ∃ bytes, raw.mapM Acquired.rawByte = some bytes ∧ a'.bytes = a.bytes ++ bytes ∧
        a'.records = a.records ∧ a.lines <+: a'.lines ∧ (Lined since a → Lined since a') := by
  induction raw with
  | nil =>
      intro a a' h
      cases h
      exact ⟨[], rfl, by simp, rfl, List.prefix_refl _, id⟩
  | cons v rest ih =>
      intro a a' h
      rw [Acquired.pushBytes] at h
      cases hv : Acquired.rawByte v with
      | none =>
          rw [hv] at h
          cases h
      | some byte =>
          rw [hv] at h
          obtain ⟨bytes, hmap, hbytes, hrecords, hlines, hlined⟩ := ih h
          obtain ⟨hone, hkeep, hpre⟩ := pushByte_spec a record byte
          refine ⟨byte :: bytes, ?_, ?_, hrecords.trans hkeep, hpre.trans hlines,
            fun hl => hlined (hl.pushByte record byte)⟩
          · rw [List.mapM_cons, hv, hmap]
            rfl
          · rw [hbytes, hone, List.append_assoc]
            rfl

theorem append_ok (since : UInt64) {record : JsonValue} {a a' : Acquired}
    (h : a.append record = .ok a') :
    ∃ seq bytes, (record.get "rx_seq").asU64 = some seq ∧ recordBytes record = some bytes ∧
      a'.cursor = seq ∧ a'.bytes = a.bytes ++ bytes ∧ a'.records = a.records ++ [record] ∧
      a.lines <+: a'.lines ∧ (Lined since a → Lined since a') := by
  have hget : (record.field? "bytes").bind JsonValue.asArray = (record.get "bytes").asArray := by
    rw [JsonValue.get]
    cases record.field? "bytes" <;> rfl
  rw [Acquired.append, hget] at h
  cases hraw : (record.get "bytes").asArray with
  | none =>
      rw [hraw] at h
      cases h
  | some raw =>
      rw [hraw] at h
      dsimp only at h
      cases hpush : Acquired.pushBytes record raw a with
      | error e =>
          rw [hpush] at h
          cases h
      | ok m =>
          rw [hpush] at h
          obtain ⟨bytes, hmap, hbytes, hrecords, hlines, hlined⟩ := pushBytes_ok since hpush
          cases hseq : (record.get "rx_seq").asU64 with
          | none =>
              rw [hseq] at h
              cases h
          | some seq =>
              rw [hseq] at h
              cases h
              refine ⟨seq, bytes, rfl, ?_, rfl, hbytes, by rw [hrecords], hlines, fun hl => ?_⟩
              · rw [recordBytes, hraw]
                exact hmap
              · have hm := hlined hl
                exact ⟨hm.split, hm.whole, hm.pending, hm.first, hm.later, hm.flag⟩

/-! ### The account of a run -/

/-- Everything acquired is accounted for. -/
structure Sound (request : Request) (a : Acquired) : Prop where
  seqs : ∃ seqs : List UInt64, a.records.map (fun r => (r.get "rx_seq").asU64) = seqs.map some ∧
    (request.since :: seqs).Pairwise (fun x y => x < y) ∧
    a.cursor = seqs.getLast?.getD request.since
  epoch : ∀ r ∈ a.records, (r.get "epoch").asStr = some request.epoch
  chunks : ∃ chunks : List (List UInt8), a.records.map recordBytes = chunks.map some ∧
    a.bytes = chunks.flatten
  lined : Lined request.since a
  bounded : a.bytes.length ≤ request.maxBytes.toNat

theorem sound_new (request : Request) : Sound request (.new request.since) where
  seqs := ⟨[], rfl, List.pairwise_singleton _ _, rfl⟩
  epoch := by simp [Acquired.new]
  chunks := ⟨[], rfl, rfl⟩
  lined := lined_new request.since
  bounded := Nat.zero_le _

/-- A list in order whose last element is smaller stays in order. -/
theorem pairwise_concat {since last seq : UInt64} {seqs : List UInt64}
    (h : (since :: seqs).Pairwise fun x y => x < y) (hlast : last = seqs.getLast?.getD since)
    (hlt : last < seq) : (since :: (seqs ++ [seq])).Pairwise fun x y => x < y := by
  rw [← List.cons_append, List.pairwise_append]
  refine ⟨h, List.pairwise_singleton _ _, fun x hx y hy => ?_⟩
  rw [List.mem_singleton.mp hy]
  refine UInt64.lt_of_le_of_lt ?_ hlt
  -- every element is at most the last
  rcases List.eq_nil_or_concat seqs with rfl | ⟨init, z, rfl⟩
  · rw [List.mem_singleton.mp hx, hlast]
    exact UInt64.le_refl _
  · rw [List.concat_eq_append] at h hx hlast
    rw [List.getLast?_concat, Option.getD_some] at hlast
    rw [hlast]
    rw [← List.cons_append] at h hx
    rcases List.mem_append.mp hx with hx | hx
    · exact UInt64.le_of_lt ((List.pairwise_append.mp h).2.2 x hx z (by simp))
    · rw [List.mem_singleton.mp hx]
      exact UInt64.le_refl _

/-- The account together with the events: the lines are handed out if they are followed. -/
structure Accounted (request : Request) (s : State) : Prop where
  sound : Sound request s.acquired
  emitted : s.emitted = if request.follow then s.acquired.lines.map Line.json else []

theorem Accounted.change {request : Request} {startedAtMs : UInt64} {s s' : State}
    (h : Accounted request s) (hc : Change request startedAtMs s s') : Accounted request s' := by
  cases hc with
  | note hn =>
      refine ⟨?_, ?_⟩
      · rw [hn.acquired]
        exact h.sound
      · rw [hn.acquired, hn.emitted]
        exact h.emitted
  | commit record hn =>
      obtain ⟨seq, bytes, hseq, hrecord, hcursor, hbytes, hrecords, hlines, hlined⟩ :=
        append_ok request.since hn.accepts.append
      obtain ⟨seqs, hseqs, hsorted, hlast⟩ := h.sound.seqs
      obtain ⟨chunks, hchunks, hflat⟩ := h.sound.chunks
      obtain ⟨seq', hseq', hlt⟩ := hn.accepts.seq
      obtain ⟨raw, hraw, hroom⟩ := hn.accepts.raw
      cases hseq.symm.trans hseq'
      refine ⟨⟨⟨seqs ++ [seq], ?_, pairwise_concat hsorted hlast hlt, ?_⟩, ?_, ⟨chunks ++ [bytes],
        ?_, ?_⟩, hlined h.sound.lined, ?_⟩, ?_⟩
      · rw [hrecords, List.map_append, List.map_append, hseqs, List.map_singleton, hseq]
        rfl
      · rw [hcursor, List.getLast?_concat]
        rfl
      · rw [hrecords]
        intro r hr
        rcases List.mem_append.mp hr with hr | hr
        · exact h.sound.epoch r hr
        · rw [List.mem_singleton.mp hr]
          exact hn.accepts.epoch
      · rw [hrecords, List.map_append, List.map_append, hchunks, List.map_singleton, hrecord]
        rfl
      · rw [hbytes, hflat, List.flatten_append, List.flatten_singleton]
      · have hlen : bytes.length = raw.length := by
          rw [recordBytes, hraw] at hrecord
          exact length_of_mapM_rawByte hrecord
        rw [hbytes, List.length_append, hlen]
        exact hroom
      · obtain ⟨added, hadded⟩ := hlines
        rw [hn.emitted, h.emitted, newEvents, ← hadded, List.drop_left, List.map_append]
        split
        · rfl
        · rfl

/-- Whatever the outside answers, what the result reports agrees: its records are of the requested
epoch, in order behind the cursor; their bytes are the complete lines and the pending rest, and no
more than was asked for; the events handed out are the lines. A record that does not pass a check
leaves no trace in any of it. -/
theorem result_accounts (request : Request) (startedAtMs finishedAtMs elapsedMs : UInt64)
    (turns : List Turn) {output : JsonValue} {emitted : List JsonValue}
    (h : run request startedAtMs finishedAtMs elapsedMs turns = some (.ok output, emitted)) :
    (∃ a status notes m, output = result request a status notes m ∧ Sound request a ∧
      emitted = if request.follow then a.lines.map Line.json else []) ∧
    ∀ t i record s s' status, takeRecord request startedAtMs t i record s = .stop status s' →
      s'.acquired = s.acquired ∧ s'.emitted = s.emitted := by
  refine ⟨?_, fun t i record s s' status hstop =>
    ⟨(takeRecord_stop hstop).acquired, (takeRecord_stop hstop).emitted⟩⟩
  have hloop : (acquireLoop request startedAtMs turns
      { acquired := .new request.since }).From request startedAtMs
        { acquired := .new request.since } := from_acquireLoop turns _
  have hstart : Accounted request { acquired := .new request.since } := by
    refine ⟨sound_new request, ?_⟩
    split <;> rfl
  rw [run] at h
  split at h
  · cases h
  · split at h
    · cases h
    · split at h
      · cases h
      · split at h
        · cases h
        · cases h
        · rename_i status s hs
          rw [hs] at hloop
          have hs' : Accounted request s :=
            Changes.induct hloop hstart fun a b ha hab => ha.change hab
          rw [finish] at h
          split at h
          · cases h
          · cases h
            exact ⟨s.acquired, status, _, _, rfl, hs'.sound, hs'.emitted⟩

/-- The chunk behind the cursor is one line. -/
theorem result_accounts_prompt :
    ∃ output emitted a status notes m, promptRun = some (.ok output, emitted) ∧
      output = result promptRequest a status notes m ∧ Sound promptRequest a ∧
      emitted = a.lines.map Line.json := by
  obtain ⟨output, emitted, hrun⟩ := exists_promptRun
  obtain ⟨a, status, notes, m, hout, hsound, hemit⟩ :=
    (result_accounts promptRequest 1000 1005 5 [promptTurn] hrun).1
  exact ⟨output, emitted, a, status, notes, m, hrun, hout, hsound, hemit⟩

end Wait

end Serialcap

end Paniolo
