import Paniolo.Serialcap.Journal.Clean
import Paniolo.Serialcap.Journal.Writer

/-!
# What can be read from a segment

A writer that may stop after any byte, be restarted and write on leaves lines
that are records, lines in which a record begins inside another, and a tail
that is the beginning of one. Whatever part of such a file is read, the only
records that it can give are records that were appended.
-/

namespace Paniolo

namespace Serialcap

namespace Journal

/-! ### Files -/

section Files

variable (c : RecordCodec) (A : List ReceiveRecord)

/-- No beginning of `l` reads as a record outside `A`. -/
def Text (l : List UInt8) : Prop := ∀ p, p <+: l → ∀ r, pieceRecord c p = some r → r ∈ A

/-- A record that begins behind `t` makes the text unreadable. -/
def Torn (t : List UInt8) : Prop :=
  t = [] ∨ ∀ q b, b <+: c.encode q → b ≠ [] → ∀ x o, c.decode (t ++ b ++ x) ≠ .ok o

/-- The end of a file, up to which the writer came. -/
structure Tail (t : List UInt8) : Prop where
  noNewline : newline ∉ t
  text : Text c A t
  torn : Torn c t

structure Line (l : List UInt8) : Prop where
  noNewline : newline ∉ l
  text : Text c A l
  record : ∀ r, pieceRecord c (l ++ [newline]) = some r → r ∈ A

def Legible (b : List UInt8) : Prop :=
  ∃ ls t, b = unlines newline ls ++ t ∧ (∀ l ∈ ls, Line c A l) ∧ Tail c A t

end Files

variable {c : RecordCodec} {A B : List ReceiveRecord}

theorem pieceRecord_eq_some {p : List UInt8} {r : ReceiveRecord} :
    pieceRecord c p = some r ↔ c.decode p = .ok r ∧ r.valid = true := by
  rw [pieceRecord]
  cases hd : c.decode p with
  | error e => simp
  | ok q =>
      dsimp only
      split
      · rename_i hq
        constructor
        · rintro h
          cases h
          exact ⟨rfl, hq⟩
        · rintro ⟨h, -⟩
          cases h
          rfl
      · rename_i hq
        constructor
        · intro h
          cases h
        · rintro ⟨h, hr⟩
          cases h
          exact absurd hr hq

theorem Tail.mono {t : List UInt8} (h : Tail c A t) (hAB : A ⊆ B) : Tail c B t :=
  ⟨h.noNewline, fun p hp r hr => hAB (h.text p hp r hr), h.torn⟩

theorem Line.mono {l : List UInt8} (h : Line c A l) (hAB : A ⊆ B) : Line c B l :=
  ⟨h.noNewline, fun p hp r hr => hAB (h.text p hp r hr), fun r hr => hAB (h.record r hr)⟩

theorem Legible.mono {b : List UInt8} (h : Legible c A b) (hAB : A ⊆ B) : Legible c B b := by
  obtain ⟨ls, t, hb, hls, ht⟩ := h
  exact ⟨ls, t, hb, fun l hl => (hls l hl).mono hAB, ht.mono hAB⟩

/-- Reading any part of the file from its beginning finds only records of `A`. -/
theorem Legible.mem_of_piece {b p : List UInt8} {r : ReceiveRecord} (h : Legible c A b) (n : Nat)
    (hp : p ∈ splitAfter newline (b.take n)) (hr : pieceRecord c p = some r) : r ∈ A := by
  obtain ⟨ls, t, rfl, hls, ht⟩ := h
  rcases mem_splitAfter_take (fun l hl => (hls l hl).noNewline) ht.noNewline n hp with
    ⟨l, hl, rfl⟩ | ⟨l, hl, hpre⟩
  · exact (hls l hl).record r hr
  · rcases List.mem_append.mp hl with hl | hl
    · exact (hls l hl).text p hpre r hr
    · rw [List.mem_singleton] at hl
      exact ht.text p (hl ▸ hpre) r hr

namespace RecordCodec.Lawful

theorem encode_ne_nil (hc : c.Lawful) {r : ReceiveRecord} (hr : r.valid = true) :
    c.encode r ≠ [] := by
  intro hnil
  -- another record that differs in its generation only cannot have the empty text as well
  obtain ⟨q, hq, hne⟩ : ∃ q : ReceiveRecord, q.valid = true ∧ q ≠ r := by
    refine ⟨{ r with
      connectionGeneration := if r.connectionGeneration = 0 then 1 else 0
      inRange := ?_ }, hr, ?_⟩
    · intro n hn
      simp only [List.mem_cons, List.not_mem_nil, or_false] at hn
      rcases hn with rfl | rfl | rfl | rfl
      · exact r.inRange _ (by simp)
      · split <;> decide
      · exact r.inRange _ (by simp)
      · exact r.inRange _ (by simp)
    · intro heq
      have := congrArg ReceiveRecord.connectionGeneration heq
      dsimp only at this
      split at this <;> omega
  have hdec := hc.decode_encode r hr
  rw [hnil] at hdec
  by_cases hqnil : c.encode q = []
  · have hdec' := hc.decode_encode q hq
    rw [hqnil, hdec] at hdec'
    exact hne (Except.ok.inj hdec').symm
  · exact hc.decode_prefix q [] r List.nil_prefix (Ne.symm hqnil) hdec

theorem decode_nil (hc : c.Lawful) (o : ReceiveRecord) : c.decode [] ≠ .ok o := by
  let r : ReceiveRecord := ⟨"e", 1, 0, 0, 0, [0], by decide⟩
  have hne := hc.encode_ne_nil (r := r) (by decide)
  exact hc.decode_prefix r [] o List.nil_prefix hne.symm

/-- What is written of a record reads as that record if it begins the line, and not at all
otherwise. -/
theorem eq_of_pieceRecord_append (hc : c.Lawful) {j b : List UInt8} {r o : ReceiveRecord}
    (hj : Torn c j) (hb : b <+: c.encode r ∨ b = c.line r) (hne : b ≠ []) (hvalid : r.valid = true)
    (ho : pieceRecord c (j ++ b) = some o) : j = [] ∧ o = r := by
  rw [pieceRecord_eq_some] at ho
  rcases hj with rfl | htorn
  · rw [List.nil_append] at ho
    refine ⟨rfl, ?_⟩
    rcases hb with hb | rfl
    · by_cases hall : b = c.encode r
      · rw [hall, hc.decode_encode r hvalid] at ho
        exact (Except.ok.inj ho.1).symm
      · exact absurd ho.1 (hc.decode_prefix r b o hb hall)
    · rw [hc.decode_line r hvalid] at ho
      exact (Except.ok.inj ho.1).symm
  · exfalso
    rcases hb with hb | rfl
    · have hnone := htorn r b hb hne [] o
      rw [List.append_nil] at hnone
      exact hnone ho.1
    · have hnone := htorn r _ (List.prefix_refl _) (hc.encode_ne_nil hvalid) [newline] o
      rw [List.append_assoc] at hnone
      exact hnone ho.1

/-- The text of a record behind a tail reads as that record or not at all. -/
theorem text_append (hc : c.Lawful) {j b : List UInt8} {r : ReceiveRecord} (hj : Tail c A j)
    (hb : b <+: c.encode r) (hr : r ∈ A) (hvalid : r.valid = true) : Text c A (j ++ b) := by
  intro p hp o ho
  rcases prefix_append_cases hp with hp | ⟨d, hd, hdb, rfl⟩
  · exact hj.text p hp o ho
  · rw [(hc.eq_of_pieceRecord_append hj.torn (Or.inl (hdb.trans hb)) hd hvalid ho).2]
    exact hr

theorem torn_append (hc : c.Lawful) {j b : List UInt8} {r : ReceiveRecord} (hj : Torn c j)
    (hb : b <+: c.encode r) : Torn c (j ++ b) := by
  by_cases hnil : b = []
  · rw [hnil, List.append_nil]
    exact hj
  right
  intro q d hd hdne x o
  rcases hj with rfl | htorn
  · exact hc.decode_torn r b hb hnil q d hd hdne x o
  · have hnone := htorn r b hb hnil (d ++ x) o
    simpa only [List.append_assoc] using hnone

/-- What is written of a record leaves again a tail that a file may end with. -/
theorem tail_append (hc : c.Lawful) {j b : List UInt8} {r : ReceiveRecord} (hj : Tail c A j)
    (hb : b <+: c.encode r) (hr : r ∈ A) (hvalid : r.valid = true) : Tail c A (j ++ b) := by
  refine ⟨?_, hc.text_append hj hb hr hvalid, hc.torn_append hj.torn hb⟩
  rw [List.mem_append]
  exact not_or.mpr ⟨hj.noNewline, fun h => hc.newline_notMem r (hb.subset h)⟩

/-- The whole record makes a line of it. -/
theorem line_append (hc : c.Lawful) {j : List UInt8} {r : ReceiveRecord} (hj : Tail c A j)
    (hr : r ∈ A) (hvalid : r.valid = true) : Line c A (j ++ c.encode r) := by
  have htail := hc.tail_append hj (List.prefix_refl _) hr hvalid
  refine ⟨htail.noNewline, htail.text, fun o ho => ?_⟩
  rw [List.append_assoc] at ho
  rw [(hc.eq_of_pieceRecord_append hj.torn (Or.inr rfl) (by simp [RecordCodec.line]) hvalid ho).2]
  exact hr

end RecordCodec.Lawful

/-! ### The writer -/

/-- What is known of the record that is being appended. While it is written, the file ends with
what is out already. -/
def Stage.Ok (c : RecordCodec) (A : List ReceiveRecord) (d : Disk) : Stage → Prop
  | .publish r | .checkSize r | .remove r _ | .rename r _ | .openActive r | .persist r _
  | .archiveRemove r _ | .archiveRename r _ | .archiveWrite r => r ∈ A ∧ r.valid = true
  | .write r f rest => (r ∈ A ∧ r.valid = true) ∧ rest ≠ [] ∧ ∃ ls j b,
      d.content f = unlines newline ls ++ (j ++ b) ∧ (∀ l ∈ ls, Line c A l) ∧ Tail c A j ∧
      b ++ rest = c.line r
  | .idle | .startEpoch | .publishFailure => True

/-- Every file is legible, whatever happens next. -/
structure Sound (c : RecordCodec) (s : World) : Prop where
  legible : ∀ f, Legible c s.appended (s.disk.content f)
  stage : ∀ w, s.writer = some w → w.stage.Ok c s.appended s.disk

theorem Stage.Ok.of_content {stage : Stage} {d d' : Disk} (h : stage.Ok c A d)
    (hcontent : d'.content = d.content) : stage.Ok c A d' := by
  cases stage with
  | write r f rest =>
      rw [Stage.Ok, hcontent]
      exact h
  | _ => exact h

/-- A step that writes to no segment leaves them legible. -/
theorem Sound.frame {s t : World} (h : Sound c s) (hcontent : t.disk.content = s.disk.content)
    (happended : t.appended = s.appended)
    (hstage : ∀ w, t.writer = some w → w.stage.Ok c s.appended s.disk) : Sound c t := by
  refine ⟨fun f => ?_, fun w hw => ?_⟩
  · rw [hcontent, happended]
    exact h.legible f
  · rw [happended]
    exact (hstage w hw).of_content hcontent

/-- The bytes of a line that are out while something is left belong to the record's text. -/
theorem prefix_encode_of_append {r : ReceiveRecord} {b rest : List UInt8}
    (h : b ++ rest = c.line r) (hrest : rest ≠ []) : b <+: c.encode r := by
  have hpre : b <+: c.encode r ++ [newline] := ⟨rest, h⟩
  rcases List.prefix_concat_iff.mp hpre with heq | hpre
  · exfalso
    rw [heq, ← RecordCodec.line] at h
    exact hrest (by simpa using h)
  · exact hpre

section Write

variable {s : World} {w : Writer} {r : ReceiveRecord} {f : Nat} {rest : List UInt8}

/-- A write that is not finished. -/
theorem Sound.append_part (hc : c.Lawful) (h : Sound c s) (hw : s.writer = some w)
    (hstage : w.stage = .write r f rest) {n : Nat} (hn : rest.drop n ≠ []) :
    (∀ g, Legible c s.appended ((s.disk.append f (rest.take n)).content g)) ∧
      (Stage.write r f (rest.drop n)).Ok c s.appended (s.disk.append f (rest.take n)) := by
  have hok := h.stage w hw
  rw [hstage] at hok
  obtain ⟨⟨hr, hvalid⟩, -, ls, j, b, hcontent, hls, hj, hline⟩ := hok
  have hcontent' : (s.disk.append f (rest.take n)).content f =
      unlines newline ls ++ (j ++ (b ++ rest.take n)) := by
    simp [Disk.append, hcontent]
  have hline' : b ++ rest.take n ++ rest.drop n = c.line r := by
    rw [List.append_assoc, List.take_append_drop, hline]
  have hpre := prefix_encode_of_append hline' hn
  refine ⟨fun g => ?_, ⟨hr, hvalid⟩, hn, ls, j, b ++ rest.take n, hcontent', hls, hj, hline'⟩
  by_cases hg : g = f
  · rw [hg, hcontent']
    exact ⟨ls, _, rfl, hls, hc.tail_append hj hpre hr hvalid⟩
  · rw [Disk.append_content_of_ne _ _ hg]
    exact h.legible g

/-- The write that finishes the line. -/
theorem Sound.append_all (hc : c.Lawful) (h : Sound c s) (hw : s.writer = some w)
    (hstage : w.stage = .write r f rest) {n : Nat} (hn : rest.drop n = []) (g : Nat) :
    Legible c s.appended ((s.disk.append f (rest.take n)).content g) := by
  have hok := h.stage w hw
  rw [hstage] at hok
  obtain ⟨⟨hr, hvalid⟩, -, ls, j, b, hcontent, hls, hj, hline⟩ := hok
  by_cases hg : g = f
  · have hall : rest.take n = rest := by
      have := List.take_append_drop n rest
      rwa [hn, List.append_nil] at this
    have hcontent' : (s.disk.append f (rest.take n)).content f =
        unlines newline (ls ++ [j ++ c.encode r]) ++ [] := by
      rw [hall, unlines_append]
      simp [Disk.append, hcontent, hline, RecordCodec.line]
    rw [hg, hcontent']
    refine ⟨_, _, rfl, fun l hl => ?_, ⟨by simp, fun p hp o ho => ?_, Or.inl rfl⟩⟩
    · rcases List.mem_append.mp hl with hl | hl
      · exact hls l hl
      · rw [List.mem_singleton.mp hl]
        exact hc.line_append hj hr hvalid
    · exact hj.text p (List.prefix_nil.mp hp ▸ List.nil_prefix) o ho
  · rw [Disk.append_content_of_ne _ _ hg]
    exact h.legible g

end Write

theorem sound_noteFailure {s : World} {w : Writer} {state : WriterState} {r : ReceiveRecord}
    {message : String} (hlegible : ∀ f, Legible c s.appended (s.disk.content f))
    (hr : r ∈ s.appended ∧ r.valid = true) : Sound c (noteFailure s w state r message) := by
  refine ⟨hlegible, fun w' hw' => ?_⟩
  rw [noteFailure, World.goto] at hw'
  cases hw'
  dsimp only
  split
  · trivial
  · exact hr

theorem sound_perform (hc : c.Lawful) {segmentBytes k : Nat} {s t : World} {w : Writer}
    (h : Sound c s) (hw : s.writer = some w) (hstep : perform c segmentBytes k s w = some t) :
    Sound c t := by
  have hok := h.stage w hw
  have hgoto : ∀ (s' : World) (w' : Writer) (stage : Stage),
      s'.disk.content = s.disk.content → s'.appended = s.appended →
      stage.Ok c s.appended s.disk → Sound c (s'.goto w' stage) :=
    fun s' w' stage hcontent happended hstage => h.frame hcontent happended fun w'' hw'' => by
      cases hw''
      exact hstage
  rw [perform] at hstep
  cases hstage : w.stage with
  | idle =>
      rw [hstage] at hstep
      cases hstep
  | startEpoch =>
      rw [hstage] at hstep
      cases hstep
      exact hgoto _ _ _ rfl rfl trivial
  | publish r =>
      rw [hstage] at hstep hok
      cases hstep
      exact hgoto _ _ _ rfl rfl hok
  | checkSize r =>
      rw [hstage] at hstep hok
      dsimp only at hstep
      split at hstep
      · cases hstep
        exact hgoto _ _ _ rfl rfl hok
      · cases hstep
        exact hgoto _ _ _ rfl rfl hok
  | remove r index =>
      rw [hstage] at hstep hok
      cases hstep
      exact hgoto _ _ _ rfl rfl hok
  | rename r index =>
      rw [hstage] at hstep hok
      cases hstep
      refine hgoto _ _ _ (s.disk.rename_content index) rfl ?_
      split
      · exact hok
      · exact hok
  | openActive r =>
      rw [hstage] at hstep hok
      cases hstep
      obtain ⟨ls, j, heq, hls, hj⟩ := h.legible s.disk.openActive.1
      refine hgoto _ _ _ s.disk.openActive_content rfl ⟨hok, by simp [RecordCodec.line], ls, j, [], ?_, hls, hj, ?_⟩
      · rw [List.append_nil]
        exact heq
      · rw [List.nil_append]
  | write r f rest =>
      rw [hstage] at hstep hok
      dsimp only at hstep
      cases hstep
      by_cases hn : rest.drop (k + 1) = []
      · refine ⟨h.append_all hc hw hstage hn, fun w' hw' => ?_⟩
        cases hw'
        rw [if_pos hn]
        exact hok.1
      · obtain ⟨hlegible, hwrite⟩ := h.append_part hc hw hstage hn
        refine ⟨hlegible, fun w' hw' => ?_⟩
        cases hw'
        rw [if_neg hn]
        exact hwrite
  | persist r f =>
      rw [hstage] at hstep
      cases hstep
      exact hgoto _ _ _ rfl rfl trivial
  | archiveRemove r index =>
      rw [hstage] at hstep hok
      cases hstep
      exact hgoto _ _ _ rfl rfl hok
  | archiveRename r index =>
      rw [hstage] at hstep hok
      cases hstep
      refine hgoto _ _ _ (s.disk.renameFailure_content index) rfl ?_
      split
      · exact hok
      · exact hok
  | archiveWrite r =>
      rw [hstage] at hstep
      cases hstep
      exact hgoto _ _ _ rfl rfl trivial
  | publishFailure =>
      rw [hstage] at hstep
      cases hstep
      exact hgoto _ _ _ rfl rfl trivial

theorem sound_failOp (hc : c.Lawful) {k : Nat} {error : String} {s t : World} {w : Writer}
    (h : Sound c s) (hw : s.writer = some w) (hstep : failOp c k error s w = some t) :
    Sound c t := by
  have hok := h.stage w hw
  have hgoto : ∀ (s' : World) (stage : Stage), s'.disk.content = s.disk.content →
      s'.appended = s.appended → stage.Ok c s.appended s.disk → Sound c (s'.goto w stage) :=
    fun s' stage hcontent happended hstage => h.frame hcontent happended fun w'' hw'' => by
      cases hw''
      exact hstage
  rw [failOp] at hstep
  cases hstage : w.stage with
  | idle =>
      rw [hstage] at hstep
      cases hstep
  | startEpoch =>
      rw [hstage] at hstep
      cases hstep
      exact hgoto _ _ rfl rfl trivial
  | checkSize r =>
      rw [hstage] at hstep
      cases hstep
  | write r f rest =>
      rw [hstage] at hstep hok
      dsimp only at hstep
      split at hstep
      · rename_i hk
        cases hstep
        have hpart : rest.drop k ≠ [] := by
          intro hnil
          have := congrArg List.length hnil
          simp at this
          omega
        exact sound_noteFailure (h.append_part hc hw hstage hpart).1 hok.1
      · cases hstep
  | publish r =>
      rw [hstage] at hstep hok
      cases hstep
      exact sound_noteFailure h.legible hok
  | remove r index =>
      rw [hstage] at hstep hok
      cases hstep
      exact sound_noteFailure h.legible hok
  | rename r index =>
      rw [hstage] at hstep hok
      cases hstep
      exact sound_noteFailure h.legible hok
  | openActive r =>
      rw [hstage] at hstep hok
      cases hstep
      exact sound_noteFailure h.legible hok
  | persist r f =>
      rw [hstage] at hstep hok
      cases hstep
      exact sound_noteFailure h.legible hok
  | archiveRemove r index =>
      rw [hstage] at hstep
      cases hstep
      exact hgoto _ _ rfl rfl trivial
  | archiveRename r index =>
      rw [hstage] at hstep
      cases hstep
      exact hgoto _ _ rfl rfl trivial
  | archiveWrite r =>
      rw [hstage] at hstep
      cases hstep
      exact hgoto _ _ rfl rfl trivial
  | publishFailure =>
      rw [hstage] at hstep
      cases hstep
      exact hgoto _ _ rfl rfl trivial

theorem valid_of_nextRecord {state : WriterState} {r : ReceiveRecord}
    (h : nextRecord state r = true) : r.valid = true := by
  rw [nextRecord, Bool.and_eq_true] at h
  exact h.1

theorem exists_cursor_of_nextRecord {state : WriterState} {r : ReceiveRecord}
    (h : nextRecord state r = true) :
    ∃ n, state.lastReceived = some ⟨r.epoch, n⟩ ∧ r.rxSeq = n + 1 := by
  rw [nextRecord, Bool.and_eq_true] at h
  cases hlast : state.lastReceived with
  | none =>
      rw [hlast] at h
      exact absurd h.2 (by simp)
  | some cur =>
      obtain ⟨e, n⟩ := cur
      rw [hlast] at h
      simp only [Option.any_some, Bool.and_eq_true, decide_eq_true_eq] at h
      exact ⟨n, by rw [h.2.1], h.2.2.symm⟩

theorem sound_step (hc : c.Lawful) {segmentBytes : Nat} {s t : World} {a : Action}
    (h : Sound c s) (hstep : step c segmentBytes s a = some t) : Sound c t := by
  cases a with
  | start epoch =>
      rw [step] at hstep
      split at hstep
      · cases hstep
        refine h.frame rfl rfl fun w hw => ?_
        cases hw
        trivial
      · cases hstep
  | append r =>
      rw [step] at hstep
      split at hstep
      · rename_i w hw
        split at hstep
        · rename_i hnext
          cases hstep
          have hsub : s.appended ⊆ s.appended ++ [r] := List.subset_append_left _ _
          refine ⟨fun f => (h.legible f).mono hsub, fun w' hw' => ?_⟩
          cases hw'
          exact ⟨by simp, valid_of_nextRecord hnext.2⟩
        · cases hstep
      · cases hstep
  | op k =>
      obtain ⟨w, hw, hstep⟩ := Option.bind_eq_some_iff.mp hstep
      exact sound_perform hc h hw hstep
  | fail k error =>
      obtain ⟨w, hw, hstep⟩ := Option.bind_eq_some_iff.mp hstep
      exact sound_failOp hc h hw hstep
  | crash =>
      rw [step] at hstep
      split at hstep
      · cases hstep
        exact h.frame rfl rfl fun w hw => by cases hw
      · cases hstep

/-- Every file that a run leaves behind, at any moment, is legible. -/
theorem sound_run (hc : c.Lawful) {segmentBytes : Nat} {s : World} {as : List Action}
    (h : Machine.run (step c segmentBytes) {} as = some s) : Sound c s := by
  refine Machine.run_induct ⟨fun f => ?_, fun w hw => ?_⟩ (fun _ _ _ => sound_step hc) h
  · refine ⟨[], [], rfl, by simp, by simp, fun p hp o ho => ?_, Or.inl rfl⟩
    rw [List.prefix_nil.mp hp, pieceRecord_eq_some] at ho
    exact absurd ho.1 (hc.decode_nil o)
  · cases hw

end Journal

end Serialcap

end Paniolo
