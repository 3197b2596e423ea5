import Paniolo.Serialcap.Journal.Damaged
import Paniolo.Serialcap.Journal.Json
import Paniolo.Serialcap.Journal.Numbered
import Paniolo.Serialcap.Journal.Slots

/-!
# Restarts

A process may stop between any two file operations and be started again with a
new epoch, whose first checkpoint replaces the old one. From then on only the
segments can tell whether the old epoch is complete. They can, as long as the
record that the old checkpoint named as received has at least begun to be
written: what there is of it either is that record or cannot be read, and it is
never dropped before the records in front of it.
-/

namespace Paniolo

namespace Serialcap

namespace Journal

/-- Nothing in the file is a record of the epoch. -/
def NoRecord (c : RecordCodec) (e : String) (b : List UInt8) : Prop :=
  ∀ p ∈ splitAfter newline b, ∀ r, pieceRecord c p = some r → r.epoch ≠ e

/-- No read of the epoch can take what is left of it for complete when record `n` is not there:
either nothing is left, or some file, with no record of the epoch in a newer one, has a piece that
cannot be read or that is record `n` or a later one. -/
def Closed (c : RecordCodec) (slot : Nat → Option Nat) (content : Nat → List UInt8) (e : String)
    (n : Nat) : Prop :=
  (∀ i f, slot i = some f → NoRecord c e (content f)) ∨
    ∃ g, ∃ p ∈ splitAfter newline (content g),
      (∀ i f, slot i = some f → g < f → NoRecord c e (content f)) ∧
      ∀ r, pieceRecord c p = some r → r.epoch = e ∧ n ≤ r.rxSeq

/-- The contents of the files without what is out of the record being written. -/
def World.settled (c : RecordCodec) (s : World) : Nat → List UInt8 :=
  match s.writer.map Writer.stage with
  | some (.write r g rest) =>
      Function.update s.disk.content g
        ((s.disk.content g).take ((s.disk.content g).length - ((c.line r).length - rest.length)))
  | _ => s.disk.content

section Closed

variable {c : RecordCodec} {slot slot' : Nat → Option Nat} {content : Nat → List UInt8} {e : String}
  {n : Nat}

theorem noRecord_nil : NoRecord c e [] := by
  intro p hp
  cases hp

/-- Names move, go, and come for empty files. -/
theorem Closed.names (h : Closed c slot content e n)
    (hslot : ∀ i f, slot' i = some f → (∃ j, slot j = some f) ∨ content f = []) :
    Closed c slot' content e n := by
  have hno : ∀ {i f}, slot' i = some f → (∀ j, slot j = some f → NoRecord c e (content f)) →
      NoRecord c e (content f) := by
    intro i f hi hold
    rcases hslot i f hi with ⟨j, hj⟩ | hnil
    · exact hold j hj
    · rw [hnil]
      exact noRecord_nil
  rcases h with hnone | ⟨g, p, hp, hafter, hrec⟩
  · exact Or.inl fun i f hi => hno hi fun j hj => hnone j f hj
  · exact Or.inr ⟨g, p, hp, fun i f hi hgf => hno hi fun j hj => hafter j f hj hgf, hrec⟩

/-- The pieces of a file before and after something of a record is written behind its tail. -/
theorem splitAfter_write (hc : c.Lawful) {A : List ReceiveRecord} {ls : List (List UInt8)}
    {j b : List UInt8} {r : ReceiveRecord} (hls : ∀ l ∈ ls, Line c A l) (hj : Tail c A j)
    (hb : b <+: c.encode r ∨ b = c.line r) (hne : b ≠ []) :
    splitAfter newline (unlines newline ls ++ j) =
        ls.map (· ++ [newline]) ++ (if j = [] then [] else [j]) ∧
      splitAfter newline (unlines newline ls ++ j ++ b) = ls.map (· ++ [newline]) ++ [j ++ b] := by
  have hnl : ∀ l ∈ ls, newline ∉ l := fun l hl => (hls l hl).noNewline
  refine ⟨splitAfter_unlines hnl hj.noNewline, ?_⟩
  rw [List.append_assoc]
  refine splitAfter_unlines_concat hnl hj.noNewline hne ?_
  rcases hb with hb | rfl
  · exact Or.inl fun h => hc.newline_notMem r (hb.subset h)
  · exact Or.inr ⟨c.encode r, hc.newline_notMem r, rfl⟩

/-- A record of another epoch, or a part of one, is written to a file. -/
theorem Closed.write (hc : c.Lawful) (h : Closed c slot content e n) {A : List ReceiveRecord}
    {f : Nat} {ls : List (List UInt8)} {j b : List UInt8} {r : ReceiveRecord}
    (hcontent : content f = unlines newline ls ++ j) (hls : ∀ l ∈ ls, Line c A l)
    (hj : Tail c A j) (hb : b <+: c.encode r ∨ b = c.line r) (hvalid : r.valid = true)
    (hepoch : r.epoch ≠ e) :
    Closed c slot (Function.update content f (content f ++ b)) e n := by
  by_cases hne : b = []
  · rw [hne, List.append_nil, Function.update_eq_self]
    exact h
  obtain ⟨hbefore, hafter⟩ := splitAfter_write hc hls hj hb hne
  rw [← hcontent] at hbefore hafter
  have hnew : ∀ o, pieceRecord c (j ++ b) = some o → o = r := fun o ho =>
    (hc.eq_of_pieceRecord_append hj.torn hb hne hvalid ho).2
  have hno : ∀ g, NoRecord c e (content g) →
      NoRecord c e (Function.update content f (content f ++ b) g) := by
    intro g hg
    by_cases hgf : g = f
    · subst hgf
      rw [Function.update_self]
      intro p hp o ho
      rw [hafter] at hp
      rcases List.mem_append.mp hp with hp | hp
      · exact hg p (by rw [hbefore]; exact List.mem_append_left _ hp) o ho
      · rw [List.mem_singleton.mp hp] at ho
        rw [hnew o ho]
        exact hepoch
    · rw [Function.update_of_ne hgf]
      exact hg
  rcases h with hnone | ⟨g, p, hp, hlater, hrec⟩
  · exact Or.inl fun i g hi => hno g (hnone i g hi)
  · have hlater' : ∀ i f', slot i = some f' → g < f' →
        NoRecord c e (Function.update content f (content f ++ b) f') :=
      fun i f' hi hgf => hno f' (hlater i f' hi hgf)
    by_cases hgf : g = f
    · subst hgf
      rw [hbefore] at hp
      rcases List.mem_append.mp hp with hp | hp
      · refine Or.inr ⟨g, p, ?_, hlater', hrec⟩
        rw [Function.update_self, hafter]
        exact List.mem_append_left _ hp
      · -- the piece was the tail: with something behind it, nobody can read it any more
        have hjne : j ≠ [] := by
          intro hnil
          rw [if_pos hnil] at hp
          cases hp
        refine Or.inr ⟨g, j ++ b, ?_, hlater', fun o ho => ?_⟩
        · rw [Function.update_self, hafter]
          exact List.mem_append_right _ (List.mem_singleton_self _)
        · exact absurd (hc.eq_of_pieceRecord_append hj.torn hb hne hvalid ho).1 hjne
    · refine Or.inr ⟨g, p, ?_, hlater', hrec⟩
      rw [Function.update_of_ne hgf]
      exact hp

end Closed

/-! ### What a step does to the settled contents -/

section Settled

variable {c : RecordCodec} {s : World}

theorem settled_of_not_write (h : ∀ w r g rest, s.writer = some w → w.stage ≠ .write r g rest) :
    s.settled c = s.disk.content := by
  rw [World.settled]
  split
  · rename_i r g rest hstage
    obtain ⟨w, hw, hw'⟩ := Option.map_eq_some_iff.mp hstage
    exact absurd hw' (h w r g rest hw)
  · rfl

theorem settled_write {w : Writer} {r : ReceiveRecord} {g : Nat} {rest b x : List UInt8}
    (hw : s.writer = some w) (hstage : w.stage = .write r g rest)
    (hcontent : s.disk.content g = x ++ b) (hline : b ++ rest = c.line r) :
    s.settled c = Function.update s.disk.content g x := by
  have hlen : b.length = (c.line r).length - rest.length := by
    rw [← hline, List.length_append]
    omega
  simp only [World.settled, hw, Option.map_some, hstage]
  rw [hcontent, ← hlen, List.length_append, Nat.add_sub_cancel, List.take_left]

end Settled

/-! ### The checkpoints that were -/

/-- A process that has not published its epoch yet is the first of it; afterwards the checkpoint
is of its epoch and not ahead of it. -/
def Live (s : World) (w : Writer) : Prop :=
  (w.stage = .startEpoch ∧ ∃ e, w.state.lastReceived = some ⟨e, 0⟩ ∧
      ∀ cur ∈ s.held, cur.epoch ≠ e) ∨
    w.stage ≠ .startEpoch ∧ ∃ state e m n, s.disk.checkpoint = some state ∧
      state.lastReceived = some ⟨e, m⟩ ∧ w.state.lastReceived = some ⟨e, n⟩ ∧ m ≤ n

/-- Every cursor that a checkpoint ever held is either vouched for by the checkpoint that is there
now, or its epoch is over and closed. -/
structure Kept (c : RecordCodec) (s : World) : Prop where
  known : ∀ cur ∈ s.held, cur.epoch ∈ s.epochs
  live : ∀ w, s.writer = some w → Live s w
  checkpoint : ∀ state, s.disk.checkpoint = some state →
    ∃ cur ∈ s.held, state.lastReceived = some cur
  current : ∀ cur ∈ s.held, ∀ state m, s.disk.checkpoint = some state →
    state.lastReceived = some ⟨cur.epoch, m⟩ → cur.rxSeq ≤ m
  past : ∀ cur ∈ s.held,
    (∀ state m, s.disk.checkpoint = some state → state.lastReceived ≠ some ⟨cur.epoch, m⟩) →
    Closed c s.disk.slot (s.settled c) cur.epoch cur.rxSeq ∧
      ∀ w m, s.writer = some w → w.state.lastReceived ≠ some ⟨cur.epoch, m⟩

/-- The record that the checkpoint names as received has begun to be written: the last piece of
the active segment is that record or cannot be read. Or nothing is left of its epoch. -/
def Begun (c : RecordCodec) (d : Disk) : Prop :=
  ∀ state cur, d.checkpoint = some state → state.lastReceived = some cur →
    (∀ i f, d.slot i = some f → NoRecord c cur.epoch (d.content f)) ∨
      ∃ f p, d.slot 0 = some f ∧ (splitAfter newline (d.content f)).getLast? = some p ∧
        ∀ r, pieceRecord c p = some r → r.cursor = cur

/-- A new epoch is published only then. -/
def PublishesBegun (c : RecordCodec) (s : World) (a : Action) : Prop :=
  ∀ w k, s.writer = some w → w.stage = .startEpoch → a = .op k → Begun c s.disk

namespace Kept

variable {c : RecordCodec} {s t : World} {w w' : Writer}

theorem closed_of_begun {d : Disk} (hd : d.Ordered) (h : Begun c d) {state : WriterState}
    {cur : Cursor} (hckpt : d.checkpoint = some state) (hlast : state.lastReceived = some cur) {n : Nat}
    (hn : n ≤ cur.rxSeq) : Closed c d.slot d.content cur.epoch n := by
  rcases h state cur hckpt hlast with hnone | ⟨f, p, hf, hp, hrec⟩
  · exact Or.inl hnone
  · refine Or.inr ⟨f, p, List.mem_of_getLast? hp, fun i g hg hfg => ?_, fun r hr => ?_⟩
    · have hactive := hd.active hf
      have hborn := hd.born hg
      omega
    · have hcur := hrec r hr
      rw [← hcur] at hn ⊢
      exact ⟨rfl, hn⟩

/-- The checkpoint and the cursors stay as they are. -/
theorem frame (h : Kept c s) (hw : s.writer = some w) (hheld : t.held = s.held)
    (hepochs : t.epochs = s.epochs) (hckpt : t.disk.checkpoint = s.disk.checkpoint)
    (hw' : t.writer = some w') (hlast : w'.state.lastReceived = w.state.lastReceived)
    (hstage : w.stage ≠ .startEpoch) (hstage' : w'.stage ≠ .startEpoch)
    (hclosed : ∀ e n, (∀ m, w.state.lastReceived ≠ some ⟨e, m⟩) →
      Closed c s.disk.slot (s.settled c) e n → Closed c t.disk.slot (t.settled c) e n) :
    Kept c t := by
  refine ⟨?_, ?_, ?_, ?_, ?_⟩
  · rw [hheld, hepochs]
    exact h.known
  · intro v hv
    rw [hw'] at hv
    cases hv
    rcases h.live w hw with hstart | ⟨-, hlive⟩
    · exact absurd hstart.1 hstage
    · refine Or.inr ⟨hstage', ?_⟩
      rw [hckpt, hlast]
      exact hlive
  · rw [hckpt, hheld]
    exact h.checkpoint
  · rw [hckpt, hheld]
    exact h.current
  · intro cur hcur hother
    rw [hheld] at hcur
    rw [hckpt] at hother
    obtain ⟨hcl, hwr⟩ := h.past cur hcur hother
    refine ⟨hclosed _ _ (fun m => hwr w m hw) hcl, fun v m hv => ?_⟩
    rw [hw'] at hv
    cases hv
    rw [hlast]
    exact hwr w m hw

/-- The process publishes its progress. -/
theorem save (h : Kept c s) (state : WriterState) (hw : s.writer = some w)
    (hstage : w.stage ≠ .startEpoch) (hlast : state.lastReceived = w.state.lastReceived)
    (hheld : t.held = s.held ++ state.lastReceived.toList) (hepochs : t.epochs = s.epochs)
    (hckpt : t.disk.checkpoint = some state) (hslot : t.disk.slot = s.disk.slot)
    (hsettled : t.settled c = s.settled c) (hw' : t.writer = some w')
    (hlast' : w'.state.lastReceived = w.state.lastReceived) (hstage' : w'.stage ≠ .startEpoch) :
    Kept c t := by
  rcases h.live w hw with hstart | ⟨-, state₀, e, m, n, hckpt₀, hlast₀, hwlast, hle⟩
  · exact absurd hstart.1 hstage
  rw [hlast, hwlast] at hheld
  rw [hwlast] at hlast hlast'
  have hknown : e ∈ s.epochs := by
    obtain ⟨cur, hcur, hcur'⟩ := h.checkpoint state₀ hckpt₀
    rw [hlast₀] at hcur'
    cases hcur'
    exact h.known _ hcur
  have hheld' : ∀ cur ∈ t.held, cur ∈ s.held ∨ cur = ⟨e, n⟩ := by
    intro cur hcur
    rw [hheld] at hcur
    simpa using hcur
  refine ⟨fun cur hcur => ?_, fun v hv => ?_, fun st hst => ?_, fun cur hcur st k hst hk => ?_,
    fun cur hcur hother => ?_⟩
  · rw [hepochs]
    rcases hheld' cur hcur with hcur | rfl
    · exact h.known cur hcur
    · exact hknown
  · rw [hw'] at hv
    cases hv
    exact Or.inr ⟨hstage', state, e, n, n, hckpt, hlast, hlast', Nat.le_refl n⟩
  · rw [hckpt] at hst
    cases hst
    exact ⟨⟨e, n⟩, by rw [hheld]; simp, hlast⟩
  · rw [hckpt] at hst
    cases hst
    rw [hlast] at hk
    obtain ⟨he, hnk⟩ : e = cur.epoch ∧ n = k := by simpa using hk
    subst hnk
    rcases hheld' cur hcur with hcur | rfl
    · subst he
      exact Nat.le_trans (h.current cur hcur state₀ m hckpt₀ hlast₀) hle
    · exact Nat.le_refl n
  · have hne : e ≠ cur.epoch := by
      rintro rfl
      exact hother state n hckpt hlast
    rcases hheld' cur hcur with hcur | rfl
    · obtain ⟨hcl, -⟩ := h.past cur hcur fun st k hst hk => by
        rw [hckpt₀] at hst
        cases hst
        rw [hlast₀] at hk
        cases hk
        exact hne rfl
      rw [hslot, hsettled]
      refine ⟨hcl, fun v k hv hk => ?_⟩
      rw [hw'] at hv
      cases hv
      rw [hlast'] at hk
      cases hk
      exact hne rfl
    · exact absurd rfl hne

/-- A new epoch is published over the checkpoint of the old one. -/
theorem saveStart (h : Kept c s) (hordered : s.disk.Ordered) (hw : s.writer = some w)
    (hstage : w.stage = .startEpoch) (hbegun : Begun c s.disk) (hnum : Numbered s) :
    Kept c ((s.saveState w.state).goto w .idle) := by
  rcases h.live w hw with ⟨-, e, hlast, hfresh⟩ | hother
  swap
  · exact absurd hstage hother.1
  obtain ⟨e', he', hlast'⟩ := hnum.current w hw
  rw [hlast] at hlast'
  obtain ⟨rfl, -⟩ : e = e' ∧ 0 = received s.appended e' := by simpa using hlast'
  have hsettled : s.settled c = s.disk.content := settled_of_not_write fun v r g rest hv hvs => by
    rw [hw] at hv
    cases hv
    rw [hstage] at hvs
    cases hvs
  have hsettled' : ((s.saveState w.state).goto w .idle).settled c = s.disk.content := rfl
  have hheld : ∀ cur ∈ ((s.saveState w.state).goto w .idle).held,
      cur ∈ s.held ∨ cur = ⟨e, 0⟩ := by
    intro cur hcur
    simpa [World.saveState, World.goto, hlast] using hcur
  refine ⟨fun cur hcur => ?_, fun v hv => ?_, fun st hst => ?_, fun cur hcur st m hst hm => ?_,
    fun cur hcur hother => ?_⟩
  · rcases hheld cur hcur with hcur | rfl
    · exact h.known cur hcur
    · exact he'
  · cases hv
    exact Or.inr ⟨by simp, w.state, e, 0, 0, rfl, hlast, hlast, Nat.le_refl 0⟩
  · cases hst
    exact ⟨⟨e, 0⟩, by simp [World.saveState, World.goto, hlast], hlast⟩
  · cases hst
    rcases hheld cur hcur with hcur | rfl
    · rw [hlast] at hm
      obtain ⟨he, -⟩ : e = cur.epoch ∧ 0 = m := by simpa using hm
      exact absurd he.symm (hfresh cur hcur)
    · exact Nat.zero_le m
  · have hne : e ≠ cur.epoch := by
      rintro rfl
      exact hother w.state 0 rfl hlast
    refine ⟨?_, fun v m hv hm => ?_⟩
    · rcases hheld cur hcur with hcur | rfl
      · rw [hsettled']
        change Closed c s.disk.slot s.disk.content cur.epoch cur.rxSeq
        by_cases hold : ∃ st m, s.disk.checkpoint = some st ∧ st.lastReceived = some ⟨cur.epoch, m⟩
        · obtain ⟨st, m, hst, hm⟩ := hold
          have hle := h.current cur hcur st m hst hm
          exact closed_of_begun hordered hbegun hst hm hle
        · rw [← hsettled]
          exact (h.past cur hcur fun st m hst hm => hold ⟨st, m, hst, hm⟩).1
      · exact absurd rfl hne
    · cases hv
      rw [hlast] at hm
      cases hm
      exact hne rfl

end Kept

theorem exists_slot_of_rename {d : Disk} {index i f : Nat}
    (h : (d.rename index).slot i = some f) : ∃ j, d.slot j = some f := by
  rw [Disk.rename] at h
  cases hd : d.slot (index - 1) with
  | none =>
      rw [hd] at h
      exact ⟨i, h⟩
  | some g =>
      rw [hd] at h
      dsimp only at h
      by_cases hi : i = index - 1
      · rw [hi, Function.update_self] at h
        cases h
      · rw [Function.update_of_ne hi] at h
        by_cases hi' : i = index
        · rw [hi', Function.update_self] at h
          exact ⟨index - 1, hd.trans h⟩
        · rw [Function.update_of_ne hi'] at h
          exact ⟨i, h⟩

theorem exists_slot_of_openActive {d : Disk} (hd : d.Ordered) {i f : Nat}
    (h : d.openActive.2.slot i = some f) : (∃ j, d.slot j = some f) ∨ d.content f = [] := by
  rw [Disk.openActive] at h
  cases h0 : d.slot 0 with
  | some g =>
      rw [h0] at h
      exact Or.inl ⟨i, h⟩
  | none =>
      rw [h0] at h
      dsimp only at h
      by_cases hi : i = 0
      · rw [hi, Function.update_self] at h
        rw [← Option.some.inj h]
        exact Or.inr (hd.unborn (Nat.le_refl _))
      · rw [Function.update_of_ne hi] at h
        exact Or.inl ⟨i, h⟩

variable {c : RecordCodec} {segmentBytes : Nat}

theorem kept_perform (hc : c.Lawful) {k : Nat} {s t : World} {w : Writer} (h : Kept c s)
    (hsound : Sound c s) (hslots : Slots s) (hnum : Numbered s) (hw : s.writer = some w)
    (hbegun : w.stage = .startEpoch → Begun c s.disk)
    (hstep : perform c segmentBytes k s w = some t) : Kept c t := by
  -- while no record is written, everything is settled
  have hcontent : (∀ r g rest, w.stage ≠ .write r g rest) → s.settled c = s.disk.content :=
    fun hne => settled_of_not_write fun v r g rest hv => by
      rw [hw] at hv
      cases hv
      exact hne r g rest
  have hsame : ∀ {t' : World}, t'.disk.slot = s.disk.slot → t'.settled c = s.settled c →
      ∀ e n, (∀ m, w.state.lastReceived ≠ some ⟨e, m⟩) →
        Closed c s.disk.slot (s.settled c) e n → Closed c t'.disk.slot (t'.settled c) e n := by
    intro t' hslot hset e n _ hcl
    rw [hslot, hset]
    exact hcl
  rw [perform] at hstep
  cases hstage : w.stage with
  | idle =>
      rw [hstage] at hstep
      cases hstep
  | startEpoch =>
      rw [hstage] at hstep
      cases hstep
      exact h.saveStart hslots.ordered hw hstage (hbegun hstage) hnum
  | publish r =>
      rw [hstage] at hstep hcontent
      cases hstep
      exact h.save w.state hw (by rw [hstage]; simp) rfl rfl rfl rfl rfl (hcontent (by simp)).symm rfl rfl
        (by simp)
  | checkSize r =>
      rw [hstage] at hstep hcontent
      dsimp only at hstep
      split at hstep
      · cases hstep
        exact h.frame hw rfl rfl rfl rfl rfl (by rw [hstage]; simp) (by simp)
          (hsame rfl (hcontent (by simp)).symm)
      · cases hstep
        exact h.frame hw rfl rfl rfl rfl rfl (by rw [hstage]; simp) (by simp)
          (hsame rfl (hcontent (by simp)).symm)
  | remove r i =>
      rw [hstage] at hstep hcontent
      cases hstep
      refine h.frame hw rfl rfl rfl rfl rfl (by rw [hstage]; simp) (by simp) fun e n _ hcl => ?_
      rw [hcontent (by simp)] at hcl
      refine hcl.names fun j f hj => Or.inl ⟨j, ?_⟩
      by_cases hji : j = i
      · rw [hji] at hj
        exact absurd (hj.symm.trans (s.disk.remove_slot_self i)) (by simp)
      · rw [← s.disk.remove_slot_of_ne hji]
        exact hj
  | rename r i =>
      rw [hstage] at hstep hcontent
      cases hstep
      refine h.frame hw rfl rfl (s.disk.rename_checkpoint i) rfl rfl (by rw [hstage]; simp) ?_
        fun e n _ hcl => ?_
      · dsimp only
        split <;> simp
      · have hset : ((s.withDisk (s.disk.rename i)).goto w
            (if i ≤ 1 then .openActive r else .remove r (i - 1))).settled c = s.disk.content := by
          rw [settled_of_not_write]
          · exact s.disk.rename_content i
          · intro v r' g rest hv
            cases hv
            dsimp only
            split <;> simp
        rw [hcontent (by simp)] at hcl
        rw [hset]
        exact hcl.names fun j f hj => Or.inl (exists_slot_of_rename hj)
  | openActive r =>
      rw [hstage] at hstep hcontent
      cases hstep
      refine h.frame hw rfl rfl s.disk.openActive_checkpoint rfl rfl (by rw [hstage]; simp)
        (by simp) fun e n _ hcl => ?_
      have hset : ((s.withDisk s.disk.openActive.2).goto w
          (.write r s.disk.openActive.1 (c.line r))).settled c = s.disk.content := by
        rw [settled_write rfl rfl (List.append_nil _).symm (List.nil_append _)]
        dsimp only [World.goto, World.withDisk]
        rw [Function.update_eq_self, Disk.openActive_content]
      rw [hcontent (by simp)] at hcl
      rw [hset]
      exact hcl.names fun j f hj => exists_slot_of_openActive hslots.ordered hj
  | write r f rest =>
      have hok := hsound.stage w hw
      rw [hstage] at hstep hok
      obtain ⟨⟨-, hvalid⟩, -, ls, j, b, hfile, hls, hj, hline⟩ := hok
      rw [← List.append_assoc] at hfile
      have hset := settled_write hw hstage hfile hline
      have happend : ∀ n, (s.disk.append f (rest.take n)).content =
          Function.update s.disk.content f (unlines newline ls ++ j ++ (b ++ rest.take n)) := by
        intro n
        rw [Disk.append, hfile, List.append_assoc]
      dsimp only at hstep
      cases hstep
      by_cases hn : rest.drop (k + 1) = []
      · -- the line is complete, and so becomes settled
        have hall : b ++ rest.take (k + 1) = c.line r := by
          have := List.take_append_drop (k + 1) rest
          rw [hn, List.append_nil] at this
          rw [this, hline]
        have hset' : ((s.withDisk (s.disk.append f (rest.take (k + 1)))).goto w
            (if rest.drop (k + 1) = [] then .persist r f
              else .write r f (rest.drop (k + 1)))).settled c =
            Function.update (s.settled c) f (s.settled c f ++ c.line r) := by
          rw [if_pos hn, hset, Function.update_idem, Function.update_self]
          refine Eq.trans ?_ (happend (k + 1) |>.trans (by rw [hall]))
          rfl
        have hepoch : ∀ e, (∀ m, w.state.lastReceived ≠ some ⟨e, m⟩) → r.epoch ≠ e := by
          rintro e he rfl
          exact he r.rxSeq (hnum.stage w r hw (by rw [hstage]; rfl))
        refine h.frame hw rfl rfl rfl rfl rfl (by rw [hstage]; simp) ?_ fun e n he hcl => ?_
        · dsimp only
          split <;> simp
        · rw [hset']
          refine hcl.write hc ?_ hls hj (Or.inr rfl) hvalid (hepoch e he)
          rw [hset, Function.update_self]
      · refine h.frame hw rfl rfl rfl rfl rfl (by rw [hstage]; simp) ?_ (hsame rfl ?_)
        · dsimp only
          split <;> simp
        · have hline' : b ++ rest.take (k + 1) ++ rest.drop (k + 1) = c.line r := by
            rw [List.append_assoc, List.take_append_drop, hline]
          rw [if_neg hn, settled_write rfl rfl ?_ hline', hset]
          · dsimp only [World.goto, World.withDisk]
            rw [happend, Function.update_idem]
          · dsimp only [World.goto, World.withDisk]
            rw [happend, Function.update_self]
  | persist r f =>
      rw [hstage] at hstep hcontent
      cases hstep
      exact h.save { w.state with persisted := some r.cursor } hw (by rw [hstage]; simp) rfl rfl
        rfl rfl rfl (hcontent (by simp)).symm rfl rfl (by simp)
  | archiveRemove r i =>
      rw [hstage] at hstep hcontent
      cases hstep
      exact h.frame hw rfl rfl rfl rfl rfl (by rw [hstage]; simp) (by simp)
        (hsame rfl (hcontent (by simp)).symm)
  | archiveRename r i =>
      rw [hstage] at hstep hcontent
      cases hstep
      have hslot : (s.disk.renameFailure i).slot = s.disk.slot := by
        rw [Disk.renameFailure]
        split <;> rfl
      refine h.frame hw rfl rfl (s.disk.renameFailure_checkpoint i) rfl rfl
        (by rw [hstage]; simp) ?_ (hsame hslot ?_)
      · dsimp only
        split <;> simp
      · rw [hcontent (by simp), settled_of_not_write]
        · exact s.disk.renameFailure_content i
        · intro v r' g rest hv
          cases hv
          dsimp only
          split <;> simp
  | archiveWrite r =>
      rw [hstage] at hstep hcontent
      cases hstep
      exact h.frame hw rfl rfl rfl rfl rfl (by rw [hstage]; simp) (by simp)
        (hsame rfl (hcontent (by simp)).symm)
  | publishFailure =>
      rw [hstage] at hstep hcontent
      cases hstep
      exact h.save w.state hw (by rw [hstage]; simp) rfl rfl rfl rfl rfl (hcontent (by simp)).symm rfl rfl
        (by simp)

/-- The process stops; what is out of the record being written stays. -/
theorem kept_crash (hc : c.Lawful) {s : World} {w : Writer} (h : Kept c s) (hsound : Sound c s)
    (hnum : Numbered s) (hw : s.writer = some w) : Kept c { s with writer := none } := by
  refine ⟨h.known, fun v hv => ?_, h.checkpoint, h.current, fun cur hcur hother => ?_⟩
  · cases hv
  obtain ⟨hcl, hwr⟩ := h.past cur hcur hother
  refine ⟨?_, fun v m hv => by cases hv⟩
  have hnone : ({ s with writer := none } : World).settled c = s.disk.content := rfl
  rw [hnone]
  change Closed c s.disk.slot s.disk.content cur.epoch cur.rxSeq
  by_cases hwrite : ∃ r f rest, w.stage = .write r f rest
  · obtain ⟨r, f, rest, hstage⟩ := hwrite
    have hok := hsound.stage w hw
    rw [hstage] at hok
    obtain ⟨⟨-, hvalid⟩, hrest, ls, j, b, hfile, hls, hj, hline⟩ := hok
    rw [← List.append_assoc] at hfile
    have hset := settled_write hw hstage hfile hline
    have hepoch : r.epoch ≠ cur.epoch := by
      intro heq
      refine hwr w r.rxSeq hw ?_
      rw [← heq]
      exact hnum.stage w r hw (by rw [hstage]; rfl)
    have hsettled : s.settled c f = unlines newline ls ++ j := by
      rw [hset, Function.update_self]
    have hcl' := hcl.write hc hsettled hls hj (Or.inl (prefix_encode_of_append hline hrest))
      hvalid hepoch
    rw [hsettled, ← hfile, hset, Function.update_idem, Function.update_eq_self] at hcl'
    exact hcl'
  · rw [settled_of_not_write fun v r g rest hv hvs => ?_] at hcl
    · exact hcl
    · rw [hw] at hv
      cases hv
      exact hwrite ⟨r, g, rest, hvs⟩

def Action.isFail : Action → Bool
  | .fail _ _ => true
  | _ => false

theorem kept_step (hc : c.Lawful) {s t : World} {a : Action} (h : Kept c s) (hsound : Sound c s)
    (hslots : Slots s) (hnum : Numbered s) (hfail : a.isFail = false)
    (hbegun : PublishesBegun c s a) (hstep : step c segmentBytes s a = some t) : Kept c t := by
  cases a with
  | start epoch =>
      rw [step] at hstep
      split at hstep
      · rename_i hstart
        cases hstep
        have hfresh : ∀ cur ∈ s.held, cur.epoch ≠ epoch := by
          rintro cur hcur rfl
          exact hstart.2.1 (h.known cur hcur)
        have hsettled : s.settled c = s.disk.content := settled_of_not_write fun v r g rest hv => by
          rw [Option.isNone_iff_eq_none.mp hstart.1] at hv
          cases hv
        refine ⟨fun cur hcur => List.mem_append_left _ (h.known cur hcur), fun v hv => ?_,
          h.checkpoint, h.current, fun cur hcur hother => ⟨?_, fun v m hv hm => ?_⟩⟩
        · cases hv
          exact Or.inl ⟨rfl, epoch, rfl, hfresh⟩
        · have hcl := (h.past cur hcur hother).1
          rw [hsettled] at hcl
          exact hcl
        · cases hv
          cases hm
          exact hfresh cur hcur rfl
      · cases hstep
  | append r =>
      rw [step] at hstep
      split at hstep
      · rename_i w hw
        split at hstep
        · rename_i hnext
          obtain ⟨hidle, hnext⟩ := hnext
          cases hstep
          obtain ⟨n, hlast, hrx⟩ := exists_cursor_of_nextRecord hnext
          have hsettled : s.settled c = s.disk.content :=
            settled_of_not_write fun v q g rest hv hvs => by
              rw [hw] at hv
              cases hv
              rw [hidle] at hvs
              cases hvs
          refine ⟨h.known, fun v hv => ?_, h.checkpoint, h.current,
            fun cur hcur hother => ⟨?_, fun v m hv hm => ?_⟩⟩
          · cases hv
            rcases h.live w hw with hstart | ⟨-, state, e, m, n', hckpt, hst, hwlast, hle⟩
            · rw [hidle] at hstart
              cases hstart.1
            · rw [hlast] at hwlast
              obtain ⟨he, hn⟩ : r.epoch = e ∧ n = n' := by simpa using hwlast
              refine Or.inr ⟨by simp, state, e, m, r.rxSeq, hckpt, hst, ?_, by omega⟩
              dsimp only
              rw [ReceiveRecord.cursor, he]
          · have hcl := (h.past cur hcur hother).1
            rw [hsettled] at hcl
            exact hcl
          · cases hv
            obtain ⟨he, -⟩ : r.epoch = cur.epoch ∧ r.rxSeq = m := by
              simpa [ReceiveRecord.cursor] using hm
            refine (h.past cur hcur hother).2 w n hw ?_
            rw [hlast, he]
        · cases hstep
      · cases hstep
  | op k =>
      obtain ⟨w, hw, hperform⟩ := Option.bind_eq_some_iff.mp hstep
      exact kept_perform hc h hsound hslots hnum hw (fun hstage => hbegun w k hw hstage rfl) hperform
  | fail k error => cases hfail
  | crash =>
      rw [step] at hstep
      split at hstep
      · rename_i hsome
        obtain ⟨w, hw⟩ := Option.isSome_iff_exists.mp hsome
        cases hstep
        exact kept_crash hc h hsound hnum hw
      · cases hstep

/-- In every run without failing operations in which a new epoch is published only when the record
before it has begun to be written, every cursor is kept. -/
theorem kept_run (hc : c.Lawful) {s : World} {as : List Action}
    (hrun : Machine.run (step c segmentBytes) {} as = some s)
    (hfail : ∀ a ∈ as, a.isFail = false)
    (hmeets : Machine.meets (step c segmentBytes) (PublishesBegun c) {} as) : Kept c s := by
  refine Machine.run_history_of_meets
    (P := fun as s => (∀ a ∈ as, a.isFail = false) → Kept c s) (fun _ => ?_)
    (fun as m a t hm ih hC hstep hfail => ?_) as s hmeets hrun hfail
  · exact ⟨by simp, fun w hw => absurd hw (by simp), fun st hst => absurd hst (by simp), by simp,
      by simp⟩
  · exact kept_step hc (ih fun b hb => hfail b (List.mem_append_left _ hb)) (sound_run hc hm)
      (slots_run hm) (numbered_run hm) (hfail a (by simp)) hC hstep

/-! ### Reading -/

namespace CleanRead

variable {q : Query} {state : Option WriterState} {ev : Evidence} {d : Disk}

/-- A clean read goes through all of every file that has a name. -/
theorem mem_pieces (h : CleanRead c q state (openedSegments d.segments) ev) (hd : d.Ordered)
    {i f : Nat} {p : List UInt8} (hf : d.slot i = some f)
    (hp : p ∈ splitAfter newline (d.content f)) :
    p ∈ (openedSegments d.segments).flatMap Segment.pieces := by
  have hseg := mem_openedSegments.mpr ⟨i, f, hd.low hf, hf, rfl⟩
  obtain ⟨-, n, hn, hle⟩ := h.readable _ hseg
  refine List.mem_flatMap.mpr ⟨_, hseg, ?_⟩
  rw [Segment.pieces]
  dsimp only at hn ⊢
  rw [List.take_of_length_le (by rw [← Option.some.inj hn] at hle; exact hle)]
  exact hp

/-- Every piece belongs to a file that has a name. -/
theorem exists_slot (h : CleanRead c q state (openedSegments d.segments) ev) {p : List UInt8}
    (hp : p ∈ (openedSegments d.segments).flatMap Segment.pieces) :
    ∃ i f, d.slot i = some f ∧ p ∈ splitAfter newline (d.content f) := by
  obtain ⟨g, hg, hpg⟩ := List.mem_flatMap.mp hp
  obtain ⟨-, n, hn, hle⟩ := h.readable g hg
  obtain ⟨i, f, -, hf, rfl⟩ := mem_openedSegments.mp hg
  rw [Segment.pieces] at hpg
  dsimp only at hn hpg
  rw [List.take_of_length_le (by rw [← Option.some.inj hn] at hle; exact hle)] at hpg
  exact ⟨i, f, hf, hpg⟩

/-- When a read is clean, nothing is half written. -/
theorem settled_eq (hc : c.Lawful) {s : World}
    (h : CleanRead c q state (openedSegments s.disk.segments) ev) (hsound : Sound c s)
    (hslots : Slots s) : s.settled c = s.disk.content := by
  by_cases hwrite : ∃ w r f rest, s.writer = some w ∧ w.stage = .write r f rest
  · obtain ⟨w, r, f, rest, hw, hstage⟩ := hwrite
    have hok := hsound.stage w hw
    have hactive := hslots.stage w hw
    rw [hstage] at hok hactive
    obtain ⟨⟨hr, hvalid⟩, hrest, ls, j, b, hfile, hls, hj, hline⟩ := hok
    have htail := hc.tail_append hj (prefix_encode_of_append hline hrest) hr hvalid
    -- a tail of the active segment would have been reported as pending
    have hnil : j ++ b = [] := by
      by_contra hne
      have hpieces : splitAfter newline (s.disk.content f) =
          ls.map (· ++ [newline]) ++ [j ++ b] := by
        rw [hfile, splitAfter_unlines (fun l hl => (hls l hl).noNewline) htail.noNewline,
          if_neg hne]
      have hseg := mem_openedSegments.mpr ⟨0, f, by decide, hactive, rfl⟩
      obtain ⟨-, n, hn, hle⟩ := h.readable _ hseg
      have hlast := h.committed _ hseg rfl (j ++ b) (by
        rw [Segment.pieces]
        dsimp only at hn ⊢
        rw [List.take_of_length_le (by rw [← Option.some.inj hn] at hle; exact hle), hpieces]
        exact List.mem_append_right _ (List.mem_singleton_self _))
      exact htail.noNewline (List.mem_of_getLast? hlast)
    have hb : b = [] := (List.append_eq_nil_iff.mp hnil).2
    have hfile' : s.disk.content f = s.disk.content f ++ b := by rw [hb, List.append_nil]
    rw [settled_write hw hstage hfile' hline, Function.update_eq_self]
  · exact settled_of_not_write fun w r g rest hw hs => hwrite ⟨w, r, g, rest, hw, hs⟩

end CleanRead

/-- The second chunk is whole when the process stops; the next epoch is published behind it. -/
def writtenRun : List Action :=
  .start "7-1" :: .op 0 :: .append (chunk "7-1" 1 [104]) :: List.replicate 5 (.op 200) ++
  .append (chunk "7-1" 2 [105]) :: List.replicate 4 (.op 200) ++ [.crash, .start "8-2", .op 0]

/-- The last piece of the active segment is the record that the checkpoint names. -/
def lastWritten (c : RecordCodec) (d : Disk) : Bool :=
  match d.checkpoint.bind WriterState.lastReceived, d.slot 0 with
  | none, _ => true
  | some cur, some f =>
      (splitAfter newline (d.content f)).getLast?.any fun p =>
        (pieceRecord c p).all fun r => r.cursor = cur
  | some _, none => false

theorem begun_of_lastWritten {d : Disk} (h : lastWritten c d = true) : Begun c d := by
  intro state cur hckpt hlast
  rw [lastWritten, hckpt] at h
  cases h0 : d.slot 0 with
  | none =>
      rw [h0] at h
      simp [hlast] at h
  | some f =>
      rw [h0] at h
      simp only [Option.bind_some, hlast] at h
      obtain ⟨p, hp, hrec⟩ := (Option.any_eq_true _ _).mp h
      refine Or.inr ⟨f, p, rfl, hp, fun r hr => ?_⟩
      rw [hr] at hrec
      simpa using hrec

/-- The process stops after publishing the second chunk as received and before writing a byte of
it. -/
def unbegunRun : List Action :=
  .start "7-1" :: .op 0 :: .append (chunk "7-1" 1 [104]) :: List.replicate 5 (.op 200) ++
  [.append (chunk "7-1" 2 [105]), .op 0, .crash, .start "8-2", .op 0]

end Journal

end Serialcap

end Paniolo
