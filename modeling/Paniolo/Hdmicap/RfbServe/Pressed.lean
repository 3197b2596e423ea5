import Paniolo.Hdmicap.RfbServe.Input

/-!
# Nothing stays pressed

Whatever a client sends, what the target has down is covered by what the input
holds, so that dropping the input releases all of it, and the two counters
count the entries they are about.
-/

namespace Paniolo

namespace Hdmicap

namespace RfbServe

open HidLink (Item)
open Keysym (lookup)

/-! ### Replaying lines -/

theorem keysDown_append (a b : List (Item Line)) :
    keysDown (a ++ b) = b.foldl keyAfter (keysDown a) :=
  List.foldl_append

theorem buttonsDown_append (a b : List (Item Line)) :
    buttonsDown (a ++ b) = b.foldl buttonAfter (buttonsDown a) :=
  List.foldl_append

theorem mem_keyAfter_down {d : List String} {name n : String} :
    n ∈ keyAfter d (.line (.down name)) ↔ n = name ∨ n ∈ d :=
  List.mem_cons

theorem mem_keyAfter_up {d : List String} {name n : String} :
    n ∈ keyAfter d (.line (.up name)) ↔ n ∈ d ∧ n ≠ name := by
  rw [keyAfter, List.mem_filter, decide_eq_true_eq]

/-- A line about no key. -/
def Line.NoKey : Line → Prop
  | .down _ => False
  | .up _ => False
  | _ => True

theorem foldl_keyAfter_of_noKey {items : List (Item Line)}
    (h : ∀ l, .line l ∈ items → l.NoKey) (d : List String) : items.foldl keyAfter d = d := by
  induction items generalizing d with
  | nil => rfl
  | cons i items ih =>
      have hi : keyAfter d i = d := by
        cases i with
        | move x y => rfl
        | line l =>
            have hl := h l List.mem_cons_self
            cases l with
            | down name => exact hl.elim
            | up name => exact hl.elim
            | mdown name => rfl
            | mup name => rfl
            | scroll n => rfl
      rw [List.foldl_cons, hi]
      exact ih (fun l hl => h l (List.mem_cons_of_mem i hl)) d

/-- A line about no button. -/
def Line.NoButton : Line → Prop
  | .mdown _ => False
  | .mup _ => False
  | _ => True

theorem foldl_buttonAfter_of_noButton {items : List (Item Line)}
    (h : ∀ l, .line l ∈ items → l.NoButton) (d : List String) :
    items.foldl buttonAfter d = d := by
  induction items generalizing d with
  | nil => rfl
  | cons i items ih =>
      have hi : buttonAfter d i = d := by
        cases i with
        | move x y => rfl
        | line l =>
            have hl := h l List.mem_cons_self
            cases l with
            | down name => rfl
            | up name => rfl
            | mdown name => exact hl.elim
            | mup name => exact hl.elim
            | scroll n => rfl
      rw [List.foldl_cons, hi]
      exact ih (fun l hl => h l (List.mem_cons_of_mem i hl)) d

/-- A list of releases leaves what it does not name. -/
theorem mem_foldl_up {α : Type} (f : α → String) (l : List α) :
    ∀ {d : List String} {n : String},
      n ∈ ((l.map fun a => Line.up (f a)).map Item.line).foldl keyAfter d ↔
        n ∈ d ∧ ∀ a ∈ l, n ≠ f a := by
  induction l with
  | nil => exact ⟨fun h => ⟨h, nofun⟩, fun h => h.1⟩
  | cons a l ih =>
      intro d n
      rw [List.map_cons, List.map_cons, List.foldl_cons, ih, mem_keyAfter_up, List.forall_mem_cons,
        and_assoc]

/-! ### The invariant -/

/-- The names of the held keys. -/
def Input.Names (s : Input) (n : String) : Prop := ∃ e ∈ s.held.entries, e.2.name = n

/-- The session's own Shift. -/
def Input.Synth (s : Input) (n : String) : Prop := n = "LEFT_SHIFT" ∧ 0 < s.synthUsers

/-- What is known of the input itself: no held key that got a Shift is the Shift key, and the
counters count. -/
structure Input.Counted (s : Input) : Prop where
  synthName : ∀ e ∈ s.held.entries, e.2.synthShift = true → e.2.name ≠ "LEFT_SHIFT"
  real : s.realShifts = s.held.entries.countP fun e => e.2.isShift
  synth : s.synthUsers = s.held.entries.countP fun e => e.2.synthShift

theorem Input.counted_new (link : Bool) : (Input.new link).Counted :=
  ⟨nofun, rfl, rfl⟩

section

variable {s : Input} {sym : Nat}

theorem Input.entries_press {k : Keysym.HidKey} (hfree : s.held.get? sym = none) :
    (s.press sym k).1.held.entries.Perm
      ((sym, ⟨k.name, k.shifted && s.realShifts == 0, k.isShift⟩) :: s.held.entries) :=
  OrderedMap.perm_insert hfree

theorem Input.Counted.press (hs : s.Counted) {k : Keysym.HidKey} (hk : lookup sym = some k)
    (hfree : s.held.get? sym = none) : (s.press sym k).1.Counted := by
  have hperm := Input.entries_press (k := k) hfree
  refine ⟨fun e he hsynth => ?_, ?_, ?_⟩
  · rcases List.mem_cons.mp (hperm.mem_iff.mp he) with rfl | he
    · exact Keysym.not_shifted_of_leftShift hk (Bool.and_eq_true_iff.mp hsynth).1
    · exact hs.synthName e he hsynth
  · rw [hperm.countP_eq, List.countP_cons, ← hs.real]
    simp only [Input.press]
    split <;> rfl
  · rw [hperm.countP_eq, List.countP_cons, ← hs.synth]
    simp only [Input.press]
    split <;> rfl

theorem decrIf_count (c : Bool) (n : Nat) : decrIf c (n + if c = true then 1 else 0) = some n := by
  cases c with
  | false => rfl
  | true => rfl

/-- A held key can be released: the counters count its entry. -/
theorem Input.exists_release (hs : s.Counted) {h : Held} (hheld : s.held.get? sym = some h) :
    ∃ s' shift, s.release sym h = some (s', .up h.name :: shift) ∧ s'.Counted ∧
      s'.link = s.link ∧ s'.mask = s.mask ∧ s'.held = s.held.erase sym ∧
      s.synthUsers = (if h.synthShift then s'.synthUsers + 1 else s'.synthUsers) ∧
      shift = if h.synthShift ∧ s'.synthUsers = 0 then [Line.up "LEFT_SHIFT"] else [] := by
  have hperm := OrderedMap.perm_erase hheld
  have hreal := hs.real
  have hsynth := hs.synth
  rw [hperm.countP_eq, List.countP_cons] at hreal hsynth
  have hrest : ∀ e ∈ (s.held.erase sym).entries, e ∈ s.held.entries := fun e he =>
    hperm.mem_iff.mpr (List.mem_cons_of_mem _ he)
  have hr : decrIf h.isShift s.realShifts =
      some ((s.held.erase sym).entries.countP fun e => e.2.isShift) := by
    rw [hreal, decrIf_count]
  have hu : decrIf h.synthShift s.synthUsers =
      some ((s.held.erase sym).entries.countP fun e => e.2.synthShift) := by
    rw [hsynth, decrIf_count]
  refine ⟨{ s with
      held := s.held.erase sym
      realShifts := (s.held.erase sym).entries.countP fun e => e.2.isShift
      synthUsers := (s.held.erase sym).entries.countP fun e => e.2.synthShift },
    _, ?_, ⟨fun e he => hs.synthName e (hrest e he), rfl, rfl⟩, rfl, rfl, rfl, ?_, rfl⟩
  · rw [Input.release, hr, hu]
    simp only [Option.bind_eq_bind, Option.bind_some, Bool.and_eq_true, beq_iff_eq]
  · rw [hsynth]
    cases h.synthShift with
    | false => rfl
    | true => rfl

end

/-! ### Keys -/

/-- What a press leaves down. -/
theorem mem_keysDown_press {s : Input} {sym : Nat} {k : Keysym.HidKey}
    {queued : List (Item Line)} {n : String} :
    n ∈ keysDown (queued ++ (s.press sym k).2.map Item.line) ↔
      n = k.name ∨ (n = "LEFT_SHIFT" ∧ (k.shifted && s.realShifts == 0) = true ∧
        s.synthUsers = 0) ∨ n ∈ keysDown queued := by
  rw [keysDown_append]
  simp only [Input.press]
  rw [List.map_append, List.foldl_append, List.map_singleton, List.foldl_cons, List.foldl_nil,
    mem_keyAfter_down]
  apply or_congr_right
  split
  · next hshift =>
      rw [Bool.and_eq_true, beq_iff_eq] at hshift
      rw [List.map_singleton, List.foldl_cons, List.foldl_nil, mem_keyAfter_down]
      simp only [hshift, and_true]
  · next hshift =>
      rw [Bool.and_eq_true, beq_iff_eq] at hshift
      simp only [hshift, and_false, false_or]
      rfl

/-- What a release leaves down. -/
theorem mem_keysDown_release {h : Held} {users : Nat} {queued : List (Item Line)} {n : String} :
    n ∈ keysDown (queued ++ (Line.up h.name ::
        if h.synthShift ∧ users = 0 then [Line.up "LEFT_SHIFT"] else []).map Item.line) ↔
      n ∈ keysDown queued ∧ n ≠ h.name ∧
        ¬(n = "LEFT_SHIFT" ∧ h.synthShift = true ∧ users = 0) := by
  rw [keysDown_append, List.map_cons, List.foldl_cons]
  split
  · next hshift =>
      rw [List.map_singleton, List.foldl_cons, List.foldl_nil, mem_keyAfter_up, mem_keyAfter_up,
        and_assoc]
      simp only [hshift, and_true, and_self]
  · next hshift =>
      simp only [hshift, and_false, not_false_eq_true, and_true]
      exact mem_keyAfter_up

theorem Input.names_press {s : Input} {sym : Nat} {k : Keysym.HidKey} {n : String}
    (hfree : s.held.get? sym = none) :
    (s.press sym k).1.Names n ↔ n = k.name ∨ s.Names n := by
  rw [Input.Names, Input.Names]
  simp only [(Input.entries_press (k := k) hfree).mem_iff, List.mem_cons, exists_eq_or_imp]
  exact or_congr_left eq_comm

theorem Input.synth_press {s : Input} {sym : Nat} {k : Keysym.HidKey} {n : String} :
    (s.press sym k).1.Synth n ↔
      n = "LEFT_SHIFT" ∧ ((k.shifted && s.realShifts == 0) = true ∨ 0 < s.synthUsers) := by
  rw [Input.Synth]
  apply and_congr_right
  intro _
  simp only [Input.press]
  split
  · next hsynth =>
      simp only [hsynth, true_or, iff_true]
      exact Nat.succ_pos _
  · next hsynth => exact (or_iff_right hsynth).symm

theorem Input.names_of_erase {s : Input} {sym : Nat} {h : Held} {n : String}
    (hheld : s.held.get? sym = some h) :
    s.Names n ↔ n = h.name ∨ ∃ e ∈ (s.held.erase sym).entries, e.2.name = n := by
  rw [Input.Names]
  simp only [(OrderedMap.perm_erase hheld).mem_iff, List.mem_cons, exists_eq_or_imp]
  exact or_congr_left eq_comm

/-! ### Buttons -/

section

variable {old new : UInt8}

/-- What one button of `edges` comes to. -/
def edge (old new : UInt8) (b : String × Nat) : List Line :=
  if bit new b.2 && !bit old b.2 then [.mdown b.1]
  else if bit old b.2 && !bit new b.2 then [.mup b.1]
  else []

theorem mem_foldl_edge {b : String × Nat} {d : List String} {n : String}
    (hd : b.1 ∈ d → bit old b.2 = true) :
    n ∈ ((edge old new b).map Item.line).foldl buttonAfter d →
      n ∈ d ∧ n ≠ b.1 ∨ n = b.1 ∧ bit new b.2 = true := by
  intro hn
  rw [edge] at hn
  split at hn
  · next hdown =>
      rw [Bool.and_eq_true] at hdown
      rcases List.mem_cons.mp hn with rfl | hn
      · exact Or.inr ⟨rfl, hdown.1⟩
      · by_cases heq : n = b.1
        · exact Or.inr ⟨heq, hdown.1⟩
        · exact Or.inl ⟨hn, heq⟩
  · next hdown =>
      split at hn
      · obtain ⟨hn, hne⟩ := List.mem_filter.mp hn
        exact Or.inl ⟨hn, of_decide_eq_true hne⟩
      · next hup =>
          by_cases heq : n = b.1
          · refine Or.inr ⟨heq, ?_⟩
            have hold := hd (heq ▸ hn)
            rw [hold] at hup
            simpa using hup
          · exact Or.inl ⟨hn, heq⟩

theorem mem_foldl_edges (l : List (String × Nat)) (hl : (l.map Prod.fst).Nodup) :
    ∀ {d : List String}, (∀ b ∈ l, b.1 ∈ d → bit old b.2 = true) → ∀ n,
      n ∈ ((l.flatMap (edge old new)).map Item.line).foldl buttonAfter d →
        n ∈ d ∧ n ∉ l.map Prod.fst ∨ ∃ b ∈ l, b.1 = n ∧ bit new b.2 = true := by
  induction l with
  | nil => exact fun _ n hn => Or.inl ⟨hn, nofun⟩
  | cons b l ih =>
      intro d hd n hn
      rw [List.map_cons, List.nodup_cons] at hl
      rw [List.flatMap_cons, List.map_append, List.foldl_append] at hn
      have hb := hd b List.mem_cons_self
      have hkept : ∀ c ∈ l, c.1 ∈ ((edge old new b).map Item.line).foldl buttonAfter d →
          bit old c.2 = true := by
        intro c hc hmem
        have hne : c.1 ≠ b.1 := fun heq => hl.1 (heq ▸ List.mem_map_of_mem hc)
        rcases mem_foldl_edge hb hmem with ⟨hin, -⟩ | ⟨heq, -⟩
        · exact hd c (List.mem_cons_of_mem b hc) hin
        · exact absurd heq hne
      rcases ih hl.2 hkept n hn with ⟨hin, hout⟩ | ⟨c, hc, hname, hbit⟩
      · rcases mem_foldl_edge hb hin with ⟨hin, hne⟩ | ⟨heq, hbit⟩
        · refine Or.inl ⟨hin, ?_⟩
          rw [List.map_cons, List.mem_cons, not_or]
          exact ⟨hne, hout⟩
        · exact Or.inr ⟨b, List.mem_cons_self, heq.symm, hbit⟩
      · exact Or.inr ⟨c, List.mem_cons_of_mem b hc, hname, hbit⟩

/-- The buttons that a mask says are down. -/
def Marked (mask : UInt8) (n : String) : Prop :=
  ∃ b ∈ BUTTONS.zipIdx, b.1 = n ∧ bit mask b.2 = true

theorem marked_edges {d : List String} (hd : ∀ n ∈ d, Marked old n) :
    ∀ n ∈ ((Input.edges old new).map Item.line).foldl buttonAfter d, Marked new n := by
  intro n hn
  have hunique : ∀ b ∈ BUTTONS.zipIdx, ∀ c ∈ BUTTONS.zipIdx, b.1 = c.1 → b = c := by decide
  have hold : ∀ b ∈ BUTTONS.zipIdx, b.1 ∈ d → bit old b.2 = true := by
    intro b hb hmem
    obtain ⟨c, hc, hname, hbit⟩ := hd b.1 hmem
    rwa [hunique c hc b hb hname] at hbit
  rcases mem_foldl_edges BUTTONS.zipIdx (by decide) hold n hn with ⟨hin, hout⟩ | h
  · obtain ⟨b, hb, rfl, -⟩ := hd n hin
    exact absurd (List.mem_map_of_mem hb) hout
  · exact h

/-- Releasing what a mask says is down. -/
theorem mem_foldl_mup (l : List (String × Nat)) (mask : UInt8) :
    ∀ {d : List String} {n : String},
      n ∈ ((l.flatMap fun b => if bit mask b.2 then [Line.mup b.1] else []).map
        Item.line).foldl buttonAfter d → n ∈ d ∧ ∀ b ∈ l, bit mask b.2 = true → n ≠ b.1 := by
  induction l with
  | nil => exact fun hn => ⟨hn, nofun⟩
  | cons b l ih =>
      intro d n hn
      rw [List.flatMap_cons, List.map_append, List.foldl_append] at hn
      obtain ⟨hin, hrest⟩ := ih hn
      split at hin
      · next hbit =>
          obtain ⟨hin, hne⟩ := List.mem_filter.mp hin
          refine ⟨hin, ?_⟩
          rw [List.forall_mem_cons]
          exact ⟨fun _ => of_decide_eq_true hne, hrest⟩
      · next hbit =>
          refine ⟨hin, ?_⟩
          rw [List.forall_mem_cons]
          exact ⟨fun h => absurd h hbit, hrest⟩

end

/-! ### Sessions -/

namespace Viewing

/-- What the target has down is held by the input. -/
structure Covered (v : Viewing) : Prop where
  counted : v.input.Counted
  keys : ∀ n ∈ keysDown v.queued, v.input.Names n ∨ v.input.Synth n
  buttons : ∀ n ∈ buttonsDown v.queued, Marked v.input.mask n
  unlinked : v.input.link = false → v.queued = []

theorem covered_start (link : Bool) : (start link).Covered :=
  ⟨Input.counted_new link, nofun, nofun, fun _ => rfl⟩

theorem Covered.warn {v : Viewing} (hv : v.Covered) (warned : List Nat) :
    Covered ⟨{ v.input with warned := warned }, v.queued⟩ :=
  ⟨⟨hv.counted.synthName, hv.counted.real, hv.counted.synth⟩, hv.keys, hv.buttons, hv.unlinked⟩

theorem buttonsDown_of_noButton {queued : List (Item Line)} {lines : List Line}
    (h : ∀ l ∈ lines, l.NoButton) :
    buttonsDown (queued ++ lines.map Item.line) = buttonsDown queued := by
  rw [buttonsDown_append]
  apply foldl_buttonAfter_of_noButton
  intro l hl
  obtain ⟨l', hl', heq⟩ := List.mem_map.mp hl
  cases heq
  exact h l hl'

theorem noButton_press (s : Input) (sym : Nat) (k : Keysym.HidKey) :
    ∀ l ∈ (s.press sym k).2, l.NoButton := by
  intro l hl
  rcases List.mem_append.mp hl with hl | hl
  · split at hl
    · rw [List.mem_singleton.mp hl]
      trivial
    · cases hl
  · rw [List.mem_singleton.mp hl]
    trivial

theorem Covered.press {v : Viewing} (hv : v.Covered) {sym : Nat} {k : Keysym.HidKey}
    (hlink : v.input.link = true) (hk : lookup sym = some k)
    (hfree : v.input.held.get? sym = none) :
    Covered ⟨(v.input.press sym k).1, v.queued ++ (v.input.press sym k).2.map Item.line⟩ := by
  refine ⟨hv.counted.press hk hfree, fun n hn => ?_, fun n hn => ?_, fun h => ?_⟩
  · rw [Input.names_press hfree, Input.synth_press]
    rcases mem_keysDown_press.mp hn with rfl | ⟨rfl, hsynth, -⟩ | hn
    · exact Or.inl (Or.inl rfl)
    · exact Or.inr ⟨rfl, Or.inl hsynth⟩
    · rcases hv.keys n hn with hname | ⟨hname, husers⟩
      · exact Or.inl (Or.inr hname)
      · exact Or.inr ⟨hname, Or.inr husers⟩
  · rw [buttonsDown_of_noButton (noButton_press _ _ _)] at hn
    exact hv.buttons n hn
  · exact Bool.noConfusion (hlink.symm.trans h)

/-- A release, in the terms of `Input.exists_release`. -/
theorem Covered.release {v : Viewing} (hv : v.Covered) {sym : Nat} {h : Held}
    (hlink : v.input.link = true) (hheld : v.input.held.get? sym = some h) :
    ∃ r, v.input.release sym h = some r ∧
      Covered ⟨r.1, v.queued ++ r.2.map Item.line⟩ := by
  obtain ⟨s', shift, hr, hcounted, hlink', hmask, herase, husers, rfl⟩ :=
    Input.exists_release hv.counted hheld
  refine ⟨_, hr, hcounted, fun n hn => ?_, fun n hn => ?_, fun hl => ?_⟩
  · obtain ⟨hdown, hne, hshift⟩ := mem_keysDown_release.mp hn
    rw [Input.Names, herase]
    rcases hv.keys n hdown with hname | ⟨rfl, hpos⟩
    · rcases (Input.names_of_erase hheld).mp hname with heq | hrest
      · exact absurd heq hne
      · exact Or.inl hrest
    · refine Or.inr ⟨rfl, Nat.pos_of_ne_zero fun hzero => ?_⟩
      change s'.synthUsers = 0 at hzero
      cases hs : h.synthShift with
      | true => exact hshift ⟨rfl, hs, hzero⟩
      | false =>
          rw [hs, if_neg Bool.false_ne_true, hzero] at husers
          exact hpos.ne' husers
  · have hno : ∀ l ∈ Line.up h.name ::
        (if h.synthShift = true ∧ s'.synthUsers = 0 then [Line.up "LEFT_SHIFT"] else []),
        l.NoButton := by
      rw [List.forall_mem_cons]
      refine ⟨trivial, fun l hl => ?_⟩
      split at hl
      · rw [List.mem_singleton.mp hl]
        trivial
      · cases hl
    rw [buttonsDown_of_noButton hno] at hn
    exact hmask ▸ hv.buttons n hn
  · exact Bool.noConfusion (hlink.symm.trans (hlink'.symm.trans hl))

theorem Covered.key {v : Viewing} (hv : v.Covered) (down : Bool) (sym : Nat) :
    ∃ v', v.step (.key down sym) = some v' ∧ v'.Covered := by
  have hsame : Covered ⟨v.input, v.queued ++ ([] : List Line).map Item.line⟩ := by
    rw [List.map_nil, List.append_nil]
    exact hv
  simp only [Viewing.step, Input.key]
  split
  · exact ⟨_, rfl, hsame⟩
  · next hlink =>
      rw [Bool.not_eq_false] at hlink
      split
      · split
        · exact ⟨_, rfl, hsame⟩
        · next hfree =>
            rw [OrderedMap.contains, Option.not_isSome_iff_eq_none] at hfree
            split
            · exact ⟨_, rfl, hsame.warn _⟩
            · next k hk => exact ⟨_, rfl, hv.press hlink hk hfree⟩
      · split
        · exact ⟨_, rfl, hsame⟩
        · next h hheld =>
            obtain ⟨r, hr, hcov⟩ := hv.release hlink hheld
            exact ⟨_, by rw [hr, Option.map_some], hcov⟩

theorem noKey_edges (old new : UInt8) : ∀ l ∈ Input.edges old new, l.NoKey := by
  intro l hl
  obtain ⟨b, -, hl⟩ := List.mem_flatMap.mp hl
  split at hl
  · rw [List.mem_singleton.mp hl]
    trivial
  · split at hl
    · rw [List.mem_singleton.mp hl]
      trivial
    · cases hl

theorem mem_wheel {old new : UInt8} {l : Line} (hl : l ∈ Input.wheel old new) :
    ∃ n, l = .scroll n := by
  rcases List.mem_append.mp hl with hl | hl
  · split at hl
    · exact ⟨1, List.mem_singleton.mp hl⟩
    · cases hl
  · split at hl
    · exact ⟨-1, List.mem_singleton.mp hl⟩
    · cases hl

theorem noButton_wheel (old new : UInt8) : ∀ l ∈ Input.wheel old new, l.NoButton := by
  intro l hl
  obtain ⟨n, rfl⟩ := mem_wheel hl
  trivial

theorem line_notMem_pointAt (s : Input) (mask : UInt8) (pos : Nat × Nat) (room : Bool) (l : Line) :
    Item.line l ∉ s.pointAt mask pos room := by
  intro h
  rw [Input.pointAt] at h
  split at h
  · cases List.mem_singleton.mp h
  · split at h
    · split at h
      · cases List.mem_singleton.mp h
      · cases h
    · cases h

/-- A pointer event is about no key. -/
theorem keysDown_pointer {queued moves : List (Item Line)} (hmoves : ∀ l, Item.line l ∉ moves)
    (old new : UInt8) :
    keysDown (queued ++ (moves ++ (Input.edges old new ++ Input.wheel old new).map Item.line)) =
      keysDown queued := by
  rw [keysDown_append]
  apply foldl_keyAfter_of_noKey
  intro l hl
  rcases List.mem_append.mp hl with hl | hl
  · exact absurd hl (hmoves l)
  · obtain ⟨l', hl', heq⟩ := List.mem_map.mp hl
    cases heq
    rcases List.mem_append.mp hl' with hedge | hwheel
    · exact noKey_edges _ _ l hedge
    · obtain ⟨n, rfl⟩ := mem_wheel hwheel
      trivial

/-- What a pointer event queues, after moves. -/
theorem Covered.buttons_lines {v : Viewing} (hv : v.Covered) {mask : UInt8}
    {moves : List (Item Line)} (hmoves : ∀ l, Item.line l ∉ moves) {input : Input}
    (hcounted : input.Counted) (hheld : input.held = v.input.held)
    (husers : input.synthUsers = v.input.synthUsers) (hmask : input.mask = mask)
    (hlink : input.link = true) :
    Covered ⟨input, v.queued ++ (moves ++
      (Input.edges v.input.mask mask ++ Input.wheel v.input.mask mask).map Item.line)⟩ := by
  subst hmask
  refine ⟨hcounted, fun n hn => ?_, fun n hn => ?_, fun h => Bool.noConfusion (hlink.symm.trans h)⟩
  · rw [keysDown_pointer hmoves] at hn
    rw [Input.Names, Input.Synth, hheld, husers]
    exact hv.keys n hn
  · have hpos : moves.foldl buttonAfter (buttonsDown v.queued) = buttonsDown v.queued :=
      foldl_buttonAfter_of_noButton (fun l hl => absurd hl (hmoves l)) _
    rw [List.map_append, ← List.append_assoc, ← List.append_assoc,
      buttonsDown_of_noButton (noButton_wheel _ _), buttonsDown_append, buttonsDown_append,
      hpos] at hn
    exact marked_edges hv.buttons n hn

theorem Covered.pointer {v : Viewing} (hv : v.Covered) (mask : UInt8) (x y : Nat)
    (dims : Nat × Nat) (room : Bool) :
    ∃ v', v.step (.pointer mask x y dims room) = some v' ∧ v'.Covered := by
  refine ⟨_, rfl, ?_⟩
  have hc := hv.counted
  by_cases hlink : v.input.link = false
  · rw [Input.pointer, if_pos hlink, List.append_nil]
    exact hv
  · rw [Input.pointer, if_neg hlink]
    rw [Bool.not_eq_false] at hlink
    split
    · exact hv.buttons_lines (line_notMem_pointAt _ _ _ _) ⟨hc.synthName, hc.real, hc.synth⟩ rfl rfl
        rfl hlink
    · rw [← List.nil_append (List.map _ _)]
      exact hv.buttons_lines (fun _ => List.not_mem_nil) ⟨hc.synthName, hc.real, hc.synth⟩ rfl rfl
        rfl hlink

theorem Covered.step {v : Viewing} (hv : v.Covered) (e : InputEvent) :
    ∃ v', v.step e = some v' ∧ v'.Covered := by
  cases e with
  | key down sym => exact hv.key down sym
  | pointer mask x y dims room => exact hv.pointer mask x y dims room

theorem covered_run (link : Bool) (es : List InputEvent) :
    ∃ v, Machine.run step (start link) es = some v ∧ v.Covered :=
  Machine.exists_run_of_meets (C := fun _ _ => True) (fun _ e hv _ => hv.step e)
    (covered_start link) (Machine.meets_of_forall (C := fun _ => True) (fun _ _ => trivial) _)

/-! ### Leaving -/

/-- The keys that dropping the input leaves down. -/
theorem mem_keysDown_releaseAll {s : Input} (hlink : s.link = true) {order : List (Nat × Held)}
    {queued : List (Item Line)} {n : String} :
    n ∈ keysDown (queued ++ (s.releaseAll order).map Item.line) →
      n ∈ keysDown queued ∧ (∀ e ∈ order, n ≠ e.2.name) ∧ ¬s.Synth n := by
  rw [Input.releaseAll, if_neg (by rw [hlink]; exact Bool.noConfusion), keysDown_append,
    List.map_append, List.map_append, List.foldl_append, List.foldl_append,
    foldl_keyAfter_of_noKey]
  · intro hn
    split at hn
    · obtain ⟨hn, hne⟩ := mem_keyAfter_up.mp hn
      obtain ⟨hdown, hnames⟩ := (mem_foldl_up (fun e : Nat × Held => e.2.name) order).mp hn
      exact ⟨hdown, hnames, fun h => hne h.1⟩
    · next hzero =>
        obtain ⟨hdown, hnames⟩ := (mem_foldl_up (fun e : Nat × Held => e.2.name) order).mp hn
        exact ⟨hdown, hnames, fun h => hzero h.2⟩
  · intro l hl
    obtain ⟨l', hl', heq⟩ := List.mem_map.mp hl
    cases heq
    obtain ⟨b, -, hl⟩ := List.mem_flatMap.mp hl'
    split at hl
    · rw [List.mem_singleton.mp hl]
      trivial
    · cases hl

/-- The buttons that dropping the input leaves down. -/
theorem mem_buttonsDown_releaseAll {s : Input} (hlink : s.link = true)
    {order : List (Nat × Held)} {queued : List (Item Line)} {n : String} :
    n ∈ buttonsDown (queued ++ (s.releaseAll order).map Item.line) →
      n ∈ buttonsDown queued ∧ ¬Marked s.mask n := by
  rw [Input.releaseAll, if_neg (by rw [hlink]; exact Bool.noConfusion), List.map_append,
    ← List.append_assoc, buttonsDown_append, buttonsDown_of_noButton]
  · intro hn
    obtain ⟨hdown, hnone⟩ := mem_foldl_mup BUTTONS.zipIdx s.mask hn
    refine ⟨hdown, ?_⟩
    rintro ⟨b, hb, rfl, hbit⟩
    exact hnone b hb hbit rfl
  · intro l hl
    rcases List.mem_append.mp hl with hl | hl
    · obtain ⟨e, -, rfl⟩ := List.mem_map.mp hl
      trivial
    · split at hl
      · rw [List.mem_singleton.mp hl]
        trivial
      · cases hl

/-- Dropping an input whose queue has room leaves nothing down. -/
theorem Covered.drop {v : Viewing} (hv : v.Covered) {order : List (Nat × Held)}
    (horder : order.Perm v.input.held.entries) {room : Nat}
    (hroom : (v.input.releaseAll order).length ≤ room) :
    keysDown (v.drop order room) = [] ∧ buttonsDown (v.drop order room) = [] := by
  rw [Viewing.drop, List.take_of_length_le hroom]
  cases hlink : v.input.link with
  | false =>
      rw [Input.releaseAll, if_pos hlink, hv.unlinked hlink]
      exact ⟨rfl, rfl⟩
  | true =>
      constructor
      · apply List.eq_nil_iff_forall_not_mem.mpr
        intro n hn
        obtain ⟨hdown, hnames, hsynth⟩ := mem_keysDown_releaseAll hlink hn
        rcases hv.keys n hdown with ⟨e, he, rfl⟩ | hs
        · exact hnames e (horder.mem_iff.mpr he) rfl
        · exact hsynth hs
      · apply List.eq_nil_iff_forall_not_mem.mpr
        intro n hn
        obtain ⟨hdown, hmarked⟩ := mem_buttonsDown_releaseAll hlink hn
        exact hmarked (hv.buttons n hdown)

/-- Whatever a client sends, no counter underflows, and when it leaves and the queue has room for
the releases, no key and no button of the target stays down. -/
theorem nothing_down_of_drop (link : Bool) (es : List InputEvent) :
    ∃ v, Machine.run step (start link) es = some v ∧
      ∀ order : List (Nat × Held), order.Perm v.input.held.entries →
        ∀ room, (v.input.releaseAll order).length ≤ room →
          keysDown (v.drop order room) = [] ∧ buttonsDown (v.drop order room) = [] := by
  obtain ⟨v, hrun, hv⟩ := covered_run link es
  exact ⟨v, hrun, fun order horder room hroom => hv.drop horder hroom⟩

/-- An `A` without Shift and the left button, dropped with three releases. -/
theorem nothing_down_of_drop_left :
    ∃ v, Machine.run step (start true) [.key true 0x41, .pointer 1 5 5 (10, 10) true] = some v ∧
      (v.input.releaseAll v.input.held.entries).length = 3 ∧
        keysDown (v.drop v.input.held.entries 256) = [] ∧
          buttonsDown (v.drop v.input.held.entries 256) = [] := by
  obtain ⟨v, hrun, h⟩ :=
    nothing_down_of_drop true [.key true 0x41, .pointer 1 5 5 (10, 10) true]
  have hlen : (Machine.run step (start true)
      [.key true 0x41, .pointer 1 5 5 (10, 10) true]).map
        (fun v => (v.input.releaseAll v.input.held.entries).length) = some 3 := by decide
  rw [hrun, Option.map_some, Option.some.injEq] at hlen
  exact ⟨v, hrun, hlen, h v.input.held.entries (List.Perm.refl _) 256 (by omega)⟩

end Viewing

end RfbServe

end Hdmicap

end Paniolo
