import Paniolo.Hdmicap.RfbServe.Pressed

/-!
# Held keys

Several keysyms stand for one key, and the session's own Shift is the left
Shift of the client too. A release is a release of the key, whoever else holds
it: the keys down at the target are those that the input holds as long as no
event releases a key that is held another time.
-/

namespace Paniolo

namespace Hdmicap

namespace RfbServe

open HidLink (Item)
open Keysym (lookup)

namespace Viewing

/-- The keys down are the names of the held keys, and the session's Shift. -/
def Exact (v : Viewing) : Prop :=
  ∀ n, n ∈ keysDown v.queued ↔ v.input.Names n ∨ v.input.Synth n

/-- The event releases no key that is held another time: no other entry has the name of the
released one, the session's Shift is not down when that is the left Shift, and no entry is the left
Shift when the session's Shift is released with it. -/
def Alone (v : Viewing) : InputEvent → Prop
  | .key false sym => ∀ h, v.input.held.get? sym = some h →
      (∀ e ∈ (v.input.held.erase sym).entries, e.2.name ≠ h.name) ∧
      (h.name = "LEFT_SHIFT" → v.input.synthUsers = 0) ∧
      (h.synthShift = true → v.input.synthUsers = 1 →
        ∀ e ∈ (v.input.held.erase sym).entries, e.2.name ≠ "LEFT_SHIFT")
  | _ => True

theorem exact_start (link : Bool) : (start link).Exact := by
  intro n
  constructor
  · exact nofun
  · rintro (⟨e, he, -⟩ | ⟨-, hpos⟩)
    · cases he
    · exact absurd hpos (Nat.lt_irrefl 0)

theorem Exact.press {v : Viewing} (hv : v.Exact) {sym : Nat} {k : Keysym.HidKey}
    (hfree : v.input.held.get? sym = none) :
    Exact ⟨(v.input.press sym k).1, v.queued ++ (v.input.press sym k).2.map Item.line⟩ := by
  intro n
  rw [mem_keysDown_press, Input.names_press hfree, Input.synth_press, hv n, Input.Synth]
  constructor
  · rintro (hn | ⟨hn, hsynth, -⟩ | hn | ⟨hn, hpos⟩)
    · exact Or.inl (Or.inl hn)
    · exact Or.inr ⟨hn, Or.inl hsynth⟩
    · exact Or.inl (Or.inr hn)
    · exact Or.inr ⟨hn, Or.inr hpos⟩
  · rintro ((hn | hn) | ⟨hn, hsynth | hpos⟩)
    · exact Or.inl hn
    · exact Or.inr (Or.inr (Or.inl hn))
    · rcases Nat.eq_zero_or_pos v.input.synthUsers with hzero | hpos
      · exact Or.inr (Or.inl ⟨hn, hsynth, hzero⟩)
      · exact Or.inr (Or.inr (Or.inr ⟨hn, hpos⟩))
    · exact Or.inr (Or.inr (Or.inr ⟨hn, hpos⟩))

section

variable {v : Viewing} {sym : Nat} {h : Held} {s' : Input}

/-- After a release the keys down are those of the input exactly when no other holder lost its
key. -/
theorem exact_release_iff (hv : v.Exact) (hc : v.input.Counted)
    (hheld : v.input.held.get? sym = some h) (herase : s'.held = v.input.held.erase sym)
    (husers : v.input.synthUsers = if h.synthShift then s'.synthUsers + 1 else s'.synthUsers) :
    Exact ⟨s', v.queued ++ (Line.up h.name :: if h.synthShift ∧ s'.synthUsers = 0 then
        [Line.up "LEFT_SHIFT"] else []).map Item.line⟩ ↔ v.Alone (.key false sym) := by
  have hrest : ∀ n, s'.Names n ↔ ∃ e ∈ (v.input.held.erase sym).entries, e.2.name = n := by
    intro n
    rw [Input.Names, herase]
  have hdown : ∀ n, n ∈ keysDown (v.queued ++ (Line.up h.name ::
      if h.synthShift ∧ s'.synthUsers = 0 then [Line.up "LEFT_SHIFT"] else []).map Item.line) ↔
        (s'.Names n ∨ v.input.Synth n) ∧ n ≠ h.name ∧
          ¬(n = "LEFT_SHIFT" ∧ h.synthShift = true ∧ s'.synthUsers = 0) := by
    intro n
    rw [mem_keysDown_release, hv n, Input.names_of_erase hheld, ← hrest n]
    constructor
    · rintro ⟨(heq | hn) | hn, hne, hshift⟩
      · exact absurd heq hne
      · exact ⟨Or.inl hn, hne, hshift⟩
      · exact ⟨Or.inr hn, hne, hshift⟩
    · rintro ⟨hn | hn, hne, hshift⟩
      · exact ⟨Or.inl (Or.inr hn), hne, hshift⟩
      · exact ⟨Or.inr hn, hne, hshift⟩
  have hnotShift : h.synthShift = true → h.name ≠ "LEFT_SHIFT" :=
    hc.synthName (sym, h) (OrderedMap.get?_eq_some_iff.mp hheld)
  constructor
  · intro hexact h' hh'
    cases hheld.symm.trans hh'
    have hkeeps : ∀ n, s'.Names n ∨ s'.Synth n → n ≠ h.name ∧
        ¬(n = "LEFT_SHIFT" ∧ h.synthShift = true ∧ s'.synthUsers = 0) :=
      fun n hn => ((hdown n).mp ((hexact n).mpr hn)).2
    refine ⟨fun e he heq => ?_, fun hname => ?_, fun hsynth hone e he hname => ?_⟩
    · exact (hkeeps h.name (Or.inl ((hrest _).mpr ⟨e, he, heq⟩))).1 rfl
    · have hplain : h.synthShift = false := by
        cases hs : h.synthShift with
        | false => rfl
        | true => exact absurd hname (hnotShift hs)
      rw [hplain, if_neg Bool.false_ne_true] at husers
      by_contra hpos
      exact (hkeeps h.name (Or.inr ⟨hname, by omega⟩)).1 rfl
    · rw [if_pos hsynth] at husers
      exact (hkeeps e.2.name (Or.inl ((hrest _).mpr ⟨e, he, rfl⟩))).2 ⟨hname, hsynth, by omega⟩
  · intro halone n
    obtain ⟨hother, hshift, hlast⟩ := halone h hheld
    rw [hdown n]
    constructor
    · rintro ⟨hn | ⟨hname, hpos⟩, -, hkept⟩
      · exact Or.inl hn
      · refine Or.inr ⟨hname, Nat.pos_of_ne_zero fun hzero => ?_⟩
        cases hs : h.synthShift with
        | true => exact hkept ⟨hname, hs, hzero⟩
        | false =>
            change s'.synthUsers = 0 at hzero
            rw [hs, if_neg Bool.false_ne_true, hzero] at husers
            exact hpos.ne' husers
    · rintro (hn | ⟨hname, hpos⟩)
      · obtain ⟨e, he, rfl⟩ := (hrest n).mp hn
        refine ⟨Or.inl hn, hother e he, ?_⟩
        rintro ⟨hname, hsynth, hzero⟩
        rw [if_pos hsynth, hzero] at husers
        exact hlast hsynth husers e he hname
      · change 0 < s'.synthUsers at hpos
        have hle : 0 < v.input.synthUsers := by
          rw [husers]
          split <;> omega
        refine ⟨Or.inr ⟨hname, hle⟩, fun heq => ?_, fun hzero => by omega⟩
        exact hle.ne' (hshift (heq ▸ hname))

end

/-- Without a link no key is held. -/
theorem Exact.get?_of_unlinked {v : Viewing} (hv : v.Exact) (hc : v.Covered)
    (hlink : v.input.link = false) (sym : Nat) : v.input.held.get? sym = none := by
  cases hheld : v.input.held.get? sym with
  | none => rfl
  | some h =>
      have hdown := (hv h.name).mpr
        (Or.inl ⟨(sym, h), OrderedMap.get?_eq_some_iff.mp hheld, rfl⟩)
      rw [hc.unlinked hlink] at hdown
      cases hdown

/-- An event keeps the keys down those of the input exactly when it releases no key that is held
another time. -/
theorem exact_step_iff {v v' : Viewing} (hv : v.Exact) (hc : v.Covered) {e : InputEvent}
    (hstep : v.step e = some v') : v'.Exact ↔ v.Alone e := by
  have hsame : Exact ⟨v.input, v.queued ++ ([] : List Line).map Item.line⟩ := by
    rw [List.map_nil, List.append_nil]
    exact hv
  cases e with
  | pointer mask x y dims room =>
      cases hstep
      refine iff_of_true (fun n => ?_) trivial
      rw [Input.pointer]
      split
      · rw [List.append_nil]
        exact hv n
      · split
        · rw [keysDown_pointer (line_notMem_pointAt _ _ _ _)]
          exact hv n
        · rw [← List.nil_append (List.map _ _), keysDown_pointer fun _ => List.not_mem_nil]
          exact hv n
  | key down sym =>
      simp only [Viewing.step, Input.key] at hstep
      split at hstep
      · next hlink =>
          cases hstep
          refine iff_of_true hsame ?_
          cases down with
          | true => trivial
          | false =>
              intro h hh
              rw [hv.get?_of_unlinked hc hlink sym] at hh
              cases hh
      · cases down with
        | true =>
            rw [if_pos rfl] at hstep
            refine iff_of_true ?_ trivial
            split at hstep
            · cases hstep
              exact hsame
            · next hfree =>
                rw [OrderedMap.contains, Option.not_isSome_iff_eq_none] at hfree
                split at hstep
                · cases hstep
                  exact hsame
                · cases hstep
                  exact hv.press hfree
        | false =>
            rw [if_neg Bool.false_ne_true] at hstep
            split at hstep
            · next hheld =>
                cases hstep
                refine iff_of_true hsame fun h hh => ?_
                rw [hheld] at hh
                cases hh
            · next h hheld =>
                obtain ⟨s', shift, hr, -, -, -, herase, husers, rfl⟩ :=
                  Input.exists_release hc.counted hheld
                rw [hr] at hstep
                cases hstep
                exact exact_release_iff hv hc.counted hheld herase husers

/-- The keys down at the target are all along those that the input holds, and the session's Shift,
exactly when no event of the run releases a key that is held another time. -/
theorem exact_run_iff (link : Bool) (es : List InputEvent) :
    (∀ bs, bs <+: es → ∀ v, Machine.run step (start link) bs = some v → v.Exact) ↔
      Machine.meets step Alone (start link) es := by
  apply Machine.forall_run_iff_meets (I := Covered) _ (covered_start link) (exact_start link)
  intro v e hc hv
  obtain ⟨v', hstep, hc'⟩ := hc.step e
  exact ⟨v', hstep, hc', exact_step_iff hv hc hstep⟩

/-- `a` and `A` go down and `a` goes up: the input holds the key for `A`, and it is up. -/
theorem not_exact_upperA :
    ∃ v, Machine.run step (start true)
      [.key true 0x61, .key true 0x41, .key false 0x61] = some v ∧ ¬v.Exact := by
  refine ⟨_, rfl, fun h => ?_⟩
  have hdown := (h "A").mpr (Or.inl ⟨(0x41, ⟨"A", true, false⟩), by decide, rfl⟩)
  exact absurd hdown (by decide)

end Viewing

end RfbServe

end Hdmicap

end Paniolo
