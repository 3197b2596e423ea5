import Paniolo.HidProtocol.Edges
import Paniolo.Ch9329.Holding

/-!
# What a target reads of a typed text

Every character is pressed on top of what is held, which is then reported again.
A character that is held is released first, so it comes down again. With six
keys held a further one takes the slot of the last, which comes down again when
the held report is restored. A character that cannot be typed is found out only
when its turn comes, after those before it were typed.
-/

namespace Paniolo

namespace Ch9329

open HidProtocol Session

section Characters

theorem charToUsage_ne_zero {c : Char} {u : UInt8} {shift : Bool}
    (h : charToUsage c = .ok (u, shift)) : u ≠ 0 := by
  have hne : ∀ a b n : Nat, a + n < 256 → 0 < a → n ≤ b →
      UInt8.ofNat a + UInt8.ofNat n ≠ 0 := by
    intro a b n hlt ha hn hzero
    have htoNat := congrArg UInt8.toNat hzero
    rw [UInt8.toNat_add, UInt8.toNat_ofNat', UInt8.toNat_ofNat'] at htoNat
    have h0 : (0 : UInt8).toNat = 0 := rfl
    omega
  rw [charToUsage] at h
  split at h
  · next hc =>
      rw [← (Prod.mk.inj (Except.ok.inj h)).1]
      have hle : c.toNat ≤ 122 := hc.2
      have ha : 'a'.toNat = 97 := rfl
      exact hne 4 25 _ (by omega) (by decide) (by omega)
  · split at h
    · next hc =>
        rw [← (Prod.mk.inj (Except.ok.inj h)).1]
        have hle : c.toNat ≤ 90 := hc.2
        have ha : 'A'.toNat = 65 := rfl
        exact hne 4 25 _ (by omega) (by decide) (by omega)
    · split at h
      · next hc =>
          rw [← (Prod.mk.inj (Except.ok.inj h)).1]
          have hle : c.toNat ≤ 57 := hc.2
          have ha : '1'.toNat = 49 := rfl
          exact hne 0x1E 8 _ (by omega) (by decide) (by omega)
      · split at h
        · next v shift' hfind =>
            have hall : ∀ e ∈ punctuation, e.2.1 ≠ 0 := by decide
            rw [← (Prod.mk.inj (Except.ok.inj h)).1]
            exact hall _ (List.mem_of_find?_eq_some hfind)
        · cases h

end Characters

/-- The same is held, perhaps in another order. -/
structure Same (s s' : Session) : Prop where
  mods : s'.mods = s.mods
  keys : s'.keys.Perm s.keys

namespace Same

variable {s s' s'' : Session}

theorem refl (s : Session) : Same s s := ⟨rfl, .refl _⟩

theorem trans (h : Same s s') (h' : Same s' s'') : Same s s'' :=
  ⟨h'.mods.trans h.mods, h'.keys.trans h.keys⟩

theorem tidy (h : Same s s') (htidy : Tidy s) : Tidy s' :=
  ⟨h.keys.nodup_iff.mpr htidy.nodup, h.keys.length_eq ▸ htidy.fits,
    fun u hu => htidy.ne_zero u (h.keys.mem_iff.mp hu)⟩

theorem report (h : Same s s') (htidy : Tidy s) : s'.report = s.report := by
  rw [Session.report, Session.report, report_eq htidy.ne_zero, report_eq (h.tidy htidy).ne_zero,
    h.mods, List.toFinset_eq_of_perm _ _ h.keys]

end Same

section Strokes

variable {s : Session} {u : UInt8}

theorem same_rotated (htidy : Tidy s) (hu : u ∈ s.keys) : Same s (s.rotated u) := by
  refine ⟨rfl, ?_⟩
  rw [rotated, ← htidy.nodup.erase_eq_filter u]
  exact (List.perm_append_singleton u _).trans (List.perm_cons_erase hu).symm

theorem typedReport_data (htidy : Tidy s) (hu : u ≠ 0) (shift : Bool) :
    keyboardReport (frame cmdKbGeneral (typedReport s u shift)) =
      some (s.mods ||| (if shift then modLeftShift else 0),
        insert u ((s.keys.filter (· != u)).take (keySlots - 1)).toFinset) := by
  have hothers : ∀ v ∈ (s.keys.filter (· != u)).take (keySlots - 1), v ≠ 0 := by
    intro v hv
    exact htidy.ne_zero v (List.mem_filter.mp (List.mem_of_mem_take hv)).1
  have hlen : ((s.keys.filter (· != u)).take (keySlots - 1)).length ≤ keySlots - 1 :=
    List.length_take_le _ _
  have hslots : (u :: (s.keys.filter (· != u)).take (keySlots - 1) ++
      List.replicate (keySlots - 1 - ((s.keys.filter (· != u)).take (keySlots - 1)).length)
        0).length = keySlots := by
    have hsix : keySlots = 6 := rfl
    rw [List.length_append, List.length_cons, List.length_replicate]
    omega
  have hdata : typedReport s u shift = [s.mods ||| (if shift then modLeftShift else 0), 0x00] ++
      (u :: (s.keys.filter (· != u)).take (keySlots - 1) ++
        List.replicate (keySlots - 1 - ((s.keys.filter (· != u)).take (keySlots - 1)).length)
          0) := rfl
  rw [hdata, keyboardReport_frame hslots, HidProtocol.report,
    Hidrig.filter_ne_zero_append_replicate]
  have hfilter : (u :: (s.keys.filter (· != u)).take (keySlots - 1)).filter (· ≠ 0) =
      u :: (s.keys.filter (· != u)).take (keySlots - 1) := by
    rw [List.filter_eq_self]
    intro v hv
    rcases List.mem_cons.mp hv with rfl | hv
    · exact decide_eq_true hu
    · exact decide_eq_true (hothers v hv)
  rw [hfilter, List.toFinset_cons]

end Strokes

section Strokes

variable {env : Env} {w : Wire} {s : Session} {c : Char} {u : UInt8} {shift : Bool}

def shiftBits (shift : Bool) : UInt8 := if shift then modLeftShift else 0

/-- The reports of one character. -/
def charReports (s : Session) (u : UInt8) (shift : Bool) : List Report :=
  if u ∈ s.keys then
    [(s.mods, s.keys.toFinset.erase u), (s.mods ||| shiftBits shift, s.keys.toFinset), s.report]
  else
    [(s.mods ||| shiftBits shift, insert u (s.keys.take (keySlots - 1)).toFinset), s.report]

theorem getLast?_charReports (s : Session) (u : UInt8) (shift : Bool) (r : Report) :
    (r :: charReports s u shift).getLast? = some s.report := by
  rw [charReports]
  split <;> rfl

theorem toFinset_filter_ne (keys : List UInt8) (u : UInt8) :
    (keys.filter (· != u)).toFinset = keys.toFinset.erase u := by
  ext v
  rw [List.mem_toFinset, List.mem_filter, bne_iff_ne, Finset.mem_erase, List.mem_toFinset,
    and_comm]

theorem length_filter_ne_lt {keys : List UInt8} (hu : u ∈ keys) :
    (keys.filter (· != u)).length < keys.length := by
  rw [List.length_filter_lt_length_iff_exists]
  exact ⟨u, hu, by rw [bne_self_eq_false]; decide⟩

theorem filter_rotated (s : Session) (u : UInt8) :
    (s.rotated u).keys.filter (· != u) = s.keys.filter (· != u) := by
  rw [rotated, List.filter_append, List.filter_filter]
  simp only [Bool.and_self, List.filter_cons, bne_self_eq_false, List.filter_nil]
  rw [if_neg (by decide), List.append_nil]

/-- What typing a held key sends: it is let go, pressed again, and the rest reported. -/
theorem ends_typeChar_held (henv : Obliging env) (htidy : Tidy w.session)
    (hc : charToUsage c = .ok (u, shift)) (hu : u ∈ w.session.keys) :
    ∃ w' frames, Ends (typeChar env c) w (.ok ()) w' ∧ Same w.session w'.session ∧
      w'.port.sent = w.port.sent ++ frames ∧
      frames.filterMap keyboardReport = charReports w.session u shift := by
  let w₂ : Wire := w.cleared u
  let w₃ : Wire := w₂.logged (frame cmdKbGeneral (typedReport (w.session.rotated u) u shift))
  have hsame := same_rotated htidy hu
  have hrotated := hsame.tidy htidy
  have hclearedTidy : Tidy (applyUp (.usage u) w.session) := htidy.applyUp (.usage u)
  refine ⟨w₃.logged (frame cmdKbGeneral w₃.session.heldData),
    [frame cmdKbGeneral (applyUp (.usage u) w.session).heldData,
      frame cmdKbGeneral (typedReport (w.session.rotated u) u shift),
      frame cmdKbGeneral (w.session.rotated u).heldData], ?_, hsame, ?_, ?_⟩
  · have hpress := ends_attempt (ends_command env cmdKbGeneral
      (typedReport (w.session.rotated u) u shift) w₂)
    have hrelease := ends_attempt (ends_pushKeyboard env w₃)
    rw [henv.done_outcome] at hpress hrelease
    exact ends_typeChar_of_cleared hc hu (henv.done_outcome _)
      (hpress.bind (hrelease.bind (Ends.pure () _)))
  · simp only [w₃, w₂, Wire.cleared, Wire.logged, List.append_assoc, List.cons_append, List.nil_append]
  · have hclear : keyboardReport (frame cmdKbGeneral (applyUp (.usage u) w.session).heldData) =
        some (w.session.mods, w.session.keys.toFinset.erase u) := by
      rw [keyboardReport_held hclearedTidy.fits, Session.report,
        report_eq hclearedTidy.ne_zero, applyUp, toFinset_filter_ne]
    have hothers : ((w.session.rotated u).keys.filter (· != u)).take (keySlots - 1) =
        w.session.keys.filter (· != u) := by
      rw [filter_rotated, List.take_of_length_le]
      exact Nat.le_sub_one_of_lt ((length_filter_ne_lt hu).trans_le htidy.fits)
    have hpress : keyboardReport (frame cmdKbGeneral (typedReport (w.session.rotated u) u shift)) =
        some (w.session.mods ||| shiftBits shift, w.session.keys.toFinset) := by
      rw [typedReport_data hrotated (htidy.ne_zero u hu), hothers, toFinset_filter_ne,
        Finset.insert_erase (List.mem_toFinset.mpr hu)]
      rfl
    have hrest : keyboardReport (frame cmdKbGeneral (w.session.rotated u).heldData) =
        some w.session.report := by
      rw [keyboardReport_held hrotated.fits, hsame.report htidy]
    rw [charReports, if_pos hu]
    simp only [List.filterMap_cons, List.filterMap_nil, hclear, hpress, hrest]

/-- What typing another key sends: it is pressed next to five held ones, and the rest reported. -/
theorem ends_typeChar_free (henv : Obliging env) (htidy : Tidy w.session)
    (hc : charToUsage c = .ok (u, shift)) (hu : u ∉ w.session.keys) :
    ∃ w' frames, Ends (typeChar env c) w (.ok ()) w' ∧ Same w.session w'.session ∧
      w'.port.sent = w.port.sent ++ frames ∧
      frames.filterMap keyboardReport = charReports w.session u shift := by
  let w₁ : Wire := w.logged (frame cmdKbGeneral (typedReport w.session u shift))
  refine ⟨w₁.logged (frame cmdKbGeneral w.session.heldData),
    [frame cmdKbGeneral (typedReport w.session u shift), frame cmdKbGeneral w.session.heldData],
    ?_, Same.refl _, List.append_assoc _ _ _, ?_⟩
  · have hpress := ends_attempt (ends_command env cmdKbGeneral
      (typedReport w.session u shift) w)
    have hrelease := ends_attempt (ends_pushKeyboard env w₁)
    rw [henv.done_outcome] at hpress hrelease
    exact ends_typeChar_of_free hc hu (hpress.bind (hrelease.bind (Ends.pure () _)))
  · have hothers : w.session.keys.filter (· != u) = w.session.keys := by
      rw [List.filter_eq_self]
      intro v hv
      rw [bne_iff_ne]
      rintro rfl
      exact hu hv
    have hpress : keyboardReport (frame cmdKbGeneral (typedReport w.session u shift)) =
        some (w.session.mods ||| shiftBits shift,
          insert u (w.session.keys.take (keySlots - 1)).toFinset) := by
      rw [typedReport_data htidy (charToUsage_ne_zero hc), hothers]
      rfl
    rw [charReports, if_neg hu]
    simp only [List.filterMap_cons, List.filterMap_nil, hpress, keyboardReport_held htidy.fits]

theorem ends_typeChar (henv : Obliging env) (htidy : Tidy w.session)
    (hc : charToUsage c = .ok (u, shift)) :
    ∃ w' frames, Ends (typeChar env c) w (.ok ()) w' ∧ Same w.session w'.session ∧
      w'.port.sent = w.port.sent ++ frames ∧
      frames.filterMap keyboardReport = charReports w.session u shift := by
  by_cases hu : u ∈ w.session.keys
  · exact ends_typeChar_held henv htidy hc hu
  · exact ends_typeChar_free henv htidy hc hu

theorem ends_typeChar_error (env : Env) {e : String} (hc : charToUsage c = .error e) (w : Wire) :
    Ends (typeChar env c) w (.error e) w := by
  rw [typeChar, hc]
  exact Ends.throw e w

end Strokes

section Edges

variable {s : Session} {u : UInt8} {shift : Bool}

/-- There is a slot for the key, or it has one. -/
def Slotted (s : Session) (u : UInt8) : Prop := s.keys.length = keySlots → u ∈ s.keys

/-- The character comes down once; without a slot for it the last held key comes down too. -/
theorem edges_charReports (htidy : Tidy s) (hu : u ≠ 0) (shift : Bool) :
    ∃ more, edges s.report (charReports s u shift) =
        (s.mods ||| shiftBits shift, {u}) :: more ∧ (more = [] ↔ Slotted s u) := by
  have hheld : s.report = (s.mods, s.keys.toFinset) := report_eq htidy.ne_zero
  rw [charReports]
  by_cases hmem : u ∈ s.keys
  · have hfin : u ∈ s.keys.toFinset := List.mem_toFinset.mpr hmem
    refine ⟨[], ?_, fun _ _ => hmem, fun _ => rfl⟩
    have hrest : edges (s.mods ||| shiftBits shift, s.keys.toFinset)
        [(s.mods, s.keys.toFinset)] = [] := edges_cons_quiet (Finset.Subset.refl _)
    rw [if_pos hmem, hheld, edges_cons_quiet (Finset.erase_subset _ _), edges_cons_press, hrest]
    · rw [Finset.sdiff_erase_self hfin]
    · intro hsub
      exact Finset.notMem_erase u _ (hsub hfin)
  · have hpress : insert u (s.keys.take (keySlots - 1)).toFinset \ s.keys.toFinset = {u} := by
      ext v
      rw [Finset.mem_sdiff, Finset.mem_insert, Finset.mem_singleton, List.mem_toFinset,
        List.mem_toFinset]
      constructor
      · rintro ⟨rfl | hv, hnot⟩
        · rfl
        · exact absurd (List.mem_of_mem_take hv) hnot
      · rintro rfl
        exact ⟨.inl rfl, hmem⟩
    have hnew : ¬insert u (s.keys.take (keySlots - 1)).toFinset ⊆ s.keys.toFinset := by
      intro hsub
      exact hmem (List.mem_toFinset.mp (hsub (Finset.mem_insert_self u _)))
    rw [if_neg hmem, hheld, edges_cons_press hnew, hpress]
    refine ⟨_, rfl, ?_⟩
    by_cases hfull : s.keys.length = keySlots
    · have hnot : ¬Slotted s u := fun h => hmem (h hfull)
      have hlost : ¬s.keys.toFinset ⊆ insert u (s.keys.take (keySlots - 1)).toFinset := by
        intro hsub
        have hkept : s.keys ⊆ s.keys.take (keySlots - 1) := by
          intro v hv
          rcases Finset.mem_insert.mp (hsub (List.mem_toFinset.mpr hv)) with rfl | hv'
          · exact absurd hv hmem
          · exact List.mem_toFinset.mp hv'
        have hle := (htidy.nodup.subperm hkept).length_le
        rw [List.length_take, hfull] at hle
        exact absurd hle (by decide)
      rw [edges_cons_press hlost]
      exact ⟨nofun, fun h => absurd h hnot⟩
    · have hfits := htidy.fits
      have hall : s.keys.take (keySlots - 1) = s.keys := by
        apply List.take_of_length_le
        omega
      rw [hall, edges_cons_quiet (Finset.subset_insert _ _)]
      exact ⟨fun _ h => absurd h hfull, fun _ => rfl⟩

end Edges

section Texts

variable {env : Env} {s s' : Session} {w : Wire} {text : List Char}

def Typable (c : Char) : Prop := ∃ stroke, charToUsage c = .ok stroke

/-- The keystrokes of a text: each usage, with Shift where the character needs it. -/
def keystrokes (s : Session) (text : List Char) : List Report :=
  text.filterMap fun c =>
    (charToUsage c).toOption.map fun stroke => (s.mods ||| shiftBits stroke.2, {stroke.1})

theorem keystrokes_cons {c : Char} {u : UInt8} {shift : Bool}
    (hc : charToUsage c = .ok (u, shift)) (text : List Char) :
    keystrokes s (c :: text) = (s.mods ||| shiftBits shift, {u}) :: keystrokes s text := by
  rw [keystrokes, List.filterMap_cons, hc]
  rfl

theorem Same.keystrokes (h : Same s s') (text : List Char) :
    keystrokes s' text = keystrokes s text := by
  rw [Ch9329.keystrokes, Ch9329.keystrokes, h.mods]

theorem length_keystrokes (s : Session) (h : ∀ c ∈ text, Typable c) :
    (keystrokes s text).length = text.length := by
  induction text with
  | nil => rfl
  | cons c text ih =>
      obtain ⟨⟨u, shift⟩, hc⟩ := h c List.mem_cons_self
      rw [keystrokes_cons hc, List.length_cons, List.length_cons,
        ih fun c hc => h c (List.mem_cons_of_mem _ hc)]

theorem Same.slotted (h : Same s s') (u : UInt8) : Slotted s' u ↔ Slotted s u := by
  rw [Slotted, Slotted, h.keys.length_eq, h.keys.mem_iff]

/-- Every character of the text has a slot. -/
def AllSlotted (s : Session) (text : List Char) : Prop :=
  ∀ c ∈ text, ∀ stroke, charToUsage c = .ok stroke → Slotted s stroke.1

theorem allSlotted_cons {c : Char} {u : UInt8} {shift : Bool}
    (hc : charToUsage c = .ok (u, shift)) :
    AllSlotted s (c :: text) ↔ Slotted s u ∧ AllSlotted s text := by
  constructor
  · intro h
    exact ⟨h c List.mem_cons_self _ hc, fun d hd => h d (List.mem_cons_of_mem _ hd)⟩
  · rintro ⟨hu, h⟩ d hd stroke hstroke
    rcases List.mem_cons.mp hd with rfl | hd
    · rw [hc] at hstroke
      rw [← Except.ok.inj hstroke]
      exact hu
    · exact h d hd stroke hstroke

theorem Same.allSlotted (h : Same s s') : AllSlotted s' text ↔ AllSlotted s text := by
  constructor
  · exact fun hall c hc stroke hstroke => (h.slotted _).mp (hall c hc stroke hstroke)
  · exact fun hall c hc stroke hstroke => (h.slotted _).mpr (hall c hc stroke hstroke)

/-- A text that can be typed is typed. Every character comes down at least once, and nothing else
does exactly when they all have slots. -/
theorem ends_typeChars (henv : Obliging env) (htidy : Tidy w.session)
    (htext : ∀ c ∈ text, Typable c) :
    ∃ w' frames, Ends (typeChars env text) w (.ok ()) w' ∧ Same w.session w'.session ∧
      w'.port.sent = w.port.sent ++ frames ∧
      (w.session.report :: frames.filterMap keyboardReport).getLast? = some w.session.report ∧
      text.length ≤ (edges w.session.report (frames.filterMap keyboardReport)).length ∧
      (edges w.session.report (frames.filterMap keyboardReport) = keystrokes w.session text ↔
        AllSlotted w.session text) := by
  induction text generalizing w with
  | nil => exact ⟨w, [], Ends.pure () w, Same.refl _, (List.append_nil _).symm, rfl, Nat.zero_le _,
      ⟨fun _ c hc => absurd hc List.not_mem_nil, fun _ => rfl⟩⟩
  | cons c text ih =>
      obtain ⟨⟨u, shift⟩, hc⟩ := htext c List.mem_cons_self
      have hrest : ∀ c ∈ text, Typable c := fun c hc => htext c (List.mem_cons_of_mem _ hc)
      obtain ⟨w₁, frames₁, hends₁, hsame₁, hsent₁, hreports₁⟩ := ends_typeChar henv htidy hc
      obtain ⟨w₂, frames₂, hends₂, hsame₂, hsent₂, hlast₂, hlen₂, hiff₂⟩ :=
        ih (hsame₁.tidy htidy) hrest
      have hreport := hsame₁.report htidy
      have hlast₁ := getLast?_charReports w.session u shift w.session.report
      obtain ⟨more, hedges, hmore⟩ := edges_charReports htidy (charToUsage_ne_zero hc) shift
      rw [hreport] at hlast₂ hlen₂ hiff₂
      have hall : edges w.session.report ((frames₁ ++ frames₂).filterMap keyboardReport) =
          (w.session.mods ||| shiftBits shift, {u}) ::
            (more ++ edges w.session.report (frames₂.filterMap keyboardReport)) := by
        rw [List.filterMap_append, hreports₁, edges_append hlast₁, hedges, List.cons_append]
      refine ⟨w₂, frames₁ ++ frames₂, hends₁.bind hends₂, hsame₁.trans hsame₂, ?_, ?_, ?_, ?_⟩
      · rw [hsent₂, hsent₁, List.append_assoc]
      · rw [List.filterMap_append, hreports₁]
        exact getLast?_append hlast₁ hlast₂
      · rw [hall, List.length_cons, List.length_cons, List.length_append]
        omega
      · rw [hsame₁.keystrokes, hsame₁.allSlotted] at hiff₂
        rw [hall, keystrokes_cons hc, List.cons.injEq, allSlotted_cons hc, ← hmore, ← hiff₂]
        constructor
        · rintro ⟨-, heq⟩
          have hlen := congrArg List.length heq
          rw [List.length_append, length_keystrokes _ hrest] at hlen
          have hnone : more = [] := List.length_eq_zero_iff.mp (by omega)
          rw [hnone, List.nil_append] at heq
          exact ⟨hnone, heq⟩
        · rintro ⟨rfl, heq⟩
          exact ⟨rfl, heq⟩

end Texts

section TypeText

variable {env : Env} {s : Session} {w : Wire} {text : List Char}

theorem not_typable {c : Char} (h : ¬Typable c) : ∃ e, charToUsage c = .error e := by
  cases hc : charToUsage c with
  | error e => exact ⟨e, rfl⟩
  | ok stroke => exact absurd ⟨stroke, hc⟩ h

/-- A text with a character that cannot be typed is refused when it comes: nothing was sent only
if it is the first. -/
theorem ends_typeChars_error (henv : Obliging env) (htidy : Tidy w.session)
    (htext : ∃ c ∈ text, ¬Typable c) :
    ∃ e w' frames, Ends (typeChars env text) w (.error e) w' ∧
      w'.port.sent = w.port.sent ++ frames ∧
      (frames.filterMap keyboardReport = [] ↔ ∀ c ∈ text.head?, ¬Typable c) := by
  induction text generalizing w with
  | nil =>
      obtain ⟨c, hc, -⟩ := htext
      cases hc
  | cons c text ih =>
      by_cases hc : Typable c
      · obtain ⟨⟨u, shift⟩, hstroke⟩ := hc
        obtain ⟨w₁, frames₁, hends₁, hsame₁, hsent₁, hreports₁⟩ :=
          ends_typeChar henv htidy hstroke
        obtain ⟨d, hd, hbad⟩ := htext
        have hrest : ∃ d ∈ text, ¬Typable d := by
          rcases List.mem_cons.mp hd with rfl | hd
          · exact absurd ⟨_, hstroke⟩ hbad
          · exact ⟨d, hd, hbad⟩
        obtain ⟨e, w₂, frames₂, hends₂, hsent₂, -⟩ := ih (hsame₁.tidy htidy) hrest
        refine ⟨e, w₂, frames₁ ++ frames₂, hends₁.bind hends₂, ?_, ?_⟩
        · rw [hsent₂, hsent₁, List.append_assoc]
        · rw [List.filterMap_append, hreports₁]
          constructor
          · intro hnone
            have hempty := (List.append_eq_nil_iff.mp hnone).1
            rw [charReports] at hempty
            split at hempty <;> cases hempty
          · exact fun hhead => absurd ⟨_, hstroke⟩ (hhead c rfl)
      · obtain ⟨e, he⟩ := not_typable hc
        refine ⟨e, w, [], (ends_typeChar_error env he w).bind_error,
          (List.append_nil _).symm, fun _ d hd => ?_, fun _ => rfl⟩
        rw [← Option.some.inj hd]
        exact hc

/-- What is said of typing with a chip that accepts every report: it succeeds for texts that are
not too long and can be typed, it makes their keystrokes and no others and reports what was held
again, and where it fails it has sent nothing. -/
def TypesExactly (s : Session) (text : List Char) : Prop :=
  ∀ env port r w', Obliging env → Ends (typeText env text) ⟨s, port⟩ r w' →
    (r = .ok () ↔ text.length ≤ maxTypeChars ∧ ∀ c ∈ text, Typable c) ∧
    (r = .ok () → edges s.report (reportsSince ⟨s, port⟩ w') = keystrokes s text ∧
      (s.report :: reportsSince ⟨s, port⟩ w').getLast? = some s.report) ∧
    (r ≠ .ok () → reportsSince ⟨s, port⟩ w' = [])

theorem ends_typeText (hlen : text.length ≤ maxTypeChars) {r : Except String Unit} {w' : Wire}
    (h : Ends (typeChars env text) w r w') : Ends (typeText env text) w r w' := by
  have hshort : checkTypeLen text = .ok () := if_neg (Nat.not_lt.mpr hlen)
  rw [typeText, hshort]
  exact h

theorem reportsSince_eq {w w' : Wire} {frames : List (List UInt8)}
    (h : w'.port.sent = w.port.sent ++ frames) :
    reportsSince w w' = frames.filterMap keyboardReport := by
  rw [reportsSince, h, List.drop_left]

/-- From every held state that can be reached a text is typed exactly or not at all, unless it
begins with a character that can be typed and there is one in it that cannot, or, six keys being
held, one that is not held. -/
theorem typesExactly_iff (h : Reachable s) (text : List Char) :
    TypesExactly s text ↔
      (text.length ≤ maxTypeChars → (∀ c ∈ text.head?, Typable c) →
        (∀ c ∈ text, Typable c) ∧ AllSlotted s text) := by
  have htidy := h.tidy
  by_cases hlen : text.length ≤ maxTypeChars
  · by_cases htext : ∀ c ∈ text, Typable c
    · have hrun : ∀ env port, Obliging env → _ := fun env port henv =>
        ends_typeChars (w := ⟨s, port⟩) henv htidy htext
      constructor
      · intro hexact _ _
        obtain ⟨w', frames, hends, -, hsent, -, -, hiff⟩ :=
          hrun obligingEnv ⟨0, []⟩ obliging_obligingEnv
        have hcall := hexact _ _ _ w' obliging_obligingEnv (ends_typeText hlen hends)
        have hedges := (hcall.2.1 rfl).1
        rw [reportsSince_eq hsent] at hedges
        exact ⟨htext, hiff.mp hedges⟩
      · intro hcond env port r w' henv hends
        obtain ⟨w₀, frames, hends₀, -, hsent, hlast, -, hiff⟩ := hrun env port henv
        obtain ⟨rfl, rfl⟩ := hends.unique (ends_typeText hlen hends₀)
        have hhead : ∀ c ∈ text.head?, Typable c := fun c hc => htext c (List.mem_of_mem_head? hc)
        rw [reportsSince_eq hsent]
        exact ⟨⟨fun _ => ⟨hlen, htext⟩, fun _ => rfl⟩,
          fun _ => ⟨hiff.mpr (hcond hlen hhead).2, hlast⟩, fun hne => absurd rfl hne⟩
    · have hbad : ∃ c ∈ text, ¬Typable c := by
        by_contra hnone
        exact htext fun c hc => by_contra fun hnot => hnone ⟨c, hc, hnot⟩
      have hrun : ∀ env port, Obliging env → _ := fun env port henv =>
        ends_typeChars_error (w := ⟨s, port⟩) henv htidy hbad
      constructor
      · intro hexact _ hhead
        obtain ⟨e, w', frames, hends, hsent, hiff⟩ :=
          hrun obligingEnv ⟨0, []⟩ obliging_obligingEnv
        have hcall := hexact _ _ _ w' obliging_obligingEnv (ends_typeText hlen hends)
        have hnone := hcall.2.2 nofun
        rw [reportsSince_eq hsent] at hnone
        cases text with
        | nil => exact absurd (fun c hc => absurd hc List.not_mem_nil) htext
        | cons c text => exact absurd (hhead c rfl) (hiff.mp hnone c rfl)
      · intro hcond env port r w' henv hends
        obtain ⟨e, w₀, frames, hends₀, hsent, hiff⟩ := hrun env port henv
        obtain ⟨rfl, rfl⟩ := hends.unique (ends_typeText hlen hends₀)
        have hhead : ∀ c ∈ text.head?, ¬Typable c := by
          intro c hc hok
          have hall : ∀ d ∈ text.head?, Typable d := by
            intro d hd
            rwa [Option.mem_unique hd hc]
          exact htext (hcond hlen hall).1
        rw [reportsSince_eq hsent]
        exact ⟨⟨nofun, fun hok => absurd hok.2 htext⟩, nofun, fun _ => hiff.mpr hhead⟩
  · refine ⟨fun _ hshort => absurd hshort hlen, fun _ env port r w' henv hends => ?_⟩
    have hlong : ∃ e, checkTypeLen text = .error e := ⟨_, if_pos (Nat.lt_of_not_le hlen)⟩
    obtain ⟨e, he⟩ := hlong
    have herror : Ends (typeText env text) ⟨s, port⟩ (.error e) ⟨s, port⟩ := by
      rw [typeText, he]
      exact Ends.throw e _
    obtain ⟨rfl, rfl⟩ := hends.unique herror
    rw [reportsSince_eq (List.append_nil _).symm]
    exact ⟨⟨nofun, fun hok => absurd hok.1 hlen⟩, nofun, fun _ => rfl⟩

/-- With Shift held, as one of the cases. -/
theorem typesExactly_iff_shiftHeld :
    TypesExactly shiftHeld "ok".toList ↔
      ("ok".toList.length ≤ maxTypeChars → (∀ c ∈ "ok".toList.head?, Typable c) →
        (∀ c ∈ "ok".toList, Typable c) ∧ AllSlotted shiftHeld "ok".toList) :=
  typesExactly_iff reachable_shiftHeld "ok".toList

/-- A letter and then one that no US keyboard has: the first is typed, and the text refused. -/
theorem not_typesExactly_accent :
    Reachable (Session.fresh 115200) ∧ ¬TypesExactly (Session.fresh 115200) ['a', 'é'] := by
  have htidy := (Reachable.fresh 115200).tidy
  have ha : charToUsage 'a' = .ok (0x04, false) := by decide
  have hbad : ¬Typable 'é' := by
    rintro ⟨stroke, hstroke⟩
    have herror : (charToUsage 'é').toOption = none := by decide
    rw [hstroke] at herror
    cases herror
  refine ⟨.fresh 115200, fun hexact => ?_⟩
  obtain ⟨e, w', frames, hends, hsent, hiff⟩ :=
    ends_typeChars_error (w := ⟨Session.fresh 115200, ⟨0, []⟩⟩) obliging_obligingEnv htidy
      ⟨'é', List.mem_cons_of_mem _ List.mem_cons_self, hbad⟩
  have hnone := (hexact _ _ _ w' obliging_obligingEnv (ends_typeText (by decide) hends)).2.2 nofun
  rw [reportsSince_eq hsent] at hnone
  exact hiff.mp hnone 'a' rfl ⟨_, ha⟩

end TypeText

end Ch9329

end Paniolo
