import Mathlib.Data.Nat.Bitwise
import Paniolo.Ch9329.Holding

/-!
# Nothing stays pressed

A report can reach the chip although its reply is lost. After a report with
something pressed that is not held, the calls that press and let go send another
one without it, whatever became of the first; a click alone does not when its
press was written and the reply is not a success.
-/

namespace Paniolo

namespace Ch9329

open HidProtocol Session

/-- What can be pressed: a modifier or a button, by its bit, or a key. -/
inductive Item where
  | modifier (i : Nat)
  | key (u : UInt8)
  | button (i : Nat)

/-- The buttons in the frame of a relative mouse report. -/
def mouseReport : List UInt8 → Option UInt8
  | _ :: _ :: _ :: cmd :: _ :: _ :: buttons :: _ => if cmd = cmdMsRel then some buttons else none
  | _ => none

/-- The frame is a report of the device that the item is on. -/
def Item.Reported : Item → List UInt8 → Prop
  | .modifier _, f | .key _, f => (keyboardReport f).isSome
  | .button _, f => (mouseReport f).isSome

/-- The frame is a report with the item pressed. -/
def Item.Pressed : Item → List UInt8 → Prop
  | .modifier i, f => ∃ r, keyboardReport f = some r ∧ r.1.toNat.testBit i
  | .key u, f => ∃ r, keyboardReport f = some r ∧ u ∈ r.2
  | .button i, f => ∃ b, mouseReport f = some b ∧ b.toNat.testBit i

/-- The session holds the item. -/
def Session.Holds (s : Session) : Item → Prop
  | .modifier i => s.mods.toNat.testBit i
  | .key u => u ∈ s.keys
  | .button i => s.buttons.toNat.testBit i

/-- The calls that press and let go. -/
inductive Call where
  | tap (key : Key)
  | combo (chord : List Key)
  | typeText (text : List Char)
  | click (button : List Char)
  | releaseEverything

def Call.run (env : Env) : Call → WireM Unit
  | .tap key => Session.tap env key
  | .combo chord => Session.combo env chord
  | .typeText text => Session.typeText env text
  | .click button => Session.click env button
  | .releaseEverything => Session.releaseEverything env

/-- The frames of a call. -/
def framesSince (w w' : Wire) : List (List UInt8) := w'.port.sent.drop w.port.sent.length

/-- After a report that was written with something pressed that is not held when the call is over,
a report of the same device without it was sent. -/
def NeverAbandons (env : Env) (call : Call) (w : Wire) : Prop :=
  ∀ r w', Ends (call.run env) w r w' → ∀ k f item, (framesSince w w')[k]? = some f →
    (env.exchange (w.port.now + k)).write = none → item.Pressed f → ¬w'.session.Holds item →
    ∃ j f', k < j ∧ (framesSince w w')[j]? = some f' ∧ item.Reported f' ∧ ¬item.Pressed f'

section Frames

variable {s s' : Session} {f : List UInt8} {fs fs' : List (List UInt8)}

/-- Only what is held is pressed. -/
def Covered (s : Session) (f : List UInt8) : Prop := ∀ item : Item, item.Pressed f → s.Holds item

/-- Each frame presses only what is held, or one after it tells the same device so. -/
def LetsGo (s : Session) : List (List UInt8) → Prop
  | [] => True
  | f :: fs =>
      (Covered s f ∨ ∃ f' ∈ fs, Covered s f' ∧ ∀ item : Item, item.Pressed f → item.Reported f') ∧
        LetsGo s fs

theorem letsGo_append (h : LetsGo s fs) (h' : LetsGo s fs') : LetsGo s (fs ++ fs') := by
  induction fs with
  | nil => exact h'
  | cons f fs ih =>
      obtain ⟨hf, hfs⟩ := h
      refine ⟨hf.imp id ?_, ih hfs⟩
      rintro ⟨f', hmem, hcov⟩
      exact ⟨f', List.mem_append_left _ hmem, hcov⟩

theorem letsGo_of_covered (h : ∀ f ∈ fs, Covered s f) : LetsGo s fs := by
  induction fs with
  | nil => trivial
  | cons f fs ih =>
      exact ⟨.inl (h f List.mem_cons_self), ih fun f hf => h f (List.mem_cons_of_mem _ hf)⟩

theorem LetsGo.congr (hs : ∀ item, s'.Holds item ↔ s.Holds item) (h : LetsGo s fs) :
    LetsGo s' fs := by
  have hcov : ∀ f, Covered s f → Covered s' f :=
    fun f hf item hitem => (hs item).mpr (hf item hitem)
  induction fs with
  | nil => trivial
  | cons f fs ih =>
      obtain ⟨hf, hfs⟩ := h
      refine ⟨hf.imp (hcov f) ?_, ih hfs⟩
      rintro ⟨f', hmem, hf', hdevice⟩
      exact ⟨f', hmem, hcov f' hf', hdevice⟩

theorem LetsGo.exists_later {k : Nat} {item : Item} (h : LetsGo s fs) (hk : fs[k]? = some f)
    (hpressed : item.Pressed f) (hnot : ¬s.Holds item) :
    ∃ j f', k < j ∧ fs[j]? = some f' ∧ item.Reported f' ∧ ¬item.Pressed f' := by
  induction fs generalizing k with
  | nil => cases hk
  | cons g fs ih =>
      obtain ⟨hg, hfs⟩ := h
      cases k with
      | zero =>
          rw [List.getElem?_cons_zero] at hk
          obtain rfl := Option.some.inj hk
          rcases hg with hcov | ⟨f', hmem, hcov, hdevice⟩
          · exact absurd (hcov item hpressed) hnot
          · obtain ⟨j, hj⟩ := List.mem_iff_getElem?.mp hmem
            exact ⟨j + 1, f', Nat.succ_pos j, hj, hdevice item hpressed,
              fun hp => hnot (hcov item hp)⟩
      | succ k =>
          obtain ⟨j, f', hlt, hj, hrest⟩ := ih hfs hk
          exact ⟨j + 1, f', Nat.succ_lt_succ hlt, hj, hrest⟩

theorem mouseReport_keyboard (data : List UInt8) :
    mouseReport (frame cmdKbGeneral data) = none := by
  rcases data with _ | ⟨x, _ | ⟨y, data⟩⟩
  · rfl
  · rfl
  · rfl

theorem keyboardReport_mouse (data : List UInt8) :
    keyboardReport (frame cmdMsRel data) = none := by
  have hcmd : ¬cmdMsRel = cmdKbGeneral := by decide
  rcases data with _ | ⟨x, _ | ⟨y, data⟩⟩
  · rfl
  · rfl
  · simp only [frame, List.cons_append, List.nil_append, keyboardReport]
    rw [if_neg fun h => hcmd h.1]

/-- What a keyboard report presses, keyboard reports tell about. -/
theorem reported_of_keyboard {item : Item} {data : List UInt8}
    (h : item.Pressed (frame cmdKbGeneral data)) {f : List UInt8} {r : Report}
    (hf : keyboardReport f = some r) : item.Reported f := by
  cases item with
  | modifier i | key u =>
      rw [Item.Reported, hf]
      rfl
  | button i =>
      obtain ⟨b, hb, -⟩ := h
      rw [mouseReport_keyboard] at hb
      cases hb

/-- The held report presses only what is held. -/
theorem covered_held (s : Session) : Covered s (frame cmdKbGeneral s.heldData) := by
  have hread : keyboardReport (frame cmdKbGeneral ([s.mods, 0x00] ++ slots s.keys)) = _ :=
    keyboardReport_frame (length_slots s.keys)
  intro item hitem
  cases item with
  | modifier i =>
      obtain ⟨r, hr, hbit⟩ := hitem
      rw [heldData, hread] at hr
      rwa [← Option.some.inj hr] at hbit
  | key u =>
      obtain ⟨r, hr, hu⟩ := hitem
      rw [heldData, hread] at hr
      rw [← Option.some.inj hr, HidProtocol.report, List.mem_toFinset, List.mem_filter,
        decide_eq_true_eq, slots, List.mem_append] at hu
      rcases hu.1 with hmem | hmem
      · exact List.mem_of_mem_take hmem
      · exact absurd (List.eq_of_mem_replicate hmem) hu.2
  | button i =>
      obtain ⟨b, hb, -⟩ := hitem
      rw [mouseReport_keyboard] at hb
      cases hb

/-- A press, and then the held report at least once. -/
theorem letsGo_press (data : List UInt8) (extra : List (List UInt8))
    (hextra : ∀ f ∈ extra, f = frame cmdKbGeneral s.heldData) :
    LetsGo s (frame cmdKbGeneral data :: frame cmdKbGeneral s.heldData :: extra) := by
  refine ⟨.inr ⟨_, List.mem_cons_self, covered_held s, fun item hitem => ?_⟩, .inl (covered_held s),
    letsGo_of_covered fun f hf => ?_⟩
  · exact reported_of_keyboard hitem (keyboardReport_frame (length_slots s.keys))
  · rw [hextra f hf]
    exact covered_held s

end Frames

section Keyboard

variable {env : Env}

theorem letsGo_hold (env : Env) (press release : Session → Session) (w : Wire) :
    ∃ r w' frames, Ends (hold env press release) w r w' ∧ w'.port.sent = w.port.sent ++ frames ∧
      LetsGo w'.session frames := by
  obtain ⟨r, w', extra, hends, hsession, hsent, hextra, -⟩ := ends_hold env press release w
  refine ⟨r, w', _, hends, hsent, ?_⟩
  rw [← hsession] at hextra ⊢
  exact letsGo_press _ _ hextra

theorem letsGo_strike (env : Env) (data : List UInt8) (w : Wire) :
    ∃ r w' frames, Ends (strike env data) w r w' ∧ w'.session = w.session ∧
      w'.port.sent = w.port.sent ++ frames ∧ LetsGo w.session frames := by
  let w₁ : Wire := w.logged (frame cmdKbGeneral data)
  let w₂ : Wire := w₁.logged (frame cmdKbGeneral w.session.heldData)
  obtain ⟨r, w', hfinish, hsession, hport, -⟩ := ends_finishHold env
    (done (outcome env cmdKbGeneral w.port.now))
    (done (outcome env cmdKbGeneral (w.port.now + 1))) w₂
  have hends : Ends (strike env data) w r w' :=
    (ends_attempt (ends_command env cmdKbGeneral data w)).bind
      ((ends_attempt (ends_pushKeyboard env w₁)).bind hfinish)
  have hsent : w₂.port.sent = w.port.sent ++ [frame cmdKbGeneral data,
    frame cmdKbGeneral w.session.heldData] := List.append_assoc _ _ _
  rcases hport with hport | ⟨hport, -⟩
  · refine ⟨r, w', _, hends, hsession, ?_, letsGo_press data [] nofun⟩
    rw [hport, hsent]
  · refine ⟨r, w', _, hends, hsession, ?_, letsGo_press data
      [frame cmdKbGeneral w.session.heldData] fun f hf => List.mem_singleton.mp hf⟩
    rw [hport, Wire.logged, hsent, List.append_assoc]
    rfl

theorem holds_rotated {s : Session} {u : UInt8} (hu : u ∈ s.keys) (item : Item) :
    (s.rotated u).Holds item ↔ s.Holds item := by
  cases item with
  | modifier i | button i => exact Iff.rfl
  | key v =>
      rw [Session.Holds, Session.Holds, Session.rotated, List.mem_append, List.mem_filter,
        List.mem_singleton, bne_iff_ne]
      constructor
      · rintro (⟨hv, -⟩ | rfl)
        · exact hv
        · exact hu
      · intro hv
        by_cases hvu : v = u
        · exact .inr hvu
        · exact .inl ⟨hv, hvu⟩

/-- Whatever the chip replies, a character is let go. -/
theorem letsGo_typeChar (env : Env) (c : Char) (w : Wire) :
    ∃ r w' frames, Ends (typeChar env c) w r w' ∧ w'.port.sent = w.port.sent ++ frames ∧
      (∀ item, w'.session.Holds item ↔ w.session.Holds item) ∧ LetsGo w.session frames := by
  cases hc : charToUsage c with
  | error e =>
      refine ⟨.error e, w, [], ?_, (List.append_nil _).symm, fun _ => Iff.rfl, trivial⟩
      rw [typeChar, hc]
      exact Ends.throw e w
  | ok stroke =>
      obtain ⟨u, shift⟩ := stroke
      by_cases hu : u ∈ w.session.keys
      · have hholds : ∀ item, (w.session.rotated u).Holds item ↔ w.session.Holds item :=
          holds_rotated hu
        have hcovered : Covered w.session
            (frame cmdKbGeneral (applyUp (.usage u) w.session).heldData) := by
          intro item hitem
          have hheld := covered_held (applyUp (.usage u) w.session) item hitem
          cases item with
          | modifier i | button i => exact hheld
          | key v => exact (List.mem_filter.mp hheld).1
        cases hdone : done (outcome env cmdKbGeneral w.port.now) with
        | error e =>
            exact ⟨.error e, w.cleared u, [_], ends_typeChar_of_failed hc hu hdone, rfl, hholds,
              .inl hcovered, trivial⟩
        | ok _ =>
            obtain ⟨r, w', frames, hends, hsession, hsent, hlets⟩ :=
              letsGo_strike env (typedReport (w.session.rotated u) u shift) (w.cleared u)
            refine ⟨r, w', _ :: frames, ends_typeChar_of_cleared hc hu hdone hends, ?_, ?_,
              .inl hcovered, hlets.congr fun item => (hholds item).symm⟩
            · rw [hsent]
              exact List.append_assoc _ _ _
            · rw [hsession]
              exact hholds
      · obtain ⟨r, w', frames, hends, hsession, hsent, hlets⟩ :=
          letsGo_strike env (typedReport w.session u shift) w
        exact ⟨r, w', frames, ends_typeChar_of_free hc hu hends, hsent,
          fun item => hsession ▸ Iff.rfl, hlets⟩

theorem letsGo_typeChars (env : Env) (text : List Char) (w : Wire) :
    ∃ r w' frames, Ends (typeChars env text) w r w' ∧ w'.port.sent = w.port.sent ++ frames ∧
      (∀ item, w'.session.Holds item ↔ w.session.Holds item) ∧ LetsGo w.session frames := by
  induction text generalizing w with
  | nil => exact ⟨.ok (), w, [], Ends.pure () w, (List.append_nil _).symm, fun _ => Iff.rfl, trivial⟩
  | cons c text ih =>
      obtain ⟨r₁, w₁, frames₁, hends₁, hsent₁, hholds₁, hlets₁⟩ := letsGo_typeChar env c w
      cases r₁ with
      | error e => exact ⟨.error e, w₁, frames₁, hends₁.bind_error, hsent₁, hholds₁, hlets₁⟩
      | ok _ =>
          obtain ⟨r₂, w₂, frames₂, hends₂, hsent₂, hholds₂, hlets₂⟩ := ih w₁
          refine ⟨r₂, w₂, frames₁ ++ frames₂, hends₁.bind hends₂, ?_,
            fun item => (hholds₂ item).trans (hholds₁ item),
            letsGo_append hlets₁ (hlets₂.congr fun item => (hholds₁ item).symm)⟩
          rw [hsent₂, hsent₁, List.append_assoc]

end Keyboard

section Mouse

def mouseFrame (buttons : UInt8) : List UInt8 :=
  frame cmdMsRel [0x01, buttons, UInt8.ofNat 0, UInt8.ofNat 0, UInt8.ofNat 0]

theorem ends_pushMouseRel (env : Env) (buttons : UInt8) (w : Wire) :
    Ends (pushMouseRel env buttons 0 0 0) w (done (outcome env cmdMsRel w.port.now))
      (w.logged (mouseFrame buttons)) := ends_command env cmdMsRel _ w

theorem mouseReport_mouseFrame (buttons : UInt8) :
    mouseReport (mouseFrame buttons) = some buttons := rfl

theorem pressed_mouseFrame {item : Item} {buttons : UInt8} (h : item.Pressed (mouseFrame buttons)) :
    ∃ i, item = .button i ∧ buttons.toNat.testBit i := by
  cases item with
  | modifier i | key u =>
      obtain ⟨r, hr, -⟩ := h
      rw [mouseFrame, keyboardReport_mouse] at hr
      cases hr
  | button i =>
      obtain ⟨b, hb, hbit⟩ := h
      rw [mouseReport_mouseFrame] at hb
      rw [← Option.some.inj hb] at hbit
      exact ⟨i, rfl, hbit⟩

theorem covered_mouseFrame {s : Session} {buttons : UInt8} (h : buttons = s.buttons) :
    Covered s (mouseFrame buttons) := by
  intro item hitem
  obtain ⟨i, rfl, hbit⟩ := pressed_mouseFrame hitem
  rw [h] at hbit
  exact hbit

theorem letsGo_releaseEverything (env : Env) (w : Wire) :
    ∃ r w' frames, Ends (releaseEverything env) w r w' ∧ w'.port.sent = w.port.sent ++ frames ∧
      LetsGo w'.session frames := by
  let cleared : Session := { w.session with mods := 0, keys := [] }
  let w₁ : Wire := { w with session := cleared }
  let w₂ : Wire := w₁.logged (frame cmdKbGeneral cleared.heldData)
  have hkeys : Ends (releaseAll env) w (done (outcome env cmdKbGeneral w.port.now)) w₂ :=
    (ends_modifySession _ w).bind (ends_pushKeyboard env w₁)
  cases hdone : done (outcome env cmdKbGeneral w.port.now) with
  | error e =>
      rw [hdone] at hkeys
      exact ⟨_, w₂, [frame cmdKbGeneral cleared.heldData], hkeys.bind_error, rfl,
        .inl (covered_held cleared), trivial⟩
  | ok _ =>
      rw [hdone] at hkeys
      let released : Session := { cleared with buttons := 0 }
      let w₃ : Wire := { w₂ with session := released }
      refine ⟨_, w₃.logged (mouseFrame 0), [frame cmdKbGeneral released.heldData, mouseFrame 0],
        hkeys.bind ((ends_modifySession _ w₂ : Ends _ w₂ _ w₃).bind (ends_pushMouseRel env 0 w₃)), ?_,
        .inl (covered_held released), .inl (covered_mouseFrame rfl), trivial⟩
      exact List.append_assoc _ _ _

end Mouse

section Calls

variable {env : Env} {w : Wire}

theorem NeverAbandons.of_letsGo {call : Call}
    (h : ∃ r w' frames, Ends (call.run env) w r w' ∧ w'.port.sent = w.port.sent ++ frames ∧
      LetsGo w'.session frames) : NeverAbandons env call w := by
  obtain ⟨r₀, w₀, frames, hends₀, hsent, hlets⟩ := h
  intro r w' hends k f item hk _ hpressed hnot
  obtain ⟨-, rfl⟩ := hends.unique hends₀
  rw [framesSince, hsent, List.drop_left] at hk ⊢
  exact hlets.exists_later hk hpressed hnot

theorem neverAbandons_typeText (env : Env) (text : List Char) (w : Wire) :
    NeverAbandons env (.typeText text) w := by
  apply NeverAbandons.of_letsGo
  cases hlen : checkTypeLen text with
  | error e =>
      refine ⟨.error e, w, [], ?_, (List.append_nil _).symm, trivial⟩
      rw [Call.run, typeText, hlen]
      exact Ends.throw e w
  | ok _ =>
      obtain ⟨r, w', frames, hends, hsent, hholds, hlets⟩ := letsGo_typeChars env text w
      refine ⟨r, w', frames, ?_, hsent, hlets.congr hholds⟩
      rw [Call.run, typeText, hlen]
      exact hends

theorem neverAbandons_combo (env : Env) (chord : List Key) (w : Wire) :
    NeverAbandons env (.combo chord) w := by
  apply NeverAbandons.of_letsGo
  by_cases hfits : keysNeeded chord w.session.keys ≤ keySlots
  · obtain ⟨r, w', frames, hends, hrest⟩ := letsGo_hold env (pressAll chord) (letGo chord) w
    exact ⟨r, w', frames, (ends_combo_iff env hfits).mpr hends, hrest⟩
  · obtain ⟨e, hends⟩ := ends_combo_refused env (Nat.lt_of_not_le hfits)
    exact ⟨.error e, w, [], hends, (List.append_nil _).symm, trivial⟩

/-- The condition on a click: the button is unknown or held, its press is not written, or it is
answered with success. -/
def PressAnswered (env : Env) (w : Wire) (button : List Char) : Prop :=
  ∀ mask, buttonMask button = .ok mask → (env.exchange w.port.now).write = none →
    (∀ p, readReply cmdMsRel (env.exchange w.port.now) ≠ .ok p) →
    w.session.buttons ||| mask = w.session.buttons

theorem ends_click_error {button : List Char} {mask : UInt8} {e : String}
    (hmask : buttonMask button = .ok mask)
    (h : done (outcome env cmdMsRel w.port.now) = .error e) :
    Ends (click env button) w (.error e) (w.logged (mouseFrame (w.session.buttons ||| mask))) := by
  have hpress := ends_pushMouseRel env (w.session.buttons ||| mask) w
  rw [h] at hpress
  rw [click, hmask]
  exact (ends_getSession w).bind hpress.bind_error

theorem ends_click_ok {button : List Char} {mask : UInt8} (hmask : buttonMask button = .ok mask)
    (h : done (outcome env cmdMsRel w.port.now) = .ok ()) :
    Ends (click env button) w (done (outcome env cmdMsRel (w.port.now + 1)))
      ((w.logged (mouseFrame (w.session.buttons ||| mask))).logged
        (mouseFrame w.session.buttons)) := by
  have hpress := ends_pushMouseRel env (w.session.buttons ||| mask) w
  rw [h] at hpress
  rw [click, hmask]
  exact (ends_getSession w).bind (hpress.bind (ends_pushMouseRel env _ _))

/-- A byte that is more than another has a bit that the other has not. -/
theorem exists_testBit {a b : UInt8} (h : a ||| b ≠ a) :
    ∃ i, (a ||| b).toNat.testBit i ∧ ¬a.toNat.testBit i := by
  by_contra hnone
  apply h
  rw [← UInt8.toNat_inj]
  apply Nat.eq_of_testBit_eq
  intro i
  rw [Bool.eq_iff_iff]
  constructor
  · intro hi
    by_contra hnot
    exact hnone ⟨i, hi, hnot⟩
  · intro hi
    rw [UInt8.toNat_or, Nat.testBit_or, hi, Bool.true_or]

/-- A click that is not answered leaves only its press. -/
theorem neverAbandons_click_error {button : List Char} {mask : UInt8} {e : String}
    (hmask : buttonMask button = .ok mask)
    (h : done (outcome env cmdMsRel w.port.now) = .error e) :
    NeverAbandons env (.click button) w ↔
      ((env.exchange w.port.now).write = none →
        w.session.buttons ||| mask = w.session.buttons) := by
  have hends := ends_click_error hmask h
  constructor
  · intro hnever hwrite
    by_contra hne
    obtain ⟨i, hpressed, hnot⟩ := exists_testBit hne
    obtain ⟨j, f', hj, hf', -⟩ := hnever _ _ hends 0 _ (.button i)
      (by rw [framesSince, Wire.logged, List.drop_left]; rfl) hwrite ⟨_, rfl, hpressed⟩ hnot
    rw [framesSince, Wire.logged, List.drop_left, List.getElem?_eq_none] at hf'
    · cases hf'
    · exact hj
  · intro hcond r w' hrun k f item hk hwrite hpressed hnot
    obtain ⟨-, rfl⟩ := hrun.unique hends
    rw [framesSince, Wire.logged, List.drop_left] at hk
    cases k with
    | zero =>
        obtain rfl := Option.some.inj hk
        exact absurd (covered_mouseFrame (hcond hwrite) item hpressed) hnot
    | succ k => cases hk

/-- A call never abandons a press, unless it is a click whose press was written and not answered
with success, and the button is not held. -/
theorem neverAbandons_iff (env : Env) (call : Call) (w : Wire) :
    NeverAbandons env call w ↔ ∀ button, call = .click button → PressAnswered env w button := by
  have hother : (∀ button, call ≠ .click button) → NeverAbandons env call w →
      (NeverAbandons env call w ↔
        ∀ button, call = .click button → PressAnswered env w button) :=
    fun hne h => ⟨fun _ button heq => absurd heq (hne button), fun _ => h⟩
  cases call with
  | tap key => exact hother (fun _ h => nomatch h) (.of_letsGo (letsGo_hold env _ _ w))
  | combo chord => exact hother (fun _ h => nomatch h) (neverAbandons_combo env chord w)
  | typeText text => exact hother (fun _ h => nomatch h) (neverAbandons_typeText env text w)
  | releaseEverything =>
      exact hother (fun _ h => nomatch h) (.of_letsGo (letsGo_releaseEverything env w))
  | click button =>
      have hclick : (∀ b, Call.click button = .click b → PressAnswered env w b) ↔
          PressAnswered env w button :=
        ⟨fun h => h button rfl, fun h b hb => Call.click.inj hb ▸ h⟩
      rw [hclick]
      cases hmask : buttonMask button with
      | error e =>
          have hnone : Ends (click env button) w (.error e) w := by
            rw [click, hmask]
            exact Ends.throw e w
          refine ⟨fun _ mask hm => ?_, fun _ => .of_letsGo ⟨_, w, [], hnone, ?_, trivial⟩⟩
          · rw [hmask] at hm
            cases hm
          · exact (List.append_nil _).symm
      | ok mask =>
          have hpress : PressAnswered env w button ↔ ((env.exchange w.port.now).write = none →
              (∀ p, readReply cmdMsRel (env.exchange w.port.now) ≠ .ok p) →
              w.session.buttons ||| mask = w.session.buttons) := by
            refine ⟨fun h => h mask hmask, fun h m hm => ?_⟩
            rw [hmask] at hm
            rwa [← Except.ok.inj hm]
          rw [hpress]
          cases hdone : done (outcome env cmdMsRel w.port.now) with
          | error e =>
              rw [neverAbandons_click_error hmask hdone]
              refine forall_congr' fun hwrite => ?_
              have hreply : ∀ p, readReply cmdMsRel (env.exchange w.port.now) ≠ .ok p := by
                intro p hp
                rw [outcome, hwrite] at hdone
                simp only [hp] at hdone
                cases hdone
              exact ⟨fun h _ => h, fun h => h hreply⟩
          | ok _ =>
              have hends := ends_click_ok hmask hdone
              refine ⟨fun _ hwrite hreply => ?_, fun _ => .of_letsGo ⟨_, _,
                [mouseFrame (w.session.buttons ||| mask), mouseFrame w.session.buttons], hends,
                List.append_assoc _ _ _, ?_⟩⟩
              · rw [outcome, hwrite] at hdone
                cases hr : readReply cmdMsRel (env.exchange w.port.now) with
                | error e =>
                    simp only [hr] at hdone
                    cases hdone
                | ok p => exact absurd hr (hreply p)
              · refine ⟨.inr ⟨_, List.mem_cons_self, covered_mouseFrame rfl, fun item hitem => ?_⟩,
                  .inl (covered_mouseFrame rfl), trivial⟩
                obtain ⟨i, rfl, -⟩ := pressed_mouseFrame hitem
                rfl

end Calls

/-- A chip that carries out every report and whose replies are lost. -/
def muteEnv : Env where
  device := "/dev/ttyUSB0"
  opens _ := true
  exchange _ := ⟨none, [], .timedOut⟩
  setBaudRate _ := none
  openterfaceCdc _ := false

/-- A click with the left button whose press is not answered: the button stays down. -/
theorem not_neverAbandons_muteEnv :
    ¬NeverAbandons muteEnv (.click "left".toList) ⟨Session.fresh 115200, ⟨0, []⟩⟩ := by
  have hmask : buttonMask "left".toList = .ok 0x01 := by decide
  have hlost : done (outcome muteEnv cmdMsRel 0) =
      .error "timed out waiting for CH9329 reply (check device/baud, target on)" := rfl
  rw [neverAbandons_click_error hmask hlost]
  intro h
  exact absurd (h rfl) (by decide)

end Ch9329

end Paniolo
