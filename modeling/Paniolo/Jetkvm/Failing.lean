import Paniolo.Library.Dialogue
import Paniolo.Jetkvm.Hid

/-!
# What a failed call leaves pressed

A report can reach the target although its call fails. So the last report of a
command should say what is held, however many of its calls fail. Almost every way
out of the session keeps to that. It is not so when the release of a held key that
is typed fails, when the press of a click fails, or when the first report of a
release does; and with six keys held a text may be refused after a part of it.
-/

namespace Paniolo

namespace Jetkvm

open Text Dialogue

section Settled

/-- The keyboard report that a call makes. -/
def Rpc.keyboard? : Rpc → Option (UInt8 × List UInt8)
  | .keyboardReport mods keys => some (mods, keys)
  | _ => none

/-- The buttons of the mouse report that a call makes. -/
def Rpc.buttons? : Rpc → Option UInt8
  | .relMouseReport _ _ buttons => some buttons
  | .absMouseReport _ _ buttons => some buttons
  | _ => none

/-- The last report of either kind says what is held. -/
structure Settled (s : Session) (rpcs : List Rpc) : Prop where
  keyboard : ∀ r ∈ (rpcs.filterMap Rpc.keyboard?).getLast?, r = (s.mods, s.held)
  mouse : ∀ b ∈ (rpcs.filterMap Rpc.buttons?).getLast?, b = s.buttons

/-- The call of `sendHeld`. -/
def Session.heldCall (s : Session) : Rpc := .keyboardReport s.mods s.held

variable {s s' : Session} {rpcs rpcs' : List Rpc}

theorem settled_nil (s : Session) : Settled s [] := ⟨nofun, nofun⟩

theorem settled_append_iff (h : Settled s rpcs) : Settled s (rpcs ++ rpcs') ↔ Settled s rpcs' := by
  constructor
  · intro hall
    constructor
    · intro r hr
      apply hall.keyboard
      rw [List.filterMap_append]
      exact List.mem_getLast?_append_of_mem_getLast? hr
    · intro b hb
      apply hall.mouse
      rw [List.filterMap_append]
      exact List.mem_getLast?_append_of_mem_getLast? hb
  · intro h'
    constructor
    · intro r hr
      rw [List.filterMap_append, List.getLast?_append, Option.mem_def, Option.or_eq_some_iff] at hr
      exact hr.elim (h'.keyboard r) fun hr => h.keyboard r hr.2
    · intro b hb
      rw [List.filterMap_append, List.getLast?_append, Option.mem_def, Option.or_eq_some_iff] at hb
      exact hb.elim (h'.mouse b) fun hb => h.mouse b hb.2

theorem settled_append (h : Settled s rpcs) (h' : Settled s rpcs') : Settled s (rpcs ++ rpcs') :=
  (settled_append_iff h).mpr h'

/-- A report of what is held, after others that say nothing of the mouse. -/
theorem settled_heldCall (s : Session) (rpcs : List Rpc) (h : rpcs.filterMap Rpc.buttons? = []) :
    Settled s (rpcs ++ [s.heldCall]) := by
  constructor
  · intro r hr
    rw [List.filterMap_append, List.getLast?_append] at hr
    exact (Option.some.inj hr).symm
  · rw [List.filterMap_append, h]
    exact nofun

/-- Mouse reports with the buttons that are held. -/
theorem settled_mouse (h : ∀ rpc ∈ rpcs, rpc.keyboard? = none ∧ ∀ b ∈ rpc.buttons?, b = s.buttons) :
    Settled s rpcs := by
  constructor
  · have hnone : rpcs.filterMap Rpc.keyboard? = [] :=
      List.filterMap_eq_nil_iff.mpr fun rpc hrpc => (h rpc hrpc).1
    rw [hnone]
    exact nofun
  · intro b hb
    obtain ⟨rpc, hrpc, hb⟩ := List.mem_filterMap.mp (List.mem_of_getLast? hb)
    exact (h rpc hrpc).2 b hb

end Settled

section Keeps

variable {α β : Type} {answer : List Rpc → Reply} {s : Session}

/-- However its calls end, the step ends with the session as it was, and its last reports say what
is held. -/
def Keeps (answer : List Rpc → Reply) (x : HidM α) (s : Session) : Prop :=
  ∀ asked, ∃ r sent, ComesTo answer x s asked r s (asked ++ sent) ∧ Settled s sent

/-- The same, for what is held after the step. -/
def Settles (answer : List Rpc → Reply) (x : HidM α) (s : Session) : Prop :=
  ∀ asked, ∃ r s' sent, ComesTo answer x s asked r s' (asked ++ sent) ∧ Settled s' sent

theorem Keeps.settles {x : HidM α} (h : Keeps answer x s) : Settles answer x s := fun asked =>
  have ⟨r, sent, hends, hsettled⟩ := h asked
  ⟨r, s, sent, hends, hsettled⟩

theorem settles_modifySession (g : Session → Session) {x : HidM α} (h : Settles answer x (g s)) :
    Settles answer (modifySession g >>= fun _ => x) s := h

theorem keeps_of_comesTo {x : HidM α} {r : Except String α}
    (h : ∀ asked, ComesTo answer x s asked r s asked) : Keeps answer x s := by
  intro asked
  refine ⟨r, [], ?_, settled_nil s⟩
  rw [List.append_nil]
  exact h asked

theorem keeps_pure (a : α) (s : Session) : Keeps answer (pure a) s :=
  keeps_of_comesTo (ComesTo.pure a s)

theorem keeps_throw (e : String) (s : Session) : Keeps answer (throw e : HidM α) s :=
  keeps_of_comesTo (ComesTo.throw e s)

theorem keeps_lift (r : Except String α) (s : Session) : Keeps answer (lift r) s :=
  keeps_of_comesTo (comesTo_lift r s)

theorem keeps_getSession {f : Session → HidM α} (h : Keeps answer (f s) s) :
    Keeps answer (getSession >>= f) s := h

theorem keeps_bind {x : HidM α} {f : α → HidM β} (hx : Keeps answer x s)
    (hf : ∀ a, Keeps answer (f a) s) : Keeps answer (x >>= f) s := by
  intro asked
  obtain ⟨r, sent, hends, hsettled⟩ := hx asked
  cases r with
  | error e => exact ⟨.error e, sent, hends.bind_error, hsettled⟩
  | ok a =>
      obtain ⟨r', sent', hends', hsettled'⟩ := hf a (asked ++ sent)
      rw [List.append_assoc] at hends'
      exact ⟨r', sent ++ sent', hends.bind hends', settled_append hsettled hsettled'⟩

/-- An outcome that is looked up first. -/
theorem settles_lift {r : Except String α} {f : α → HidM β}
    (hf : ∀ a, r = .ok a → Settles answer (f a) s) : Settles answer (lift r >>= f) s := by
  cases r with
  | error e => exact (keeps_throw e s).settles
  | ok a => exact hf a rfl

theorem settles_bare {x : HidM Unit} (h : Settles answer x s) : Settles answer (bare x) s := by
  intro asked
  obtain ⟨r, s', sent, hends, hsettled⟩ := h asked
  cases r with
  | error e => exact ⟨.error e, s', sent, hends.bind_error, hsettled⟩
  | ok a => exact ⟨.ok "", s', sent, hends.bind (ComesTo.pure "" s' _), hsettled⟩

theorem keeps_call {rpc : Rpc} {f : Reply → HidM α} (h : Settled s [rpc])
    (hf : ∀ reply, Keeps answer (f reply) s) : Keeps answer (call rpc >>= f) s := by
  intro asked
  obtain ⟨r, sent, hends, hsettled⟩ := hf (answer (asked ++ [rpc])) (asked ++ [rpc])
  rw [List.append_assoc] at hends
  exact ⟨r, [rpc] ++ sent, comesTo_call rpc hends, settled_append h hsettled⟩

theorem keeps_demand {rpc : Rpc} (h : Settled s [rpc]) : Keeps answer (demand rpc) s :=
  keeps_call h fun reply => keeps_bind (keeps_lift reply s) fun _ => keeps_pure () s

end Keeps

section Operations

variable {answer : List Rpc → Reply} {s : Session}

/-- A call that is no report. -/
theorem settled_other {rpc : Rpc} (hkeyboard : rpc.keyboard? = none) (hmouse : rpc.buttons? = none)
    (s : Session) : Settled s [rpc] := by
  apply settled_mouse
  intro rpc' hrpc
  rw [List.mem_singleton.mp hrpc, hmouse]
  exact ⟨hkeyboard, nofun⟩

theorem settled_held (s : Session) : Settled s [s.heldCall] := settled_heldCall s [] rfl

/-- A mouse report with the buttons that are held. -/
theorem settled_buttons {rpc : Rpc} (hkeyboard : rpc.keyboard? = none)
    (hmouse : rpc.buttons? = some s.buttons) : Settled s [rpc] := by
  apply settled_mouse
  intro rpc' hrpc
  rw [List.mem_singleton.mp hrpc, hmouse]
  exact ⟨hkeyboard, fun b hb => (Option.some.inj hb).symm⟩

theorem keeps_sendHeld (s : Session) : Keeps answer sendHeld s :=
  keeps_getSession (keeps_demand (settled_held s))

theorem keeps_relMouse (dx dy : Int) (s : Session) : Keeps answer (relMouse dx dy) s :=
  keeps_getSession (keeps_demand (settled_buttons rfl rfl))

theorem settles_keyDown (k : Key) (s : Session) : Settles answer (keyDown k) s := by
  rw [keyDown]
  split
  · exact settles_modifySession _ (keeps_sendHeld _).settles
  · change Settles answer (if k.value ∉ s.held then _ else _) s
    split
    · split
      · exact (keeps_throw _ s).settles
      · exact settles_modifySession _ (keeps_sendHeld _).settles
    · exact (keeps_sendHeld s).settles

theorem settles_keyUp (k : Key) (s : Session) : Settles answer (keyUp k) s :=
  settles_modifySession _ (keeps_sendHeld _).settles

/-- A press and what is held, whether the press fails or not. -/
theorem keeps_press (mods : UInt8) (keys : List UInt8) {f : Reply → HidM Unit}
    (hf : ∀ reply asked, ∃ r, ComesTo answer (f reply) s asked r s (asked ++ [s.heldCall])) :
    Keeps answer (call (.keyboardReport mods keys) >>= f) s := by
  intro asked
  obtain ⟨r, hends⟩ := hf (answer (asked ++ [.keyboardReport mods keys]))
    (asked ++ [.keyboardReport mods keys])
  rw [List.append_assoc] at hends
  exact ⟨r, _, comesTo_call _ hends, settled_heldCall s [_] rfl⟩

theorem keeps_combo (keys : List Key) (s : Session) : Keeps answer (combo keys) s := by
  apply keeps_getSession
  obtain ⟨mods, usages⟩ := chordOf keys s.mods s.held
  dsimp only
  split
  · exact keeps_throw _ s
  · apply keeps_press
    intro reply asked
    cases reply with
    | error e =>
        exact ⟨.error e, comesTo_getSession (comesTo_call s.heldCall (ComesTo.throw e s _))⟩
    | ok _ => exact ⟨_, comesTo_getSession (comesTo_demand _ s.heldCall s asked)⟩

theorem keeps_moveLoop (fuel : Nat) (dx dy : Int) (s : Session) :
    Keeps answer (moveLoop fuel dx dy) s := by
  induction fuel generalizing dx dy with
  | zero => exact keeps_pure () s
  | succ fuel ih =>
      rw [moveLoop]
      split
      · exact keeps_bind (keeps_relMouse _ _ s) fun _ => ih _ _
      · exact keeps_pure () s

theorem keeps_scrollLoop (fuel : Nat) (amount : Int) (s : Session) :
    Keeps answer (scrollLoop fuel amount) s := by
  induction fuel generalizing amount with
  | zero => exact keeps_pure () s
  | succ fuel ih =>
      rw [scrollLoop]
      split
      · exact keeps_bind (keeps_demand (settled_other rfl rfl s)) fun _ => ih _
      · exact keeps_pure () s

theorem keeps_moveAbs (x y : Int) (s : Session) : Keeps answer (moveAbs x y) s :=
  keeps_getSession (keeps_demand (settled_buttons rfl rfl))

theorem settles_mouseDown (button : List Char) (s : Session) :
    Settles answer (mouseDown button) s :=
  settles_lift fun _ _ => settles_modifySession _ (keeps_relMouse 0 0 _).settles

theorem settles_mouseUp (button : List Char) (s : Session) : Settles answer (mouseUp button) s :=
  settles_lift fun _ _ => settles_modifySession _ (keeps_relMouse 0 0 _).settles

theorem keeps_query (label method : String) {rpc : Rpc} (h : Settled s [rpc]) :
    Keeps answer (query label method rpc) s := by
  apply keeps_call h
  intro reply
  cases reply with
  | error e => exact keeps_throw _ s
  | ok r => exact keeps_pure _ s

theorem keeps_info (s : Session) : Keeps answer info s :=
  keeps_bind (keeps_query _ _ (settled_other rfl rfl s)) fun _ =>
    keeps_bind (keeps_query _ _ (settled_other rfl rfl s)) fun _ =>
      keeps_bind (keeps_query _ _ (settled_other rfl rfl s)) fun _ => keeps_pure _ s

end Operations

section Failing

/-- A device that answers the calls by their number, the first one with 1. -/
def numbered (replies : Nat → Reply) (made : List Rpc) : Reply := replies made.length

/-- The call of that number does not fail. -/
def Answered (replies : Nat → Reply) (n : Nat) : Prop := ∃ reply, replies n = .ok reply

/-- None of the first calls fails. -/
def NoneFailed (replies : Nat → Reply) (calls : Nat) : Prop :=
  ∀ n, 0 < n → n ≤ calls → Answered replies n

variable {replies : Nat → Reply} {s : Session}

theorem numbered_append (replies : Nat → Reply) (asked : List Rpc) (rpc : Rpc) :
    numbered replies (asked ++ [rpc]) = replies (asked.length + 1) := by
  rw [numbered, List.length_append, List.length_singleton]

theorem not_answered {n : Nat} {e : String} (h : replies n = .error e) : ¬Answered replies n := by
  rintro ⟨reply, hreply⟩
  rw [h] at hreply
  cases hreply

theorem noneFailed_succ {n : Nat} :
    NoneFailed replies (n + 1) ↔ NoneFailed replies n ∧ Answered replies (n + 1) := by
  constructor
  · intro h
    exact ⟨fun k hpos hk => h k hpos (Nat.le_succ_of_le hk), h _ (Nat.succ_pos n) (Nat.le_refl _)⟩
  · rintro ⟨h, hn⟩ k hpos hk
    rcases Nat.le_succ_iff.mp hk with hk | rfl
    · exact h k hpos hk
    · exact hn

/-- What a click that is not refused comes to. -/
theorem comesTo_click (replies : Nat → Reply) {button : List Char} {mask : UInt8}
    (hmask : buttonMask button = .ok mask) (s : Session) :
    ∃ r sent, ComesTo (numbered replies) (click button) s [] r s sent ∧
      (Settled s sent ↔ s.buttons ||| mask = s.buttons ∨ Answered replies 1) := by
  let press : Rpc := .relMouseReport 0 0 (s.buttons ||| mask)
  cases hreply : replies 1 with
  | error e =>
      refine ⟨.error e, [press], ?_, ?_⟩
      · refine comesTo_lift_bind hmask (comesTo_getSession ?_)
        refine comesTo_modifySession _ (comesTo_call press ?_)
        rw [numbered_append, List.length_nil, hreply]
        exact comesTo_modifySession _ (ComesTo.throw e s [press])
      · constructor
        · intro hsettled
          exact .inl (hsettled.mouse _ rfl)
        · rintro (hsame | hanswered)
          · exact settled_buttons rfl (congrArg some hsame)
          · exact absurd hanswered (not_answered hreply)
  | ok reply =>
      let release : Rpc := .relMouseReport 0 0 s.buttons
      refine ⟨(replies 2).map fun _ => (), [press, release], ?_, ?_⟩
      · refine comesTo_lift_bind hmask (comesTo_getSession ?_)
        refine comesTo_modifySession _ (comesTo_call press ?_)
        rw [numbered_append, List.length_nil, hreply]
        exact comesTo_modifySession _ (comesTo_getSession (comesTo_demand _ release s [press]))
      · refine iff_of_true ⟨nofun, ?_⟩ (.inr ⟨reply, hreply⟩)
        intro b hb
        exact (Option.some.inj hb).symm

/-- One of each with nothing pressed. -/
def Released (rpcs : List Rpc) : Prop :=
  (0, []) ∈ rpcs.filterMap Rpc.keyboard? ∧ 0 ∈ rpcs.filterMap Rpc.buttons?

theorem comesTo_releaseAll (replies : Nat → Reply) (s : Session) :
    ∃ r sent, ComesTo (numbered replies) releaseAll s [] r .new sent ∧ Settled .new sent ∧
      (Released sent ↔ Answered replies 1) := by
  have hkeyboard : ComesTo (numbered replies) sendHeld .new [] ((replies 1).map fun _ => ()) .new
      [.keyboardReport 0 []] := comesTo_getSession (comesTo_demand _ _ .new [])
  cases hreply : replies 1 with
  | error e =>
      rw [hreply] at hkeyboard
      refine ⟨.error e, [.keyboardReport 0 []], ?_, settled_held .new, ?_⟩
      · exact comesTo_modifySession _ hkeyboard.bind_error
      · exact iff_of_false (fun hreleased => by cases hreleased.2) (not_answered hreply)
  | ok reply =>
      rw [hreply] at hkeyboard
      have hmouse : ComesTo (numbered replies) (relMouse 0 0) .new [.keyboardReport 0 []]
          ((replies 2).map fun _ => ()) .new [.keyboardReport 0 [], .relMouseReport 0 0 0] :=
        comesTo_getSession (comesTo_demand _ _ .new _)
      refine ⟨_, _, comesTo_modifySession _ (hkeyboard.bind hmouse), ?_, ?_⟩
      · exact settled_append (settled_held .new) (settled_buttons rfl rfl)
      · exact iff_of_true ⟨List.mem_cons_self, List.mem_cons_self⟩ ⟨reply, hreply⟩

end Failing

section TypeText

variable {replies : Nat → Reply} {s : Session}

/-- After some calls of a `type`: the call that fails first is not the release of a key that is
held and typed, and once anything is sent no character is without a slot. -/
def TypesSafely (replies : Nat → Reply) (s : Session) : Nat → List (UInt8 × Bool) → Prop
  | _, [] => True
  | calls, (usage, _) :: strokes =>
      if usage ∈ s.held then
        Answered replies (calls + 1) ∧ (Answered replies (calls + 2) →
          Answered replies (calls + 3) → TypesSafely replies s (calls + 3) strokes)
      else if s.held.length < maxKeys then
        Answered replies (calls + 1) → Answered replies (calls + 2) →
          TypesSafely replies s (calls + 2) strokes
      else calls = 0

/-- A press that has a slot, and then what is held, whether it fails or not. -/
theorem comesTo_pressStroke (replies : Nat → Reply) (i : Nat) (mods : UInt8) {keys : List UInt8}
    (hkeys : keys.length < maxKeys) (usage : UInt8) (s : Session) (asked : List Rpc) :
    ∃ r, ComesTo (numbered replies) (pressStroke i mods keys usage) s asked r s
        (asked ++ [.keyboardReport mods (keys ++ [usage])] ++ [s.heldCall]) ∧
      (r = .ok () ↔ Answered replies (asked.length + 1) ∧
        Answered replies (asked.length + 2)) := by
  let press : Rpc := .keyboardReport mods (keys ++ [usage])
  let failed : String → Except String Unit := fun e =>
    .error ("typing character " ++ toString i ++ ": " ++ e)
  rw [pressStroke, if_neg (Nat.not_le_of_lt hkeys)]
  have hsecond : numbered replies (asked ++ [press] ++ [s.heldCall]) =
      replies (asked.length + 2) := by
    rw [numbered_append, List.length_append, List.length_singleton]
  cases hreply : replies (asked.length + 1) with
  | error e =>
      refine ⟨failed e, comesTo_call press ?_, iff_of_false ?_ fun h => not_answered hreply h.1⟩
      · rw [numbered_append, hreply]
        exact comesTo_getSession (comesTo_call s.heldCall (ComesTo.throw _ s _))
      · exact nofun
  | ok reply =>
      cases hreply' : replies (asked.length + 2) with
      | error e =>
          refine ⟨failed e, comesTo_call press ?_,
            iff_of_false ?_ fun h => not_answered hreply' h.2⟩
          · rw [numbered_append, hreply]
            refine comesTo_getSession (comesTo_call s.heldCall ?_)
            rw [hsecond, hreply']
            exact ComesTo.throw _ s _
          · exact nofun
      | ok reply' =>
          refine ⟨.ok (), comesTo_call press ?_, iff_of_true ?_ ⟨⟨_, hreply⟩, ⟨_, hreply'⟩⟩⟩
          · rw [numbered_append, hreply]
            refine comesTo_getSession (comesTo_call s.heldCall ?_)
            rw [hsecond, hreply']
            exact ComesTo.pure () s _
          · rfl

/-- A character whose key is not held. -/
theorem comesTo_typeStroke_free (replies : Nat → Reply) (i : Nat) {usage : UInt8}
    (hfree : usage ∉ s.held) (hroom : s.held.length < maxKeys) (shift : Bool) (asked : List Rpc) :
    ∃ r sent, ComesTo (numbered replies) (typeStroke i usage shift) s asked r s (asked ++ sent) ∧
      sent.length = 2 ∧ Settled s sent ∧
      (r = .ok () ↔ Answered replies (asked.length + 1) ∧ Answered replies (asked.length + 2)) := by
  let mods : UInt8 := if shift then s.mods ||| modLeftShift else s.mods
  obtain ⟨r, hends, hr⟩ := comesTo_pressStroke replies i mods hroom usage s asked
  refine ⟨r, [.keyboardReport mods (s.held ++ [usage]), s.heldCall], ?_, rfl,
    settled_heldCall s [_] rfl, hr⟩
  rw [List.append_assoc] at hends
  refine comesTo_getSession ?_
  rw [if_neg hfree]
  exact hends

/-- A character whose key is held: it is released first, and if that fails nothing more is sent. -/
theorem comesTo_typeStroke_held (replies : Nat → Reply) (hheld : s.held.length ≤ maxKeys) (i : Nat)
    {usage : UInt8} (hmem : usage ∈ s.held) (shift : Bool) (asked : List Rpc) :
    (Answered replies (asked.length + 1) → ∃ r sent,
      ComesTo (numbered replies) (typeStroke i usage shift) s asked r s (asked ++ sent) ∧
        sent.length = 3 ∧ Settled s sent ∧ (r = .ok () ↔
          Answered replies (asked.length + 2) ∧ Answered replies (asked.length + 3))) ∧
      (¬Answered replies (asked.length + 1) → ∃ e sent,
        ComesTo (numbered replies) (typeStroke i usage shift) s asked (.error e) s (asked ++ sent) ∧
          ¬Settled s sent) := by
  let mods : UInt8 := if shift then s.mods ||| modLeftShift else s.mods
  let clear : Rpc := .keyboardReport mods (without s.held usage)
  have hkeys : (without s.held usage).length < s.held.length := by
    apply List.length_filter_lt_length_iff_exists.mpr
    exact ⟨usage, hmem, by rw [bne_self_eq_false]; exact Bool.false_ne_true⟩
  have hstroke : ∀ {r sent}, ComesTo (numbered replies) (demand clear >>= fun _ =>
      pressStroke i mods (without s.held usage) usage) s asked r s sent →
      ComesTo (numbered replies) (typeStroke i usage shift) s asked r s sent := by
    intro r sent h
    refine comesTo_getSession ?_
    rw [if_pos hmem]
    exact h
  have hclear := comesTo_demand (numbered replies) clear s asked
  rw [numbered_append] at hclear
  constructor
  · rintro ⟨reply, hreply⟩
    rw [hreply] at hclear
    obtain ⟨r, hends, hr⟩ := comesTo_pressStroke replies i mods
      (lt_of_lt_of_le hkeys hheld) usage s (asked ++ [clear])
    rw [List.length_append] at hr
    refine ⟨r, [clear, .keyboardReport mods (without s.held usage ++ [usage]), s.heldCall], ?_,
      rfl, settled_heldCall s [_, _] rfl, hr⟩
    rw [List.append_assoc, List.append_assoc] at hends
    exact hstroke (hclear.bind hends)
  · intro hfailed
    cases hreply : replies (asked.length + 1) with
    | ok reply => exact absurd ⟨reply, hreply⟩ hfailed
    | error e =>
        rw [hreply] at hclear
        refine ⟨e, [clear], hstroke hclear.bind_error, fun hsettled => ?_⟩
        have hsame := (Prod.mk.inj (hsettled.keyboard _ rfl)).2
        rw [hsame] at hkeys
        exact absurd hkeys (Nat.lt_irrefl _)

/-- What is said of a `type`, after some calls: its last reports say what is held, and an error
without a failed call comes before any report. -/
def TypedSafely (replies : Nat → Reply) (s : Session) (asked : List Rpc) (r : Except String Unit)
    (sent : List Rpc) : Prop :=
  Settled s sent ∧
    ∀ e, r = .error e → NoneFailed replies (asked ++ sent).length → asked ++ sent = []

/-- One stroke and the others after it. -/
theorem comesTo_cons {i : Nat} {usage : UInt8} {shift : Bool} {strokes : List (UInt8 × Bool)}
    {asked sent : List Rpc} {r : Except String Unit} {safe : Prop}
    (hstroke : ComesTo (numbered replies) (typeStroke i usage shift) s asked r s (asked ++ sent))
    (hsettled : Settled s sent) (hr : r = .ok () ↔ NoneFailed replies (asked ++ sent).length)
    (hrest : NoneFailed replies (asked ++ sent).length → ∃ r' sent',
      ComesTo (numbered replies) (typeStrokes (i + 1) strokes) s (asked ++ sent) r' s
          (asked ++ sent ++ sent') ∧
        (TypedSafely replies s (asked ++ sent) r' sent' ↔ safe)) :
    ∃ r' sent', ComesTo (numbered replies) (typeStrokes i ((usage, shift) :: strokes)) s asked r' s
        (asked ++ sent') ∧
      (TypedSafely replies s asked r' sent' ↔
        (NoneFailed replies (asked ++ sent).length → safe)) := by
  cases r with
  | error e =>
      have hfailed : ¬NoneFailed replies (asked ++ sent).length := fun h => by cases hr.mpr h
      refine ⟨.error e, sent, hstroke.bind_error, iff_of_true ⟨hsettled, ?_⟩ ?_⟩
      · exact fun _ _ h => absurd h hfailed
      · exact fun h => absurd h hfailed
  | ok u =>
      have hnone := hr.mp rfl
      obtain ⟨r', sent', hends, hiff⟩ := hrest hnone
      have hsafe : (NoneFailed replies (asked ++ sent).length → safe) ↔ safe :=
        ⟨fun h => h hnone, fun h _ => h⟩
      refine ⟨r', sent ++ sent', ?_, ?_⟩
      · rw [← List.append_assoc]
        exact hstroke.bind hends
      · rw [hsafe, ← hiff, TypedSafely, TypedSafely, List.append_assoc]
        exact and_congr_left' (settled_append_iff hsettled)

/-- By induction on the strokes. -/
theorem comesTo_typeStrokes (hheld : s.held.length ≤ maxKeys) (i : Nat)
    (strokes : List (UInt8 × Bool)) {asked : List Rpc}
    (hnone : NoneFailed replies asked.length) :
    ∃ r sent, ComesTo (numbered replies) (typeStrokes i strokes) s asked r s (asked ++ sent) ∧
      (TypedSafely replies s asked r sent ↔ TypesSafely replies s asked.length strokes) := by
  induction strokes generalizing i asked with
  | nil =>
      refine ⟨.ok (), [], ?_, iff_of_true ⟨settled_nil s, nofun⟩ trivial⟩
      rw [List.append_nil]
      exact ComesTo.pure () s asked
  | cons stroke strokes ih =>
      obtain ⟨usage, shift⟩ := stroke
      rw [TypesSafely]
      by_cases hmem : usage ∈ s.held
      · rw [if_pos hmem]
        obtain ⟨hanswered, hfailed⟩ :=
          comesTo_typeStroke_held replies hheld i hmem shift asked
        by_cases hfirst : Answered replies (asked.length + 1)
        · obtain ⟨r, sent, hstroke, hlength, hsettled, hr⟩ := hanswered hfirst
          have hcalls : NoneFailed replies (asked ++ sent).length ↔
              Answered replies (asked.length + 2) ∧ Answered replies (asked.length + 3) := by
            rw [List.length_append, hlength, noneFailed_succ, noneFailed_succ, noneFailed_succ,
              and_iff_right hnone, and_iff_right hfirst]
          obtain ⟨r', sent', hends, hiff⟩ :=
            comesTo_cons hstroke hsettled (hr.trans hcalls.symm) fun h => ih (i + 1) h
          refine ⟨r', sent', hends, hiff.trans ?_⟩
          rw [and_iff_right hfirst, hcalls, and_imp, List.length_append, hlength]
        · obtain ⟨e, sent, hstroke, hunsettled⟩ := hfailed hfirst
          exact ⟨.error e, sent, hstroke.bind_error,
            iff_of_false (fun h => hunsettled h.1) fun h => hfirst h.1⟩
      · rw [if_neg hmem]
        by_cases hroom : s.held.length < maxKeys
        · rw [if_pos hroom]
          obtain ⟨r, sent, hstroke, hlength, hsettled, hr⟩ :=
            comesTo_typeStroke_free replies i hmem hroom shift asked
          have hcalls : NoneFailed replies (asked ++ sent).length ↔
              Answered replies (asked.length + 1) ∧ Answered replies (asked.length + 2) := by
            rw [List.length_append, hlength, noneFailed_succ, noneFailed_succ, and_assoc,
              and_iff_right hnone]
          obtain ⟨r', sent', hends, hiff⟩ :=
            comesTo_cons hstroke hsettled (hr.trans hcalls.symm) fun h => ih (i + 1) h
          refine ⟨r', sent', hends, hiff.trans ?_⟩
          rw [hcalls, and_imp, List.length_append, hlength]
        · rw [if_neg hroom]
          let e : String := "cannot type with " ++ toString s.held.length ++ " keys already held"
          have hstroke : ComesTo (numbered replies) (typeStroke i usage shift) s asked (.error e) s
              asked := by
            refine comesTo_getSession ?_
            rw [if_neg hmem, pressStroke, if_pos (Nat.le_of_not_lt hroom)]
            exact ComesTo.throw _ s asked
          refine ⟨.error e, [], ?_, ?_⟩
          · rw [List.append_nil]
            exact hstroke.bind_error
          · rw [TypedSafely, List.append_nil, List.length_eq_zero_iff]
            constructor
            · exact fun h => h.2 _ rfl hnone
            · exact fun h => ⟨settled_nil s, fun _ _ _ => h⟩

end TypeText

section Lines

/-- A line without its terminator and the blanks before it. -/
def commandOf (line : List Char) : List Char :=
  (line.rdropWhile isNewline).dropWhile fun c => c == ' ' || c == '\t'

def headOf (line : List Char) : List Char :=
  ((splitOnce (· == ' ') (commandOf line)).map Prod.fst).getD (commandOf line)

/-- The verb of a line, in lower case; a line with a newline in it has none. -/
def verbOf (line : List Char) : Option String :=
  if (line.rdropWhile isNewline).any isNewline then none
  else some (String.ofList (toLower (headOf line)))

def argsOf (line : List Char) : List Char :=
  ((splitOnce (· == ' ') (commandOf line)).map fun parts => trim parts.2).getD []

/-- The text of a `type`. -/
def textOf (line : List Char) : List Char :=
  let text := (commandOf line).drop (headOf line).length
  if text.head? = some ' ' then text.tail else text

/-- What is said of a line, with what it came to. -/
structure InStep (replies : Nat → Reply) (line : List Char) (r : Except String String)
    (s' : Session) (sent : List Rpc) : Prop where
  settled : Settled s' sent
  released : verbOf line = some "releaseall" ∨ verbOf line = some "release" → Released sent
  typed : verbOf line = some "type" → ∀ e, r = .error e → NoneFailed replies sent.length → sent = []

/-- A step for the line ends, and the target is in step with what is held. -/
def EndsInStep (replies : Nat → Reply) (s : Session) (line : List Char) (x : HidM String) : Prop :=
  ∃ r s' sent, ComesTo (numbered replies) x s [] r s' sent ∧ InStep replies line r s' sent

/-- The session executes the line, and the target is in step with what is held. -/
def LeavesInStep (replies : Nat → Reply) (s : Session) (line : List Char) : Prop :=
  EndsInStep replies s line (executeLine line)

/-- The calls that may not fail do not. -/
structure Spared (replies : Nat → Reply) (s : Session) (line : List Char) : Prop where
  typed : verbOf line = some "type" → ∀ strokes, checkTypeLen (textOf line) = .ok () →
    strokesOf (textOf line) = .ok strokes → TypesSafely replies s 0 strokes
  clicked : verbOf line = some "click" → ∀ mask,
    buttonMask (buttonOrDefault (argsOf line)) = .ok mask →
      s.buttons ||| mask = s.buttons ∨ Answered replies 1
  released : verbOf line = some "releaseall" ∨ verbOf line = some "release" → Answered replies 1

variable {replies : Nat → Reply} {s s' : Session} {line : List Char} {x : HidM String}
  {r : Except String String} {sent : List Rpc}

theorem endsInStep_iff (h : ComesTo (numbered replies) x s [] r s' sent) :
    EndsInStep replies s line x ↔ InStep replies line r s' sent := by
  constructor
  · rintro ⟨r₁, s₁, sent₁, hends, hin⟩
    obtain ⟨rfl, rfl, rfl⟩ := hends.unique h
    exact hin
  · exact fun hin => ⟨r, s', sent, h, hin⟩

theorem executeLine_eq (h : (line.rdropWhile isNewline).any isNewline = false) :
    executeLine line = executeVerb (commandOf line) (headOf line) (argsOf line) := by
  rw [executeLine, h, if_neg Bool.false_ne_true, headOf, argsOf, commandOf]
  dsimp only
  split
  · next head rest hsplit =>
      rw [hsplit]
      rfl
  · next hsplit =>
      rw [hsplit]
      rfl

/-- A line of another verb. -/
theorem endsInStep_quiet
    (hv : ∀ v ∈ ["type", "click", "releaseall", "release"], verbOf line ≠ some v)
    (hx : Settles (numbered replies) x s) :
    EndsInStep replies s line x ↔ Spared replies s line := by
  have htype := hv "type" (by decide)
  have hclick := hv "click" (by decide)
  have hrelease : ¬(verbOf line = some "releaseall" ∨ verbOf line = some "release") := fun h =>
    h.elim (hv "releaseall" (by decide)) (hv "release" (by decide))
  obtain ⟨r, s', sent, hends, hsettled⟩ := hx []
  rw [endsInStep_iff hends]
  exact iff_of_true ⟨hsettled, fun h => absurd h hrelease, fun h => absurd h htype⟩
    ⟨fun h => absurd h htype, fun h => absurd h hclick, fun h => absurd h hrelease⟩

theorem comesTo_bare {step : HidM Unit} {r : Except String Unit}
    (h : ComesTo (numbered replies) step s [] r s' sent) :
    ComesTo (numbered replies) (bare step) s [] (r.map fun _ => "") s' sent := by
  cases r with
  | error e => exact h.bind_error
  | ok u => exact h.bind (ComesTo.pure "" s' sent)

theorem endsInStep_release (hv : verbOf line = some "releaseall" ∨ verbOf line = some "release") :
    EndsInStep replies s line (bare releaseAll) ↔ Spared replies s line := by
  have htype : verbOf line ≠ some "type" := by
    rcases hv with hv | hv <;> rw [hv] <;> decide
  have hclick : verbOf line ≠ some "click" := by
    rcases hv with hv | hv <;> rw [hv] <;> decide
  obtain ⟨r, sent, hends, hsettled, hiff⟩ := comesTo_releaseAll replies s
  rw [endsInStep_iff (comesTo_bare hends)]
  constructor
  · intro hin
    exact ⟨fun h => absurd h htype, fun h => absurd h hclick, fun h => hiff.mp (hin.released h)⟩
  · intro hspared
    exact ⟨hsettled, fun h => hiff.mpr (hspared.released h), fun h => absurd h htype⟩

theorem endsInStep_click (hv : verbOf line = some "click") :
    EndsInStep replies s line (bare (click (buttonOrDefault (argsOf line)))) ↔
      Spared replies s line := by
  have htype : verbOf line ≠ some "type" := by
    rw [hv]
    decide
  have hrelease : ¬(verbOf line = some "releaseall" ∨ verbOf line = some "release") := by
    rw [hv]
    decide
  have hspared : Spared replies s line ↔ ∀ mask,
      buttonMask (buttonOrDefault (argsOf line)) = .ok mask →
        s.buttons ||| mask = s.buttons ∨ Answered replies 1 :=
    ⟨fun h => h.clicked hv,
      fun h => ⟨fun h => absurd h htype, fun _ => h, fun h => absurd h hrelease⟩⟩
  rw [hspared]
  cases hmask : buttonMask (buttonOrDefault (argsOf line)) with
  | error e =>
      have hends : ComesTo (numbered replies) (click (buttonOrDefault (argsOf line))) s []
          (.error e) s [] := by
        rw [click, hmask]
        exact ComesTo.throw e s []
      rw [endsInStep_iff (comesTo_bare hends)]
      exact iff_of_true ⟨settled_nil s, fun h => absurd h hrelease, fun h => absurd h htype⟩ nofun
  | ok mask =>
      obtain ⟨r, sent, hends, hiff⟩ := comesTo_click replies hmask s
      rw [endsInStep_iff (comesTo_bare hends)]
      constructor
      · intro hin mask' hmask'
        rw [← Except.ok.inj hmask']
        exact hiff.mp hin.settled
      · intro h
        exact ⟨hiff.mpr (h mask rfl), fun h => absurd h hrelease, fun h => absurd h htype⟩

theorem endsInStep_type (hheld : s.held.length ≤ maxKeys) (hv : verbOf line = some "type") :
    EndsInStep replies s line (bare (typeText (textOf line))) ↔ Spared replies s line := by
  have hclick : verbOf line ≠ some "click" := by
    rw [hv]
    decide
  have hrelease : ¬(verbOf line = some "releaseall" ∨ verbOf line = some "release") := by
    rw [hv]
    decide
  have hspared : Spared replies s line ↔ ∀ strokes, checkTypeLen (textOf line) = .ok () →
      strokesOf (textOf line) = .ok strokes → TypesSafely replies s 0 strokes :=
    ⟨fun h => h.typed hv,
      fun h => ⟨fun _ => h, fun h => absurd h hclick, fun h => absurd h hrelease⟩⟩
  -- a text that is refused: nothing is sent
  have hrefused : ∀ {e}, ComesTo (numbered replies) (typeText (textOf line)) s [] (.error e) s [] →
      EndsInStep replies s line (bare (typeText (textOf line))) := fun hends =>
    (endsInStep_iff (comesTo_bare hends)).mpr
      ⟨settled_nil s, fun h => absurd h hrelease, fun _ _ _ _ => rfl⟩
  rw [hspared]
  cases hlen : checkTypeLen (textOf line) with
  | error e =>
      refine iff_of_true (hrefused (e := e) ?_) nofun
      rw [typeText, hlen]
      exact ComesTo.throw e s []
  | ok u =>
      cases hstrokes : strokesOf (textOf line) with
      | error e =>
          refine iff_of_true (hrefused (e := e) ?_) nofun
          refine comesTo_lift_bind hlen ?_
          rw [hstrokes]
          exact ComesTo.throw e s []
      | ok strokes =>
          have hnone : NoneFailed replies ([] : List Rpc).length := by
            intro n hpos hn
            rw [Nat.le_zero.mp hn] at hpos
            cases hpos
          obtain ⟨r, sent, hends, hiff⟩ := comesTo_typeStrokes hheld 1 strokes hnone
          rw [List.nil_append] at hends
          have htext : ComesTo (numbered replies) (typeText (textOf line)) s [] r s sent :=
            comesTo_lift_bind hlen (comesTo_lift_bind hstrokes hends)
          have htyped : InStep replies line (r.map fun _ => "") s sent ↔
              TypesSafely replies s 0 strokes := by
            refine Iff.trans ?_ hiff
            constructor
            · intro hin
              refine ⟨hin.settled, fun e he => hin.typed hv e ?_⟩
              rw [he]
              rfl
            · intro hsafe
              refine ⟨hsafe.1, fun h => absurd h hrelease, fun _ e he => ?_⟩
              cases r with
              | error e' => exact hsafe.2 e' rfl
              | ok u => cases he
          rw [endsInStep_iff (comesTo_bare htext), htyped]
          constructor
          · intro h strokes' _ hstrokes'
            rw [← Except.ok.inj hstrokes']
            exact h
          · exact fun h => h strokes rfl rfl

theorem endsInStep_ite {p : Prop} [Decidable p] {y : HidM String}
    (hx : p → (EndsInStep replies s line x ↔ Spared replies s line))
    (hy : ¬p → (EndsInStep replies s line y ↔ Spared replies s line)) :
    EndsInStep replies s line (if p then x else y) ↔ Spared replies s line := by
  by_cases hp : p
  · rw [if_pos hp]
    exact hx hp
  · rw [if_neg hp]
    exact hy hp

/-- A line of a verb that is none of those where a failed call matters. -/
theorem endsInStep_verb {v : String} (hverb : verbOf line = some v)
    (hv : v ∉ ["type", "click", "releaseall", "release"])
    (hx : Settles (numbered replies) x s) :
    EndsInStep replies s line x ↔ Spared replies s line := by
  apply endsInStep_quiet _ hx
  intro w hw heq
  rw [Option.some.inj (hverb.symm.trans heq)] at hv
  exact hv hw

theorem endsInStep_executeVerb (hheld : s.held.length ≤ maxKeys)
    (hverb : verbOf line = some (String.ofList (toLower (headOf line)))) :
    EndsInStep replies s line (executeVerb (commandOf line) (headOf line) (argsOf line)) ↔
      Spared replies s line := by
  refine endsInStep_ite (fun hv => ?_) fun htype => ?_
  · exact endsInStep_type hheld (hverb.trans (congrArg some hv))
  refine endsInStep_ite (fun hv => ?_) fun _ => ?_
  · refine endsInStep_verb (hverb.trans (congrArg some hv)) (by decide) (settles_bare ?_)
    exact settles_lift fun _ _ => settles_lift fun k _ => (keeps_combo [k] s).settles
  refine endsInStep_ite (fun hv => ?_) fun _ => ?_
  · refine endsInStep_verb (hverb.trans (congrArg some hv)) (by decide) (settles_bare ?_)
    refine settles_lift fun chord _ => ?_
    split
    · exact (keeps_throw _ s).settles
    · exact (keeps_combo chord s).settles
  refine endsInStep_ite (fun hv => ?_) fun _ => ?_
  · refine endsInStep_verb (hverb.trans (congrArg some hv)) (by decide) (settles_bare ?_)
    exact settles_lift fun _ _ => settles_lift fun k _ => settles_keyDown k s
  refine endsInStep_ite (fun hv => ?_) fun _ => ?_
  · refine endsInStep_verb (hverb.trans (congrArg some hv)) (by decide) (settles_bare ?_)
    exact settles_lift fun _ _ => settles_lift fun k _ => settles_keyUp k s
  refine endsInStep_ite (fun hv => ?_) fun hrelease => ?_
  · apply endsInStep_release
    rw [hverb]
    exact hv.imp (congrArg some) (congrArg some)
  refine endsInStep_ite (fun hv => ?_) fun _ => ?_
  · refine endsInStep_verb (hverb.trans (congrArg some hv)) (by decide) (settles_bare ?_)
    exact settles_lift fun _ _ => (keeps_moveLoop _ _ _ s).settles
  refine endsInStep_ite (fun hv => ?_) fun _ => ?_
  · refine endsInStep_verb (hverb.trans (congrArg some hv)) (by decide) (settles_bare ?_)
    exact settles_lift fun _ _ => (keeps_moveAbs _ _ s).settles
  refine endsInStep_ite (fun hv => ?_) fun hclick => ?_
  · exact endsInStep_click (hverb.trans (congrArg some hv))
  refine endsInStep_ite (fun hv => ?_) fun _ => ?_
  · exact endsInStep_verb (hverb.trans (congrArg some hv)) (by decide)
      (settles_bare (settles_mouseDown _ s))
  refine endsInStep_ite (fun hv => ?_) fun _ => ?_
  · exact endsInStep_verb (hverb.trans (congrArg some hv)) (by decide)
      (settles_bare (settles_mouseUp _ s))
  refine endsInStep_ite (fun hv => ?_) fun _ => ?_
  · refine endsInStep_verb (hverb.trans (congrArg some hv)) (by decide) (settles_bare ?_)
    refine settles_lift fun arg _ => ?_
    split
    · exact (keeps_throw _ s).settles
    · exact (keeps_scrollLoop _ _ s).settles
  refine endsInStep_ite (fun hv => ?_) fun _ => ?_
  · refine endsInStep_verb (hverb.trans (congrArg some hv)) (by decide) (Keeps.settles ?_)
    refine keeps_call (settled_other rfl rfl s) fun reply => ?_
    refine keeps_bind (keeps_lift reply s) fun got => ?_
    split
    · exact keeps_throw _ s
    · exact keeps_pure "" s
  refine endsInStep_ite (fun hv => ?_) fun _ => ?_
  · exact endsInStep_verb (hverb.trans (congrArg some hv)) (by decide)
      (keeps_pure versionReply s).settles
  refine endsInStep_ite (fun hv => ?_) fun _ => ?_
  · exact endsInStep_verb (hverb.trans (congrArg some hv)) (by decide) (keeps_info s).settles
  · apply endsInStep_verb hverb _ (keeps_throw _ s).settles
    simp only [List.mem_cons, List.not_mem_nil, or_false, not_or]
    exact ⟨htype, hclick, not_or.mp hrelease⟩

/-- However the calls fail, the line leaves the target in step with what is held exactly when the
calls that may not fail do not. -/
theorem leavesInStep_iff (hheld : s.held.length ≤ maxKeys) (replies : Nat → Reply)
    (line : List Char) : LeavesInStep replies s line ↔ Spared replies s line := by
  rw [LeavesInStep]
  cases hnewline : (line.rdropWhile isNewline).any isNewline with
  | true =>
      have hverb : verbOf line = none := if_pos hnewline
      rw [executeLine, hnewline, if_pos rfl]
      apply endsInStep_quiet _ (keeps_throw _ s).settles
      intro v _
      rw [hverb]
      exact nofun
  | false =>
      have hverb : verbOf line = some (String.ofList (toLower (headOf line))) := by
        rw [verbOf, hnewline]
        rfl
      rw [executeLine_eq hnewline]
      exact endsInStep_executeVerb hheld hverb

/-- With A held, two letters are typed, and the second call fails: what is held was sent. -/
theorem leavesInStep_iff_secondCall :
    LeavesInStep (fun n => if n = 2 then .error "lost" else .ok "null") ⟨0, [0x04], 0⟩
        "type bc".toList ↔
      Spared (fun n => if n = 2 then .error "lost" else .ok "null") ⟨0, [0x04], 0⟩
        "type bc".toList :=
  leavesInStep_iff (by decide) _ _

/-- With A held, the release before an `a` fails: the target may have A up. -/
theorem not_leavesInStep_heldLetter :
    ¬LeavesInStep (fun _ => .error "lost") ⟨0, [0x04], 0⟩ "type a".toList := by
  rintro ⟨r, s', sent, hends, hin⟩
  have hrun : ComesTo (numbered fun _ => .error "lost") (executeLine "type a".toList)
      ⟨0, [0x04], 0⟩ [] (.error "lost") ⟨0, [0x04], 0⟩ [.keyboardReport 0 []] := rfl
  obtain ⟨rfl, rfl, rfl⟩ := hends.unique hrun
  have hlast := hin.settled.keyboard (0, []) rfl
  cases hlast

end Lines

end Jetkvm

end Paniolo
