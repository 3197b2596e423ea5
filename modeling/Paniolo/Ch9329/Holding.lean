import Paniolo.Library.Ending
import Paniolo.HidProtocol.Edges
import Paniolo.Ch9329.Typing

/-!
# Taps and chords on top of what is held

A tap and a chord press their keys and then release them. Released are all keys
that were named, also those that were held before, and a tap does not press a
key for which there is no slot: so what is held is restored, and everything was
pressed, exactly when the keys fit and none of them is held.
-/

namespace Paniolo

namespace Ch9329

open HidProtocol Session

section Sending

variable (env : Env) {α : Type} {w w' : Wire}

/-- What comes of a command that is the `n`th operation on the port. -/
def outcome (env : Env) (cmd : UInt8) (n : Nat) : Except String (List UInt8) :=
  match (env.exchange n).write with
  | some e => .error ("serial write failed: " ++ e)
  | none => readReply cmd (env.exchange n)

/-- Whether it was carried out. -/
def done (r : Except String (List UInt8)) : Except String Unit := r.map fun _ => ()

/-- A frame is handed to the port. -/
def Wire.logged (w : Wire) (f : List UInt8) : Wire :=
  { w with port := ⟨w.port.now + 1, w.port.sent ++ [f]⟩ }

theorem ends_send (cmd : UInt8) (data : List UInt8) (w : Wire) :
    Ends (send env cmd data) w (outcome env cmd w.port.now) (w.logged (frame cmd data)) := by
  have hget : Ends (get : WireM Wire) w (.ok w) w := rfl
  have hset : Ends (set (w.logged (frame cmd data)) : WireM PUnit) w (.ok PUnit.unit)
    (w.logged (frame cmd data)) := rfl
  refine hget.bind (hset.bind ?_)
  rw [outcome]
  cases hwrite : (env.exchange w.port.now).write with
  | some e => exact Ends.throw _ _
  | none =>
      simp only
      cases readReply cmd (env.exchange w.port.now) with
      | error e => exact Ends.throw _ _
      | ok p => exact Ends.pure _ _

theorem ends_getSession (w : Wire) : Ends getSession w (.ok w.session) w := rfl

theorem ends_modifySession (f : Session → Session) (w : Wire) :
    Ends (modifySession f) w (.ok ()) { w with session := f w.session } := rfl

theorem ends_attempt {x : WireM α} {r : Except String α} (h : Ends x w r w') :
    Ends (attempt x) w (.ok r) w' := by
  change ((Except.ok (ExceptT.run x w).1 : Except String (Except String α)),
    (ExceptT.run x w).2) = _
  rw [h]

/-- A command whose reply carries nothing. -/
theorem ends_command (cmd : UInt8) (data : List UInt8) (w : Wire) :
    Ends (do let _ ← send env cmd data) w (done (outcome env cmd w.port.now))
      (w.logged (frame cmd data)) := by
  have hsend := ends_send env cmd data w
  cases h : outcome env cmd w.port.now with
  | ok p =>
      rw [h] at hsend
      exact hsend.bind (Ends.pure () _)
  | error e =>
      rw [h] at hsend
      exact hsend.bind_error

theorem ends_pushKeyboard (w : Wire) :
    Ends (pushKeyboard env) w (done (outcome env cmdKbGeneral w.port.now))
      (w.logged (frame cmdKbGeneral w.session.heldData)) :=
  (ends_getSession w).bind (ends_command env _ _ w)

theorem Obliging.done_outcome {env : Env} (henv : Obliging env) (n : Nat) :
    done (outcome env cmdKbGeneral n) = .ok () := by
  obtain ⟨hwrite, p, hp⟩ := henv n
  rw [outcome, hwrite, hp]
  rfl

/-- After a press a failed release is tried once more. -/
theorem ends_finishHold (pressed released : Except String Unit) (w : Wire) :
    ∃ r w', Ends (finishHold env pressed released) w r w' ∧ w'.session = w.session ∧
      (w'.port = w.port ∨
        w'.port = (w.logged (frame cmdKbGeneral w.session.heldData)).port ∧ r ≠ .ok ()) ∧
      (r = .ok () ↔ pressed = .ok () ∧ released = .ok ()) := by
  cases pressed with
  | error e => exact ⟨_, w, Ends.throw e w, rfl, .inl rfl, nofun, nofun⟩
  | ok _ =>
      cases released with
      | ok _ => exact ⟨_, w, Ends.pure () w, rfl, .inl rfl, fun _ => ⟨rfl, rfl⟩, fun _ => rfl⟩
      | error e =>
          refine ⟨_, _, (ends_attempt (ends_pushKeyboard env w)).bind (Ends.throw e _), rfl,
            .inr ⟨rfl, nofun⟩, nofun, fun h => ?_⟩
          cases h.2

end Sending

section Hold

variable (env : Env) (press release : Session → Session)

/-- A press and a release, as `tap` and `combo` make them. -/
def hold : WireM Unit := do
  modifySession press
  let pressed ← attempt (pushKeyboard env)
  modifySession release
  let released ← attempt (pushKeyboard env)
  finishHold env pressed released

theorem tap_eq (key : Key) : tap env key = hold env (applyDown key) (applyUp key) := rfl

/-- The reports of the press and of the release, and perhaps the release once more. -/
theorem ends_hold (w : Wire) :
    ∃ r w' extra, Ends (hold env press release) w r w' ∧
      w'.session = release (press w.session) ∧
      w'.port.sent = w.port.sent ++ (frame cmdKbGeneral (press w.session).heldData ::
        frame cmdKbGeneral (release (press w.session)).heldData :: extra) ∧
      (∀ f ∈ extra, f = frame cmdKbGeneral (release (press w.session)).heldData) ∧
      (r = .ok () → extra = []) ∧
      (r = .ok () ↔ done (outcome env cmdKbGeneral w.port.now) = .ok () ∧
        done (outcome env cmdKbGeneral (w.port.now + 1)) = .ok ()) := by
  let w₁ : Wire := { w with session := press w.session }
  let w₂ : Wire := w₁.logged (frame cmdKbGeneral w₁.session.heldData)
  let w₃ : Wire := { w₂ with session := release w₂.session }
  let w₄ : Wire := w₃.logged (frame cmdKbGeneral w₃.session.heldData)
  obtain ⟨r, w', hfinish, hsession, hport, hr⟩ := ends_finishHold env
    (done (outcome env cmdKbGeneral w.port.now))
    (done (outcome env cmdKbGeneral (w.port.now + 1))) w₄
  have hends : Ends (hold env press release) w r w' :=
    (ends_modifySession press w).bind ((ends_attempt (ends_pushKeyboard env w₁)).bind
      ((ends_modifySession release w₂).bind
        ((ends_attempt (ends_pushKeyboard env w₃)).bind hfinish)))
  have hsent : w₄.port.sent = w.port.sent ++ [frame cmdKbGeneral (press w.session).heldData,
    frame cmdKbGeneral (release (press w.session)).heldData] := List.append_assoc _ _ _
  rcases hport with hport | ⟨hport, hne⟩
  · refine ⟨r, w', [], hends, hsession, ?_, nofun, fun _ => rfl, hr⟩
    rw [hport, hsent]
  · refine ⟨r, w', [frame cmdKbGeneral w₄.session.heldData], hends, hsession, ?_, ?_,
      fun h => absurd h hne, hr⟩
    · rw [hport, Wire.logged, hsent, List.append_assoc]
      rfl
    · exact fun f hf => List.mem_singleton.mp hf

end Hold

section TypeChar

variable {env : Env} {w w' : Wire} {c : Char} {u : UInt8} {shift : Bool}
  {r : Except String Unit}

/-- The press of a typed character and what follows it. -/
def strike (env : Env) (data : List UInt8) : WireM Unit := do
  let pressed ← attempt (do let _ ← send env cmdKbGeneral data)
  let released ← attempt (pushKeyboard env)
  finishHold env pressed released

/-- The state after a key that was held has been typed. -/
def Session.rotated (s : Session) (u : UInt8) : Session :=
  { s with keys := s.keys.filter (· != u) ++ [u] }

/-- The key that is typed has been released, and is held again. -/
def Wire.cleared (w : Wire) (u : UInt8) : Wire :=
  { w.logged (frame cmdKbGeneral (Session.applyUp (.usage u) w.session).heldData) with
    session := w.session.rotated u }

theorem ends_typeChar_of_free (hc : charToUsage c = .ok (u, shift)) (hu : u ∉ w.session.keys)
    (h : Ends (strike env (typedReport w.session u shift)) w r w') :
    Ends (typeChar env c) w r w' := by
  rw [typeChar, hc]
  refine (ends_getSession w).bind ?_
  simp only [if_neg hu]
  exact (ends_getSession w).bind h

theorem ends_typeChar_of_cleared (hc : charToUsage c = .ok (u, shift)) (hu : u ∈ w.session.keys)
    (hdone : done (outcome env cmdKbGeneral w.port.now) = .ok ())
    (h : Ends (strike env (typedReport (w.session.rotated u) u shift)) (w.cleared u) r w') :
    Ends (typeChar env c) w r w' := by
  let w₁ : Wire := { w with session := applyUp (.usage u) w.session }
  have hpush := ends_attempt (ends_pushKeyboard env w₁)
  rw [typeChar, hc]
  refine (ends_getSession w).bind ?_
  simp only [if_pos hu]
  refine (ends_modifySession _ w : Ends _ w _ w₁).bind (hpush.bind ?_)
  rw [hdone]
  refine (ends_modifySession _ _ : Ends _ _ _ (w.cleared u)).bind ?_
  exact (ends_getSession (w.cleared u)).bind h

/-- The key is held again even if its release fails. -/
theorem ends_typeChar_of_failed (hc : charToUsage c = .ok (u, shift)) (hu : u ∈ w.session.keys)
    {e : String} (hdone : done (outcome env cmdKbGeneral w.port.now) = .error e) :
    Ends (typeChar env c) w (.error e) (w.cleared u) := by
  let w₁ : Wire := { w with session := applyUp (.usage u) w.session }
  have hpush := ends_attempt (ends_pushKeyboard env w₁)
  rw [typeChar, hc]
  refine (ends_getSession w).bind ?_
  simp only [if_pos hu]
  refine (ends_modifySession _ w : Ends _ w _ w₁).bind (hpush.bind ?_)
  rw [hdone]
  refine (ends_modifySession _ _ : Ends _ _ _ (w.cleared u)).bind ?_
  exact (Ends.throw e (w.cleared u)).bind_error

end TypeChar

section Reachable

/-- A key that a name stands for. -/
def Named (k : Key) : Prop := ∃ name, nameToKey name = .ok k

theorem Named.ne_zero {u : UInt8} (h : Named (.usage u)) : u ≠ 0 := by
  obtain ⟨name, hname⟩ := h
  rw [nameToKey] at hname
  split at hname
  · next v hletter =>
      obtain rfl := Key.usage.inj (Except.ok.inj hname)
      rw [letterUsage.eq_def] at hletter
      split at hletter
      · next c _ =>
          split at hletter
          · next hc =>
              have hle : c.toNat ≤ 90 := hc.2
              rw [← Option.some.inj hletter, ← UInt8.toNat_inj.ne, UInt8.toNat_add,
                UInt8.toNat_ofNat']
              have hA : 'A'.toNat = 65 := rfl
              have h4 : (4 : UInt8).toNat = 4 := rfl
              have h0 : (0 : UInt8).toNat = 0 := rfl
              omega
          · cases hletter
      · cases hletter
  · split at hname
    · next key hfind =>
        have hall : ∀ e ∈ namedKeys, e.2 ≠ .usage 0 := by decide
        rintro rfl
        exact hall _ (List.mem_of_find?_eq_some hfind) (Except.ok.inj hname)
    · cases hname

/-- The operations that change what is held. -/
inductive HeldOp where
  | keyDown (key : Key)
  | keyUp (key : Key)
  | tap (key : Key)
  | combo (chord : List Key)

def HeldOp.keys : HeldOp → List Key
  | .keyDown key | .keyUp key | .tap key => [key]
  | .combo chord => chord

def HeldOp.run (env : Env) : HeldOp → WireM Unit
  | .keyDown key => Session.keyDown env key
  | .keyUp key => Session.keyUp env key
  | .tap key => Session.tap env key
  | .combo chord => Session.combo env chord

/-- The sessions that such operations lead to, whatever the chip replies. -/
inductive Reachable : Session → Prop
  | fresh (rate : Nat) : Reachable (Session.fresh rate)
  | step {env : Env} {op : HeldOp} {w w' : Wire} {r : Except String Unit}
      (h : Reachable w.session) (hkeys : ∀ k ∈ op.keys, Named k) (hrun : Ends (op.run env) w r w') :
      Reachable w'.session

/-- Up to six keys are held, each once. -/
structure Tidy (s : Session) : Prop where
  nodup : s.keys.Nodup
  fits : s.keys.length ≤ keySlots
  ne_zero : ∀ u ∈ s.keys, u ≠ 0

variable {s : Session}

theorem Tidy.applyDown (h : Tidy s) {k : Key} (hk : Named k) : Tidy (applyDown k s) := by
  cases k with
  | modifier bit => exact ⟨h.nodup, h.fits, h.ne_zero⟩
  | usage u =>
      rw [Session.applyDown]
      split
      · next hnew =>
          refine ⟨nodup_append_singleton h.nodup hnew.1, ?_, ?_⟩
          · rw [List.length_append]
            exact hnew.2
          · intro v hv
            rcases List.mem_append.mp hv with hv | hv
            · exact h.ne_zero v hv
            · rw [List.mem_singleton.mp hv]
              exact hk.ne_zero
      · exact h

theorem Tidy.applyUp (h : Tidy s) (k : Key) : Tidy (applyUp k s) := by
  cases k with
  | modifier bit => exact ⟨h.nodup, h.fits, h.ne_zero⟩
  | usage u =>
      exact ⟨h.nodup.filter _, (List.length_filter_le _ _).trans h.fits,
        fun v hv => h.ne_zero v (List.mem_filter.mp hv).1⟩

theorem Tidy.pressAll {chord : List Key} (h : Tidy s) (hkeys : ∀ k ∈ chord, Named k) :
    Tidy (chord.foldl (fun s k => Session.applyDown k s) s) := by
  induction chord generalizing s with
  | nil => exact h
  | cons k chord ih =>
      exact ih (h.applyDown (hkeys k List.mem_cons_self))
        fun k hk => hkeys k (List.mem_cons_of_mem _ hk)

theorem Tidy.releaseAll (h : Tidy s) (chord : List Key) :
    Tidy (chord.foldl (fun s k => Session.applyUp k s) s) := by
  induction chord generalizing s with
  | nil => exact h
  | cons k chord ih => exact ih (h.applyUp k)

/-- A chord that needs too many slots changes and sends nothing. -/
theorem ends_combo_refused (env : Env) {chord : List Key} {w : Wire}
    (h : keySlots < keysNeeded chord w.session.keys) : ∃ e, Ends (combo env chord) w (.error e) w := by
  have hmany : keysNeeded chord w.session.keys > keySlots := h
  apply Exists.intro
  apply (ends_getSession w).bind
  simp only [if_pos hmany]
  exact Ends.bind_error (Ends.throw _ w)

/-- One that fits is held and let go. -/
theorem ends_combo_iff (env : Env) {chord : List Key} {w w' : Wire} {r : Except String Unit}
    (h : keysNeeded chord w.session.keys ≤ keySlots) :
    Ends (combo env chord) w r w' ↔
      Ends (hold env (fun s => chord.foldl (fun s k => Session.applyDown k s) s)
        (fun s => chord.foldl (fun s k => Session.applyUp k s) s)) w r w' := by
  obtain ⟨r₀, w₀, hhold⟩ := exists_ends (hold env
    (fun s => chord.foldl (fun s k => Session.applyDown k s) s)
    (fun s => chord.foldl (fun s k => Session.applyUp k s) s)) w
  have hcombo : Ends (combo env chord) w r₀ w₀ := by
    refine (ends_getSession w).bind ?_
    have hfew : ¬keysNeeded chord w.session.keys > keySlots := Nat.not_lt.mpr h
    simp only [if_neg hfew]
    exact hhold
  constructor
  · intro hends
    obtain ⟨rfl, rfl⟩ := hends.unique hcombo
    exact hhold
  · intro hends
    obtain ⟨rfl, rfl⟩ := hends.unique hhold
    exact hcombo

theorem Tidy.step {env : Env} {op : HeldOp} {w w' : Wire} {r : Except String Unit}
    (h : Tidy w.session) (hkeys : ∀ k ∈ op.keys, Named k) (hrun : Ends (op.run env) w r w') :
    Tidy w'.session := by
  cases op with
  | keyDown key =>
      have hends : Ends (Session.keyDown env key) w _ _ :=
        (ends_modifySession (Session.applyDown key) w).bind (ends_pushKeyboard env _)
      obtain ⟨-, rfl⟩ := hrun.unique hends
      exact h.applyDown (hkeys key List.mem_cons_self)
  | keyUp key =>
      have hends : Ends (Session.keyUp env key) w _ _ :=
        (ends_modifySession (Session.applyUp key) w).bind (ends_pushKeyboard env _)
      obtain ⟨-, rfl⟩ := hrun.unique hends
      exact h.applyUp key
  | tap key =>
      obtain ⟨_, _, _, hends, hsession, -⟩ :=
        ends_hold env (Session.applyDown key) (Session.applyUp key) w
      obtain ⟨-, rfl⟩ := hrun.unique hends
      rw [hsession]
      exact (h.applyDown (hkeys key List.mem_cons_self)).applyUp key
  | combo chord =>
      by_cases hfits : keysNeeded chord w.session.keys ≤ keySlots
      · obtain ⟨_, _, _, hends, hsession, -⟩ := ends_hold env
          (fun s => chord.foldl (fun s k => Session.applyDown k s) s)
          (fun s => chord.foldl (fun s k => Session.applyUp k s) s) w
        obtain ⟨-, rfl⟩ := ((ends_combo_iff env hfits).mp hrun).unique hends
        rw [hsession]
        exact (h.pressAll hkeys).releaseAll chord
      · obtain ⟨e, hends⟩ := ends_combo_refused env (Nat.lt_of_not_le hfits)
        obtain ⟨-, rfl⟩ := hrun.unique hends
        exact h

theorem Reachable.tidy (h : Reachable s) : Tidy s := by
  induction h with
  | fresh rate => exact ⟨List.nodup_nil, Nat.zero_le _, nofun⟩
  | step _ hkeys hrun ih => exact ih.step hkeys hrun

end Reachable

section Restoring

/-- The held report. -/
def Session.report (s : Session) : Report := HidProtocol.report s.mods s.keys

def Session.toHeld (s : Session) : Held := ⟨s.mods, s.keys⟩

/-- The keyboard reports that a call sends. -/
def reportsSince (w w' : Wire) : List Report :=
  (w'.port.sent.drop w.port.sent.length).filterMap keyboardReport

/-- What was held is held, is reported last, and every key of the chord was pressed. -/
structure Restored (s : Session) (chord : List Key) (s' : Session) (reports : List Report) :
    Prop where
  mods : s'.mods = s.mods
  keys : s'.keys.toFinset = s.keys.toFinset
  last : reports.getLast? = some s.report
  pressed : ∀ k ∈ chord, ∃ r ∈ reports, k.toKey.In r

/-- Whenever the call succeeds, everything is restored. -/
def Restores (call : Env → WireM Unit) (chord : List Key) (s : Session) : Prop :=
  ∀ env port w', Ends (call env) ⟨s, port⟩ (.ok ()) w' →
    Restored s chord w'.session (reportsSince ⟨s, port⟩ w')

def pressAll (chord : List Key) (s : Session) : Session :=
  chord.foldl (fun s k => Session.applyDown k s) s

def letGo (chord : List Key) (s : Session) : Session :=
  chord.foldl (fun s k => Session.applyUp k s) s

variable {s : Session} {chord : List Key}

theorem keyboardReport_held (h : s.keys.length ≤ keySlots) :
    keyboardReport (frame cmdKbGeneral s.heldData) = some s.report := by
  rw [heldData, keyboardReport_frame (length_slots _), slots_eq h, HidProtocol.report,
    Hidrig.filter_ne_zero_append_replicate]
  rfl

theorem pressAll_eq (h : keysNeeded chord s.keys ≤ keySlots) :
    pressAll chord s =
      { s with
        mods := s.mods ||| bits (chord.map Key.toKey)
        keys := s.keys ++ newKeys s.keys [] (chord.map Key.toKey) } := by
  rw [keysNeeded_eq] at h
  exact foldl_applyDown h (List.append_nil _).symm

theorem letGo_eq (s : Session) : letGo chord s =
    { s with
      mods := s.mods &&& ~~~bits (chord.map Key.toKey)
      keys := s.keys.filter (· ∉ usages (chord.map Key.toKey)) } := foldl_applyUp chord s

theorem mem_chord_usage {u : UInt8} :
    u ∈ usages (chord.map Key.toKey) ↔ Key.usage u ∈ chord := by
  rw [mem_usages, List.mem_map]
  constructor
  · rintro ⟨k, hk, hu⟩
    cases k with
    | modifier bit => cases hu
    | usage v => rwa [← HidProtocol.Key.usage.inj hu]
  · exact fun h => ⟨_, h, rfl⟩

/-- Everything in a chord that fits is pressed. -/
theorem in_pressAll (hkeys : ∀ k ∈ chord, Named k) (hfits : keysNeeded chord s.keys ≤ keySlots)
    {k : Key} (hk : k ∈ chord) : k.toKey.In (pressAll chord s).report := by
  rw [pressAll_eq hfits]
  cases k with
  | modifier bit =>
      have hmem : HidProtocol.Key.modifier bit ∈ chord.map Key.toKey := List.mem_map_of_mem hk
      have hbits := bits_and_of_mem hmem
      change (s.mods ||| _) &&& bit = bit
      rw [← hbits, ← UInt8.and_assoc, and_or_self]
  | usage u =>
      have hu := mem_chord_usage.mpr hk
      change u ∈ (List.filter (· ≠ 0) _).toFinset
      rw [List.mem_toFinset, List.mem_filter, decide_eq_true_eq, List.mem_append, mem_newKeys]
      refine ⟨?_, (hkeys _ hk).ne_zero⟩
      by_cases hheld : u ∈ s.keys
      · exact .inl hheld
      · exact .inr (.inr ⟨hu, hheld⟩)

/-- The keys that are left are those held and not named. -/
theorem keys_letGo_pressAll (hfits : keysNeeded chord s.keys ≤ keySlots) :
    (letGo chord (pressAll chord s)).keys =
      s.keys.filter (· ∉ usages (chord.map Key.toKey)) := by
  have hnew : (newKeys s.keys [] (chord.map Key.toKey)).filter
      (· ∉ usages (chord.map Key.toKey)) = [] := by
    rw [List.filter_eq_nil_iff]
    intro u hu
    rcases mem_newKeys.mp hu with hu | ⟨hu, -⟩
    · cases hu
    · rw [decide_eq_true_eq, not_not]
      exact hu
  rw [letGo_eq, pressAll_eq hfits]
  exact (List.filter_append _ _).trans (by rw [hnew, List.append_nil])

/-- A chord that fits restores what was held exactly when none of it was held. -/
theorem restored_iff (hkeys : ∀ k ∈ chord, Named k)
    (hfits : keysNeeded chord s.keys ≤ keySlots) :
    Restored s chord (letGo chord (pressAll chord s))
        [(pressAll chord s).report, (letGo chord (pressAll chord s)).report] ↔
      ∀ k ∈ chord, s.toHeld.Free k.toKey := by
  have hmods : (letGo chord (pressAll chord s)).mods =
      (s.mods ||| bits (chord.map Key.toKey)) &&& ~~~bits (chord.map Key.toKey) := by
    rw [letGo_eq, pressAll_eq hfits]
  have hleft := keys_letGo_pressAll hfits
  constructor
  · intro hr k hk
    cases k with
    | modifier bit =>
        have hfree := or_and_not_eq_self_iff.mp (hmods ▸ hr.mods)
        exact and_eq_zero_of_mem hfree (List.mem_map_of_mem hk)
    | usage u =>
        intro hu
        have hmem : u ∈ (letGo chord (pressAll chord s)).keys.toFinset := by
          rw [hr.keys]
          exact List.mem_toFinset.mpr hu
        rw [List.mem_toFinset, hleft, List.mem_filter, decide_eq_true_eq] at hmem
        exact hmem.2 (mem_chord_usage.mpr hk)
  · intro hfree
    have hfree' : ∀ k ∈ chord.map Key.toKey, s.toHeld.Free k := by
      intro k hk
      obtain ⟨key, hkey, rfl⟩ := List.mem_map.mp hk
      exact hfree key hkey
    have hsame : (letGo chord (pressAll chord s)).mods = s.mods :=
      hmods.trans (or_and_not_eq_self (Held.and_bits_eq_zero hfree'))
    have hheld : (letGo chord (pressAll chord s)).keys = s.keys := by
      rw [hleft, List.filter_eq_self]
      intro u hu
      rw [decide_eq_true_eq, mem_chord_usage]
      exact fun hmem => hfree _ hmem hu
    refine ⟨hsame, by rw [hheld], ?_, fun k hk => ⟨_, List.mem_cons_self, in_pressAll hkeys hfits hk⟩⟩
    rw [Session.report, Session.report, hsame, hheld]
    rfl

/-- What a call that presses and lets go sends, when it succeeds. -/
theorem reportsSince_hold {env : Env} {press release : Session → Session} {w w' : Wire}
    (h : Ends (hold env press release) w (.ok ()) w')
    (hpress : (press w.session).keys.length ≤ keySlots)
    (hrelease : (release (press w.session)).keys.length ≤ keySlots) :
    w'.session = release (press w.session) ∧
      reportsSince w w' = [(press w.session).report, (release (press w.session)).report] := by
  obtain ⟨r, w₀, extra, hends, hsession, hsent, -, hextra, -⟩ := ends_hold env press release w
  obtain ⟨hr, rfl⟩ := h.unique hends
  refine ⟨hsession, ?_⟩
  rw [hextra hr.symm] at hsent
  rw [reportsSince, hsent, List.drop_left, List.filterMap_cons, keyboardReport_held hpress]
  simp only [List.filterMap_cons, keyboardReport_held hrelease, List.filterMap_nil]

/-- With an obliging chip it does succeed. -/
theorem exists_ends_hold {env : Env} (henv : Obliging env) (press release : Session → Session)
    (w : Wire) : ∃ w', Ends (hold env press release) w (.ok ()) w' := by
  obtain ⟨r, w', extra, hends, -, -, -, -, hr⟩ := ends_hold env press release w
  rw [hr.mpr ⟨henv.done_outcome _, henv.done_outcome _⟩] at hends
  exact ⟨w', hends⟩

theorem length_letGo_le (s : Session) : (letGo chord s).keys.length ≤ s.keys.length := by
  rw [letGo_eq]
  exact List.length_filter_le _ _

theorem hold_restores_iff (htidy : Tidy s) (hkeys : ∀ k ∈ chord, Named k)
    (hfits : keysNeeded chord s.keys ≤ keySlots) :
    Restores (fun env => hold env (pressAll chord) (letGo chord)) chord s ↔
      ∀ k ∈ chord, s.toHeld.Free k.toKey := by
  have hpress := (htidy.pressAll hkeys).fits
  have hrelease := ((htidy.pressAll hkeys).releaseAll chord).fits
  rw [← restored_iff hkeys hfits]
  constructor
  · intro h
    obtain ⟨w', hends⟩ := exists_ends_hold obliging_obligingEnv (pressAll chord) (letGo chord)
      ⟨s, ⟨0, []⟩⟩
    obtain ⟨hsession, hreports⟩ := reportsSince_hold hends hpress hrelease
    have hr := h obligingEnv _ w' hends
    rw [hsession, hreports] at hr
    exact hr
  · intro hr env port w' hends
    obtain ⟨hsession, hreports⟩ := reportsSince_hold hends hpress hrelease
    rw [hsession, hreports]
    exact hr

theorem keysNeeded_modifier (bit : UInt8) (held : List UInt8) :
    keysNeeded [.modifier bit] held = held.length := rfl

theorem keysNeeded_of_mem {u : UInt8} {held : List UInt8} (h : u ∈ held) :
    keysNeeded [.usage u] held = held.length := by
  rw [keysNeeded_eq, List.map_singleton, Key.toKey, newKeys, if_neg fun hnew => hnew.2 h]
  rfl

theorem le_keysNeeded (chord : List Key) (held : List UInt8) :
    held.length ≤ keysNeeded chord held := Nat.le_add_right _ _

/-- A key for which there is no slot is not pressed at all. -/
theorem not_restores_tap (htidy : Tidy s) {k : Key}
    (hfull : ¬keysNeeded [k] s.keys ≤ keySlots) : ¬Restores (tap · k) [k] s := by
  intro hrestores
  cases k with
  | modifier bit => exact hfull htidy.fits
  | usage u =>
      have hu : u ∉ s.keys := by
        intro hmem
        rw [keysNeeded_of_mem hmem] at hfull
        exact hfull htidy.fits
      have hpress : applyDown (.usage u) s = s := by
        rw [Session.applyDown, if_neg]
        rintro ⟨-, hroom⟩
        have hle : (newKeys s.keys [] [HidProtocol.Key.usage u]).length ≤ 1 := by
          rw [newKeys]
          split
          · exact Nat.le_refl 1
          · exact Nat.zero_le 1
        rw [keysNeeded_eq, List.map_singleton, Key.toKey] at hfull
        omega
      have hrelease : (applyUp (.usage u) s).keys = s.keys := by
        rw [Session.applyUp, List.filter_eq_self]
        intro v hv
        rw [bne_iff_ne]
        rintro rfl
        exact hu hv
      obtain ⟨w', hends⟩ := exists_ends_hold obliging_obligingEnv (Session.applyDown (.usage u))
        (Session.applyUp (.usage u)) ⟨s, ⟨0, []⟩⟩
      obtain ⟨-, hreports⟩ := reportsSince_hold hends (hpress.symm ▸ htidy.fits)
        (by simp only [hpress, hrelease, htidy.fits])
      obtain ⟨r, hr, hin⟩ := (hrestores obligingEnv _ w' hends).pressed _ List.mem_cons_self
      simp only [hreports, hpress] at hr
      have hkeys : ∀ s' : Session, s'.keys = s.keys → u ∉ s'.report.2 := by
        intro s' hs' hmem
        rw [Session.report, hs', HidProtocol.report, List.mem_toFinset] at hmem
        exact hu (List.mem_filter.mp hmem).1
      rcases List.mem_cons.mp hr with rfl | hr
      · exact hkeys _ rfl hin
      · rw [List.mem_singleton.mp hr] at hin
        exact hkeys _ hrelease hin

/-- In every held state that can be reached, a tap restores what was held, and presses its key,
exactly when there is a slot for it and it is not held; a chord that is not refused does exactly
when none of its keys is held. -/
theorem restores_iff (h : Reachable s) :
    (∀ k, Named k → (Restores (tap · k) [k] s ↔
      keysNeeded [k] s.keys ≤ keySlots ∧ s.toHeld.Free k.toKey)) ∧
    ∀ chord : List Key, (∀ k ∈ chord, Named k) → (Restores (combo · chord) chord s ↔
      (keysNeeded chord s.keys ≤ keySlots → ∀ k ∈ chord, s.toHeld.Free k.toKey)) := by
  have htidy := h.tidy
  refine ⟨fun k hk => ?_, fun chord hkeys => ?_⟩
  · have hkeys : ∀ k' ∈ [k], Named k' := fun k' hk' => List.mem_singleton.mp hk' ▸ hk
    by_cases hfits : keysNeeded [k] s.keys ≤ keySlots
    · have hiff := hold_restores_iff htidy hkeys hfits
      rw [List.forall_mem_singleton] at hiff
      exact hiff.trans ⟨fun hfree => ⟨hfits, hfree⟩, fun hcond => hcond.2⟩
    · exact ⟨fun hr => absurd hr (not_restores_tap htidy hfits), fun hcond => absurd hcond.1 hfits⟩
  · by_cases hfits : keysNeeded chord s.keys ≤ keySlots
    · have hiff := hold_restores_iff htidy hkeys hfits
      constructor
      · intro hr _
        exact hiff.mp fun env port w' hends =>
          hr env port w' ((ends_combo_iff env hfits).mpr hends)
      · intro hcond env port w' hends
        exact hiff.mpr (hcond hfits) env port w' ((ends_combo_iff env hfits).mp hends)
    · refine ⟨fun _ hf => absurd hf hfits, fun _ env port w' hends => ?_⟩
      obtain ⟨e, herror⟩ := ends_combo_refused env (w := ⟨s, port⟩) (Nat.lt_of_not_le hfits)
      obtain ⟨hr, -⟩ := hends.unique herror
      cases hr

end Restoring

section Examples

/-- A session that holds Shift. -/
def shiftHeld : Session := ⟨115200, modLeftShift, [], 0⟩

theorem named_shift : Named (.modifier modLeftShift) := ⟨"SHIFT".toList, by decide⟩

theorem reachable_shiftHeld : Reachable shiftHeld := by
  have hrun : Ends (HeldOp.run obligingEnv (.keyDown (.modifier modLeftShift)))
      ⟨Session.fresh 115200, ⟨0, []⟩⟩ _ _ :=
    (ends_modifySession (Session.applyDown (.modifier modLeftShift)) _).bind
      (ends_pushKeyboard obligingEnv _)
  refine Reachable.step (.fresh 115200) (fun k hk => ?_) hrun
  rw [List.mem_singleton.mp hk]
  exact named_shift

theorem restores_iff_shiftHeld :
    (∀ k, Named k → (Restores (tap · k) [k] shiftHeld ↔
      keysNeeded [k] shiftHeld.keys ≤ keySlots ∧ shiftHeld.toHeld.Free k.toKey)) ∧
    ∀ chord : List Key, (∀ k ∈ chord, Named k) → (Restores (combo · chord) chord shiftHeld ↔
      (keysNeeded chord shiftHeld.keys ≤ keySlots →
        ∀ k ∈ chord, shiftHeld.toHeld.Free k.toKey)) :=
  restores_iff reachable_shiftHeld

/-- A tap of the Shift that is held lets go of it. -/
theorem not_restores_shiftHeld :
    Reachable shiftHeld ∧ Named (.modifier modLeftShift) ∧
      ¬Restores (tap · (.modifier modLeftShift)) [.modifier modLeftShift] shiftHeld := by
  refine ⟨reachable_shiftHeld, named_shift, fun h => ?_⟩
  have hkeys : ∀ k ∈ [Key.modifier modLeftShift], Named k :=
    fun k hk => List.mem_singleton.mp hk ▸ named_shift
  have hfree := (hold_restores_iff reachable_shiftHeld.tidy hkeys (by decide)).mp h
  exact absurd (hfree _ List.mem_cons_self) (by decide)

end Examples

end Ch9329

end Paniolo
