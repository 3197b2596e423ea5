import Paniolo.Hidrig.Typing
import Paniolo.Ch9329.Proto

/-!
# What the CH9329 helper types

With a chip that accepts every report, the session performs the allowed
keyboard commands of the protocol, as hidrig's composer does: the two helpers
accept the same lines and send the same reports.
-/

namespace Paniolo

namespace Ch9329

open Text HidProtocol Session

section Runs

/-- A step that succeeds, with its result and the state it leaves. -/
def Runs {α : Type} (x : WireM α) (w : Wire) (a : α) (w' : Wire) : Prop :=
  ExceptT.run x w = (.ok a, w')

variable {α β : Type} {w w' w'' : Wire}

theorem Runs.pure (a : α) (w : Wire) : Runs (Pure.pure a) w a w := rfl

theorem Runs.bind {x : WireM α} {f : α → WireM β} {a : α} {b : β} (hx : Runs x w a w')
    (hf : Runs (f a) w' b w'') : Runs (x >>= f) w b w'' := by
  change ExceptT.bindCont f (ExceptT.run x w).1 (ExceptT.run x w).2 = _
  rw [hx]
  exact hf

theorem runs_getSession (w : Wire) : Runs getSession w w.session w := rfl

theorem runs_modifySession (f : Session → Session) (w : Wire) :
    Runs (modifySession f) w () { w with session := f w.session } := rfl

theorem Runs.attempt {x : WireM α} {a : α} (hx : Runs x w a w') :
    Runs (Session.attempt x) w (.ok a) w' := by
  change ((Except.ok (ExceptT.run x w).1 : Except String (Except String α)),
    (ExceptT.run x w).2) = _
  rw [hx]

theorem runs_lift {r : Except String α} {a : α} (h : r = .ok a) (w : Wire) :
    Runs (lift r) w a w := by
  rw [h]
  rfl

end Runs

/-- A chip that accepts every keyboard report. -/
def Obliging (env : Env) : Prop :=
  ∀ n, (env.exchange n).write = none ∧ ∃ p, readReply cmdKbGeneral (env.exchange n) = .ok p

/-- The state after a keyboard report has been sent. -/
def Wire.sentKb (w : Wire) (data : List UInt8) : Wire :=
  { w with port := ⟨w.port.now + 1, w.port.sent ++ [frame cmdKbGeneral data]⟩ }

variable {env : Env}

theorem runs_sendKb (henv : Obliging env) (data : List UInt8) (w : Wire) :
    ∃ p, Runs (send env cmdKbGeneral data) w p (w.sentKb data) := by
  obtain ⟨hwrite, p, hreply⟩ := henv w.port.now
  have hget : Runs (get : WireM Wire) w w w := rfl
  have hset : Runs (set (w.sentKb data) : WireM PUnit) w PUnit.unit (w.sentKb data) := rfl
  refine ⟨p, hget.bind (hset.bind ?_)⟩
  rw [hwrite]
  dsimp only
  rw [hreply]
  exact Runs.pure p _

/-- The data of the held report. -/
def Session.heldData (s : Session) : List UInt8 := [s.mods, 0x00] ++ slots s.keys

theorem runs_pushKeyboard (henv : Obliging env) (w : Wire) :
    Runs (pushKeyboard env) w () (w.sentKb w.session.heldData) := by
  obtain ⟨p, hp⟩ := runs_sendKb henv w.session.heldData w
  exact (runs_getSession w).bind (hp.bind (Runs.pure () _))

theorem runs_finishHold (w : Wire) : Runs (finishHold env (.ok ()) (.ok ())) w () w := rfl

/-- The keyboard report in a frame. -/
def keyboardReport : List UInt8 → Option Report
  | _ :: _ :: _ :: cmd :: len :: mods :: _ :: rest =>
      if cmd = cmdKbGeneral ∧ len = 8 ∧ rest.length = keySlots + 1 then
        some (report mods (rest.take keySlots))
      else none
  | _ => none

theorem keyboardReport_frame {mods : UInt8} {keys : List UInt8} (h : keys.length = keySlots) :
    keyboardReport (frame cmdKbGeneral ([mods, 0x00] ++ keys)) = some (report mods keys) := by
  simp only [frame, List.cons_append, List.nil_append, keyboardReport]
  rw [if_pos]
  · rw [List.take_left' h]
  · refine ⟨trivial, ?_, ?_⟩
    · rw [List.length_cons, List.length_cons, h]
      rfl
    · rw [List.length_append, h]
      rfl

theorem length_slots (keys : List UInt8) : (slots keys).length = keySlots := by
  rw [slots, List.length_append, List.length_take, List.length_replicate]
  omega

theorem slots_eq {keys : List UInt8} (h : keys.length ≤ keySlots) :
    slots keys = keys ++ List.replicate (keySlots - keys.length) 0 := by
  rw [slots, List.take_of_length_le h]

/-- The session holds what the protocol holds. -/
structure Agrees (s : Session) (h : Held) : Prop where
  mods : s.mods = h.mods
  keys : s.keys = h.keys

theorem keyboardReport_heldData {s : Session} {h : Held} (ha : Agrees s h)
    (hlen : h.keys.length ≤ slotCount) :
    keyboardReport (frame cmdKbGeneral s.heldData) = some (h.plus 0 []) := by
  rw [heldData, keyboardReport_frame (length_slots _), ha.mods, ha.keys, slots_eq hlen, report,
    Hidrig.filter_ne_zero_append_replicate, Held.plus, report, List.append_nil, UInt8.or_zero]

section Lines

theorem not_isNewline_of_not_isWhitespace {ch : Char} (h : isWhitespace ch = false) :
    isNewline ch = false := Hidrig.not_isNewline_of_not_isWhitespace h

theorem executeLine_of_splitOnce (env : Env) {line : List Char}
    (hline : ∀ ch ∈ line, isNewline ch = false) (htrim : trimStart line = line) :
    executeLine env line = executeVerb env
      (match splitOnce (· == ' ') line with
        | some (head, rest) => ⟨line, head, trim rest⟩
        | none => ⟨line, line, []⟩) := by
  have hstrip : line.rdropWhile isNewline = line := rdropWhile_eq_self hline
  have hany : line.any isNewline = false := by
    rw [List.any_eq_false]
    intro ch hch
    rw [hline ch hch]
    simp
  rw [executeLine, splitLine, hstrip, hany, htrim]
  rfl

theorem executeLine_verb (env : Env) {v : List Char} (hv : IsWord v) {args : List Char}
    (hargs : ∀ ch ∈ args, isNewline ch = false) :
    executeLine env (v ++ ' ' :: args) = executeVerb env ⟨v ++ ' ' :: args, v, trim args⟩ := by
  have hblank : ∀ ch ∈ v, (ch == ' ') = false := by
    intro ch hch
    rw [beq_eq_false_iff_ne]
    rintro rfl
    exact absurd (hv.2 _ hch) (by decide)
  have htrim : trimStart (v ++ ' ' :: args) = v ++ ' ' :: args := by
    obtain ⟨x, v', rfl⟩ := List.exists_cons_of_ne_nil hv.1
    exact trimStart_cons (hv.2 x List.mem_cons_self) _
  rw [executeLine_of_splitOnce env _ htrim, splitOnce_append hblank rfl]
  intro ch hch
  rcases List.mem_append.mp hch with hch | hch
  · exact not_isNewline_of_not_isWhitespace (hv.2 ch hch)
  · rcases List.mem_cons.mp hch with rfl | hch
    · rfl
    · exact hargs ch hch

variable (env : Env) (line rest : List Char)

theorem executeVerb_type : executeVerb env ⟨line, "type".toList, rest⟩ = (do
    typeText env (if (line.drop 4).head? = some ' ' then (line.drop 4).tail else [])
    return "") := by
  have hv : String.ofList (toAsciiLowercase "type".toList) = "type" := by decide
  rw [executeVerb, hv]
  simp only [if_true]
  rfl

theorem executeVerb_key : executeVerb env ⟨line, "key".toList, rest⟩ = (do
    let name ← lift (oneArg rest "key")
    tap env (← lift (nameToKey name))
    return "") := by
  have hv : String.ofList (toAsciiLowercase "key".toList) = "key" := by decide
  rw [executeVerb, hv]
  simp only [String.reduceEq, if_false, if_true]

theorem executeVerb_combo : executeVerb env ⟨line, "combo".toList, rest⟩ = (do
    let chord ← lift (chordOf (splitWhitespace rest))
    if chord.isEmpty then throw "combo needs at least one key name"
    combo env chord
    return "") := by
  have hv : String.ofList (toAsciiLowercase "combo".toList) = "combo" := by decide
  rw [executeVerb, hv]
  simp only [String.reduceEq, if_false, if_true]

theorem executeVerb_down : executeVerb env ⟨line, "down".toList, rest⟩ = (do
    let name ← lift (oneArg rest "down")
    keyDown env (← lift (nameToKey name))
    return "") := by
  have hv : String.ofList (toAsciiLowercase "down".toList) = "down" := by decide
  rw [executeVerb, hv]
  simp only [String.reduceEq, if_false, if_true]

theorem executeVerb_up : executeVerb env ⟨line, "up".toList, rest⟩ = (do
    let name ← lift (oneArg rest "up")
    keyUp env (← lift (nameToKey name))
    return "") := by
  have hv : String.ofList (toAsciiLowercase "up".toList) = "up" := by decide
  rw [executeVerb, hv]
  simp only [String.reduceEq, if_false, if_true]

theorem executeVerb_releaseall : executeVerb env ⟨line, "releaseall".toList, rest⟩ = (do
    releaseAll env
    return "") := by
  have hv : String.ofList (toAsciiLowercase "releaseall".toList) = "releaseall" := by decide
  have htype : "releaseall" ≠ "type" := by decide
  have hkey : "releaseall" ≠ "key" := by decide
  have hcombo : "releaseall" ≠ "combo" := by decide
  have hdown : "releaseall" ≠ "down" := by decide
  have hup : "releaseall" ≠ "up" := by decide
  rw [executeVerb, hv, if_neg htype, if_neg hkey, if_neg hcombo, if_neg hdown, if_neg hup,
    if_pos rfl]

end Lines

section Tables

def Key.toKey : Key → HidProtocol.Key
  | .modifier bit => .modifier bit
  | .usage u => .usage u

/-- The required names stand for the same keys as in the composer. -/
theorem nameToKey_of_isRequired {name : List Char} (h : isRequired name) :
    ∃ k, nameToKey name = .ok k ∧ Hidrig.layout.key name = k.toKey := by
  have hall : ∀ n ∈ requiredNames,
      (nameToKey n.toList).toOption.map Key.toKey = some (Hidrig.layout.key n.toList) := by
    decide +kernel
  have hn := hall _ h
  rw [String.toList_ofList] at hn
  cases hk : nameToKey name with
  | ok k =>
      rw [hk] at hn
      exact ⟨k, rfl, (Option.some_inj.mp hn).symm⟩
  | error e =>
      rw [hk] at hn
      cases hn

/-- The printable characters are typed as the composer types them. -/
theorem charToUsage_of_printable {c : Char} (h : ' ' ≤ c ∧ c ≤ '~') :
    charToUsage c = .ok (Hidrig.layout.char c) := by
  have hall : ∀ n < 127, 32 ≤ n →
      (charToUsage (Char.ofNat n)).toOption = some (Hidrig.layout.char (Char.ofNat n)) := by
    decide +kernel
  have hlo : 32 ≤ c.toNat := h.1
  have hhi : c.toNat ≤ 126 := h.2
  have hc := hall c.toNat (by omega) hlo
  rw [Char.ofNat_toNat] at hc
  cases hu : charToUsage c with
  | ok x =>
      rw [hu] at hc
      rw [Option.some_inj.mp hc]
  | error e =>
      rw [hu] at hc
      cases hc

theorem chordOf_of_isRequired {names : List (List Char)} (h : ∀ n ∈ names, isRequired n) :
    ∃ chord, chordOf names = .ok chord ∧ names.map Hidrig.layout.key = chord.map Key.toKey := by
  induction names with
  | nil => exact ⟨[], rfl, rfl⟩
  | cons name names ih =>
      obtain ⟨k, hk, hlayout⟩ := nameToKey_of_isRequired (h name List.mem_cons_self)
      obtain ⟨chord, hchord, hkeys⟩ := ih fun n hn => h n (List.mem_cons_of_mem _ hn)
      refine ⟨k :: chord, ?_, ?_⟩
      · rw [chordOf, hk, hchord]
        rfl
      · rw [List.map_cons, List.map_cons, hlayout, hkeys]

end Tables

section Chords

theorem keysNeeded_eq (chord : List Key) (held : List UInt8) :
    keysNeeded chord held = held.length + (newKeys held [] (chord.map Key.toKey)).length := by
  have hfold : ∀ add : List UInt8 → Key → List UInt8,
      (∀ acc k, add acc k = newKeys held acc [k.toKey]) →
      ∀ acc, chord.foldl add acc = newKeys held acc (chord.map Key.toKey) := by
    intro add hadd
    induction chord with
    | nil => exact fun _ => rfl
    | cons k chord ih =>
        intro acc
        rw [List.foldl_cons, hadd, ih]
        cases k with
        | modifier bit => rfl
        | usage u => rfl
  refine congrArg (fun keys => held.length + keys.length) (hfold _ ?_ [])
  intro acc k
  cases k with
  | modifier bit => rfl
  | usage u => rfl

variable {h : Held} {chord : List Key}

/-- Pressing a chord that fits adds its modifiers and its new keys. -/
theorem foldl_applyDown {held acc : List UInt8}
    (hfits : held.length + (newKeys held acc (chord.map Key.toKey)).length ≤ slotCount)
    {s : Session} (hkeys : s.keys = held ++ acc) :
    chord.foldl (fun s k => applyDown k s) s =
      { s with
        mods := s.mods ||| bits (chord.map Key.toKey)
        keys := held ++ newKeys held acc (chord.map Key.toKey) } := by
  induction chord generalizing s acc with
  | nil =>
      have hmods : s.mods ||| bits [] = s.mods := UInt8.or_zero
      rw [List.map_nil, hmods, newKeys, ← hkeys]
      rfl
  | cons k chord ih =>
      rw [List.map_cons] at hfits ⊢
      rw [List.foldl_cons]
      cases k with
      | modifier bit =>
          rw [Key.toKey, newKeys] at hfits
          have hkeys' : (applyDown (.modifier bit) s).keys = held ++ acc := hkeys
          rw [ih hfits hkeys', Key.toKey, newKeys, bits_cons_modifier]
          simp only [applyDown, UInt8.or_assoc]
      | usage u =>
          have hmem : u ∉ s.keys ↔ u ∉ acc ∧ u ∉ held := by
            rw [hkeys, List.mem_append, not_or, and_comm]
          rw [Key.toKey, newKeys] at hfits
          rw [Key.toKey, bits_cons_usage, newKeys]
          by_cases hu : u ∉ acc ∧ u ∉ held
          · have hroom : s.keys.length < keySlots := by
              have hle := length_le_newKeys held (acc ++ [u]) (chord.map Key.toKey)
              have hslots : slotCount = keySlots := rfl
              rw [if_pos hu] at hfits
              rw [List.length_append, List.length_singleton] at hle
              rw [hkeys, List.length_append]
              omega
            have hpress : applyDown (.usage u) s = { s with keys := held ++ (acc ++ [u]) } := by
              rw [applyDown, if_pos ⟨hmem.mpr hu, hroom⟩, hkeys, List.append_assoc]
            rw [if_pos hu] at hfits ⊢
            rw [hpress, ih hfits rfl]
          · have hsame : applyDown (.usage u) s = s := by
              rw [applyDown, if_neg fun hnew => hu (hmem.mp hnew.1)]
            rw [if_neg hu] at hfits ⊢
            rw [hsame, ih hfits hkeys]

theorem foldl_applyUp (chord : List Key) (s : Session) :
    chord.foldl (fun s k => applyUp k s) s =
      { s with
        mods := s.mods &&& ~~~bits (chord.map Key.toKey)
        keys := s.keys.filter (· ∉ usages (chord.map Key.toKey)) } := by
  induction chord generalizing s with
  | nil =>
      have hmods : s.mods &&& ~~~bits [] = s.mods := and_not_eq_self UInt8.and_zero
      have hkeys : s.keys.filter (· ∉ usages []) = s.keys := by
        rw [List.filter_eq_self]
        intro u _
        rw [decide_eq_true_eq]
        exact List.not_mem_nil
      rw [List.map_nil, hmods, hkeys]
      rfl
  | cons k chord ih =>
      rw [List.foldl_cons, List.map_cons, ih]
      cases k with
      | modifier bit =>
          rw [Key.toKey, usages_cons_modifier, bits_cons_modifier]
          simp only [applyUp, and_not_or]
      | usage u =>
          rw [Key.toKey, usages_cons_usage, bits_cons_usage]
          simp only [applyUp, List.filter_filter]
          congr 1
          apply List.filter_congr
          intro v _
          rw [Bool.eq_iff_iff, Bool.and_eq_true, decide_eq_true_eq, decide_eq_true_eq, bne_iff_ne,
            List.mem_cons, not_or, and_comm]

end Chords

section Performs

variable {w : Wire} {h : Held} {chord : List Key}

/-- The session with a chord pressed, and with it released again. -/
theorem hold_spec (ha : Agrees w.session h) (hfree : ∀ k ∈ chord.map Key.toKey, h.Free k)
    (hfits : h.Fits (chord.map Key.toKey)) {s s' : Session}
    (hs : s = chord.foldl (fun s k => applyDown k s) w.session)
    (hs' : s' = chord.foldl (fun s k => applyUp k s) s) :
    keysNeeded chord w.session.keys ≤ slotCount ∧
      keyboardReport (frame cmdKbGeneral s.heldData) =
        some (h.plus (bits (chord.map Key.toKey)) (usages (chord.map Key.toKey))) ∧
      Agrees s' h := by
  obtain ⟨hneeded, hset⟩ := h.newKeys_of_fits hfree hfits
  have hkeys : w.session.keys = h.keys ++ [] := by rw [ha.keys, List.append_nil]
  rw [foldl_applyDown hneeded hkeys, ha.mods] at hs
  rw [foldl_applyUp] at hs'
  refine ⟨?_, ?_, ?_, ?_⟩
  · rw [keysNeeded_eq, ha.keys]
    exact hneeded
  · have hslots : (h.keys ++ newKeys h.keys [] (chord.map Key.toKey)).length ≤ keySlots := by
      rw [List.length_append]
      exact hneeded
    rw [hs, heldData, keyboardReport_frame (length_slots _), slots_eq hslots, report,
      Hidrig.filter_ne_zero_append_replicate, ← h.plus_congr _ hset]
    rfl
  · rw [hs', hs]
    exact or_and_not_eq_self (h.and_bits_eq_zero hfree)
  · rw [hs', hs]
    have hheld : h.keys.filter (· ∉ usages (chord.map Key.toKey)) = h.keys := by
      rw [List.filter_eq_self]
      intro u hu
      rw [decide_eq_true_eq]
      intro hmem
      obtain ⟨k, hk, hku⟩ := List.mem_filterMap.mp hmem
      have hfree' := hfree k hk
      cases k with
      | modifier bit => cases hku
      | usage v =>
          obtain rfl := Option.some_inj.mp hku
          exact hfree' hu
    have hnew : (newKeys h.keys [] (chord.map Key.toKey)).filter
        (· ∉ usages (chord.map Key.toKey)) = [] := by
      rw [List.filter_eq_nil_iff]
      intro u hu
      rw [decide_eq_true_eq, not_not, ← List.mem_toFinset, ← hset, List.mem_toFinset]
      exact hu
    rw [List.filter_append, hheld, hnew, List.append_nil]

/-- The helper accepts the line of a command, sends its reports and nothing
else, and holds what it leaves held. -/
def Performs (env : Env) (w : Wire) (h : Held) (cmd : Command) : Prop :=
  ∃ w' frames, Runs (executeLine env cmd.line) w "" w' ∧ w'.port.sent = w.port.sent ++ frames ∧
    frames.map keyboardReport = (h.reports Hidrig.layout cmd).map some ∧
    Agrees w'.session (h.after Hidrig.layout cmd)

/-- A press and a release, as `tap` and `combo` send them. -/
theorem runs_hold (henv : Obliging env) (press release : Session → Session) (w : Wire) :
    ∃ w', Runs (do
        modifySession press
        let pressed ← attempt (pushKeyboard env)
        modifySession release
        let released ← attempt (pushKeyboard env)
        finishHold env pressed released) w () w' ∧
      w'.session = release (press w.session) ∧
      w'.port.sent = w.port.sent ++ [frame cmdKbGeneral (press w.session).heldData,
        frame cmdKbGeneral (release (press w.session)).heldData] := by
  let w₁ : Wire := { w with session := press w.session }
  let w₂ : Wire := w₁.sentKb w₁.session.heldData
  let w₃ : Wire := { w₂ with session := release w₂.session }
  refine ⟨w₃.sentKb w₃.session.heldData, ?_, rfl, ?_⟩
  · exact (runs_modifySession press w).bind ((runs_pushKeyboard henv w₁).attempt.bind
      ((runs_modifySession release w₂).bind ((runs_pushKeyboard henv w₃).attempt.bind
        (runs_finishHold _))))
  · exact List.append_assoc _ _ _

theorem oneArg_word {name : List Char} (hname : IsWord name) (verb : String) :
    oneArg name verb = .ok name := by
  rw [oneArg, hname.splitWhitespace]

theorem performs_key (henv : Obliging env) (ha : Agrees w.session h) {name : List Char}
    (hlen : h.keys.length ≤ slotCount) (hok : h.Allows Hidrig.layout (.key name)) :
    Performs env w h (.key name) := by
  obtain ⟨hreq, hfree, hfits⟩ := hok
  have hword := isWord_of_isRequired hreq
  obtain ⟨k, hk, hlayout⟩ := nameToKey_of_isRequired hreq
  rw [hlayout] at hfree hfits
  obtain ⟨w', hruns, hsession, hsent⟩ := runs_hold henv (applyDown k) (applyUp k) w
  have hchord : ∀ k' ∈ [k].map Key.toKey, h.Free k' := by
    intro k' hk'
    rw [List.mem_singleton.mp hk']
    exact hfree
  obtain ⟨-, hpress, hagrees⟩ := hold_spec ha hchord hfits rfl rfl
  refine ⟨w', _, ?_, hsent, ?_, hsession ▸ hagrees⟩
  · rw [Command.line_key, executeLine_verb env Hidrig.isWord_key (Hidrig.isNewline_of_word hword),
      executeVerb_key, hword.trim]
    exact (runs_lift (oneArg_word hword "key") w).bind ((runs_lift hk w).bind
      (hruns.bind (Runs.pure "" w')))
  · have hrest := keyboardReport_heldData hagrees hlen
    rw [Held.reports, hlayout, List.map_cons, List.map_singleton, List.map_cons,
      List.map_singleton]
    exact congrArg₂ (fun a b => [a, b]) hpress hrest

theorem performs_combo (henv : Obliging env) (ha : Agrees w.session h) {names : List (List Char)}
    (hlen : h.keys.length ≤ slotCount) (hok : h.Allows Hidrig.layout (.combo names)) :
    Performs env w h (.combo names) := by
  obtain ⟨hsome, hnames, hfits⟩ := hok
  have hwords : ∀ name ∈ names, IsWord name := fun n hn => isWord_of_isRequired (hnames n hn).1
  have hargs : ∀ ch ∈ blankSeparated names, isNewline ch = false := by
    intro ch hch
    rcases mem_blankSeparated hch with rfl | ⟨name, hname, hch⟩
    · rfl
    · exact not_isNewline_of_not_isWhitespace ((hwords name hname).2 ch hch)
  obtain ⟨chord, hchord, hlayout⟩ := chordOf_of_isRequired fun n hn => (hnames n hn).1
  have hfree : ∀ k ∈ names.map Hidrig.layout.key, h.Free k := by
    intro k hk
    obtain ⟨name, hname, rfl⟩ := List.mem_map.mp hk
    exact (hnames name hname).2
  rw [hlayout] at hfree hfits
  obtain ⟨w', hruns, hsession, hsent⟩ := runs_hold henv
    (fun s => chord.foldl (fun s k => applyDown k s) s)
    (fun s => chord.foldl (fun s k => applyUp k s) s) w
  obtain ⟨hneeded, hpress, hagrees⟩ := hold_spec ha hfree hfits rfl rfl
  have hcombo : Runs (combo env chord) w () w' := by
    refine (runs_getSession w).bind ?_
    have hfew : ¬keysNeeded chord w.session.keys > keySlots := not_lt.mpr hneeded
    simp only [if_neg hfew]
    exact hruns
  refine ⟨w', _, ?_, hsent, ?_, hsession ▸ hagrees⟩
  · have hne : chord.isEmpty = false := by
      cases chord with
      | nil => exact absurd (List.map_eq_nil_iff.mp hlayout) hsome
      | cons k chord => rfl
    rw [Command.line_combo, executeLine_verb env Hidrig.isWord_combo hargs, executeVerb_combo,
      splitWhitespace_trim, splitWhitespace_blankSeparated hwords]
    refine (runs_lift hchord w).bind ?_
    rw [hne]
    exact hcombo.bind (Runs.pure "" w')
  · have hrest := keyboardReport_heldData hagrees hlen
    rw [Held.reports, hlayout, List.map_cons, List.map_singleton, List.map_cons,
      List.map_singleton]
    exact congrArg₂ (fun a b => [a, b]) hpress hrest

theorem keyboardReport_typed (ha : Agrees w.session h) {u : UInt8} (hu : u ∉ h.keys)
    (hroom : h.keys.length < slotCount) (shift : Bool) :
    keyboardReport (frame cmdKbGeneral (typedReport w.session u shift)) =
      some (h.plus (if shift then leftShift else 0) [u]) := by
  have hothers : (w.session.keys.filter (· != u)).take (keySlots - 1) = h.keys := by
    have hall : h.keys.filter (· != u) = h.keys := by
      rw [List.filter_eq_self]
      intro v hv
      rw [bne_iff_ne]
      rintro rfl
      exact hu hv
    rw [ha.keys, hall]
    exact List.take_of_length_le (Nat.le_pred_of_lt hroom)
  have hlen : (u :: h.keys ++ List.replicate (keySlots - 1 - h.keys.length) 0).length =
      keySlots := by
    rw [List.length_append, List.length_cons, List.length_replicate]
    have hslots : slotCount = keySlots := rfl
    have hsix : keySlots = 6 := rfl
    omega
  have hdata : typedReport w.session u shift =
      [h.mods ||| (if shift then leftShift else 0), 0x00] ++
        (u :: h.keys ++ List.replicate (keySlots - 1 - h.keys.length) 0) := by
    rw [typedReport, hothers, ha.mods]
    rfl
  rw [hdata, keyboardReport_frame hlen, report, Hidrig.filter_ne_zero_append_replicate,
    Held.plus, report]
  congr 2
  rw [List.toFinset_filter, List.toFinset_filter, List.toFinset_cons, List.toFinset_append,
    List.toFinset_cons, List.toFinset_nil, Finset.union_comm]
  rfl

theorem runs_typeChar (henv : Obliging env) (ha : Agrees w.session h)
    (hlen : h.keys.length ≤ slotCount) {ch : Char} (hprint : ' ' ≤ ch ∧ ch ≤ '~')
    (hfree : (Hidrig.layout.char ch).1 ∉ h.keys ∧ h.keys.length < slotCount) :
    ∃ w' frames, Runs (typeChar env ch) w () w' ∧ w'.port.sent = w.port.sent ++ frames ∧
      frames.map keyboardReport = (h.reports Hidrig.layout (.type [ch])).map some ∧
      Agrees w'.session h := by
  obtain ⟨⟨u, shift⟩, hchar⟩ : ∃ x, Hidrig.layout.char ch = x := ⟨_, rfl⟩
  have husage := charToUsage_of_printable hprint
  rw [hchar] at husage hfree
  have hnot : u ∉ w.session.keys := by
    rw [ha.keys]
    exact hfree.1
  obtain ⟨p, hp⟩ := runs_sendKb henv (typedReport w.session u shift) w
  let w₁ : Wire := w.sentKb (typedReport w.session u shift)
  refine ⟨w₁.sentKb w.session.heldData, [frame cmdKbGeneral (typedReport w.session u shift),
    frame cmdKbGeneral w.session.heldData], ?_, List.append_assoc _ _ _, ?_, ha⟩
  · rw [typeChar, husage]
    refine (runs_getSession w).bind ?_
    simp only [if_neg hnot]
    exact (runs_getSession w).bind ((hp.bind (Runs.pure () _)).attempt.bind
      ((runs_pushKeyboard henv w₁).attempt.bind (runs_finishHold _)))
  · rw [Held.reports, List.flatMap_singleton, hchar, List.map_cons, List.map_singleton,
      List.map_cons, List.map_singleton, keyboardReport_typed ha hfree.1 hfree.2,
      keyboardReport_heldData ha hlen]

theorem runs_typeChars (henv : Obliging env) (ha : Agrees w.session h)
    (hlen : h.keys.length ≤ slotCount) {text : List Char}
    (hprint : ∀ ch ∈ text, ' ' ≤ ch ∧ ch ≤ '~')
    (hfree : ∀ ch ∈ text, (Hidrig.layout.char ch).1 ∉ h.keys ∧ h.keys.length < slotCount) :
    ∃ w' frames, Runs (typeChars env text) w () w' ∧ w'.port.sent = w.port.sent ++ frames ∧
      frames.map keyboardReport = (h.reports Hidrig.layout (.type text)).map some ∧
      Agrees w'.session h := by
  induction text generalizing w with
  | nil => exact ⟨w, [], Runs.pure () w, (List.append_nil _).symm, rfl, ha⟩
  | cons ch text ih =>
      obtain ⟨w₁, frames₁, hruns₁, hsent₁, hreports₁, ha₁⟩ := runs_typeChar henv ha hlen
        (hprint ch List.mem_cons_self) (hfree ch List.mem_cons_self)
      obtain ⟨w₂, frames₂, hruns₂, hsent₂, hreports₂, ha₂⟩ := ih ha₁
        (fun x hx => hprint x (List.mem_cons_of_mem _ hx))
        (fun x hx => hfree x (List.mem_cons_of_mem _ hx))
      refine ⟨w₂, frames₁ ++ frames₂, hruns₁.bind hruns₂, ?_, ?_, ha₂⟩
      · rw [hsent₂, hsent₁, List.append_assoc]
      · rw [List.map_append, hreports₁, hreports₂, Held.reports, Held.reports, Held.reports,
          List.flatMap_singleton, List.flatMap_cons, List.map_append]

theorem performs_type (henv : Obliging env) (ha : Agrees w.session h) {text : List Char}
    (hlen : h.keys.length ≤ slotCount) (hok : h.Allows Hidrig.layout (.type text)) :
    Performs env w h (.type text) := by
  obtain ⟨hprint, hlimit, hfree⟩ := hok
  have hargs : ∀ ch ∈ text, isNewline ch = false :=
    fun ch hch => Hidrig.not_isNewline_of_printable (hprint ch hch).1
  obtain ⟨w', frames, hruns, hsent, hreports, ha'⟩ := runs_typeChars henv ha hlen hprint hfree
  have hshort : checkTypeLen text = .ok () := if_neg (not_lt.mpr hlimit)
  refine ⟨w', frames, ?_, hsent, hreports, ha'⟩
  rw [Command.line_type, executeLine_verb env Hidrig.isWord_type hargs, executeVerb_type]
  have htext : (if (("type".toList ++ ' ' :: text).drop 4).head? = some ' '
      then (("type".toList ++ ' ' :: text).drop 4).tail else []) = text := rfl
  rw [htext, typeText, hshort]
  exact hruns.bind (Runs.pure "" w')

/-- A change of what is held, with the report of it. -/
theorem runs_change (henv : Obliging env) (change : Session → Session) {h' : Held}
    (ha : Agrees (change w.session) h') (hlen : h'.keys.length ≤ slotCount) :
    ∃ w' frames, Runs (do modifySession change; pushKeyboard env) w () w' ∧
      w'.port.sent = w.port.sent ++ frames ∧
      frames.map keyboardReport = [h'.plus 0 []].map some ∧ Agrees w'.session h' := by
  let w₁ : Wire := { w with session := change w.session }
  refine ⟨w₁.sentKb w₁.session.heldData, [frame cmdKbGeneral w₁.session.heldData],
    (runs_modifySession change w).bind (runs_pushKeyboard henv w₁), rfl, ?_, ha⟩
  rw [List.map_singleton, List.map_singleton, keyboardReport_heldData ha hlen]

theorem agrees_applyDown (ha : Agrees w.session h) {k : Key}
    (hlen : (h.press k.toKey).keys.length ≤ slotCount) :
    Agrees (applyDown k w.session) (h.press k.toKey) := by
  cases k with
  | modifier bit => exact ⟨congrArg (· ||| bit) ha.mods, ha.keys⟩
  | usage u =>
      rw [Key.toKey, Held.press] at hlen
      rw [Key.toKey, Held.press, applyDown, ha.keys]
      by_cases hu : u ∈ h.keys
      · rw [if_pos hu, if_neg fun hnew => hnew.1 hu]
        exact ha
      · rw [if_neg hu, List.length_append] at hlen
        rw [if_neg hu, if_pos ⟨hu, hlen⟩]
        exact ⟨ha.mods, rfl⟩

theorem agrees_applyUp (ha : Agrees w.session h) (k : Key) :
    Agrees (applyUp k w.session) (h.release k.toKey) := by
  cases k with
  | modifier bit => exact ⟨congrArg (· &&& ~~~bit) ha.mods, ha.keys⟩
  | usage u => exact ⟨ha.mods, congrArg (List.filter (· != u)) ha.keys⟩

theorem performs_down (henv : Obliging env) (ha : Agrees w.session h) {name : List Char}
    (hok : h.Allows Hidrig.layout (.down name)) : Performs env w h (.down name) := by
  obtain ⟨hreq, hlen⟩ := hok
  have hword := isWord_of_isRequired hreq
  obtain ⟨k, hk, hlayout⟩ := nameToKey_of_isRequired hreq
  rw [hlayout] at hlen
  obtain ⟨w', frames, hruns, hsent, hreports, ha'⟩ :=
    runs_change henv (applyDown k) (agrees_applyDown ha hlen) hlen
  rw [Performs, Held.reports, Held.after, hlayout]
  refine ⟨w', frames, ?_, hsent, hreports, ha'⟩
  rw [Command.line_down, executeLine_verb env Hidrig.isWord_down (Hidrig.isNewline_of_word hword),
    executeVerb_down, hword.trim]
  exact (runs_lift (oneArg_word hword "down") w).bind ((runs_lift hk w).bind
    (hruns.bind (Runs.pure "" w')))

theorem performs_up (henv : Obliging env) (ha : Agrees w.session h) {name : List Char}
    (hlen : h.keys.length ≤ slotCount) (hreq : h.Allows Hidrig.layout (.up name)) :
    Performs env w h (.up name) := by
  have hword := isWord_of_isRequired hreq
  obtain ⟨k, hk, hlayout⟩ := nameToKey_of_isRequired hreq
  have hlen' := (h.length_release_le k.toKey).trans hlen
  obtain ⟨w', frames, hruns, hsent, hreports, ha'⟩ :=
    runs_change henv (applyUp k) (agrees_applyUp ha k) hlen'
  rw [Performs, Held.reports, Held.after, hlayout]
  refine ⟨w', frames, ?_, hsent, hreports, ha'⟩
  rw [Command.line_up, executeLine_verb env Hidrig.isWord_up (Hidrig.isNewline_of_word hword),
    executeVerb_up, hword.trim]
  exact (runs_lift (oneArg_word hword "up") w).bind ((runs_lift hk w).bind
    (hruns.bind (Runs.pure "" w')))

theorem performs_releaseall (henv : Obliging env) : Performs env w h .releaseall := by
  have hclear : Agrees ({ w.session with mods := 0, keys := [] }) Held.none := ⟨rfl, rfl⟩
  obtain ⟨w', frames, hruns, hsent, hreports, ha'⟩ :=
    runs_change henv (fun s => { s with mods := 0, keys := [] }) hclear (Nat.zero_le _)
  have hnewline := Hidrig.isNewline_of_word Hidrig.isWord_releaseall
  have htrim : trimStart "releaseall".toList = "releaseall".toList := by decide
  have hsplit : splitOnce (· == ' ') "releaseall".toList = none := by decide
  refine ⟨w', frames, ?_, hsent, hreports, ha'⟩
  rw [Command.line_releaseall, executeLine_of_splitOnce env hnewline htrim, hsplit]
  rw [executeVerb_releaseall]
  exact hruns.bind (Runs.pure "" w')

/-- The helper performs every allowed command. -/
theorem performs (henv : Obliging env) (ha : Agrees w.session h)
    (hlen : h.keys.length ≤ slotCount) {cmd : Command} (hok : h.Allows Hidrig.layout cmd) :
    Performs env w h cmd := by
  cases cmd with
  | type text => exact performs_type henv ha hlen hok
  | key name => exact performs_key henv ha hlen hok
  | combo names => exact performs_combo henv ha hlen hok
  | down name => exact performs_down henv ha hok
  | up name => exact performs_up henv ha hlen hok
  | releaseall => exact performs_releaseall henv

end Performs

/-- Command lines one after another, all of them accepted. -/
def executeAll (env : Env) : List (List Char) → WireM Unit
  | [] => return ()
  | line :: lines => do
      let _ ← executeLine env line
      executeAll env lines

theorem executeAll_spec (henv : Obliging env) {cmds : List Command} {w : Wire} {h : Held}
    (ha : Agrees w.session h) (hlen : h.keys.length ≤ slotCount)
    (hok : h.AllowsAll Hidrig.layout cmds) :
    ∃ w' frames, Runs (executeAll env (cmds.map Command.line)) w () w' ∧
      w'.port.sent = w.port.sent ++ frames ∧
      frames.map keyboardReport = (h.allReports Hidrig.layout cmds).map some := by
  induction cmds generalizing w h with
  | nil => exact ⟨w, [], Runs.pure () w, (List.append_nil _).symm, rfl⟩
  | cons cmd cmds ih =>
      obtain ⟨hcmd, hcmds⟩ := hok
      obtain ⟨w₁, frames₁, hruns, hsent, hreports, ha₁⟩ := performs henv ha hlen hcmd
      obtain ⟨w₂, frames₂, hruns₂, hsent₂, hreports₂⟩ :=
        ih ha₁ (Held.length_after_le hlen hcmd) hcmds
      refine ⟨w₂, frames₁ ++ frames₂, hruns.bind hruns₂, ?_, ?_⟩
      · rw [hsent₂, hsent, List.append_assoc]
      · rw [List.map_append, hreports, hreports₂, ← List.map_append]
        rfl

/-- On every sequence of allowed commands, whatever rate the link runs at and
whatever was sent before: hidrig's composer accepts every line, so does the
CH9329 helper with a chip that accepts every report, and both send the reports
of the sequence. -/
theorem types_as_hidrig (henv : Obliging env) (rate : Nat) (port : Port) {cmds : List Command}
    (hok : Held.none.AllowsAll Hidrig.layout cmds) :
    ∃ c frames w sent,
      Hidrig.Composer.new.dispatchAll (cmds.map Command.line) = .ok (c, frames) ∧
      Runs (executeAll env (cmds.map Command.line)) ⟨Session.fresh rate, port⟩ () w ∧
      w.port.sent = port.sent ++ sent ∧
      frames.map Hidrig.keyboardReport =
        (Held.none.allReports Hidrig.layout cmds).map some ∧
      sent.map keyboardReport = frames.map Hidrig.keyboardReport := by
  obtain ⟨c, frames, hdispatch, hreports⟩ :=
    Hidrig.dispatchAll_spec (c := .new) ⟨rfl, rfl⟩ (Nat.zero_le _) hok
  obtain ⟨w, sent, hruns, hsent, hreports'⟩ :=
    executeAll_spec henv (w := ⟨Session.fresh rate, port⟩) ⟨rfl, rfl⟩ (Nat.zero_le _) hok
  exact ⟨c, frames, w, sent, hdispatch, hruns, hsent, hreports, hreports'.trans hreports.symm⟩

/-- A chip that answers every keyboard report with success. -/
def obligingEnv : Env where
  device := "/dev/ttyUSB0"
  opens _ := true
  exchange _ := ⟨none, frame (cmdKbGeneral ||| 0x80) [0], .timedOut⟩
  setBaudRate _ := none
  openterfaceCdc _ := false

theorem obliging_obligingEnv : Obliging obligingEnv := by
  have hreply : readReply cmdKbGeneral (obligingEnv.exchange 0) = .ok [0] := by decide
  exact fun _ => ⟨rfl, [0], hreply⟩

/-- Text typed with Shift held, a chord on top of a held key, and its release. -/
def sampleCommands : List Command :=
  [.down "LEFT_SHIFT".toList, .type "Hi ~".toList, .up "LEFT_SHIFT".toList, .down "A".toList,
    .combo ["LEFT_CONTROL".toList, "B".toList, "B".toList], .key "F12".toList, .releaseall]

theorem types_as_hidrig_sample :
    ∃ c frames w sent,
      Hidrig.Composer.new.dispatchAll (sampleCommands.map Command.line) = .ok (c, frames) ∧
      Runs (executeAll obligingEnv (sampleCommands.map Command.line))
        ⟨Session.fresh 115200, ⟨0, []⟩⟩ () w ∧
      w.port.sent = [] ++ sent ∧
      frames.map Hidrig.keyboardReport =
        (Held.none.allReports Hidrig.layout sampleCommands).map some ∧
      sent.map keyboardReport = frames.map Hidrig.keyboardReport := by
  have hok : Held.none.AllowsAll Hidrig.layout sampleCommands := by decide +kernel
  exact types_as_hidrig obliging_obligingEnv 115200 ⟨0, []⟩ hok

end Ch9329

end Paniolo
