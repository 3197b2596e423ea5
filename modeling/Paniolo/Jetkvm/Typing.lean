import Paniolo.Hidrig.Typing
import Paniolo.Jetkvm.Hid

/-!
# What the JetKVM helper types

With a device that answers every call, the session performs the allowed keyboard
commands of the protocol, as hidrig's composer does: the two helpers accept the
same lines and send the same keyboard reports.
-/

namespace Paniolo

namespace Jetkvm

open Text HidProtocol

section Runs

/-- A step that succeeds, with its result, the session it leaves and all calls made. -/
def Runs {α : Type} (answer : List Rpc → Reply) (x : HidM α) (s : Session) (made : List Rpc)
    (a : α) (s' : Session) (made' : List Rpc) : Prop :=
  Dialogue.run answer (ExceptT.run x s) made = ((.ok a, s'), made')

variable {α β : Type} {answer : List Rpc → Reply} {s s' s'' : Session} {made made' made'' : List Rpc}

theorem Runs.pure (a : α) (s : Session) (made : List Rpc) :
    Runs answer (Pure.pure a) s made a s made := rfl

theorem Runs.bind {x : HidM α} {f : α → HidM β} {a : α} {b : β}
    (hx : Runs answer x s made a s' made') (hf : Runs answer (f a) s' made' b s'' made'') :
    Runs answer (x >>= f) s made b s'' made'' := Dialogue.ComesTo.bind hx hf

theorem runs_getSession (s : Session) (made : List Rpc) :
    Runs answer getSession s made s s made := rfl

theorem runs_modifySession (f : Session → Session) (s : Session) (made : List Rpc) :
    Runs answer (modifySession f) s made () (f s) made := rfl

theorem runs_lift {r : Except String α} {a : α} (h : r = .ok a) (s : Session) (made : List Rpc) :
    Runs answer (lift r) s made a s made := h ▸ comesTo_lift r s made

theorem runs_call (rpc : Rpc) (s : Session) (made : List Rpc) :
    Runs answer (call rpc) s made (answer (made ++ [rpc])) s (made ++ [rpc]) := rfl

/-- Every call succeeds. -/
def Obliging (answer : List Rpc → Reply) : Prop := ∀ made, ∃ reply, answer made = .ok reply

theorem runs_demand (h : Obliging answer) (rpc : Rpc) (s : Session) (made : List Rpc) :
    Runs answer (demand rpc) s made () s (made ++ [rpc]) := by
  obtain ⟨reply, hreply⟩ := h (made ++ [rpc])
  have hends := comesTo_demand answer rpc s made
  rw [hreply] at hends
  exact hends

theorem runs_sendHeld (h : Obliging answer) (s : Session) (made : List Rpc) :
    Runs answer sendHeld s made () s (made ++ [.keyboardReport s.mods s.held]) :=
  (runs_getSession s made).bind (runs_demand h _ s made)

end Runs

section Reports

/-- The keyboard reports among some calls. -/
def keyboardReports (rpcs : List Rpc) : List Report :=
  rpcs.filterMap fun rpc =>
    match rpc with
    | .keyboardReport mods keys => some (report mods keys)
    | _ => none

theorem keyboardReports_append (rpcs rpcs' : List Rpc) :
    keyboardReports (rpcs ++ rpcs') = keyboardReports rpcs ++ keyboardReports rpcs' :=
  List.filterMap_append

theorem keyboardReports_cons (mods : UInt8) (keys : List UInt8) (rpcs : List Rpc) :
    keyboardReports (.keyboardReport mods keys :: rpcs) =
      report mods keys :: keyboardReports rpcs := rfl

/-- The session holds what the protocol holds. -/
structure Agrees (s : Session) (h : Held) : Prop where
  mods : s.mods = h.mods
  held : s.held = h.keys

theorem report_held {s : Session} {h : Held} (ha : Agrees s h) :
    report s.mods s.held = h.plus 0 [] := by
  rw [ha.mods, ha.held, Held.plus, List.append_nil, UInt8.or_zero]

end Reports

section Tables

def Key.toKey (k : Key) : HidProtocol.Key := if k.modifier then .modifier k.value else .usage k.value

/-- The required names stand for the same keys as in the composer. -/
theorem nameToKey_of_isRequired {name : List Char} (h : isRequired name) :
    ∃ k, nameToKey name = .ok k ∧ Hidrig.layout.key name = k.toKey := by
  have hall : ∀ n ∈ requiredNames,
      (nameToKey n.toList).toOption.map Key.toKey = some (Hidrig.layout.key n.toList) := by
    decide +kernel
  have hn := hall _ h
  rw [String.toList_ofList] at hn
  cases hk : nameToKey name with
  | ok k =>
      rw [hk] at hn
      exact ⟨k, rfl, (Option.some_inj.mp hn).symm⟩
  | error e =>
      rw [hk] at hn
      cases hn

/-- The printable characters are typed as the composer types them. -/
theorem charToUsage_of_printable {c : Char} (h : ' ' ≤ c ∧ c ≤ '~') :
    charToUsage c = .ok (Hidrig.layout.char c) := by
  have hall : ∀ n < 127, 32 ≤ n →
      (charToUsage (Char.ofNat n)).toOption = some (Hidrig.layout.char (Char.ofNat n)) := by
    decide +kernel
  have hlo : 32 ≤ c.toNat := h.1
  have hhi : c.toNat ≤ 126 := h.2
  have hc := hall c.toNat (by omega) hlo
  rw [Char.ofNat_toNat] at hc
  cases hu : charToUsage c with
  | ok x =>
      rw [hu] at hc
      rw [Option.some_inj.mp hc]
  | error e =>
      rw [hu] at hc
      cases hc

theorem namesToKeys_of_isRequired {names : List (List Char)} (h : ∀ n ∈ names, isRequired n) :
    ∃ keys, namesToKeys names = .ok keys ∧ names.map Hidrig.layout.key = keys.map Key.toKey := by
  induction names with
  | nil => exact ⟨[], rfl, rfl⟩
  | cons name names ih =>
      obtain ⟨k, hk, hlayout⟩ := nameToKey_of_isRequired (h name List.mem_cons_self)
      obtain ⟨keys, hkeys, hrest⟩ := ih fun n hn => h n (List.mem_cons_of_mem _ hn)
      refine ⟨k :: keys, ?_, ?_⟩
      · rw [namesToKeys, hk, hkeys]
        rfl
      · rw [List.map_cons, List.map_cons, hlayout, hrest]

theorem strokesOf_of_printable {text : List Char} (h : ∀ c ∈ text, ' ' ≤ c ∧ c ≤ '~') :
    strokesOf text = .ok (text.map Hidrig.layout.char) := by
  induction text with
  | nil => rfl
  | cons c text ih =>
      rw [strokesOf, charToUsage_of_printable (h c List.mem_cons_self),
        ih fun x hx => h x (List.mem_cons_of_mem _ hx)]
      rfl

/-- A chord on top of what is held adds its modifiers and its new keys. -/
theorem chordOf_eq (held : List UInt8) (keys : List Key) (mods : UInt8) (acc : List UInt8) :
    chordOf keys mods (held ++ acc) = ((keys.map Key.toKey).foldl addBit mods,
      held ++ newKeys held acc (keys.map Key.toKey)) := by
  induction keys generalizing mods acc with
  | nil => rfl
  | cons k keys ih =>
      rw [chordOf, List.map_cons, List.foldl_cons, Key.toKey]
      by_cases hmod : k.modifier = true
      · rw [if_pos hmod, if_pos hmod, ih]
        rfl
      · rw [if_neg hmod, if_neg hmod, newKeys]
        by_cases hnew : k.value ∉ acc ∧ k.value ∉ held
        · have hnot : k.value ∉ held ++ acc := by
            rw [List.mem_append]
            exact fun hmem => hmem.elim hnew.2 hnew.1
          rw [if_pos hnew, if_pos hnot, List.append_assoc, ih]
          rfl
        · have hmem : ¬k.value ∉ held ++ acc := by
            rw [List.mem_append, not_not]
            by_cases hacc : k.value ∈ acc
            · exact Or.inr hacc
            · exact Or.inl (not_not.mp fun hheld => hnew ⟨hacc, hheld⟩)
          rw [if_neg hnew, if_neg hmem, ih]
          rfl

end Tables

section Lines

theorem executeLine_of_splitOnce {line : List Char} (hline : ∀ ch ∈ line, isNewline ch = false)
    (htrim : (line.dropWhile fun c => c == ' ' || c == '\t') = line) :
    executeLine line =
      match splitOnce (· == ' ') line with
      | some (head, rest) => executeVerb line head (trim rest)
      | none => executeVerb line line [] := by
  have hstrip : line.rdropWhile isNewline = line := rdropWhile_eq_self hline
  have hany : line.any isNewline = false := by
    rw [List.any_eq_false]
    intro ch hch
    rw [hline ch hch]
    simp
  rw [executeLine, hstrip, hany, htrim]
  rfl

theorem dropWhile_blank_of_word {v : List Char} (hv : IsWord v) (args : List Char) :
    ((v ++ args).dropWhile fun c => c == ' ' || c == '\t') = v ++ args := by
  obtain ⟨x, v', rfl⟩ := List.exists_cons_of_ne_nil hv.1
  have hx := hv.2 x List.mem_cons_self
  have hblank : (x == ' ' || x == '\t') = false := by
    by_contra hn
    rw [Bool.not_eq_false, Bool.or_eq_true, beq_iff_eq, beq_iff_eq] at hn
    rcases hn with rfl | rfl
    · exact absurd hx (by decide)
    · exact absurd hx (by decide)
  rw [List.cons_append, List.dropWhile_cons_of_neg (by rw [hblank]; simp)]

theorem executeLine_verb {v : List Char} (hv : IsWord v) {args : List Char}
    (hargs : ∀ ch ∈ args, isNewline ch = false) :
    executeLine (v ++ ' ' :: args) = executeVerb (v ++ ' ' :: args) v (trim args) := by
  have hblank : ∀ ch ∈ v, (ch == ' ') = false := by
    intro ch hch
    rw [beq_eq_false_iff_ne]
    rintro rfl
    exact absurd (hv.2 _ hch) (by decide)
  rw [executeLine_of_splitOnce _ (dropWhile_blank_of_word hv _), splitOnce_append hblank rfl]
  intro ch hch
  rcases List.mem_append.mp hch with hch | hch
  · exact Hidrig.not_isNewline_of_not_isWhitespace (hv.2 ch hch)
  · rcases List.mem_cons.mp hch with rfl | hch
    · rfl
    · exact hargs ch hch

variable (line rest : List Char)

theorem executeVerb_type : executeVerb line "type".toList rest =
    bare (typeText (if (line.drop 4).head? = some ' ' then (line.drop 4).tail
      else line.drop 4)) := by
  have hv : String.ofList (toLower "type".toList) = "type" := by decide
  rw [executeVerb, hv]
  simp only [if_true]
  rfl

theorem executeVerb_key : executeVerb line "key".toList rest = bare (do
    let name ← lift (oneArg rest "key")
    let k ← lift (nameToKey name)
    tap k) := by
  have hv : String.ofList (toLower "key".toList) = "key" := by decide
  rw [executeVerb, hv]
  simp only [String.reduceEq, if_false, if_true]

theorem executeVerb_combo : executeVerb line "combo".toList rest = bare (do
    let chord ← lift (namesToKeys (splitWhitespace rest))
    if chord.isEmpty then throw "combo needs at least one key name" else combo chord) := by
  have hv : String.ofList (toLower "combo".toList) = "combo" := by decide
  rw [executeVerb, hv]
  simp only [String.reduceEq, if_false, if_true]

theorem executeVerb_down : executeVerb line "down".toList rest = bare (do
    let name ← lift (oneArg rest "down")
    let k ← lift (nameToKey name)
    keyDown k) := by
  have hv : String.ofList (toLower "down".toList) = "down" := by decide
  rw [executeVerb, hv]
  simp only [String.reduceEq, if_false, if_true]

theorem executeVerb_up : executeVerb line "up".toList rest = bare (do
    let name ← lift (oneArg rest "up")
    let k ← lift (nameToKey name)
    keyUp k) := by
  have hv : String.ofList (toLower "up".toList) = "up" := by decide
  rw [executeVerb, hv]
  simp only [String.reduceEq, if_false, if_true]

theorem executeVerb_releaseall : executeVerb line "releaseall".toList rest = bare releaseAll := by
  have hv : String.ofList (toLower "releaseall".toList) = "releaseall" := by decide
  have htype : "releaseall" ≠ "type" := by decide
  have hkey : "releaseall" ≠ "key" := by decide
  have hcombo : "releaseall" ≠ "combo" := by decide
  have hdown : "releaseall" ≠ "down" := by decide
  have hup : "releaseall" ≠ "up" := by decide
  rw [executeVerb, hv, if_neg htype, if_neg hkey, if_neg hcombo, if_neg hdown, if_neg hup,
    if_pos (Or.inl rfl)]

theorem oneArg_word {name : List Char} (hname : IsWord name) (verb : String) :
    oneArg name verb = .ok name := by
  rw [oneArg, hname.splitWhitespace]

end Lines

section Performs

variable {answer : List Rpc → Reply} {s : Session} {made : List Rpc} {h : Held}

theorem Runs.bare {step : HidM Unit} {s' : Session} {made' : List Rpc}
    (hstep : Runs answer step s made () s' made') :
    Runs answer (Jetkvm.bare step) s made "" s' made' := hstep.bind (Runs.pure "" s' made')

/-- The helper accepts the line of a command, sends its keyboard reports, and
holds what it leaves held. -/
def Performs (answer : List Rpc → Reply) (s : Session) (made : List Rpc) (h : Held)
    (cmd : Command) : Prop :=
  ∃ s' rpcs, Runs answer (executeLine cmd.line) s made "" s' (made ++ rpcs) ∧
    keyboardReports rpcs = h.reports Hidrig.layout cmd ∧ Agrees s' (h.after Hidrig.layout cmd)

theorem runs_combo (hans : Obliging answer) (ha : Agrees s h) {keys : List Key}
    (hfree : ∀ k ∈ keys.map Key.toKey, h.Free k) (hfits : h.Fits (keys.map Key.toKey)) :
    ∃ rpcs, Runs answer (combo keys) s made () s (made ++ rpcs) ∧
      keyboardReports rpcs =
        [h.plus (bits (keys.map Key.toKey)) (usages (keys.map Key.toKey)), h.plus 0 []] := by
  obtain ⟨hneeded, hset⟩ := h.newKeys_of_fits hfree hfits
  have hchord : chordOf keys s.mods s.held =
      (h.mods ||| bits (keys.map Key.toKey),
        h.keys ++ newKeys h.keys [] (keys.map Key.toKey)) := by
    have heq := chordOf_eq h.keys keys h.mods []
    rw [List.append_nil, foldl_addBit] at heq
    rw [ha.mods, ha.held, heq]
  refine ⟨[.keyboardReport (h.mods ||| bits (keys.map Key.toKey))
    (h.keys ++ newKeys h.keys [] (keys.map Key.toKey)), .keyboardReport s.mods s.held], ?_, ?_⟩
  · have hfew : ¬(h.keys ++ newKeys h.keys [] (keys.map Key.toKey)).length > maxKeys := by
      rw [List.length_append]
      exact not_lt.mpr hneeded
    obtain ⟨reply, hreply⟩ := hans (made ++ [.keyboardReport
      (h.mods ||| bits (keys.map Key.toKey)) (h.keys ++ newKeys h.keys [] (keys.map Key.toKey))])
    refine (runs_getSession s made).bind ?_
    rw [hchord]
    dsimp only
    rw [if_neg hfew]
    refine (runs_call _ s made).bind ?_
    rw [hreply]
    have hsend := runs_sendHeld hans s (made ++ [.keyboardReport
      (h.mods ||| bits (keys.map Key.toKey)) (h.keys ++ newKeys h.keys [] (keys.map Key.toKey))])
    rw [List.append_assoc] at hsend
    exact hsend
  · rw [keyboardReports_cons, keyboardReports_cons, report_held ha, ← h.plus_congr _ hset]
    rfl

theorem performs_key (hans : Obliging answer) (ha : Agrees s h) {name : List Char}
    (hok : h.Allows Hidrig.layout (.key name)) : Performs answer s made h (.key name) := by
  obtain ⟨hreq, hfree, hfits⟩ := hok
  have hword := isWord_of_isRequired hreq
  obtain ⟨k, hk, hlayout⟩ := nameToKey_of_isRequired hreq
  rw [hlayout] at hfree hfits
  have hchord : ∀ k' ∈ [k].map Key.toKey, h.Free k' := by
    intro k' hk'
    rw [List.mem_singleton.mp hk']
    exact hfree
  obtain ⟨rpcs, hruns, hreports⟩ := runs_combo hans ha hchord hfits
  rw [Performs, Held.reports, hlayout]
  refine ⟨s, rpcs, ?_, hreports, ha⟩
  rw [Command.line_key, executeLine_verb Hidrig.isWord_key (Hidrig.isNewline_of_word hword),
    executeVerb_key, hword.trim]
  exact ((runs_lift (oneArg_word hword "key") s made).bind ((runs_lift hk s made).bind hruns)).bare

theorem performs_combo (hans : Obliging answer) (ha : Agrees s h) {names : List (List Char)}
    (hok : h.Allows Hidrig.layout (.combo names)) : Performs answer s made h (.combo names) := by
  obtain ⟨hsome, hnames, hfits⟩ := hok
  have hwords : ∀ name ∈ names, IsWord name := fun n hn => isWord_of_isRequired (hnames n hn).1
  have hargs : ∀ ch ∈ blankSeparated names, isNewline ch = false := by
    intro ch hch
    rcases mem_blankSeparated hch with rfl | ⟨name, hname, hch⟩
    · rfl
    · exact Hidrig.not_isNewline_of_not_isWhitespace ((hwords name hname).2 ch hch)
  have hfree : ∀ k ∈ names.map Hidrig.layout.key, h.Free k := by
    intro k hk
    obtain ⟨name, hname, rfl⟩ := List.mem_map.mp hk
    exact (hnames name hname).2
  obtain ⟨keys, hkeys, hlayout⟩ := namesToKeys_of_isRequired fun n hn => (hnames n hn).1
  rw [hlayout] at hfree hfits
  obtain ⟨rpcs, hruns, hreports⟩ := runs_combo hans ha hfree hfits
  have hne : keys.isEmpty = false := by
    cases keys with
    | nil => exact absurd (List.map_eq_nil_iff.mp hlayout) hsome
    | cons k keys => rfl
  rw [Performs, Held.reports, hlayout]
  refine ⟨s, rpcs, ?_, hreports, ha⟩
  rw [Command.line_combo, executeLine_verb Hidrig.isWord_combo hargs, executeVerb_combo,
    splitWhitespace_trim, splitWhitespace_blankSeparated hwords]
  refine ((runs_lift hkeys s made).bind ?_).bare
  rw [hne]
  exact hruns

theorem runs_typeStroke (hans : Obliging answer) (ha : Agrees s h) (i : Nat) {u : UInt8}
    (hu : u ∉ h.keys) (hroom : h.keys.length < slotCount) (shift : Bool) :
    ∃ rpcs, Runs answer (typeStroke i u shift) s made () s (made ++ rpcs) ∧
      keyboardReports rpcs = [h.plus (if shift then leftShift else 0) [u], h.plus 0 []] := by
  have hmods : (if shift then s.mods ||| modLeftShift else s.mods) =
      h.mods ||| (if shift then leftShift else 0) := by
    rw [ha.mods]
    cases shift with
    | true => rfl
    | false => exact UInt8.or_zero.symm
  have hnot : u ∉ s.held := by
    rw [ha.held]
    exact hu
  have hfew : ¬s.held.length ≥ maxKeys := by
    rw [ha.held]
    exact not_le.mpr hroom
  let press : Rpc := .keyboardReport (if shift then s.mods ||| modLeftShift else s.mods)
    (s.held ++ [u])
  refine ⟨[press, .keyboardReport s.mods s.held], ?_, ?_⟩
  · obtain ⟨reply, hreply⟩ := hans (made ++ [press])
    obtain ⟨reply', hreply'⟩ := hans (made ++ [press] ++ [.keyboardReport s.mods s.held])
    have hrelease : Runs answer (call (.keyboardReport s.mods s.held)) s (made ++ [press])
        (answer (made ++ [press] ++ [.keyboardReport s.mods s.held])) s
        (made ++ [press] ++ [.keyboardReport s.mods s.held]) := runs_call _ s _
    rw [hreply'] at hrelease
    refine (runs_getSession s made).bind ?_
    rw [if_neg hnot, pressStroke, if_neg hfew]
    refine (runs_call press s made).bind ?_
    rw [hreply]
    refine (runs_getSession s _).bind ?_
    rw [List.append_assoc] at hrelease
    exact hrelease.bind (Runs.pure () s _)
  · rw [keyboardReports_cons, keyboardReports_cons, report_held ha, hmods, ha.held]
    rfl

theorem runs_typeStrokes (hans : Obliging answer) (ha : Agrees s h) (i : Nat) {text : List Char}
    (hfree : ∀ ch ∈ text, (Hidrig.layout.char ch).1 ∉ h.keys ∧ h.keys.length < slotCount) :
    ∃ rpcs, Runs answer (typeStrokes i (text.map Hidrig.layout.char)) s made () s (made ++ rpcs) ∧
      keyboardReports rpcs = h.reports Hidrig.layout (.type text) := by
  induction text generalizing i made with
  | nil =>
      refine ⟨[], ?_, rfl⟩
      rw [List.append_nil]
      exact Runs.pure () s made
  | cons ch text ih =>
      obtain ⟨hnew, hroom⟩ := hfree ch List.mem_cons_self
      obtain ⟨rpcs₁, hruns₁, hreports₁⟩ :=
        runs_typeStroke hans ha i hnew hroom (Hidrig.layout.char ch).2
      obtain ⟨rpcs₂, hruns₂, hreports₂⟩ :=
        ih (i + 1) fun x hx => hfree x (List.mem_cons_of_mem _ hx)
      refine ⟨rpcs₁ ++ rpcs₂, ?_, ?_⟩
      · rw [← List.append_assoc]
        exact hruns₁.bind hruns₂
      · rw [keyboardReports_append, hreports₁, hreports₂, Held.reports, Held.reports,
          List.flatMap_cons]

theorem performs_type (hans : Obliging answer) (ha : Agrees s h) {text : List Char}
    (hok : h.Allows Hidrig.layout (.type text)) : Performs answer s made h (.type text) := by
  obtain ⟨hprint, hlimit, hfree⟩ := hok
  have hargs : ∀ ch ∈ text, isNewline ch = false :=
    fun ch hch => Hidrig.not_isNewline_of_printable (hprint ch hch).1
  have hshort : checkTypeLen text = .ok () := if_neg (not_lt.mpr hlimit)
  obtain ⟨rpcs, hruns, hreports⟩ := runs_typeStrokes hans ha 1 hfree
  refine ⟨s, rpcs, ?_, hreports, ha⟩
  rw [Command.line_type, executeLine_verb Hidrig.isWord_type hargs, executeVerb_type]
  have htext : (if (("type".toList ++ ' ' :: text).drop 4).head? = some ' '
      then (("type".toList ++ ' ' :: text).drop 4).tail
      else ("type".toList ++ ' ' :: text).drop 4) = text := rfl
  rw [htext]
  exact ((runs_lift hshort s made).bind
    ((runs_lift (strokesOf_of_printable hprint) s made).bind hruns)).bare

theorem runs_keyDown (hans : Obliging answer) (ha : Agrees s h) {k : Key}
    (hlen : (h.press k.toKey).keys.length ≤ slotCount) :
    ∃ s', Runs answer (keyDown k) s made () s' (made ++ [.keyboardReport s'.mods s'.held]) ∧
      Agrees s' (h.press k.toKey) := by
  rw [Key.toKey] at hlen
  rw [keyDown, Key.toKey]
  by_cases hmod : k.modifier = true
  · rw [if_pos hmod, if_pos hmod]
    have ha' : Agrees { s with mods := s.mods ||| k.value } (h.press (.modifier k.value)) :=
      ⟨congrArg (· ||| k.value) ha.mods, ha.held⟩
    exact ⟨_, (runs_modifySession _ s made).bind (runs_sendHeld hans _ made), ha'⟩
  · rw [if_neg hmod, Held.press] at hlen
    rw [if_neg hmod, if_neg hmod, Held.press]
    by_cases hu : k.value ∈ h.keys
    · have hheld : ¬k.value ∉ s.held := by
        rw [ha.held]
        exact not_not.mpr hu
      refine ⟨s, (runs_getSession s made).bind ?_, ?_⟩
      · rw [if_neg hheld]
        exact runs_sendHeld hans s made
      · rw [if_pos hu]
        exact ha
    · have hnot : k.value ∉ s.held := by
        rw [ha.held]
        exact hu
      rw [if_neg hu, List.length_append] at hlen
      have hfew : ¬s.held.length ≥ maxKeys := by
        rw [ha.held]
        exact not_le.mpr hlen
      refine ⟨{ s with held := s.held ++ [k.value] }, (runs_getSession s made).bind ?_, ?_⟩
      · rw [if_pos hnot, if_neg hfew]
        exact (runs_modifySession _ s made).bind (runs_sendHeld hans _ made)
      · rw [if_neg hu]
        exact ⟨ha.mods, congrArg (· ++ [k.value]) ha.held⟩

theorem performs_down (hans : Obliging answer) (ha : Agrees s h) {name : List Char}
    (hok : h.Allows Hidrig.layout (.down name)) : Performs answer s made h (.down name) := by
  obtain ⟨hreq, hlen⟩ := hok
  have hword := isWord_of_isRequired hreq
  obtain ⟨k, hk, hlayout⟩ := nameToKey_of_isRequired hreq
  rw [hlayout] at hlen
  obtain ⟨s', hruns, ha'⟩ := runs_keyDown hans ha hlen
  rw [Performs, Held.reports, Held.after, hlayout]
  refine ⟨s', [.keyboardReport s'.mods s'.held], ?_, ?_, ha'⟩
  · rw [Command.line_down, executeLine_verb Hidrig.isWord_down (Hidrig.isNewline_of_word hword),
      executeVerb_down, hword.trim]
    exact ((runs_lift (oneArg_word hword "down") s made).bind
      ((runs_lift hk s made).bind hruns)).bare
  · exact congrArg (fun r => [r]) (report_held ha')

theorem performs_up (hans : Obliging answer) (ha : Agrees s h) {name : List Char}
    (hreq : h.Allows Hidrig.layout (.up name)) : Performs answer s made h (.up name) := by
  have hword := isWord_of_isRequired hreq
  obtain ⟨k, hk, hlayout⟩ := nameToKey_of_isRequired hreq
  let s' : Session := if k.modifier then { s with mods := s.mods &&& ~~~k.value }
    else { s with held := without s.held k.value }
  have ha' : Agrees s' (h.release k.toKey) := by
    rw [Key.toKey]
    by_cases hmod : k.modifier = true
    · simp only [s', if_pos hmod]
      exact ⟨congrArg (· &&& ~~~k.value) ha.mods, ha.held⟩
    · simp only [s', if_neg hmod]
      exact ⟨ha.mods, congrArg (List.filter (· != k.value)) ha.held⟩
  rw [Performs, Held.reports, Held.after, hlayout]
  refine ⟨s', [.keyboardReport s'.mods s'.held], ?_, ?_, ha'⟩
  · rw [Command.line_up, executeLine_verb Hidrig.isWord_up (Hidrig.isNewline_of_word hword),
      executeVerb_up, hword.trim]
    have hup : Runs answer (keyUp k) s made () s' (made ++ [.keyboardReport s'.mods s'.held]) :=
      (runs_modifySession _ s made).bind (runs_sendHeld hans s' made)
    exact ((runs_lift (oneArg_word hword "up") s made).bind
      ((runs_lift hk s made).bind hup)).bare
  · exact congrArg (fun r => [r]) (report_held ha')

theorem performs_releaseall (hans : Obliging answer) : Performs answer s made h .releaseall := by
  let clear : Session := ⟨0, [], 0⟩
  refine ⟨clear, [.keyboardReport 0 [], .relMouseReport 0 0 0], ?_, rfl, ⟨rfl, rfl⟩⟩
  have hsplit : splitOnce (· == ' ') "releaseall".toList = none := by decide
  have htrim : ("releaseall".toList.dropWhile fun c => c == ' ' || c == '\t') =
      "releaseall".toList := by decide
  rw [Command.line_releaseall,
    executeLine_of_splitOnce (Hidrig.isNewline_of_word Hidrig.isWord_releaseall) htrim, hsplit]
  dsimp only
  rw [executeVerb_releaseall]
  have hmouse : Runs answer (relMouse 0 0) clear (made ++ [.keyboardReport 0 []]) () clear
      (made ++ [.keyboardReport 0 []] ++ [.relMouseReport 0 0 0]) :=
    (runs_getSession clear _).bind (runs_demand hans _ clear _)
  rw [List.append_assoc] at hmouse
  exact ((runs_modifySession _ s made).bind ((runs_sendHeld hans clear made).bind hmouse)).bare

/-- The helper performs every allowed command. -/
theorem performs (hans : Obliging answer) (ha : Agrees s h) {cmd : Command}
    (hok : h.Allows Hidrig.layout cmd) : Performs answer s made h cmd := by
  cases cmd with
  | type text => exact performs_type hans ha hok
  | key name => exact performs_key hans ha hok
  | combo names => exact performs_combo hans ha hok
  | down name => exact performs_down hans ha hok
  | up name => exact performs_up hans ha hok
  | releaseall => exact performs_releaseall hans

end Performs

/-- Command lines one after another, all of them accepted. -/
def executeAll : List (List Char) → HidM Unit
  | [] => return ()
  | line :: lines => do
      let _ ← executeLine line
      executeAll lines

theorem executeAll_spec {answer : List Rpc → Reply} (hans : Obliging answer)
    {cmds : List Command} {s : Session} (made : List Rpc) {h : Held} (ha : Agrees s h)
    (hok : h.AllowsAll Hidrig.layout cmds) :
    ∃ s' rpcs, Runs answer (executeAll (cmds.map Command.line)) s made () s' (made ++ rpcs) ∧
      keyboardReports rpcs = h.allReports Hidrig.layout cmds := by
  induction cmds generalizing s made h with
  | nil =>
      refine ⟨s, [], ?_, rfl⟩
      rw [List.append_nil]
      exact Runs.pure () s made
  | cons cmd cmds ih =>
      obtain ⟨hcmd, hcmds⟩ := hok
      obtain ⟨s₁, rpcs₁, hruns₁, hreports₁, ha₁⟩ := performs hans ha hcmd
      obtain ⟨s₂, rpcs₂, hruns₂, hreports₂⟩ := ih _ ha₁ hcmds
      refine ⟨s₂, rpcs₁ ++ rpcs₂, ?_, ?_⟩
      · rw [← List.append_assoc]
        exact hruns₁.bind hruns₂
      · rw [keyboardReports_append, hreports₁, hreports₂]
        rfl

/-- On every sequence of allowed commands, with a device that answers every
call: the JetKVM helper accepts every line, so does hidrig's composer, and both
send the keyboard reports of the sequence. -/
theorem types_as_composer {answer : List Rpc → Reply} (hans : Obliging answer)
    {cmds : List Command} (hok : Held.none.AllowsAll Hidrig.layout cmds) :
    ∃ s rpcs c frames,
      Runs answer (executeAll (cmds.map Command.line)) Session.new [] () s rpcs ∧
      Hidrig.Composer.new.dispatchAll (cmds.map Command.line) = .ok (c, frames) ∧
      keyboardReports rpcs = Held.none.allReports Hidrig.layout cmds ∧
      frames.map Hidrig.keyboardReport = (keyboardReports rpcs).map some := by
  obtain ⟨s, rpcs, hruns, hreports⟩ :=
    executeAll_spec hans (s := .new) [] ⟨rfl, rfl⟩ hok
  obtain ⟨c, frames, hdispatch, hframes⟩ :=
    Hidrig.dispatchAll_spec (c := .new) ⟨rfl, rfl⟩ (Nat.zero_le _) hok
  refine ⟨s, rpcs, c, frames, hruns, hdispatch, hreports, ?_⟩
  rw [hframes, hreports]

/-- Text typed with Shift held, a chord on top of a held key, and its release. -/
def shiftedCommands : List Command :=
  [.down "LEFT_SHIFT".toList, .type "Hi ~".toList, .up "LEFT_SHIFT".toList, .down "A".toList,
    .combo ["LEFT_CONTROL".toList, "B".toList, "B".toList], .key "F12".toList, .releaseall]

theorem types_as_composer_shifted :
    ∃ s rpcs c frames,
      Runs (fun _ => .ok "null") (executeAll (shiftedCommands.map Command.line)) Session.new [] ()
        s rpcs ∧
      Hidrig.Composer.new.dispatchAll (shiftedCommands.map Command.line) = .ok (c, frames) ∧
      keyboardReports rpcs = Held.none.allReports Hidrig.layout shiftedCommands ∧
      frames.map Hidrig.keyboardReport = (keyboardReports rpcs).map some := by
  have hans : Obliging fun _ => .ok "null" := fun _ => ⟨"null", rfl⟩
  have hok : Held.none.AllowsAll Hidrig.layout shiftedCommands := by decide +kernel
  exact types_as_composer hans hok

end Jetkvm

end Paniolo
