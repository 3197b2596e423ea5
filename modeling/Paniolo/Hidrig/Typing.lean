import Paniolo.HidProtocol.Typing
import Paniolo.Hidrig.Compose

/-!
# What the hidrig composer types

The composer implements the keyboard commands of the protocol: on every line of
an allowed command it accepts it, sends the reports of the command, and holds
afterwards what the protocol says.
-/

namespace Paniolo

namespace Hidrig

open Text HidProtocol

def KeyKind.toKey : KeyKind → Key
  | .modifier bit => .modifier bit
  | .key u => .usage u

/-- The tables of the composer. -/
def layout : Layout where
  key name :=
    match keyKind name with
    | .ok k => k.toKey
    | .error _ => .usage 0
  char c := (charToKey c).getD (0, false)

/-- The keyboard report in a frame. -/
def keyboardReport : Frame → Option Report
  | ftype :: rid :: len :: mods :: _ :: slots =>
      if ftype = fHid ∧ rid = ridKbd ∧ len = 8 ∧ slots.length = keySlots then
        some (report mods slots)
      else none
  | _ => none

/-- The composer holds what the protocol holds. -/
structure Agrees (c : Composer) (h : Held) : Prop where
  mods : c.heldMods = h.mods
  keys : c.heldKeys = h.keys

theorem keyKind_of_isRequired {name : List Char} (h : isRequired name) :
    ∃ k, keyKind name = .ok k ∧ layout.key name = k.toKey := by
  have hall : ∀ n ∈ requiredNames, (keyKind n.toList).toOption.isSome = true := by
    decide +kernel
  have hn := hall _ h
  rw [String.toList_ofList] at hn
  cases hk : keyKind name with
  | ok k => exact ⟨k, rfl, by simp only [layout, hk]⟩
  | error e =>
      rw [hk] at hn
      cases hn

theorem charToKey_of_printable {c : Char} (h : ' ' ≤ c ∧ c ≤ '~') :
    charToKey c = some (layout.char c) := by
  have hall : ∀ n < 127, 32 ≤ n → (charToKey (Char.ofNat n)).isSome = true := by decide
  have hlo : 32 ≤ c.toNat := h.1
  have hhi : c.toNat ≤ 126 := h.2
  have hsome := hall c.toNat (by omega) hlo
  rw [Char.ofNat_toNat] at hsome
  obtain ⟨x, hx⟩ := Option.isSome_iff_exists.mp hsome
  simp only [layout, hx, Option.getD_some]

theorem filter_ne_zero_append_replicate (keys : List UInt8) (n : Nat) :
    (keys ++ List.replicate n 0).filter (· ≠ 0) = keys.filter (· ≠ 0) := by
  rw [List.filter_append, List.filter_replicate]
  simp

/-- What a frame reports of what is held and more: the first six keys. -/
theorem keyboardReport_slots (c : Composer) (mods : UInt8) (keys : List UInt8) :
    keyboardReport (c.kbd mods keys) =
      some (report (c.heldMods ||| mods) ((c.heldKeys ++ keys).take keySlots)) := by
  have htake : ((c.heldKeys ++ keys).take keySlots).length ≤ keySlots := List.length_take_le _ _
  have hpad : ((c.heldKeys ++ keys).take keySlots ++
      List.replicate (keySlots - ((c.heldKeys ++ keys).take keySlots).length) 0).length =
      keySlots := by
    rw [List.length_append, List.length_replicate]
    omega
  rw [Composer.kbd, Composer.kbdReport, frame]
  simp only [List.cons_append, List.nil_append, keyboardReport]
  rw [if_pos, report, report, filter_ne_zero_append_replicate]
  refine ⟨trivial, trivial, ?_, hpad⟩
  rw [List.length_cons, List.length_cons, hpad]
  rfl

/-- The report of a frame that the composer makes of what is held and more. -/
theorem keyboardReport_kbd {c : Composer} {h : Held} (ha : Agrees c h) {mods : UInt8}
    {keys : List UInt8} (hlen : h.keys.length + keys.length ≤ slotCount) :
    keyboardReport (c.kbd mods keys) = some (h.plus mods keys) := by
  have htake : (c.heldKeys ++ keys).take keySlots = h.keys ++ keys := by
    rw [ha.keys]
    apply List.take_of_length_le
    rw [List.length_append]
    exact hlen
  rw [keyboardReport_slots, htake, ha.mods, Held.plus]

theorem keyboardReport_held {c : Composer} {h : Held} (ha : Agrees c h)
    (hlen : h.keys.length ≤ slotCount) : keyboardReport (c.kbd 0 []) = some (h.plus 0 []) :=
  keyboardReport_kbd ha hlen

theorem not_isNewline_of_not_isWhitespace {ch : Char} (h : isWhitespace ch = false) :
    Composer.isNewline ch = false := by
  by_contra hn
  rw [Bool.not_eq_false, Composer.isNewline, Bool.or_eq_true, beq_iff_eq, beq_iff_eq] at hn
  rcases hn with rfl | rfl
  · exact absurd h (by decide)
  · exact absurd h (by decide)

theorem not_isNewline_of_printable {ch : Char} (h : ' ' ≤ ch) : Composer.isNewline ch = false := by
  have hlo : 32 ≤ ch.toNat := h
  by_contra hn
  rw [Bool.not_eq_false, Composer.isNewline, Bool.or_eq_true, beq_iff_eq, beq_iff_eq] at hn
  rcases hn with rfl | rfl
  · exact absurd hlo (by decide)
  · exact absurd hlo (by decide)

/-- A line without a newline is dispatched by its first word. -/
theorem dispatch_of_splitLine (c : Composer) {line v args : List Char}
    (hline : ∀ ch ∈ line, Composer.isNewline ch = false)
    (hsplit : (splitOnce isWhitespace (trimStart line)).getD (trimStart line, []) = (v, args)) :
    c.dispatch line = c.dispatchVerb v args := by
  have hstrip : line.rdropWhile Composer.isNewline = line := rdropWhile_eq_self hline
  have hany : line.any Composer.isNewline = false := by
    rw [List.any_eq_false]
    intro ch hch
    rw [hline ch hch]
    simp
  rw [Composer.dispatch, Composer.splitLine, hstrip, hany, hsplit]
  rfl

theorem dispatch_verb (c : Composer) {v : List Char} (hv : IsWord v) {args : List Char}
    (hargs : ∀ ch ∈ args, Composer.isNewline ch = false) :
    c.dispatch (v ++ ' ' :: args) = c.dispatchVerb v args := by
  apply dispatch_of_splitLine
  · intro ch hch
    rcases List.mem_append.mp hch with hch | hch
    · exact not_isNewline_of_not_isWhitespace (hv.2 ch hch)
    · rcases List.mem_cons.mp hch with rfl | hch
      · rfl
      · exact hargs ch hch
  · obtain ⟨x, v', rfl⟩ := List.exists_cons_of_ne_nil hv.1
    rw [List.cons_append, trimStart_cons (hv.2 x List.mem_cons_self), ← List.cons_append,
      splitOnce_append hv.2 (by decide)]
    rfl

theorem isNewline_of_word {w : List Char} (h : IsWord w) :
    ∀ ch ∈ w, Composer.isNewline ch = false :=
  fun ch hch => not_isNewline_of_not_isWhitespace (h.2 ch hch)

theorem isWord_type : IsWord "type".toList := isWord_of_all (by decide) (by decide)
theorem isWord_key : IsWord "key".toList := isWord_of_all (by decide) (by decide)
theorem isWord_combo : IsWord "combo".toList := isWord_of_all (by decide) (by decide)
theorem isWord_down : IsWord "down".toList := isWord_of_all (by decide) (by decide)
theorem isWord_up : IsWord "up".toList := isWord_of_all (by decide) (by decide)

theorem isWord_releaseall : IsWord "releaseall".toList := isWord_of_all (by decide) (by decide)

theorem dispatchVerb_type (c : Composer) (rest : List Char) :
    c.dispatchVerb "type".toList rest = (do return (c, ← c.typeText rest)) := by
  have hv : String.ofList (toAsciiLowercase "type".toList) = "type" := by decide
  rw [Composer.dispatchVerb, hv]
  simp only [if_true]

theorem dispatchVerb_key (c : Composer) (rest : List Char) :
    c.dispatchVerb "key".toList rest = (do return (c, ← c.key (trim rest))) := by
  have hv : String.ofList (toAsciiLowercase "key".toList) = "key" := by decide
  rw [Composer.dispatchVerb, hv]
  simp only [String.reduceEq, if_false, if_true]

theorem dispatchVerb_combo (c : Composer) (rest : List Char) :
    c.dispatchVerb "combo".toList rest =
      (do return (c, ← c.combo (splitWhitespace (trim rest)))) := by
  have hv : String.ofList (toAsciiLowercase "combo".toList) = "combo" := by decide
  rw [Composer.dispatchVerb, hv]
  simp only [String.reduceEq, if_false, if_true]

theorem dispatchVerb_down (c : Composer) (rest : List Char) :
    c.dispatchVerb "down".toList rest = c.down (trim rest) := by
  have hv : String.ofList (toAsciiLowercase "down".toList) = "down" := by decide
  rw [Composer.dispatchVerb, hv]
  simp only [String.reduceEq, if_false, if_true]

theorem dispatchVerb_up (c : Composer) (rest : List Char) :
    c.dispatchVerb "up".toList rest = c.up (trim rest) := by
  have hv : String.ofList (toAsciiLowercase "up".toList) = "up" := by decide
  rw [Composer.dispatchVerb, hv]
  simp only [String.reduceEq, if_false, if_true]

theorem dispatchVerb_releaseall (c : Composer) (rest : List Char) :
    c.dispatchVerb "releaseall".toList rest = .ok c.releaseall := by
  have hv : String.ofList (toAsciiLowercase "releaseall".toList) = "releaseall" := by decide
  rw [Composer.dispatchVerb, hv]
  simp only [String.reduceEq, if_false, if_true]
  rfl

/-- What a helper has to do with a command: accept its line, send its reports
and hold what it leaves held. -/
def Performs (c : Composer) (h : Held) (cmd : Command) : Prop :=
  ∃ c' frames, c.dispatch cmd.line = .ok (c', frames) ∧
    frames.map keyboardReport = (h.reports layout cmd).map some ∧ Agrees c' (h.after layout cmd)

variable {c : Composer} {h : Held}

theorem performs_key (ha : Agrees c h) {name : List Char} (hlen : h.keys.length ≤ slotCount)
    (hok : h.Allows layout (.key name)) : Performs c h (.key name) := by
  obtain ⟨hreq, hfree, hfits⟩ := hok
  have hword := isWord_of_isRequired hreq
  obtain ⟨k, hk, hlayout⟩ := keyKind_of_isRequired hreq
  have hdispatch : c.dispatch (Command.key name).line = (do return (c, ← c.key name)) := by
    rw [Command.line_key, dispatch_verb c isWord_key (isNewline_of_word hword), dispatchVerb_key,
      hword.trim]
  have hrest := keyboardReport_held ha hlen
  rw [Performs, hdispatch, Composer.key, hk, Held.reports, hlayout]
  rw [hlayout] at hfits
  cases k with
  | modifier bit =>
      refine ⟨c, [c.kbd bit [], c.kbd 0 []], rfl, ?_, ha⟩
      have hbits : bits [KeyKind.toKey (.modifier bit)] = bit := UInt8.zero_or
      have hpress : keyboardReport (c.kbd bit []) = some (h.plus bit []) :=
        keyboardReport_kbd ha hlen
      rw [List.map_cons, List.map_singleton, hrest, hpress, hbits]
      rfl
  | key u =>
      refine ⟨c, [c.kbd 0 [u], c.kbd 0 []], rfl, ?_, ha⟩
      have hpress : keyboardReport (c.kbd 0 [u]) = some (h.plus 0 [u]) :=
        keyboardReport_kbd ha hfits
      rw [List.map_cons, List.map_singleton, hrest, hpress]
      rfl

/-- A chord of known names: their modifier bits, and each new key once. -/
theorem chord_of_kinds (c : Composer) {names : List (List Char)} {kinds : List KeyKind}
    (h : List.Forall₂ (fun name k => keyKind name = .ok k) names kinds) (mods : UInt8)
    (keys : List UInt8) :
    c.chord names mods keys = .ok ((kinds.map KeyKind.toKey).foldl addBit mods,
      newKeys c.heldKeys keys (kinds.map KeyKind.toKey)) := by
  induction h generalizing mods keys with
  | nil => rfl
  | @cons name k names kinds hk hrest ih =>
      rw [List.map_cons, List.foldl_cons, Composer.chord, hk]
      cases k with
      | modifier bit => exact ih (mods ||| bit) keys
      | key u =>
          rw [KeyKind.toKey, newKeys]
          by_cases hu : u ∉ keys ∧ u ∉ c.heldKeys
          · rw [if_pos hu]
            exact (if_pos hu).trans (ih mods _)
          · rw [if_neg hu]
            exact (if_neg hu).trans (ih mods _)

theorem exists_kinds {names : List (List Char)} (hnames : ∀ name ∈ names, isRequired name) :
    ∃ kinds, List.Forall₂ (fun name k => keyKind name = .ok k) names kinds ∧
      kinds.map KeyKind.toKey = names.map layout.key := by
  induction names with
  | nil => exact ⟨[], .nil, rfl⟩
  | cons name names ih =>
      obtain ⟨k, hk, hlayout⟩ := keyKind_of_isRequired (hnames name List.mem_cons_self)
      obtain ⟨kinds, hkinds, hmap⟩ := ih fun n hn => hnames n (List.mem_cons_of_mem _ hn)
      refine ⟨k :: kinds, .cons hk hkinds, ?_⟩
      rw [List.map_cons, List.map_cons, hlayout, hmap]

/-- A chord of required names. -/
theorem chord_spec (c : Composer) {names : List (List Char)}
    (hnames : ∀ name ∈ names, isRequired name) (mods : UInt8) (keys : List UInt8) :
    c.chord names mods keys = .ok ((names.map layout.key).foldl addBit mods,
      newKeys c.heldKeys keys (names.map layout.key)) := by
  obtain ⟨kinds, hkinds, hmap⟩ := exists_kinds hnames
  rw [chord_of_kinds c hkinds, hmap]

theorem performs_combo (ha : Agrees c h) {names : List (List Char)}
    (hlen : h.keys.length ≤ slotCount) (hok : h.Allows layout (.combo names)) :
    Performs c h (.combo names) := by
  obtain ⟨-, hnames, hfits⟩ := hok
  have hwords : ∀ name ∈ names, IsWord name := fun n hn => isWord_of_isRequired (hnames n hn).1
  have hargs : ∀ ch ∈ blankSeparated names, Composer.isNewline ch = false := by
    intro ch hch
    rcases mem_blankSeparated hch with rfl | ⟨name, hname, hch⟩
    · rfl
    · exact not_isNewline_of_not_isWhitespace ((hwords name hname).2 ch hch)
  have hdispatch : c.dispatch (Command.combo names).line = (do return (c, ← c.combo names)) := by
    rw [Command.line_combo, dispatch_verb c isWord_combo hargs, dispatchVerb_combo,
      splitWhitespace_trim, splitWhitespace_blankSeparated hwords]
  have hfree : ∀ k ∈ names.map layout.key, h.Free k := by
    intro k hk
    obtain ⟨name, hname, rfl⟩ := List.mem_map.mp hk
    exact (hnames name hname).2
  obtain ⟨hneeded, hset⟩ := h.newKeys_of_fits hfree hfits
  have hrest := keyboardReport_held ha hlen
  have hcombo : c.combo names = .ok [c.kbd ((names.map layout.key).foldl addBit 0)
      (newKeys h.keys [] (names.map layout.key)), c.kbd 0 []] := by
    rw [Composer.combo, chord_spec c (fun n hn => (hnames n hn).1) 0 [], ha.keys]
    have hfew : ¬h.keys.length + (newKeys h.keys [] (names.map layout.key)).length > keySlots :=
      not_lt.mpr hneeded
    exact if_neg hfew
  rw [Performs, hdispatch, hcombo]
  refine ⟨c, _, rfl, ?_, ha⟩
  rw [List.map_cons, List.map_singleton, hrest, keyboardReport_kbd ha hneeded,
    h.plus_congr _ hset]
  rfl

theorem typeChars_spec (ha : Agrees c h) {text : List Char} (hlen : h.keys.length ≤ slotCount)
    (hprint : ∀ ch ∈ text, ' ' ≤ ch ∧ ch ≤ '~')
    (hfree : ∀ ch ∈ text, (layout.char ch).1 ∉ h.keys ∧ h.keys.length < slotCount) :
    ∃ frames, c.typeChars text = .ok frames ∧
      frames.map keyboardReport = (h.reports layout (.type text)).map some := by
  induction text with
  | nil => exact ⟨[], rfl, rfl⟩
  | cons ch text ih =>
      obtain ⟨frames, htext, hframes⟩ := ih (fun x hx => hprint x (List.mem_cons_of_mem _ hx))
        (fun x hx => hfree x (List.mem_cons_of_mem _ hx))
      have hkey := charToKey_of_printable (hprint ch List.mem_cons_self)
      obtain ⟨-, hroom⟩ := hfree ch List.mem_cons_self
      have hrest := keyboardReport_held ha hlen
      have hpress : keyboardReport
          (c.kbd (if (layout.char ch).2 then 0x02 else 0) [(layout.char ch).1]) =
          some (h.plus (if (layout.char ch).2 then leftShift else 0) [(layout.char ch).1]) :=
        keyboardReport_kbd ha hroom
      refine ⟨c.kbd (if (layout.char ch).2 then 0x02 else 0) [(layout.char ch).1] ::
        c.kbd 0 [] :: frames, ?_, ?_⟩
      · rw [Composer.typeChars, hkey, htext]
        rfl
      · rw [List.map_cons, List.map_cons, hpress, hrest, hframes, Held.reports, Held.reports,
          List.flatMap_cons]
        rfl

theorem performs_type (ha : Agrees c h) {text : List Char} (hlen : h.keys.length ≤ slotCount)
    (hok : h.Allows layout (.type text)) : Performs c h (.type text) := by
  obtain ⟨hprint, hlimit, hfree⟩ := hok
  have hargs : ∀ ch ∈ text, Composer.isNewline ch = false :=
    fun ch hch => not_isNewline_of_printable (hprint ch hch).1
  obtain ⟨frames, htext, hframes⟩ := typeChars_spec ha hlen hprint hfree
  have hshort : ¬text.length > maxTypeChars := not_lt.mpr hlimit
  rw [Performs, Command.line_type, dispatch_verb c isWord_type hargs, dispatchVerb_type,
    Composer.typeText, if_neg hshort, htext]
  exact ⟨c, frames, rfl, hframes, ha⟩

theorem performs_down (ha : Agrees c h) {name : List Char}
    (hok : h.Allows layout (.down name)) : Performs c h (.down name) := by
  obtain ⟨hreq, hlen⟩ := hok
  have hword := isWord_of_isRequired hreq
  obtain ⟨k, hk, hlayout⟩ := keyKind_of_isRequired hreq
  rw [hlayout] at hlen
  rw [Performs, Command.line_down, dispatch_verb c isWord_down (isNewline_of_word hword),
    dispatchVerb_down, hword.trim, Composer.down, hk, Held.reports, Held.after, hlayout]
  cases k with
  | modifier bit =>
      have ha' : Agrees { c with heldMods := c.heldMods ||| bit } (h.press (.modifier bit)) :=
        ⟨by rw [ha.mods]; rfl, ha.keys⟩
      refine ⟨_, _, rfl, ?_, ha'⟩
      rw [List.map_singleton, keyboardReport_held ha' hlen]
      rfl
  | key u =>
      have ha' : Agrees
          (if u ∉ c.heldKeys then { c with heldKeys := c.heldKeys ++ [u] } else c)
          (h.press (.usage u)) := by
        rw [Held.press]
        by_cases hu : u ∈ h.keys
        · rw [if_pos hu, if_neg (by rw [ha.keys]; exact not_not.mpr hu)]
          exact ha
        · rw [if_neg hu, if_pos (by rw [ha.keys]; exact hu)]
          exact ⟨ha.mods, by rw [ha.keys]⟩
      refine ⟨_, _, rfl, ?_, ha'⟩
      rw [List.map_singleton, keyboardReport_held ha' hlen]
      rfl

theorem performs_up (ha : Agrees c h) {name : List Char} (hlen : h.keys.length ≤ slotCount)
    (hreq : h.Allows layout (.up name)) : Performs c h (.up name) := by
  have hword := isWord_of_isRequired hreq
  obtain ⟨k, hk, hlayout⟩ := keyKind_of_isRequired hreq
  have hlen' := (h.length_release_le k.toKey).trans hlen
  rw [Performs, Command.line_up, dispatch_verb c isWord_up (isNewline_of_word hword),
    dispatchVerb_up, hword.trim, Composer.up, hk, Held.reports, Held.after, hlayout]
  cases k with
  | modifier bit =>
      have ha' : Agrees { c with heldMods := c.heldMods &&& ~~~bit } (h.release (.modifier bit)) :=
        ⟨by rw [ha.mods]; rfl, ha.keys⟩
      refine ⟨_, _, rfl, ?_, ha'⟩
      rw [List.map_singleton, keyboardReport_held ha' hlen']
      rfl
  | key u =>
      have ha' : Agrees { c with heldKeys := c.heldKeys.filter (· != u) } (h.release (.usage u)) :=
        ⟨ha.mods, by rw [ha.keys]; rfl⟩
      refine ⟨_, _, rfl, ?_, ha'⟩
      rw [List.map_singleton, keyboardReport_held ha' hlen']
      rfl

theorem performs_releaseall : Performs c h .releaseall := by
  have hdispatch : c.dispatch Command.releaseall.line = .ok c.releaseall := by
    have hsplit : (splitOnce isWhitespace (trimStart "releaseall".toList)).getD
        (trimStart "releaseall".toList, []) = ("releaseall".toList, []) := by decide
    rw [Command.line_releaseall, dispatch_of_splitLine c (isNewline_of_word isWord_releaseall)
      hsplit,
      dispatchVerb_releaseall]
  have ha' : Agrees { c with heldMods := 0, heldKeys := [] } Held.none := ⟨rfl, rfl⟩
  rw [Performs, hdispatch]
  refine ⟨_, _, rfl, ?_, ha'⟩
  rw [List.map_singleton, keyboardReport_held ha' (Nat.zero_le _)]
  rfl

/-- The composer performs every allowed command. -/
theorem performs (ha : Agrees c h) (hlen : h.keys.length ≤ slotCount) {cmd : Command}
    (hok : h.Allows layout cmd) : Performs c h cmd := by
  cases cmd with
  | type text => exact performs_type ha hlen hok
  | key name => exact performs_key ha hlen hok
  | combo names => exact performs_combo ha hlen hok
  | down name => exact performs_down ha hok
  | up name => exact performs_up ha hlen hok
  | releaseall => exact performs_releaseall

/-- The frames of a sequence of lines, all of them accepted. -/
def Composer.dispatchAll : Composer → List (List Char) → Except String (Composer × List Frame)
  | c, [] => .ok (c, [])
  | c, line :: lines => do
      let (c, frames) ← c.dispatch line
      let (c, rest) ← dispatchAll c lines
      return (c, frames ++ rest)

/-- The composer accepts a sequence of allowed commands and sends its reports. -/
theorem dispatchAll_spec {cmds : List Command} (ha : Agrees c h)
    (hlen : h.keys.length ≤ slotCount) (hok : h.AllowsAll layout cmds) :
    ∃ c' frames, c.dispatchAll (cmds.map Command.line) = .ok (c', frames) ∧
      frames.map keyboardReport = (h.allReports layout cmds).map some := by
  induction cmds generalizing c h with
  | nil => exact ⟨c, [], rfl, rfl⟩
  | cons cmd cmds ih =>
      obtain ⟨hcmd, hcmds⟩ := hok
      obtain ⟨c₁, frames₁, hdispatch, hreports, ha₁⟩ := performs ha hlen hcmd
      obtain ⟨c₂, frames₂, hrest, hreports₂⟩ := ih ha₁ (Held.length_after_le hlen hcmd) hcmds
      refine ⟨c₂, frames₁ ++ frames₂, ?_, ?_⟩
      · rw [List.map_cons, Composer.dispatchAll, hdispatch]
        change (do
          let (c, rest) ← c₁.dispatchAll (cmds.map Command.line)
          return (c, frames₁ ++ rest)) = _
        rw [hrest]
        rfl
      · rw [List.map_append, hreports, hreports₂, ← List.map_append]
        rfl

end Hidrig

end Paniolo
