import Mathlib.Data.Finset.Dedup
import Mathlib.Data.Finset.Card
import Paniolo.Library.Text

/-!
# Typing over the HID serial protocol

What the keyboard commands of `docs/dev/hid-serial-protocol.md` mean, apart from
any helper: the keys and modifiers held, and the keyboard reports that a command
sends. A report is read as its modifier byte and the set of its keys. Which key
a name stands for and how a character is typed is a layout; each helper has its
own tables.
-/

namespace Paniolo

namespace HidProtocol

/-- A named key: a modifier bit, or a usage that takes a slot of the report. -/
inductive Key where
  | modifier (bit : UInt8)
  | usage (u : UInt8)
deriving DecidableEq, Repr

/-- The keys that names stand for, and how characters are typed: the usage, and
whether with Shift. -/
structure Layout where
  key : List Char → Key
  char : Char → UInt8 × Bool

/-- The key names that every implementation must accept. -/
def requiredNames : List String := [
  "A", "B", "C", "D", "E", "F", "G", "H", "I", "J", "K", "L", "M", "N", "O", "P", "Q", "R", "S",
  "T", "U", "V", "W", "X", "Y", "Z",
  "ZERO", "ONE", "TWO", "THREE", "FOUR", "FIVE", "SIX", "SEVEN", "EIGHT", "NINE",
  "ENTER", "TAB", "SPACE", "ESCAPE", "BACKSPACE", "DELETE", "INSERT", "HOME", "END", "PAGE_UP",
  "PAGE_DOWN", "UP_ARROW", "DOWN_ARROW", "LEFT_ARROW", "RIGHT_ARROW",
  "LEFT_CONTROL", "LEFT_SHIFT", "LEFT_ALT", "LEFT_GUI",
  "RIGHT_CONTROL", "RIGHT_SHIFT", "RIGHT_ALT", "RIGHT_GUI",
  "F1", "F2", "F3", "F4", "F5", "F6", "F7", "F8", "F9", "F10", "F11", "F12",
  "MINUS", "EQUALS", "LEFT_BRACKET", "RIGHT_BRACKET", "BACKSLASH", "SEMICOLON", "QUOTE",
  "GRAVE_ACCENT", "COMMA", "PERIOD", "FORWARD_SLASH", "CAPS_LOCK", "PRINT_SCREEN", "SCROLL_LOCK",
  "PAUSE", "NUM_LOCK", "KEYPAD_NUMLOCK", "APPLICATION", "MENU"]

def isRequired (name : List Char) : Prop := String.ofList name ∈ requiredNames

instance (name : List Char) : Decidable (isRequired name) :=
  inferInstanceAs (Decidable (_ ∈ _))

/-- The keyboard commands. -/
inductive Command where
  | type (text : List Char)
  | key (name : List Char)
  | combo (names : List (List Char))
  | down (name : List Char)
  | up (name : List Char)
  | releaseall
deriving DecidableEq, Repr

/-- Words with single blanks between them. -/
def blankSeparated : List (List Char) → List Char
  | [] => []
  | [name] => name
  | name :: names => name ++ ' ' :: blankSeparated names

/-- The line of a command. -/
def Command.line : Command → List Char
  | .type text => "type".toList ++ ' ' :: text
  | .key name => "key".toList ++ ' ' :: name
  | .combo names => "combo".toList ++ ' ' :: blankSeparated names
  | .down name => "down".toList ++ ' ' :: name
  | .up name => "up".toList ++ ' ' :: name
  | .releaseall => "releaseall".toList

theorem Command.line_type (text : List Char) :
    (Command.type text).line = "type".toList ++ ' ' :: text := rfl

theorem Command.line_key (name : List Char) :
    (Command.key name).line = "key".toList ++ ' ' :: name := rfl

theorem Command.line_combo (names : List (List Char)) :
    (Command.combo names).line = "combo".toList ++ ' ' :: blankSeparated names := rfl

theorem Command.line_down (name : List Char) :
    (Command.down name).line = "down".toList ++ ' ' :: name := rfl

theorem Command.line_up (name : List Char) :
    (Command.up name).line = "up".toList ++ ' ' :: name := rfl

theorem Command.line_releaseall : Command.releaseall.line = "releaseall".toList := rfl

/-- A keyboard report as a target reads it. -/
abbrev Report := UInt8 × Finset UInt8

/-- The report with the given modifiers and key slots, empty slots being zero. -/
def report (mods : UInt8) (slots : List UInt8) : Report := (mods, (slots.filter (· ≠ 0)).toFinset)

/-- What is held. -/
structure Held where
  mods : UInt8
  keys : List UInt8
deriving DecidableEq, Repr

def Held.none : Held := ⟨0, []⟩

def slotCount : Nat := 6
def textLimit : Nat := 4096
def leftShift : UInt8 := 0x02

def addBit (mods : UInt8) : Key → UInt8
  | .modifier bit => mods ||| bit
  | .usage _ => mods

/-- The modifier bits of some keys. -/
def bits (keys : List Key) : UInt8 := keys.foldl addBit 0

/-- The usages of some keys. -/
def usages (keys : List Key) : List UInt8 :=
  keys.filterMap fun k =>
    match k with
    | .modifier _ => Option.none
    | .usage u => some u

/-- The usages of some keys that are neither held nor named before, each once. -/
def newKeys (held : List UInt8) : List UInt8 → List Key → List UInt8
  | acc, [] => acc
  | acc, .modifier _ :: keys => newKeys held acc keys
  | acc, .usage u :: keys => newKeys held (if u ∉ acc ∧ u ∉ held then acc ++ [u] else acc) keys

variable (L : Layout)

namespace Held

variable (h : Held)

/-- The report of what is held, with further modifiers and keys. -/
def plus (mods : UInt8) (keys : List UInt8) : Report := report (h.mods ||| mods) (h.keys ++ keys)

def press (k : Key) : Held :=
  match k with
  | .modifier bit => { h with mods := h.mods ||| bit }
  | .usage u => if u ∈ h.keys then h else { h with keys := h.keys ++ [u] }

def release (k : Key) : Held :=
  match k with
  | .modifier bit => { h with mods := h.mods &&& ~~~bit }
  | .usage u => { h with keys := h.keys.filter (· != u) }

/-- What is held after a command. -/
def after : Command → Held
  | .down name => h.press (L.key name)
  | .up name => h.release (L.key name)
  | .releaseall => none
  | _ => h

/-- The reports of a command. -/
def reports : Command → List Report
  | .type text => text.flatMap fun c =>
      [h.plus (if (L.char c).2 then leftShift else 0) [(L.char c).1], h.plus 0 []]
  | .key name => [h.plus (bits [L.key name]) (usages [L.key name]), h.plus 0 []]
  | .combo names => [h.plus (bits (names.map L.key)) (usages (names.map L.key)), h.plus 0 []]
  | .down name => [(h.press (L.key name)).plus 0 []]
  | .up name => [(h.release (L.key name)).plus 0 []]
  | .releaseall => [none.plus 0 []]

/-- The key is not held. -/
def Free : Key → Prop
  | .modifier bit => h.mods &&& bit = 0
  | .usage u => u ∉ h.keys

/-- The keys fit next to those held, in the slots of a report. -/
def Fits (keys : List Key) : Prop := h.keys.length + (usages keys).toFinset.card ≤ slotCount

/-- The commands that have the same meaning for every helper: printable text,
required names, no key pressed that is held already, and no more than six keys
needed. -/
def Allows : Command → Prop
  | .type text => (∀ c ∈ text, ' ' ≤ c ∧ c ≤ '~') ∧ text.length ≤ textLimit ∧
      ∀ c ∈ text, (L.char c).1 ∉ h.keys ∧ h.keys.length < slotCount
  | .key name => isRequired name ∧ h.Free (L.key name) ∧ h.Fits [L.key name]
  | .combo names => names ≠ [] ∧ (∀ name ∈ names, isRequired name ∧ h.Free (L.key name)) ∧
      h.Fits (names.map L.key)
  | .down name => isRequired name ∧ (h.press (L.key name)).keys.length ≤ slotCount
  | .up name => isRequired name
  | .releaseall => True

instance decidableFree : (k : Key) → Decidable (h.Free k)
  | .modifier bit => inferInstanceAs (Decidable (h.mods &&& bit = 0))
  | .usage u => inferInstanceAs (Decidable (u ∉ h.keys))

instance decidableFits (keys : List Key) : Decidable (h.Fits keys) :=
  inferInstanceAs (Decidable (_ ≤ _))

instance decidableAllows : (cmd : Command) → Decidable (h.Allows L cmd)
  | .type text =>
      haveI := List.decidableBAll (fun c => ' ' ≤ c ∧ c ≤ '~') text
      haveI := List.decidableBAll
        (fun c => (L.char c).1 ∉ h.keys ∧ h.keys.length < slotCount) text
      inferInstanceAs (Decidable (_ ∧ _ ∧ _))
  | .key _ => inferInstanceAs (Decidable (_ ∧ _ ∧ _))
  | .combo _ => inferInstanceAs (Decidable (_ ∧ _ ∧ _))
  | .down _ => inferInstanceAs (Decidable (_ ∧ _))
  | .up name => inferInstanceAs (Decidable (isRequired name))
  | .releaseall => inferInstanceAs (Decidable True)

/-- Every command of a sequence is allowed where it comes. -/
def AllowsAll : Held → List Command → Prop
  | _, [] => True
  | h, cmd :: cmds => h.Allows L cmd ∧ AllowsAll (h.after L cmd) cmds

instance decidableAllowsAll : (h : Held) → (cmds : List Command) → Decidable (h.AllowsAll L cmds)
  | _, [] => inferInstanceAs (Decidable True)
  | h, cmd :: cmds =>
      @instDecidableAnd _ _ (decidableAllows L h cmd) (decidableAllowsAll (h.after L cmd) cmds)

/-- The reports of a sequence of commands. -/
def allReports : Held → List Command → List Report
  | _, [] => []
  | h, cmd :: cmds => h.reports L cmd ++ allReports (h.after L cmd) cmds

end Held

section Reports

/-- Only the set of the further keys counts. -/
theorem Held.plus_congr (h : Held) (mods : UInt8) {keys keys' : List UInt8}
    (hk : keys.toFinset = keys'.toFinset) : h.plus mods keys = h.plus mods keys' := by
  rw [Held.plus, Held.plus, report, report]
  congr 1
  rw [List.filter_append, List.filter_append, List.toFinset_append, List.toFinset_append,
    List.toFinset_filter, List.toFinset_filter, List.toFinset_filter, hk]

theorem usages_cons_modifier (bit : UInt8) (keys : List Key) :
    usages (.modifier bit :: keys) = usages keys := List.filterMap_cons_none rfl

theorem usages_cons_usage (u : UInt8) (keys : List Key) :
    usages (.usage u :: keys) = u :: usages keys := List.filterMap_cons_some rfl

theorem foldl_addBit (keys : List Key) (mods : UInt8) :
    keys.foldl addBit mods = mods ||| bits keys := by
  induction keys generalizing mods with
  | nil => exact UInt8.or_zero.symm
  | cons k keys ih =>
      rw [bits, List.foldl_cons, List.foldl_cons, ih, ih]
      cases k with
      | modifier bit => rw [addBit, addBit, UInt8.zero_or, UInt8.or_assoc]
      | usage u => rw [addBit, addBit, UInt8.zero_or]

theorem bits_cons_modifier (bit : UInt8) (keys : List Key) :
    bits (.modifier bit :: keys) = bit ||| bits keys := by
  rw [bits, List.foldl_cons, foldl_addBit, addBit, UInt8.zero_or]

theorem bits_cons_usage (u : UInt8) (keys : List Key) : bits (.usage u :: keys) = bits keys := rfl

theorem and_not_eq_self {m b : UInt8} (h : m &&& b = 0) : m &&& ~~~b = m := by
  have hbits := congrArg UInt8.toBitVec h
  apply UInt8.toBitVec_inj.mp
  rw [UInt8.toBitVec_and] at hbits
  rw [UInt8.toBitVec_and, UInt8.toBitVec_not]
  ext i hi
  have hi' := congrArg (fun v => v.getLsbD i) hbits
  simp at hi' ⊢
  grind

theorem or_and_not_eq_self {m b : UInt8} (h : m &&& b = 0) : (m ||| b) &&& ~~~b = m := by
  have hbits := congrArg UInt8.toBitVec h
  apply UInt8.toBitVec_inj.mp
  rw [UInt8.toBitVec_and] at hbits
  rw [UInt8.toBitVec_and, UInt8.toBitVec_not, UInt8.toBitVec_or]
  ext i hi
  have hi' := congrArg (fun v => v.getLsbD i) hbits
  simp at hi' ⊢
  grind

/-- Taking bits off again restores what was there only if none of them was. -/
theorem or_and_not_eq_self_iff {m b : UInt8} : (m ||| b) &&& ~~~b = m ↔ m &&& b = 0 := by
  refine ⟨fun h => ?_, or_and_not_eq_self⟩
  have hbits := congrArg UInt8.toBitVec h
  apply UInt8.toBitVec_inj.mp
  rw [UInt8.toBitVec_and, UInt8.toBitVec_not, UInt8.toBitVec_or] at hbits
  rw [UInt8.toBitVec_and]
  ext i hi
  have hi' := congrArg (fun v => v.getLsbD i) hbits
  simp at hi' ⊢
  grind

theorem and_or_eq_zero {m a b : UInt8} (ha : m &&& a = 0) (hb : m &&& b = 0) :
    m &&& (a ||| b) = 0 := by
  have hbits := congrArg UInt8.toBitVec ha
  have hbits' := congrArg UInt8.toBitVec hb
  apply UInt8.toBitVec_inj.mp
  rw [UInt8.toBitVec_and] at hbits hbits'
  rw [UInt8.toBitVec_and, UInt8.toBitVec_or]
  ext i hi
  have hi' := congrArg (fun v => v.getLsbD i) hbits
  have hi'' := congrArg (fun v => v.getLsbD i) hbits'
  simp at hi' hi'' ⊢
  grind

theorem and_eq_zero_of_or {m a b : UInt8} (h : m &&& (a ||| b) = 0) : m &&& a = 0 ∧ m &&& b = 0 := by
  have hbits := congrArg UInt8.toBitVec h
  rw [UInt8.toBitVec_and, UInt8.toBitVec_or] at hbits
  constructor
  all_goals
    apply UInt8.toBitVec_inj.mp
    rw [UInt8.toBitVec_and]
    ext i hi
    have hi' := congrArg (fun v => v.getLsbD i) hbits
    simp at hi' ⊢
    grind

theorem and_or_self (m b : UInt8) : (m ||| b) &&& b = b := by
  apply UInt8.toBitVec_inj.mp
  rw [UInt8.toBitVec_and, UInt8.toBitVec_or]
  ext i hi
  simp
  grind

theorem and_not_or (m a b : UInt8) : m &&& ~~~(a ||| b) = m &&& ~~~a &&& ~~~b := by
  apply UInt8.toBitVec_inj.mp
  simp only [UInt8.toBitVec_and, UInt8.toBitVec_not, UInt8.toBitVec_or]
  rw [BitVec.not_or, BitVec.and_assoc]

theorem nodup_append_singleton {keys : List UInt8} (h : keys.Nodup) {u : UInt8} (hu : u ∉ keys) :
    (keys ++ [u]).Nodup := by
  rw [← List.concat_eq_append]
  exact h.concat hu

/-- The modifiers of free keys share no bit with those held. -/
theorem Held.and_bits_eq_zero {h : Held} {keys : List Key} (hfree : ∀ k ∈ keys, h.Free k) :
    h.mods &&& bits keys = 0 := by
  induction keys with
  | nil => exact UInt8.and_zero
  | cons k keys ih =>
      have ih' := ih fun k hk => hfree k (List.mem_cons_of_mem _ hk)
      have hk := hfree k List.mem_cons_self
      cases k with
      | modifier bit =>
          rw [bits_cons_modifier]
          exact and_or_eq_zero hk ih'
      | usage u => exact ih'

/-- Each modifier of some keys is in their bits. -/
theorem bits_and_of_mem {keys : List Key} {bit : UInt8} (h : Key.modifier bit ∈ keys) :
    bits keys &&& bit = bit := by
  induction keys with
  | nil => cases h
  | cons k keys ih =>
      rcases List.mem_cons.mp h with rfl | hrest
      · rw [bits_cons_modifier, UInt8.or_comm, and_or_self]
      · cases k with
        | modifier b =>
            have hle := ih hrest
            rw [bits_cons_modifier, ← hle, ← UInt8.and_assoc, and_or_self]
        | usage u => exact ih hrest

theorem or_bits_and_of_mem (m : UInt8) {keys : List Key} {bit : UInt8}
    (h : Key.modifier bit ∈ keys) : (m ||| bits keys) &&& bit = bit := by
  calc (m ||| bits keys) &&& bit
      = (m ||| bits keys) &&& bits keys &&& bit := by rw [UInt8.and_assoc, bits_and_of_mem h]
    _ = bits keys &&& bit := by rw [and_or_self]
    _ = bit := bits_and_of_mem h

/-- Bits that are free of some keys are free of each. -/
theorem and_eq_zero_of_mem {m : UInt8} {keys : List Key} (h : m &&& bits keys = 0) {bit : UInt8}
    (hmem : Key.modifier bit ∈ keys) : m &&& bit = 0 := by
  rw [← bits_and_of_mem hmem, ← UInt8.and_assoc, h, UInt8.zero_and]

theorem mem_usages {keys : List Key} {u : UInt8} : u ∈ usages keys ↔ Key.usage u ∈ keys := by
  rw [usages, List.mem_filterMap]
  constructor
  · rintro ⟨k, hk, hku⟩
    cases k with
    | modifier bit => cases hku
    | usage v =>
        rw [← Option.some.inj hku]
        exact hk
  · exact fun h => ⟨_, h, rfl⟩

theorem mem_newKeys {held acc : List UInt8} {keys : List Key} {u : UInt8} :
    u ∈ newKeys held acc keys ↔ u ∈ acc ∨ u ∈ usages keys ∧ u ∉ held := by
  induction keys generalizing acc with
  | nil =>
      rw [newKeys]
      exact ⟨.inl, fun h => h.elim id nofun⟩
  | cons k keys ih =>
      cases k with
      | modifier bit => rw [newKeys, ih, usages_cons_modifier]
      | usage v =>
          rw [newKeys, ih, usages_cons_usage, List.mem_cons]
          split
          · next hnew =>
              rw [List.mem_append, List.mem_singleton]
              constructor
              · rintro ((h | rfl) | h)
                · exact .inl h
                · exact .inr ⟨.inl rfl, hnew.2⟩
                · exact .inr ⟨.inr h.1, h.2⟩
              · rintro (h | ⟨rfl | h, hu⟩)
                · exact .inl (.inl h)
                · exact .inl (.inr rfl)
                · exact .inr ⟨h, hu⟩
          · next hold =>
              constructor
              · rintro (h | h)
                · exact .inl h
                · exact .inr ⟨.inr h.1, h.2⟩
              · rintro (h | ⟨rfl | h, hu⟩)
                · exact .inl h
                · by_cases hacc : u ∈ acc
                  · exact .inl hacc
                  · exact absurd ⟨hacc, hu⟩ hold
                · exact .inr ⟨h, hu⟩

theorem length_le_newKeys (held acc : List UInt8) (keys : List Key) :
    acc.length ≤ (newKeys held acc keys).length := by
  induction keys generalizing acc with
  | nil => exact Nat.le_refl _
  | cons k keys ih =>
      cases k with
      | modifier bit => exact ih acc
      | usage u =>
          rw [newKeys]
          refine Nat.le_trans ?_ (ih _)
          split
          · rw [List.length_append]
            exact Nat.le_add_right _ _
          · exact Nat.le_refl _

theorem newKeys_cons_old {held acc : List UInt8} {u : UInt8} (h : u ∈ acc) (keys : List Key) :
    newKeys held acc (.usage u :: keys) = newKeys held acc keys := by
  rw [newKeys, if_neg fun hnew => hnew.1 h]

theorem newKeys_cons_new {held acc : List UInt8} {u : UInt8} (h : u ∉ acc) (h' : u ∉ held)
    (keys : List Key) : newKeys held acc (.usage u :: keys) = newKeys held (acc ++ [u]) keys := by
  rw [newKeys, if_pos ⟨h, h'⟩]

/-- Free keys add each of their usages once. -/
theorem Held.newKeys_spec {h : Held} {keys : List Key} (hfree : ∀ k ∈ keys, h.Free k)
    {acc : List UInt8} (hacc : acc.Nodup) :
    (newKeys h.keys acc keys).Nodup ∧ acc.length ≤ (newKeys h.keys acc keys).length ∧
      (newKeys h.keys acc keys).toFinset = acc.toFinset ∪ (usages keys).toFinset := by
  induction keys generalizing acc with
  | nil => exact ⟨hacc, Nat.le_refl _, (Finset.union_empty _).symm⟩
  | cons k keys ih =>
      have hrest : ∀ k ∈ keys, h.Free k := fun k hk => hfree k (List.mem_cons_of_mem _ hk)
      have hk := hfree k List.mem_cons_self
      cases k with
      | modifier bit =>
          rw [usages_cons_modifier, newKeys]
          exact ih hrest hacc
      | usage u =>
          rw [usages_cons_usage]
          by_cases hu : u ∈ acc
          · obtain ⟨hnodup, hle, hset⟩ := ih hrest hacc
            rw [newKeys_cons_old hu]
            refine ⟨hnodup, hle, ?_⟩
            rw [hset, List.toFinset_cons, Finset.union_insert, Finset.insert_eq_of_mem]
            exact Finset.mem_union_left _ (List.mem_toFinset.mpr hu)
          · obtain ⟨hnodup, hle, hset⟩ := ih hrest (nodup_append_singleton hacc hu)
            rw [newKeys_cons_new hu hk]
            rw [List.length_append] at hle
            refine ⟨hnodup, (Nat.le_add_right _ _).trans hle, ?_⟩
            rw [hset, List.toFinset_append, List.toFinset_cons, List.toFinset_cons,
              List.toFinset_nil, Finset.union_assoc]
            rfl

/-- Free keys that fit: their new usages fit next to the held ones, and report
the same. -/
theorem Held.newKeys_of_fits {h : Held} {keys : List Key} (hfree : ∀ k ∈ keys, h.Free k)
    (hfits : h.Fits keys) :
    h.keys.length + (newKeys h.keys [] keys).length ≤ slotCount ∧
      (newKeys h.keys [] keys).toFinset = (usages keys).toFinset := by
  obtain ⟨hnodup, -, hset⟩ := h.newKeys_spec hfree List.nodup_nil
  rw [List.toFinset_nil, Finset.empty_union] at hset
  rw [Held.Fits, ← hset, List.toFinset_card_of_nodup hnodup] at hfits
  exact ⟨hfits, hset⟩

theorem Held.length_release_le (h : Held) (k : Key) :
    (h.release k).keys.length ≤ h.keys.length := by
  cases k with
  | modifier bit => exact Nat.le_refl _
  | usage u => exact List.length_filter_le _ _

/-- No more than the six slots are ever held. -/
theorem Held.length_after_le {L : Layout} {h : Held} (hlen : h.keys.length ≤ slotCount)
    {cmd : Command} (hok : h.Allows L cmd) : (h.after L cmd).keys.length ≤ slotCount := by
  cases cmd with
  | type text | key name | combo names => exact hlen
  | down name => exact hok.2
  | up name => exact (h.length_release_le _).trans hlen
  | releaseall => exact Nat.zero_le _

end Reports

section Lines

open Text

theorem isWord_of_isRequired {name : List Char} (h : isRequired name) : IsWord name := by
  have hall : ∀ n ∈ requiredNames,
      n.toList.isEmpty = false ∧ (n.toList.all fun c => !isWhitespace c) = true := by decide
  have hn := hall _ h
  rw [String.toList_ofList] at hn
  exact isWord_of_all hn.1 hn.2

/-- Single blanks between words take nothing off them. -/
theorem splitWhitespace_blankSeparated {names : List (List Char)}
    (h : ∀ name ∈ names, IsWord name) : splitWhitespace (blankSeparated names) = names := by
  induction names with
  | nil => rfl
  | cons name names ih =>
      have hname := h name List.mem_cons_self
      cases names with
      | nil => exact hname.splitWhitespace
      | cons next names =>
          rw [blankSeparated, splitWhitespace_cons name hname.1 hname.2,
            ih fun n hn => h n (List.mem_cons_of_mem _ hn)]
          exact List.cons_ne_nil _ _

theorem mem_blankSeparated {names : List (List Char)} {c : Char} (hc : c ∈ blankSeparated names) :
    c = ' ' ∨ ∃ name ∈ names, c ∈ name := by
  induction names with
  | nil => cases hc
  | cons name names ih =>
      cases names with
      | nil => exact Or.inr ⟨name, List.mem_cons_self, hc⟩
      | cons next names =>
          rw [blankSeparated, List.mem_append, List.mem_cons] at hc
          · rcases hc with hc | rfl | hc
            · exact Or.inr ⟨name, List.mem_cons_self, hc⟩
            · exact Or.inl rfl
            · rcases ih hc with rfl | ⟨n, hn, hcn⟩
              · exact Or.inl rfl
              · exact Or.inr ⟨n, List.mem_cons_of_mem _ hn, hcn⟩
          · exact List.cons_ne_nil _ _

end Lines

end HidProtocol

end Paniolo
