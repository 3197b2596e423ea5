import Mathlib.Data.List.Forall2
import Paniolo.HidProtocol.Edges
import Paniolo.Hidrig.Dispatch

/-!
# The composer and the target in step

Nothing comes back from the target: that the composer knows what is pressed there
rests on every report saying all of it. A report has six slots and says nothing of
the keys beyond them. A chord that needs more is refused; a key that is tapped or
held and a character that is typed are dropped without a word, and a character whose
key is held does not come down again.
-/

namespace Paniolo

namespace Hidrig

open Text HidProtocol

section Reports

/-- What is held has slots, each key once. -/
structure Tidy (c : Composer) : Prop where
  nodup : c.heldKeys.Nodup
  fits : c.heldKeys.length ≤ keySlots
  ne_zero : ∀ u ∈ c.heldKeys, u ≠ 0

/-- What the composer believes to be pressed. -/
def Composer.belief (c : Composer) : Report := (c.heldMods, c.heldKeys.toFinset)

/-- The key is held, or there is a slot for it. -/
def Composer.HasSlot (c : Composer) (u : UInt8) : Prop :=
  u ∈ c.heldKeys ∨ c.heldKeys.length < keySlots

/-- There is a slot for the key, and it is not pressed. -/
def Composer.CanStrike (c : Composer) (u : UInt8) : Prop :=
  u ∉ c.heldKeys ∧ c.heldKeys.length < keySlots

variable {c : Composer} {u : UInt8}

theorem keyboardReport_of_ne_zero (hheld : ∀ u ∈ c.heldKeys, u ≠ 0) {keys : List UInt8}
    (hkeys : ∀ u ∈ keys, u ≠ 0) (mods : UInt8) :
    keyboardReport (c.kbd mods keys) =
      some (c.heldMods ||| mods, ((c.heldKeys ++ keys).take keySlots).toFinset) := by
  rw [keyboardReport_slots, report_eq]
  intro u hu
  rcases List.mem_append.mp (List.mem_of_mem_take hu) with hu | hu
  · exact hheld u hu
  · exact hkeys u hu

/-- With nothing more, the report says what is held. -/
theorem keyboardReport_belief (h : Tidy c) : keyboardReport (c.kbd 0 []) = some c.belief := by
  rw [keyboardReport_of_ne_zero h.ne_zero (fun _ h => absurd h List.not_mem_nil),
    List.append_nil, List.take_of_length_le h.fits, UInt8.or_zero, Composer.belief]

theorem mem_slots_self (h : Tidy c) (u : UInt8) :
    u ∈ (c.heldKeys ++ [u]).take keySlots ↔ c.HasSlot u := by
  rw [List.take_append, List.mem_append, List.take_of_length_le h.fits, Composer.HasSlot]
  refine or_congr_right ⟨fun hu => ?_, fun hlen => ?_⟩
  · by_contra hfull
    rw [Nat.sub_eq_zero_of_le (Nat.le_of_not_lt hfull), List.take_zero] at hu
    cases hu
  · rw [List.take_of_length_le]
    · exact List.mem_singleton_self u
    · exact Nat.le_sub_of_add_le' hlen

/-- The keys held stay pressed. -/
theorem belief_subset_slots (h : Tidy c) (keys : List UInt8) :
    c.heldKeys.toFinset ⊆ ((c.heldKeys ++ keys).take keySlots).toFinset := by
  intro v hv
  rw [List.mem_toFinset, List.take_append, List.take_of_length_le h.fits, List.mem_append]
  exact .inl (List.mem_toFinset.mp hv)

/-- A character that has a slot and is not pressed comes down, and up again. -/
theorem edges_strike (hu : c.CanStrike u) (mods : UInt8) (rs : List Report) :
    edges c.belief ((mods, ((c.heldKeys ++ [u]).take keySlots).toFinset) :: c.belief :: rs) =
      (mods, {u}) :: edges c.belief rs := by
  have hall : (c.heldKeys ++ [u]).take keySlots = c.heldKeys ++ [u] := by
    apply List.take_of_length_le
    rw [List.length_append]
    exact hu.2
  have hnew : u ∉ c.heldKeys.toFinset := fun hmem => hu.1 (List.mem_toFinset.mp hmem)
  have hset : (c.heldKeys ++ [u]).toFinset = insert u c.heldKeys.toFinset := by
    rw [List.toFinset_append, List.toFinset_cons, List.toFinset_nil, Finset.union_comm]
    rfl
  rw [hall, hset, edges_cons_press, edges_cons_quiet]
  · rw [Composer.belief, Finset.insert_sdiff_of_notMem _ hnew, Finset.sdiff_self]
    rfl
  · exact Finset.subset_insert _ _
  · exact fun hsub => hnew (hsub (Finset.mem_insert_self u _))

/-- Any other makes no edge. -/
theorem edges_no_strike (h : Tidy c) (hu : ¬c.CanStrike u) (mods : UInt8) (rs : List Report) :
    edges c.belief ((mods, ((c.heldKeys ++ [u]).take keySlots).toFinset) :: c.belief :: rs) =
      edges c.belief rs := by
  have hsub : ((c.heldKeys ++ [u]).take keySlots).toFinset ⊆ c.heldKeys.toFinset := by
    intro v hv
    rw [List.mem_toFinset] at hv ⊢
    have hslot : v = u → v ∈ c.heldKeys := by
      rintro rfl
      rcases (mem_slots_self h v).mp hv with hmem | hlen
      · exact hmem
      · by_contra hmem
        exact hu ⟨hmem, hlen⟩
    rcases List.mem_append.mp (List.mem_of_mem_take hv) with hmem | hmem
    · exact hmem
    · exact hslot (List.mem_singleton.mp hmem)
  rw [edges_cons_quiet hsub, edges_cons_quiet (belief_subset_slots h [u])]

end Reports
section InStep

/-- The keyboard reports among some frames. -/
def reportsOf (frames : List Frame) : List Report := frames.filterMap keyboardReport

/-- The last report that the target has after some more. -/
def lastReport (before : Report) (rs : List Report) : Report := rs.getLast?.getD before

/-- What a `key` or a `combo` names. -/
def namedBy (line : List Char) : List KeyKind :=
  if verbOf line = "key" then kindsOf [argsOf line]
  else if verbOf line = "combo" then kindsOf (splitWhitespace (argsOf line))
  else []

def usagesOf (text : List Char) : List UInt8 := text.filterMap fun ch => (charToKey ch).map (·.1)

/-- The usages of the characters of a `type`. -/
def typedBy (line : List Char) : List UInt8 :=
  if verbOf line = "type" then usagesOf (restOf line) else []

/-- What is said of an accepted line: the target has pressed what the composer holds, whatever was
named was pressed, and every character came down. -/
structure InStep (before : Report) (line : List Char) (c' : Composer) (rs : List Report) : Prop where
  held : lastReport before rs = c'.belief
  named : ∀ k ∈ namedBy line, ∃ r ∈ rs, k.toKey.In r
  typed : List.SublistForall₂ (fun u (e : Report) => u ∈ e.2) (typedBy line) (edges before rs)

/-- There is a slot for a key that is tapped or held, and a character that is typed is not
pressed already. -/
structure HasRoom (c : Composer) (line : List Char) : Prop where
  key : verbOf line = "down" ∨ verbOf line = "key" →
    ∀ u, keyKind (argsOf line) = .ok (.key u) → c.HasSlot u
  typed : ∀ u ∈ typedBy line, c.CanStrike u

theorem keyboardReport_offKeyboard {f : Frame} (h : OffKeyboard f) : keyboardReport f = none := by
  rcases h with ⟨c, wheel, rfl⟩ | ⟨cmd, args, hlen, rfl⟩
  · rfl
  · rcases args with _ | ⟨a, _ | ⟨b, _ | ⟨x, args⟩⟩⟩
    · rfl
    · rfl
    · rfl
    · rw [List.length_cons, List.length_cons, List.length_cons] at hlen
      omega

theorem lastReport_cons (before r : Report) (rs : List Report) :
    lastReport before (r :: rs) = lastReport r rs := by
  rw [lastReport, List.getLast?_cons, Option.getD_some, lastReport]

variable {c c' : Composer} {line text : List Char} {frames : List Frame}

/-- What typing a text does: no more edges than characters, and one for each exactly if each can
come down. -/
theorem edges_typeChars (h : Tidy c) (htext : c.typeChars text = .ok frames) :
    lastReport c.belief (reportsOf frames) = c.belief ∧
      (edges c.belief (reportsOf frames)).length ≤ (usagesOf text).length ∧
      ((∀ u ∈ usagesOf text, c.CanStrike u) → List.Forall₂ (fun u (e : Report) => u ∈ e.2)
        (usagesOf text) (edges c.belief (reportsOf frames))) ∧
      ((edges c.belief (reportsOf frames)).length = (usagesOf text).length →
        ∀ u ∈ usagesOf text, c.CanStrike u) := by
  induction text generalizing frames with
  | nil =>
      cases htext
      exact ⟨rfl, Nat.le_refl 0, fun _ => .nil, fun _ u hu => absurd hu List.not_mem_nil⟩
  | cons ch text ih =>
      rw [Composer.typeChars] at htext
      split at htext
      · cases htext
      · next u shift hch =>
          obtain ⟨out, hout, heq⟩ := bind_eq_ok.mp htext
          obtain ⟨hlast, hle, hall, hlen⟩ := ih hout
          have hus : usagesOf (ch :: text) = u :: usagesOf text := by
            rw [usagesOf, List.filterMap_cons, hch]
            rfl
          have hne : ∀ v ∈ [u], v ≠ 0 := by
            intro v hv
            rw [List.mem_singleton.mp hv]
            exact charToKey_ne_zero hch
          have hpress := keyboardReport_of_ne_zero h.ne_zero hne (if shift then 0x02 else 0)
          have hreports : reportsOf frames =
              (c.heldMods ||| (if shift then 0x02 else 0),
                ((c.heldKeys ++ [u]).take keySlots).toFinset) :: c.belief :: reportsOf out := by
            rw [← Except.ok.inj heq, reportsOf, List.filterMap_cons, hpress]
            simp only [List.filterMap_cons, keyboardReport_belief h]
            rfl
          rw [hreports, hus, lastReport_cons, lastReport_cons]
          by_cases hu : c.CanStrike u
          · rw [edges_strike hu, List.length_cons, List.length_cons, Nat.add_le_add_iff_right,
              Nat.add_right_cancel_iff]
            refine ⟨hlast, hle, fun hcan => ?_, fun hcount v hv => ?_⟩
            · exact .cons (Finset.mem_singleton_self u)
                (hall fun v hv => hcan v (List.mem_cons_of_mem _ hv))
            · rcases List.mem_cons.mp hv with rfl | hv
              · exact hu
              · exact hlen hcount v hv
          · rw [edges_no_strike h hu, List.length_cons]
            refine ⟨hlast, Nat.le_succ_of_le hle, fun hcan => ?_, fun hcount => ?_⟩
            · exact absurd (hcan u List.mem_cons_self) hu
            · omega

theorem typedBy_eq_nil (hv : verbOf line ≠ "type") : typedBy line = [] := if_neg hv

theorem namedBy_eq_nil (hkey : verbOf line ≠ "key") (hcombo : verbOf line ≠ "combo") :
    namedBy line = [] := by
  rw [namedBy, if_neg hkey, if_neg hcombo]

/-- A line that asks for nothing but what is held. -/
theorem inStep_of_quiet {before : Report} {rs : List Report} (hkey : verbOf line ≠ "key")
    (hcombo : verbOf line ≠ "combo") (htype : verbOf line ≠ "type")
    (h : lastReport before rs = c'.belief) : InStep before line c' rs := by
  refine ⟨h, ?_, ?_⟩
  · rw [namedBy_eq_nil hkey hcombo]
    exact fun k hk => absurd hk List.not_mem_nil
  · rw [typedBy_eq_nil htype]
    exact .nil

theorem hasRoom_of_ne (hkey : verbOf line ≠ "key") (hdown : verbOf line ≠ "down")
    (htype : verbOf line ≠ "type") : HasRoom c line := by
  refine ⟨fun hv => ?_, ?_⟩
  · rcases hv with hv | hv
    · exact absurd hv hdown
    · exact absurd hv hkey
  · rw [typedBy_eq_nil htype]
    exact fun u hu => absurd hu List.not_mem_nil

theorem inStep_type (h : Tidy c) (hv : verbOf line = "type")
    (htext : c.typeText (restOf line) = .ok frames) :
    InStep c.belief line c (reportsOf frames) ↔ HasRoom c line := by
  have hchars : c.typeChars (restOf line) = .ok frames := by
    rw [Composer.typeText] at htext
    split at htext
    · cases htext
    · exact htext
  have htyped : typedBy line = usagesOf (restOf line) := if_pos hv
  obtain ⟨hlast, hle, hall, hlen⟩ := edges_typeChars h hchars
  constructor
  · intro hin
    refine ⟨fun hkey => ?_, ?_⟩
    · rw [hv] at hkey
      exact absurd hkey (by decide)
    · have htyping := hin.typed
      rw [htyped] at htyping ⊢
      obtain ⟨es, hes, hsub⟩ := List.sublistForall₂_iff.mp htyping
      exact hlen (Nat.le_antisymm hle (hes.length_eq ▸ hsub.length_le))
  · intro hroom
    refine ⟨hlast, ?_, ?_⟩
    · rw [namedBy_eq_nil (by rw [hv]; decide) (by rw [hv]; decide)]
      exact fun k hk => absurd hk List.not_mem_nil
    · have hcan := hroom.typed
      rw [htyped] at hcan ⊢
      exact List.sublistForall₂_iff.mpr ⟨_, hall hcan, List.Sublist.refl _⟩

theorem inStep_key (h : Tidy c) (hv : verbOf line = "key")
    (hkey : c.key (argsOf line) = .ok frames) :
    InStep c.belief line c (reportsOf frames) ↔ HasRoom c line := by
  obtain ⟨k, hk, hframes⟩ := bind_eq_ok.mp hkey
  have htyped : typedBy line = [] := typedBy_eq_nil (by rw [hv]; decide)
  have hnamed : namedBy line = [k] := by
    rw [namedBy, if_pos hv, kindsOf, List.filterMap_cons, hk]
    rfl
  have hrest := keyboardReport_belief h
  cases k with
  | modifier bit =>
      have hpress := keyboardReport_of_ne_zero h.ne_zero (fun _ h => absurd h List.not_mem_nil) bit
      rw [List.append_nil, List.take_of_length_le h.fits] at hpress
      have hreports : reportsOf frames =
          [(c.heldMods ||| bit, c.heldKeys.toFinset), c.belief] := by
        rw [← Except.ok.inj hframes]
        simp only [reportsOf, List.filterMap_cons, List.filterMap_nil, hpress, hrest]
      refine ⟨fun _ => ⟨fun _ u hu => ?_, ?_⟩, fun _ => ⟨?_, ?_, ?_⟩⟩
      · rw [hk] at hu
        cases hu
      · rw [htyped]
        exact fun u hu => absurd hu List.not_mem_nil
      · rw [hreports]
        rfl
      · rw [hnamed, hreports]
        intro k hk
        rw [List.mem_singleton.mp hk]
        exact ⟨_, List.mem_cons_self, and_or_self c.heldMods bit⟩
      · rw [htyped]
        exact .nil
  | key u =>
      have hne : ∀ v ∈ [u], v ≠ 0 := by
        intro v hv
        rw [List.mem_singleton.mp hv]
        exact keyKind_ne_zero hk
      have hpress := keyboardReport_of_ne_zero h.ne_zero hne 0
      have hreports : reportsOf frames =
          [(c.heldMods ||| 0, ((c.heldKeys ++ [u]).take keySlots).toFinset), c.belief] := by
        rw [← Except.ok.inj hframes]
        simp only [reportsOf, List.filterMap_cons, List.filterMap_nil, hpress, hrest]
      constructor
      · intro hin
        refine ⟨fun _ v hv => ?_, ?_⟩
        · rw [hk] at hv
          cases hv
          rw [← mem_slots_self h]
          obtain ⟨r, hr, hur⟩ := hin.named (.key u) (by rw [hnamed]; exact List.mem_cons_self)
          rw [hreports] at hr
          rcases List.mem_cons.mp hr with rfl | hr
          · exact List.mem_toFinset.mp hur
          · rw [List.mem_singleton.mp hr] at hur
            exact List.mem_toFinset.mp (belief_subset_slots h [u] hur)
        · rw [htyped]
          exact fun u hu => absurd hu List.not_mem_nil
      · intro hroom
        refine ⟨?_, ?_, ?_⟩
        · rw [hreports]
          rfl
        · rw [hnamed, hreports]
          intro k hk'
          rw [List.mem_singleton.mp hk']
          refine ⟨_, List.mem_cons_self, List.mem_toFinset.mpr ?_⟩
          exact (mem_slots_self h u).mpr (hroom.key (.inr hv) u hk)
        · rw [htyped]
          exact .nil

/-- A chord that is not refused presses all of it. -/
theorem inStep_combo (h : Tidy c) (hv : verbOf line = "combo")
    (hcombo : c.combo (splitWhitespace (argsOf line)) = .ok frames) :
    InStep c.belief line c (reportsOf frames) := by
  obtain ⟨kinds, hkinds, hof, hfits, rfl⟩ := exists_kinds_of_combo hcombo
  have hnamed : namedBy line = kinds := by
    rw [namedBy, if_neg (by rw [hv]; decide), if_pos hv, hof]
  have hall : (c.heldKeys ++ pressedBy c kinds).take keySlots =
      c.heldKeys ++ pressedBy c kinds := by
    apply List.take_of_length_le
    rw [List.length_append]
    exact hfits
  have hpress : keyboardReport (c.kbd (bits (kinds.map KeyKind.toKey)) (pressedBy c kinds)) =
      some (c.heldMods ||| bits (kinds.map KeyKind.toKey),
        (c.heldKeys ++ pressedBy c kinds).toFinset) := by
    rw [keyboardReport_of_ne_zero h.ne_zero (ne_zero_of_kinds hkinds), hall]
  have hreports : reportsOf [c.kbd (bits (kinds.map KeyKind.toKey)) (pressedBy c kinds),
      c.kbd 0 []] = [(c.heldMods ||| bits (kinds.map KeyKind.toKey),
        (c.heldKeys ++ pressedBy c kinds).toFinset), c.belief] := by
    rw [reportsOf, List.filterMap_cons_some hpress,
      List.filterMap_cons_some (keyboardReport_belief h)]
    rfl
  rw [hreports]
  refine ⟨rfl, ?_, ?_⟩
  · rw [hnamed]
    intro k hk
    refine ⟨_, List.mem_cons_self, ?_⟩
    have hkey := List.mem_map_of_mem (f := KeyKind.toKey) hk
    cases k with
    | modifier bit => exact or_bits_and_of_mem c.heldMods hkey
    | key u =>
        refine List.mem_toFinset.mpr (List.mem_append.mpr ?_)
        by_cases hu : u ∈ c.heldKeys
        · exact .inl hu
        · exact .inr (mem_newKeys.mpr (.inr ⟨mem_usages.mpr hkey, hu⟩))
  · rw [typedBy_eq_nil (by rw [hv]; decide)]
    exact .nil

/-- A key is held for which there is a slot. -/
theorem tidy_hold (h : Tidy c) {u : UInt8} (hu : u ∉ c.heldKeys) (hne : u ≠ 0)
    (hlen : c.heldKeys.length < keySlots) : Tidy { c with heldKeys := c.heldKeys ++ [u] } := by
  refine ⟨nodup_append_singleton h.nodup hu, ?_, ?_⟩
  · rw [List.length_append]
    exact hlen
  · intro v hv
    rcases List.mem_append.mp hv with hv | hv
    · exact h.ne_zero v hv
    · rw [List.mem_singleton.mp hv]
      exact hne

theorem tidy_filter (h : Tidy c) (p : UInt8 → Bool) (mods : UInt8) :
    Tidy { c with heldMods := mods, heldKeys := c.heldKeys.filter p } :=
  ⟨h.nodup.filter p, (List.length_filter_le _ _).trans h.fits,
    fun u hu => h.ne_zero u (List.mem_filter.mp hu).1⟩

/-- Once the composer holds only what has slots, its report says so. -/
theorem lastReport_kbd (h : Tidy c') (before : Report) :
    lastReport before (reportsOf [c'.kbd 0 []]) = c'.belief := by
  simp only [reportsOf, List.filterMap_cons, List.filterMap_nil, keyboardReport_belief h]
  rfl

/-- A seventh key is not in the report. -/
theorem lastReport_seventh (h : Tidy c) {u : UInt8} (hu : u ∉ c.heldKeys) (hne : u ≠ 0)
    (hlen : ¬c.heldKeys.length < keySlots) (before : Report) :
    lastReport before (reportsOf
        [Composer.kbd { c with heldKeys := c.heldKeys ++ [u] } 0 []]) ≠
      Composer.belief { c with heldKeys := c.heldKeys ++ [u] } := by
  have hfull : c.heldKeys.length = keySlots := Nat.le_antisymm h.fits (Nat.le_of_not_lt hlen)
  have hheld : ∀ v ∈ c.heldKeys ++ [u], v ≠ 0 := by
    intro v hv
    rcases List.mem_append.mp hv with hv | hv
    · exact h.ne_zero v hv
    · rw [List.mem_singleton.mp hv]
      exact hne
  have hreport := keyboardReport_of_ne_zero (c := { c with heldKeys := c.heldKeys ++ [u] }) hheld
    (fun _ h => absurd h List.not_mem_nil) 0
  intro heq
  rw [reportsOf, List.filterMap_cons_some hreport, List.append_nil, ← hfull, List.take_left,
    lastReport_cons] at heq
  have hset := congrArg Prod.snd heq
  have hmem : u ∈ c.heldKeys.toFinset := by
    change c.heldKeys.toFinset = _ at hset
    rw [hset, Composer.belief, List.mem_toFinset]
    exact List.mem_append_right _ (List.mem_singleton_self u)
  exact hu (List.mem_toFinset.mp hmem)

theorem inStep_down (h : Tidy c) (hv : verbOf line = "down")
    (hdown : c.down (argsOf line) = .ok (c', frames)) :
    (InStep c.belief line c' (reportsOf frames) ↔ HasRoom c line) ∧
      (HasRoom c line → Tidy c') := by
  obtain ⟨k, hk, hframes⟩ := bind_eq_ok.mp hdown
  obtain ⟨hc', hf⟩ := Prod.mk.inj (Except.ok.inj hframes)
  have htype : verbOf line ≠ "type" := by rw [hv]; decide
  have hquiet : ∀ {rs}, lastReport c.belief rs = c'.belief → InStep c.belief line c' rs :=
    inStep_of_quiet (by rw [hv]; decide) (by rw [hv]; decide) htype
  have hroom : HasRoom c line ↔ ∀ u, k = .key u → c.HasSlot u := by
    constructor
    · intro hr u hu
      exact hr.key (.inl hv) u (hu ▸ hk)
    · intro hr
      refine ⟨fun _ u hu => hr u ?_, ?_⟩
      · rw [hk] at hu
        exact Except.ok.inj hu
      · rw [typedBy_eq_nil htype]
        exact fun u hu => absurd hu List.not_mem_nil
  rw [hc'] at hf
  have hin : Tidy c' → InStep c.belief line c' (reportsOf frames) := by
    intro htidy
    rw [← hf]
    exact hquiet (lastReport_kbd htidy _)
  rw [hroom]
  cases k with
  | modifier bit =>
      have htidy : Tidy c' := by
        rw [← hc']
        exact ⟨h.nodup, h.fits, h.ne_zero⟩
      have hall : ∀ u, KeyKind.modifier bit = .key u → c.HasSlot u := nofun
      exact ⟨iff_of_true (hin htidy) hall, fun _ => htidy⟩
  | key u =>
      simp only at hc'
      by_cases hu : u ∈ c.heldKeys
      · rw [if_neg (not_not_intro hu)] at hc'
        have htidy : Tidy c' := hc' ▸ h
        have hall : ∀ v, KeyKind.key u = .key v → c.HasSlot v := by
          intro v hv
          rw [← KeyKind.key.inj hv]
          exact .inl hu
        exact ⟨iff_of_true (hin htidy) hall, fun _ => htidy⟩
      · rw [if_pos hu] at hc'
        by_cases hlen : c.heldKeys.length < keySlots
        · have htidy : Tidy c' := hc' ▸ tidy_hold h hu (keyKind_ne_zero hk) hlen
          have hall : ∀ v, KeyKind.key u = .key v → c.HasSlot v := fun v _ => .inr hlen
          exact ⟨iff_of_true (hin htidy) hall, fun _ => htidy⟩
        · have hfull : ¬∀ v, KeyKind.key u = .key v → c.HasSlot v := fun hall =>
            (hall u rfl).elim hu hlen
          refine ⟨iff_of_false (fun hstep => ?_) hfull, fun hall => absurd hall hfull⟩
          have hheld := hstep.held
          rw [← hf, ← hc'] at hheld
          exact lastReport_seventh h hu (keyKind_ne_zero hk) hlen _ hheld

/-- Whatever line the composer accepts: it and the target stay in step exactly when there is
room. -/
theorem inStep_iff (h : Tidy c) (hline : Dispatched c line c' frames) :
    (InStep c.belief line c' (reportsOf frames) ↔ HasRoom c line) ∧
      (HasRoom c line → Tidy c') := by
  cases hline with
  | type hv htext => exact ⟨inStep_type h hv htext, fun _ => h⟩
  | key hv hkey => exact ⟨inStep_key h hv hkey, fun _ => h⟩
  | combo hv hcombo =>
      have hroom : HasRoom c line := by
        apply hasRoom_of_ne <;> rw [hv] <;> decide
      exact ⟨iff_of_true (inStep_combo h hv hcombo) hroom, fun _ => h⟩
  | down hv hdown => exact inStep_down h hv hdown
  | up hv hup =>
      obtain ⟨k, hk, hframes⟩ := bind_eq_ok.mp hup
      obtain ⟨hc', hf⟩ := Prod.mk.inj (Except.ok.inj hframes)
      rw [hc'] at hf
      have htidy : Tidy c' := by
        rw [← hc']
        cases k with
        | modifier bit => exact ⟨h.nodup, h.fits, h.ne_zero⟩
        | key u => exact tidy_filter h _ c.heldMods
      have hroom : HasRoom c line := by
        apply hasRoom_of_ne <;> rw [hv] <;> decide
      refine ⟨iff_of_true ?_ hroom, fun _ => htidy⟩
      rw [← hf]
      apply inStep_of_quiet _ _ _ (lastReport_kbd htidy _) <;> rw [hv] <;> decide
  | releaseall hv =>
      have htidy : Tidy c.releaseall.1 :=
        ⟨List.nodup_nil, Nat.zero_le _, fun _ hu => absurd hu List.not_mem_nil⟩
      have hroom : HasRoom c line := by
        apply hasRoom_of_ne <;> rw [hv] <;> decide
      refine ⟨iff_of_true ?_ hroom, fun _ => htidy⟩
      apply inStep_of_quiet _ _ _ (lastReport_kbd htidy _) <;> rw [hv] <;> decide
  | other hv hmods hkeys hframes =>
      have htidy : Tidy c' := ⟨hkeys ▸ h.nodup, hkeys ▸ h.fits, hkeys ▸ h.ne_zero⟩
      have hne : ∀ v ∈ ["type", "key", "combo", "down", "up", "releaseall"], verbOf line ≠ v := by
        rintro v hmem rfl
        exact hv hmem
      have hroom : HasRoom c line := by
        apply hasRoom_of_ne <;> exact hne _ (by decide)
      have hnone : reportsOf frames = [] := by
        rw [reportsOf, List.filterMap_eq_nil_iff]
        exact fun f hf => keyboardReport_offKeyboard (hframes f hf)
      refine ⟨iff_of_true ?_ hroom, fun _ => htidy⟩
      apply inStep_of_quiet
      · exact hne _ (by decide)
      · exact hne _ (by decide)
      · exact hne _ (by decide)
      · rw [hnone, Composer.belief, Composer.belief, hmods, hkeys]
        rfl

end InStep

section Runs

/-- After every line the composer and the target are in step; a refused line sends nothing. -/
def StaysInStep : Composer → Report → List (List Char) → Prop
  | _, _, [] => True
  | c, before, line :: lines => ∀ r c', Ends (Mutable.dispatch line) c r c' →
      (∀ frames, r = .ok frames → InStep before line c' (reportsOf frames) ∧
        StaysInStep c' (lastReport before (reportsOf frames)) lines) ∧
      (∀ e, r = .error e → StaysInStep c' before lines)

/-- Every accepted line finds room. -/
def RoomThroughout : Composer → List (List Char) → Prop
  | _, [] => True
  | c, line :: lines => ∀ r c', Ends (Mutable.dispatch line) c r c' →
      (∀ frames, r = .ok frames → HasRoom c line) ∧ RoomThroughout c' lines

variable {c c' : Composer} {line : List Char} {lines : List (List Char)} {frames : List Frame}

theorem ends_dispatch_ok (h : c.dispatch line = .ok (c', frames)) :
    Ends (Mutable.dispatch line) c (.ok frames) c' := by
  rw [Ends, run_dispatch, h]
  rfl

theorem ends_dispatch_error {e : String} (h : c.dispatch line = .error e) :
    Ends (Mutable.dispatch line) c (.error e) c := by
  rw [Ends, run_dispatch, h]
  rfl

/-- A refused line changes nothing. -/
theorem eq_of_ends_error {e : String} (h : Ends (Mutable.dispatch line) c (.error e) c') :
    c' = c := by
  cases hline : c.dispatch line with
  | error e' => exact (h.unique (ends_dispatch_error hline)).2
  | ok res =>
      obtain ⟨c₁, frames⟩ := res
      cases (h.unique (ends_dispatch_ok hline)).1

theorem staysInStep_refused {before : Report} {e : String} (h : c.dispatch line = .error e) :
    StaysInStep c before (line :: lines) ↔ StaysInStep c before lines := by
  constructor
  · exact fun hall => (hall _ _ (ends_dispatch_error h)).2 e rfl
  · intro hrest r c' hends
    obtain ⟨rfl, rfl⟩ := hends.unique (ends_dispatch_error h)
    exact ⟨nofun, fun _ _ => hrest⟩

theorem staysInStep_accepted {before : Report} (h : c.dispatch line = .ok (c', frames)) :
    StaysInStep c before (line :: lines) ↔ InStep before line c' (reportsOf frames) ∧
      StaysInStep c' (lastReport before (reportsOf frames)) lines := by
  constructor
  · exact fun hall => (hall _ _ (ends_dispatch_ok h)).1 frames rfl
  · intro hstep r c₁ hends
    obtain ⟨rfl, rfl⟩ := hends.unique (ends_dispatch_ok h)
    refine ⟨fun fs hfs => ?_, nofun⟩
    rw [← Except.ok.inj hfs]
    exact hstep

theorem roomThroughout_refused {e : String} (h : c.dispatch line = .error e) :
    RoomThroughout c (line :: lines) ↔ RoomThroughout c lines := by
  constructor
  · exact fun hall => (hall _ _ (ends_dispatch_error h)).2
  · intro hrest r c' hends
    obtain ⟨rfl, rfl⟩ := hends.unique (ends_dispatch_error h)
    exact ⟨nofun, hrest⟩

theorem roomThroughout_accepted (h : c.dispatch line = .ok (c', frames)) :
    RoomThroughout c (line :: lines) ↔ HasRoom c line ∧ RoomThroughout c' lines := by
  constructor
  · intro hall
    obtain ⟨hroom, hrest⟩ := hall _ _ (ends_dispatch_ok h)
    exact ⟨hroom frames rfl, hrest⟩
  · rintro ⟨hroom, hrest⟩ r c₁ hends
    obtain ⟨rfl, rfl⟩ := hends.unique (ends_dispatch_ok h)
    exact ⟨fun _ _ => hroom, hrest⟩

/-- From a composer in step, by induction on the lines. -/
theorem staysInStep_iff_of_tidy (h : Tidy c) (lines : List (List Char)) :
    StaysInStep c c.belief lines ↔ RoomThroughout c lines := by
  induction lines generalizing c with
  | nil => exact Iff.rfl
  | cons line lines ih =>
      cases hline : c.dispatch line with
      | error e => rw [staysInStep_refused hline, roomThroughout_refused hline, ih h]
      | ok res =>
          obtain ⟨c', frames⟩ := res
          obtain ⟨hiff, htidy⟩ := inStep_iff h (dispatched hline)
          rw [staysInStep_accepted hline, roomThroughout_accepted hline]
          constructor
          · rintro ⟨hin, hrest⟩
            rw [hin.held] at hrest
            exact ⟨hiff.mp hin, (ih (htidy (hiff.mp hin))).mp hrest⟩
          · rintro ⟨hroom, hrest⟩
            have hin := hiff.mpr hroom
            refine ⟨hin, ?_⟩
            rw [hin.held]
            exact (ih (htidy hroom)).mpr hrest

theorem tidy_new : Tidy .new :=
  ⟨List.nodup_nil, Nat.zero_le _, fun _ hu => absurd hu List.not_mem_nil⟩

/-- A refused line leaves the composer as it was, and the lines given to a new composer keep it in
step with the target exactly when every accepted one finds room. -/
theorem staysInStep_iff (lines : List (List Char)) :
    (∀ c line e c', Ends (Mutable.dispatch line) c (.error e) c' → c' = c) ∧
      (StaysInStep .new (0, ∅) lines ↔ RoomThroughout .new lines) :=
  ⟨fun _ _ _ _ h => eq_of_ends_error h, staysInStep_iff_of_tidy tidy_new lines⟩

/-- With A held, an `a` is accepted and does not come down. -/
theorem not_staysInStep_heldLetter :
    ¬StaysInStep .new (0, ∅) ["down A".toList, "type a".toList] := by
  intro hall
  have hroom := (staysInStep_iff_of_tidy tidy_new _).mp hall
  let c : Composer := { Composer.new with heldKeys := [0x04] }
  have hdown : Composer.new.dispatch "down A".toList = .ok (c, [c.kbd 0 []]) := rfl
  have htype : c.dispatch "type a".toList = .ok (c, [c.kbd 0 [0x04], c.kbd 0 []]) := rfl
  have htyped : typedBy "type a".toList = [0x04] := rfl
  rw [roomThroughout_accepted hdown, roomThroughout_accepted htype] at hroom
  have hcan := hroom.2.1.typed 0x04 (by rw [htyped]; exact List.mem_cons_self)
  exact hcan.1 List.mem_cons_self

end Runs


end Hidrig

end Paniolo
