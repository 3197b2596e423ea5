import Mathlib.Order.Bounds.Basic
import Paniolo.Hdmicap.Zrle.Tile

/-!
# The size of a tile

`encode_tile` computes the size of each form and then writes the smallest. The
formulas are written apart from the code that writes; here each form is shown
to be as long as its formula says. The palette is found by hashing: it is the
list of the tile's colours in the order in which they first appear, or nothing
when there are more than 127.
-/

namespace Paniolo

namespace Hdmicap

namespace Zrle

/-! ### First-seen order -/

/-- Another colour: at the end, unless it was there. -/
def see (seen : List UInt32) (c : UInt32) : List UInt32 := if c ∈ seen then seen else seen ++ [c]

/-- The distinct colours in the order in which they first appear. -/
def firstSeen (px : List UInt32) : List UInt32 := px.foldl see []

theorem mem_see {seen : List UInt32} {c d : UInt32} : d ∈ see seen c ↔ d ∈ seen ∨ d = c := by
  rw [see]
  split
  · next hc =>
      constructor
      · exact Or.inl
      · rintro (hd | rfl)
        · exact hd
        · exact hc
  · rw [List.mem_append, List.mem_singleton]

theorem nodup_see {seen : List UInt32} (h : seen.Nodup) (c : UInt32) : (see seen c).Nodup := by
  rw [see]
  split
  · exact h
  · next hc =>
      refine List.nodup_append.mpr ⟨h, List.pairwise_singleton _ c, fun a ha b hb => ?_⟩
      rw [List.mem_singleton.mp hb]
      exact fun hac => hc (hac ▸ ha)

theorem length_le_see (seen : List UInt32) (c : UInt32) : seen.length ≤ (see seen c).length := by
  rw [see]
  split
  · exact le_rfl
  · rw [List.length_append]
    exact Nat.le_add_right _ _

theorem length_le_foldl_see (px seen : List UInt32) :
    seen.length ≤ (px.foldl see seen).length := by
  induction px generalizing seen with
  | nil => exact le_rfl
  | cons c px ih => exact (length_le_see seen c).trans (ih (see seen c))

theorem mem_foldl_see {px seen : List UInt32} {d : UInt32} :
    d ∈ px.foldl see seen ↔ d ∈ seen ∨ d ∈ px := by
  induction px generalizing seen with
  | nil => simp
  | cons c px ih => rw [List.foldl_cons, ih, mem_see, List.mem_cons, or_assoc]

theorem nodup_foldl_see {px seen : List UInt32} (h : seen.Nodup) : (px.foldl see seen).Nodup := by
  induction px generalizing seen with
  | nil => exact h
  | cons c px ih => exact ih (nodup_see h c)

theorem mem_firstSeen {px : List UInt32} {c : UInt32} : c ∈ firstSeen px ↔ c ∈ px := by
  rw [firstSeen, mem_foldl_see]
  simp

theorem nodup_firstSeen (px : List UInt32) : (firstSeen px).Nodup :=
  nodup_foldl_see List.nodup_nil

/-! ### The hash table -/

namespace PaletteState

/-- The slot `d` places after that of a colour. -/
def entry (p : PaletteState) (i d : Nat) : UInt8 := p.table.getD ((i + d) % SLOTS) 255

/-- Every colour stands in the table, and no slot before it on its path is free. -/
def Placed (p : PaletteState) : Prop :=
  ∀ k c, p.colors[k]? = some c → ∃ d < SLOTS, p.entry (slotOf c) d = UInt8.ofNat k ∧
    ∀ e < d, p.entry (slotOf c) e ≠ 255

end PaletteState

theorem slotOf_lt (c : UInt32) : slotOf c < SLOTS := Nat.mod_lt _ (by decide)

theorem entry_succ (p : PaletteState) (i d : Nat) :
    p.entry ((i + 1) % SLOTS) d = p.entry i (d + 1) := by
  rw [PaletteState.entry, PaletteState.entry, Nat.mod_add_mod, Nat.add_right_comm, Nat.add_assoc]

/-- What the probe looks at first. -/
theorem entry_zero (p : PaletteState) {i : Nat} (hi : i < SLOTS) :
    p.entry i 0 = p.table.getD i 255 := by
  rw [PaletteState.entry, Nat.add_zero, Nat.mod_eq_of_lt hi]

/-- A colour whose path is taken up to its place is found. -/
theorem probe_eq_found {p : PaletteState} {c : UInt32} (d : Nat) :
    ∀ fuel i, i < SLOTS → d < fuel → (∀ e < d, p.entry i e ≠ 255) → p.entry i d ≠ 255 →
      p.colors[(p.entry i d).toNat]? = some c → p.probe c fuel i = some .found := by
  induction d with
  | zero =>
      intro fuel i hi hd _ htaken hc
      obtain ⟨fuel, rfl⟩ := Nat.exists_eq_succ_of_ne_zero (Nat.ne_of_gt hd)
      rw [entry_zero p hi] at htaken hc
      rw [PaletteState.probe]
      simp only [if_neg htaken, if_pos hc]
  | succ d ih =>
      intro fuel i hi hd hbefore htaken hc
      obtain ⟨fuel, rfl⟩ := Nat.exists_eq_succ_of_ne_zero (by omega : fuel ≠ 0)
      have hfirst := hbefore 0 (Nat.succ_pos d)
      rw [entry_zero p hi] at hfirst
      rw [PaletteState.probe]
      simp only [if_neg hfirst]
      split
      · rfl
      · apply ih fuel ((i + 1) % SLOTS) (Nat.mod_lt _ (by decide)) (by omega)
        · intro e he
          rw [entry_succ]
          exact hbefore (e + 1) (by omega)
        · rwa [entry_succ]
        · rwa [entry_succ]

/-- A probe that ends at a free slot has passed taken ones only. -/
theorem probe_free_path {p : PaletteState} {c : UInt32} {slot : Nat} :
    ∀ fuel i, i < SLOTS → p.probe c fuel i = some (.free slot) →
      ∃ d < fuel, slot = (i + d) % SLOTS ∧ ∀ e < d, p.entry i e ≠ 255 := by
  intro fuel
  induction fuel with
  | zero =>
      intro i _ h
      cases h
  | succ fuel ih =>
      intro i hi h
      simp only [PaletteState.probe] at h
      split at h
      · cases h
        exact ⟨0, Nat.succ_pos fuel, (Nat.mod_eq_of_lt hi).symm, fun e he => absurd he (by omega)⟩
      · next htaken =>
          split at h
          · cases h
          · obtain ⟨d, hd, hslot, hpath⟩ := ih _ (Nat.mod_lt _ (by decide)) h
            refine ⟨d + 1, by omega, ?_, ?_⟩
            · rw [hslot, Nat.mod_add_mod, Nat.add_right_comm, Nat.add_assoc]
            · intro e he
              cases e with
              | zero => rwa [entry_zero p hi]
              | succ e =>
                  rw [← entry_succ]
                  exact hpath e (by omega)

theorem entry_set {p : PaletteState} (inv : PaletteInv p) {slot : Nat} (v : UInt8)
    (colors : List UInt32) (i d : Nat) :
    PaletteState.entry ⟨p.table.set slot v, colors⟩ i d =
      if slot = (i + d) % SLOTS then v else p.entry i d := by
  have hlt : (i + d) % SLOTS < p.table.length := by
    rw [inv.size]
    exact Nat.mod_lt _ (by decide)
  rw [PaletteState.entry, PaletteState.entry, List.getD_eq_getElem _ _ (by simpa using hlt),
    List.getD_eq_getElem _ _ hlt, List.getElem_set]

theorem ofNat_ne_255 {k : Nat} (h : k < 255) : UInt8.ofNat k ≠ 255 := by
  intro heq
  have hnat := congrArg UInt8.toNat heq
  rw [UInt8.toNat_ofNat', Nat.mod_eq_of_lt (by omega)] at hnat
  exact h.ne hnat

/-- A new colour goes to the free slot at the end of its path; the paths of the others stay. -/
theorem placed_push {p : PaletteState} (inv : PaletteInv p) (hplaced : p.Placed)
    (hroom : p.colors.length < 127) {c : UInt32} {d : Nat} (hd : d < SLOTS)
    (hfree : p.entry (slotOf c) d = 255) (hpath : ∀ e < d, p.entry (slotOf c) e ≠ 255) :
    PaletteState.Placed ⟨p.table.set ((slotOf c + d) % SLOTS) (UInt8.ofNat p.colors.length),
      p.colors ++ [c]⟩ := by
  have hnew : UInt8.ofNat p.colors.length ≠ 255 := ofNat_ne_255 (by omega)
  intro k b hk
  rcases Nat.lt_or_ge k p.colors.length with hlt | hge
  · rw [List.getElem?_append_left hlt] at hk
    obtain ⟨e, he, hentry, hbefore⟩ := hplaced k b hk
    refine ⟨e, he, ?_, fun f hf => ?_⟩
    · rw [entry_set inv, if_neg, hentry]
      intro heq
      have hsame : p.entry (slotOf b) e = p.entry (slotOf c) d := by
        rw [PaletteState.entry, PaletteState.entry, heq]
      rw [hentry, hfree] at hsame
      exact ofNat_ne_255 (by omega) hsame
    · rw [entry_set inv]
      split
      · exact hnew
      · exact hbefore f hf
  · rw [List.getElem?_append_right hge, List.getElem?_singleton] at hk
    split at hk
    · next hzero =>
        cases hk
        have hkeq : k = p.colors.length := by omega
        subst hkeq
        refine ⟨d, hd, ?_, fun f hf => ?_⟩
        · rw [entry_set inv, if_pos rfl]
        · rw [entry_set inv]
          split
          · exact hnew
          · exact hpath f hf
    · cases hk

/-- What inserting a colour does: nothing if it is known, an entry at the end if there is room. -/
theorem insert_eq {p : PaletteState} (inv : PaletteInv p) (hplaced : p.Placed) (c : UInt32) :
    (c ∈ p.colors ∧ p.insert c = some p) ∨
      (c ∉ p.colors ∧ 127 ≤ p.colors.length ∧ p.insert c = none) ∨
      (c ∉ p.colors ∧ ∃ q, p.insert c = some q ∧ q.colors = p.colors ++ [c] ∧ q.Placed) := by
  by_cases hc : c ∈ p.colors
  · obtain ⟨k, hk⟩ := List.mem_iff_getElem?.mp hc
    have hlen : k < p.colors.length := (List.getElem?_eq_some_iff.mp hk).1
    have hfew := inv.few
    obtain ⟨d, hd, hentry, hpath⟩ := hplaced k c hk
    have hnat : (UInt8.ofNat k).toNat = k := by
      rw [UInt8.toNat_ofNat', Nat.mod_eq_of_lt (by omega)]
    have htaken : p.entry (slotOf c) d ≠ 255 := by
      rw [hentry]
      exact ofNat_ne_255 (by omega)
    have hfound := probe_eq_found d SLOTS (slotOf c) (slotOf_lt c) hd hpath htaken
      (by rw [hentry, hnat, hk])
    refine Or.inl ⟨hc, ?_⟩
    rw [PaletteState.insert, hfound]
  · refine Or.inr ?_
    rcases hprobe : p.probe c SLOTS (slotOf c) with _ | slot | _
    · exact absurd hprobe (probe_ne_none inv c _ (slotOf_lt c))
    · obtain ⟨hslot, hfree⟩ := probe_free SLOTS (slotOf c) inv.size (slotOf_lt c) hprobe
      by_cases hfull : p.colors.length ≥ 127
      · refine Or.inl ⟨hc, hfull, ?_⟩
        rw [PaletteState.insert, hprobe]
        exact if_pos hfull
      · obtain ⟨d, hd, rfl, hpath⟩ := probe_free_path SLOTS (slotOf c) (slotOf_lt c) hprobe
        have hempty : p.entry (slotOf c) d = 255 := by
          rw [PaletteState.entry, List.getD_eq_getElem?_getD, hfree]
          rfl
        refine Or.inr ⟨hc, ⟨p.table.set ((slotOf c + d) % SLOTS) (UInt8.ofNat p.colors.length),
          p.colors ++ [c]⟩, ?_, rfl, placed_push inv hplaced (by omega) hd hempty hpath⟩
        rw [PaletteState.insert, hprobe]
        exact if_neg hfull
    · exact absurd (probe_found SLOTS _ hprobe) hc

/-- The palette of a tile: its colours in first-seen order, if there are at most 127. -/
theorem buildFrom_eq (tile : List UInt32) {p : PaletteState} (inv : PaletteInv p)
    (hplaced : p.Placed) :
    (buildFrom p tile).map PaletteState.colors =
      if (tile.foldl see p.colors).length ≤ 127 then some (tile.foldl see p.colors) else none := by
  induction tile generalizing p with
  | nil => exact (if_pos inv.few).symm
  | cons c tile ih =>
      rw [buildFrom, List.foldl_cons]
      rcases insert_eq inv hplaced c with ⟨hc, hins⟩ | ⟨hc, hfull, hins⟩ | ⟨hc, q, hins, hcolors, hq⟩
      · rw [hins, see, if_pos hc]
        exact ih inv hplaced
      · have hlong : ¬(tile.foldl see (see p.colors c)).length ≤ 127 := by
          have hgrow := length_le_foldl_see tile (see p.colors c)
          rw [see, if_neg hc, List.length_append, List.length_singleton] at hgrow
          rw [see, if_neg hc]
          omega
        rw [hins, if_neg hlong]
        rfl
      · rw [hins, see, if_neg hc, ← hcolors]
        exact ih (insert_inv inv hins).1 hq

theorem build_eq (tile : List UInt32) :
    build tile = if (firstSeen tile).length ≤ 127 then some (firstSeen tile) else none :=
  buildFrom_eq tile paletteInv_empty fun k c hk => by cases hk

/-! ### What each form is written as -/

theorem length_runLenTail (n : Nat) : (runLenTail n).length = n / 255 + 1 := by
  induction n using Nat.strong_induction_on with
  | h n ih =>
      rw [runLenTail]
      split
      · next hn =>
          rw [List.length_cons, ih (n - 255) (by omega)]
          omega
      · next hn =>
          rw [List.length_singleton, Nat.div_eq_of_lt (by omega)]

theorem length_pushRunLen (len : Nat) : (pushRunLen len).length = runLenBytes len :=
  length_runLenTail (len - 1)

theorem length_pushCpixels (fmt : PixelFormat) (colors : List UInt32) :
    (pushCpixels fmt colors).length = colors.length * fmt.cpixelLen := by
  induction colors with
  | nil => exact (Nat.zero_mul _).symm
  | cons c colors ih =>
      rw [pushCpixels] at ih
      rw [pushCpixels, List.flatMap_cons, List.length_append, ih, fmt.length_cpixel,
        List.length_cons, Nat.succ_mul, Nat.add_comm]

/-- Bytes out and bits waiting, after `n` indices of `b` bits. -/
def Packed (b n : Nat) (s : List UInt8 × UInt8 × Nat) : Prop :=
  s.1.length * 8 + s.2.2 = n * b ∧ s.2.2 < 8 ∧ b ∣ s.2.2

theorem packed_packStep {b : Nat} (hb : b = 1 ∨ b = 2 ∨ b = 4) {n : Nat}
    {s : List UInt8 × UInt8 × Nat} (h : Packed b n s) (i : UInt8) :
    Packed b (n + 1) (packStep b s i) := by
  obtain ⟨hlen, hlt, hdvd⟩ := h
  have hle : s.2.2 + b ≤ 8 := by
    obtain ⟨q, hq⟩ := hdvd
    rcases hb with rfl | rfl | rfl <;> omega
  simp only [packStep]
  split
  · next hfull =>
      refine ⟨?_, Nat.zero_lt_succ 7, Nat.dvd_zero b⟩
      rw [List.length_append, List.length_singleton, Nat.succ_mul n b]
      change (s.1.length + 1) * 8 + 0 = n * b + b
      omega
  · next hmore =>
      refine ⟨?_, by dsimp only; omega, Nat.dvd_add hdvd (Nat.dvd_refl b)⟩
      rw [Nat.succ_mul n b]
      dsimp only
      omega

theorem packed_foldl {b : Nat} (hb : b = 1 ∨ b = 2 ∨ b = 4) (row : List UInt8) :
    Packed b row.length (row.foldl (packStep b) ([], 0, 0)) := by
  induction row using List.reverseRecOn with
  | nil => exact ⟨by simp, by simp, Nat.dvd_zero b⟩
  | append_singleton row i ih =>
      rw [List.foldl_append, List.length_append]
      exact packed_packStep hb ih i

/-- A row is as many bytes as its bits need. -/
theorem length_packRow {b : Nat} (hb : b = 1 ∨ b = 2 ∨ b = 4) (row : List UInt8) :
    (packRow b row).length = divCeil8 (row.length * b) := by
  obtain ⟨hlen, hlt, -⟩ := packed_foldl hb row
  simp only [packRow, divCeil8]
  split
  · rw [List.length_append, List.length_singleton]
    omega
  · omega

theorem bits_cases (n : Nat) : bits n = 1 ∨ bits n = 2 ∨ bits n = 4 := by
  unfold bits
  split
  · exact Or.inl rfl
  · exact Or.inr (Or.inl rfl)
  · exact Or.inr (Or.inl rfl)
  · exact Or.inr (Or.inr rfl)

/-! ### The five sizes -/

/-- The size of a form of a tile with `n` colours, as `encode_tile` computes it. -/
def formSize (cp w h : Nat) (runs : List (UInt32 × Nat)) (n : Nat) : Kind → Nat
  | .raw => 1 + w * h * cp
  | .plainRle => 1 + (runs.map fun r => cp + runLenBytes r.2).sum
  | .packed => 1 + n * cp + h * divCeil8 (w * bits n)
  | .paletteRle => 1 + n * cp + (runs.map fun r => if r.2 = 1 then 1 else 1 + runLenBytes r.2).sum

/-- The forms that a tile with `n` colours has. -/
def Applies (n : Nat) : Kind → Prop
  | .raw => True
  | .plainRle => True
  | .packed => n ≤ 16
  | .paletteRle => n ≤ 127

/-- The best of some forms, with its size. -/
structure Best (size : Kind → Nat) (among : Kind → Prop) (best : Nat × Kind) : Prop where
  size_eq : best.1 = size best.2
  mem : among best.2
  le : ∀ k, among k → best.1 ≤ size k

/-- One more form to choose from. -/
theorem Best.better {size : Kind → Nat} {among : Kind → Prop} {best : Nat × Kind}
    (h : Best size among best) (kind : Kind) :
    Best size (fun k => among k ∨ k = kind) (better best (size kind) kind) := by
  rw [Zrle.better]
  split
  · next hlt =>
      refine ⟨rfl, Or.inr rfl, ?_⟩
      rintro k (hk | rfl)
      · exact hlt.le.trans (h.le k hk)
      · exact le_rfl
  · next hge =>
      refine ⟨h.size_eq, Or.inl h.mem, ?_⟩
      rintro k (hk | rfl)
      · exact h.le k hk
      · exact Nat.le_of_not_lt hge

theorem Best.congr {size : Kind → Nat} {among among' : Kind → Prop} {best : Nat × Kind}
    (h : Best size among best) (heq : ∀ k, among k ↔ among' k) : Best size among' best :=
  ⟨h.size_eq, (heq best.2).mp h.mem, fun k hk => h.le k ((heq k).mpr hk)⟩

theorem best_bestKind (cp w h : Nat) (runs : List (UInt32 × Nat)) (colors : List UInt32) :
    Best (formSize cp w h runs colors.length) (Applies colors.length)
      (bestKind cp w h runs (if colors.length ≤ 127 then some colors else none)) := by
  have hraw : Best (formSize cp w h runs colors.length) (· = Kind.raw) (1 + w * h * cp, .raw) :=
    ⟨rfl, rfl, fun k hk => by rw [hk]; exact le_rfl⟩
  have hplain := hraw.better .plainRle
  by_cases hn : colors.length ≤ 127
  · rw [if_pos hn]
    by_cases hfew : colors.length ≤ 16
    · have hall := (hplain.better .packed).better .paletteRle
      simp only [bestKind, if_pos hfew]
      apply hall.congr
      intro k
      cases k with
      | _ => simp [Applies, hn, hfew]
    · have hall := hplain.better .paletteRle
      simp only [bestKind, if_neg hfew]
      apply hall.congr
      intro k
      cases k with
      | _ => simp [Applies, hn, hfew]
  · rw [if_neg hn]
    apply hplain.congr
    intro k
    cases k with
    | raw => simp [Applies]
    | plainRle => simp [Applies]
    | packed => simp [Applies]; omega
    | paletteRle => simp [Applies, hn]

/-- What is written for a form is as long as its size. -/
theorem length_rawForm (fmt : PixelFormat) (px : List UInt32) :
    (rawForm fmt px).length = 1 + px.length * fmt.cpixelLen := by
  rw [rawForm, List.length_cons, length_pushCpixels, Nat.add_comm]

theorem length_plainRleForm (fmt : PixelFormat) (runs : List (UInt32 × Nat)) :
    (plainRleForm fmt runs).length =
      1 + (runs.map fun r => fmt.cpixelLen + runLenBytes r.2).sum := by
  rw [plainRleForm, List.length_cons, List.length_flatMap, Nat.add_comm]
  congr 2
  refine List.map_congr_left fun r _ => ?_
  rw [List.length_append, fmt.length_cpixel, length_pushRunLen]

theorem length_paletteRun (colors : List UInt32) (r : UInt32 × Nat) :
    (paletteRun colors r).length = if r.2 = 1 then 1 else 1 + runLenBytes r.2 := by
  simp only [paletteRun]
  split
  · rfl
  · rw [List.length_cons, length_pushRunLen, Nat.add_comm]

theorem length_paletteRleForm (fmt : PixelFormat) (colors : List UInt32)
    (runs : List (UInt32 × Nat)) :
    (paletteRleForm fmt colors runs).length = 1 + colors.length * fmt.cpixelLen +
      (runs.map fun r => if r.2 = 1 then 1 else 1 + runLenBytes r.2).sum := by
  rw [paletteRleForm, List.length_append, List.length_cons, length_pushCpixels,
    List.length_flatMap, Nat.add_comm _ 1]
  congr 2
  exact List.map_congr_left fun r _ => length_paletteRun colors r

theorem length_packedForm (fmt : PixelFormat) (colors px : List UInt32) {w h : Nat}
    (hpx : px.length = h * w) :
    (packedForm fmt colors px w h).length = 1 + colors.length * fmt.cpixelLen +
      h * divCeil8 (w * bits colors.length) := by
  have hrow : ∀ row < h, (packRow (bits colors.length)
      (((px.drop (row * w)).take w).map (indexOf colors))).length =
        divCeil8 (w * bits colors.length) := by
    intro row hlt
    have hle : (row + 1) * w ≤ h * w := Nat.mul_le_mul_right w hlt
    rw [Nat.succ_mul] at hle
    rw [length_packRow (bits_cases _), List.length_map, List.length_take, List.length_drop,
      Nat.min_eq_left (by omega)]
  rw [packedForm, List.length_append, List.length_cons, length_pushCpixels,
    length_flatMap_blocks hrow, Nat.add_comm _ 1]

/-! ### The tile -/

/-- What is written is as long as the size of the form that was chosen. -/
theorem length_encodePixels (fmt : PixelFormat) {px : List UInt32} {w h : Nat}
    (hpx : px.length = h * w) (hruns : (runsOf px).length ≠ 1) :
    (encodePixels fmt px w h).length = (bestKind fmt.cpixelLen w h (runsOf px) (build px)).1 := by
  have hbest := best_bestKind fmt.cpixelLen w h (runsOf px) (firstSeen px)
  rw [← build_eq] at hbest
  have hpal : (firstSeen px).length ≤ 127 → (build px).getD [] = firstSeen px := by
    intro hfew
    rw [build_eq, if_pos hfew]
    rfl
  have happlies := hbest.mem
  rw [encodePixels, hbest.size_eq]
  simp only [if_neg hruns]
  generalize (bestKind fmt.cpixelLen w h (runsOf px) (build px)).2 = kind at happlies
  cases kind with
  | raw =>
      rw [formSize, length_rawForm, hpx, Nat.mul_comm h w]
  | plainRle => exact length_plainRleForm fmt (runsOf px)
  | packed =>
      simp only [hpal (happlies.trans (by decide))]
      exact length_packedForm fmt (firstSeen px) px hpx
  | paletteRle =>
      simp only [hpal happlies]
      exact length_paletteRleForm fmt (firstSeen px) (runsOf px)

/-- What is known of the bytes of a tile: its palette, and how many there are. -/
structure TileSize (fmt : PixelFormat) (rgb : Grid Px) (x y w h : Nat) : Prop where
  palette : build ((rgb.cut x y w h).map packRgb) =
    if (firstSeen ((rgb.cut x y w h).map packRgb)).length ≤ 127 then
      some (firstSeen ((rgb.cut x y w h).map packRgb))
    else none
  nodup : (firstSeen ((rgb.cut x y w h).map packRgb)).Nodup
  mem : ∀ c, c ∈ firstSeen ((rgb.cut x y w h).map packRgb) ↔ c ∈ (rgb.cut x y w h).map packRgb
  solid : (runsOf ((rgb.cut x y w h).map packRgb)).length = 1 →
    (encodeTile fmt rgb x y w h).length = 1 + fmt.cpixelLen
  chosen : (runsOf ((rgb.cut x y w h).map packRgb)).length ≠ 1 →
    (encodeTile fmt rgb x y w h).length =
      (bestKind fmt.cpixelLen w h (runsOf ((rgb.cut x y w h).map packRgb))
        (build ((rgb.cut x y w h).map packRgb))).1
  least : (runsOf ((rgb.cut x y w h).map packRgb)).length ≠ 1 →
    IsLeast {size | ∃ kind, Applies (firstSeen ((rgb.cut x y w h).map packRgb)).length kind ∧
        size = formSize fmt.cpixelLen w h (runsOf ((rgb.cut x y w h).map packRgb))
          (firstSeen ((rgb.cut x y w h).map packRgb)).length kind}
      (encodeTile fmt rgb x y w h).length

/-- A tile takes the bytes that were computed for it, and they are the least of all its forms. -/
theorem tileSize_encodeTile (fmt : PixelFormat) (rgb : Grid Px) {x y w h : Nat}
    (hx : x + w ≤ rgb.w) (hy : y + h ≤ rgb.h) : TileSize fmt rgb x y w h := by
  have hlen : ((rgb.cut x y w h).map packRgb).length = h * w := by
    rw [List.length_map, rgb.length_cut hx hy]
  have hbest := best_bestKind fmt.cpixelLen w h (runsOf ((rgb.cut x y w h).map packRgb))
    (firstSeen ((rgb.cut x y w h).map packRgb))
  rw [← build_eq] at hbest
  have hchosen := length_encodePixels fmt hlen
  refine ⟨build_eq _, nodup_firstSeen _, fun c => mem_firstSeen, fun hruns => ?_, hchosen,
    fun hruns => ?_⟩
  · rw [encodeTile, encodePixels, if_pos hruns, List.length_cons, fmt.length_cpixel, Nat.add_comm]
  · rw [encodeTile, hchosen hruns]
    refine ⟨⟨_, hbest.mem, hbest.size_eq⟩, ?_⟩
    rintro size ⟨kind, hkind, rfl⟩
    exact hbest.le kind hkind

theorem tileSize_black :
    TileSize PixelFormat.default (Grid.fill 3 2 Px.black) 1 0 2 2 :=
  tileSize_encodeTile PixelFormat.default (Grid.fill 3 2 Px.black) (by decide) (by decide)

end Zrle

end Hdmicap

end Paniolo
