import Mathlib.Data.List.GetD
import Mathlib.Data.List.Induction
import Paniolo.Library.Grid
import Paniolo.Hdmicap.PixelFormat

/-!
# Encoding one ZRLE tile

A tile is written as the smallest of solid, raw, plain RLE, packed palette and
palette RLE. The definitions follow `zrle.rs`: the runs of equal pixels, the
palette with its open-addressing table, the sizes of the five forms and the
bytes of the one that is chosen.
-/

namespace Paniolo

namespace Hdmicap

namespace Zrle

/-- A pixel as the encoder compares it: red, green and blue from the top. -/
def packRgb (p : Px) : UInt32 :=
  p.r.toUInt32 <<< 16 ||| p.g.toUInt32 <<< 8 ||| p.b.toUInt32

def unpack (c : UInt32) : Px :=
  ⟨(c >>> 16).toUInt8, (c >>> 8).toUInt8, c.toUInt8⟩

@[simp] theorem unpack_packRgb (p : Px) : unpack (packRgb p) = p := by
  have h := PixelFormat.default.colour_pack p
  simpa [PixelFormat.colour, PixelFormat.pack, PixelFormat.default, PixelFormat.byteAt, unpack,
    packRgb] using h

/-! ### Runs -/

/-- The length of a run (at least 1): 255 repeated, then the rest, summing to length - 1. -/
def runLenTail (n : Nat) : List UInt8 :=
  if 255 ≤ n then 255 :: runLenTail (n - 255) else [UInt8.ofNat n]
termination_by n

def pushRunLen (len : Nat) : List UInt8 := runLenTail (len - 1)

def runLenBytes (len : Nat) : Nat := (len - 1) / 255 + 1

def pushRun (runs : List (UInt32 × Nat)) (c : UInt32) : List (UInt32 × Nat) :=
  match runs.getLast? with
  | some (last, n) => if last = c then runs.dropLast ++ [(last, n + 1)] else runs ++ [(c, 1)]
  | none => runs ++ [(c, 1)]

def runsOf (px : List UInt32) : List (UInt32 × Nat) := px.foldl pushRun []

/-! ### Palette -/

/-- Slots of the palette's hash table; `255` marks a free one. -/
def SLOTS : Nat := 512

structure PaletteState where
  table : List UInt8
  colors : List UInt32

def PaletteState.empty : PaletteState := ⟨List.replicate SLOTS 255, []⟩

inductive Probe where
  | free (slot : Nat)
  | found
deriving DecidableEq

/-- The probe of one colour: on to the next slot while another colour holds it. The table is
never full, so `SLOTS` steps are enough. -/
def PaletteState.probe (p : PaletteState) (c : UInt32) : Nat → Nat → Option Probe
  | 0, _ => none
  | fuel + 1, i =>
      let e := p.table.getD i 255
      if e = 255 then some (.free i)
      else if p.colors[e.toNat]? = some c then some .found
      else p.probe c fuel ((i + 1) % SLOTS)

def slotOf (c : UInt32) : Nat := ((c * 0x9E3779B1) >>> 23).toNat % SLOTS

def PaletteState.insert (p : PaletteState) (c : UInt32) : Option PaletteState :=
  match p.probe c SLOTS (slotOf c) with
  | some (.free i) =>
      if p.colors.length ≥ 127 then none
      else some ⟨p.table.set i (UInt8.ofNat p.colors.length), p.colors ++ [c]⟩
  | some .found => some p
  | none => none

def buildFrom (p : PaletteState) : List UInt32 → Option PaletteState
  | [] => some p
  | c :: tile =>
      match p.insert c with
      | some p' => buildFrom p' tile
      | none => none

/-- Distinct colours of a tile in first-seen order, or `none` once there are more than 127. -/
def build (tile : List UInt32) : Option (List UInt32) :=
  (buildFrom .empty tile).map PaletteState.colors

def indexOf (colors : List UInt32) (c : UInt32) : UInt8 := UInt8.ofNat (colors.idxOf c)

/-! ### The five forms -/

inductive Kind where
  | raw
  | plainRle
  | packed
  | paletteRle
deriving DecidableEq, Repr

/-- Bits of a packed palette index. -/
def bits (n : Nat) : Nat :=
  match n with
  | 2 => 1
  | 3 => 2
  | 4 => 2
  | _ => 4

def divCeil8 (n : Nat) : Nat := (n + 7) / 8

/-- The smaller form wins; on a tie the one considered first. -/
def better (best : Nat × Kind) (size : Nat) (kind : Kind) : Nat × Kind :=
  if size < best.1 then (size, kind) else best

def bestKind (cp w h : Nat) (runs : List (UInt32 × Nat)) (pal : Option (List UInt32)) :
    Nat × Kind :=
  let best := (1 + w * h * cp, Kind.raw)
  let best := better best (1 + (runs.map fun r => cp + runLenBytes r.2).sum) .plainRle
  match pal with
  | none => best
  | some colors =>
      let n := colors.length
      let best :=
        if n ≤ 16 then better best (1 + n * cp + h * divCeil8 (w * bits n)) .packed else best
      better best
        (1 + n * cp + (runs.map fun r => if r.2 = 1 then 1 else 1 + runLenBytes r.2).sum)
        .paletteRle

/-- One index of a packed row: the byte being filled is shifted and takes it in. -/
def packStep (b : Nat) (s : List UInt8 × UInt8 × Nat) (i : UInt8) : List UInt8 × UInt8 × Nat :=
  let acc := s.2.1 <<< UInt8.ofNat b ||| i
  let filled := s.2.2 + b
  if filled = 8 then (s.1 ++ [acc], 0, 0) else (s.1, acc, filled)

/-- One row of packed indices; the last byte is padded on the right. -/
def packRow (b : Nat) (row : List UInt8) : List UInt8 :=
  let s := row.foldl (packStep b) ([], 0, 0)
  if s.2.2 > 0 then s.1 ++ [s.2.1 <<< UInt8.ofNat (8 - s.2.2)] else s.1

def pushCpixels (fmt : PixelFormat) (colors : List UInt32) : List UInt8 :=
  colors.flatMap fun c => fmt.cpixel (unpack c)

def rawForm (fmt : PixelFormat) (px : List UInt32) : List UInt8 :=
  0 :: pushCpixels fmt px

def plainRleForm (fmt : PixelFormat) (runs : List (UInt32 × Nat)) : List UInt8 :=
  128 :: runs.flatMap fun r => fmt.cpixel (unpack r.1) ++ pushRunLen r.2

def packedForm (fmt : PixelFormat) (colors : List UInt32) (px : List UInt32) (w h : Nat) :
    List UInt8 :=
  UInt8.ofNat colors.length :: pushCpixels fmt colors ++
    (List.range h).flatMap fun row =>
      packRow (bits colors.length) (((px.drop (row * w)).take w).map (indexOf colors))

def paletteRun (colors : List UInt32) (r : UInt32 × Nat) : List UInt8 :=
  let i := indexOf colors r.1
  if r.2 = 1 then [i] else (i ||| 0x80) :: pushRunLen r.2

def paletteRleForm (fmt : PixelFormat) (colors : List UInt32) (runs : List (UInt32 × Nat)) :
    List UInt8 :=
  (128 + UInt8.ofNat colors.length) :: pushCpixels fmt colors ++ runs.flatMap (paletteRun colors)

/-- A tile of `w` times `h` pixels in the smallest form. -/
def encodePixels (fmt : PixelFormat) (px : List UInt32) (w h : Nat) : List UInt8 :=
  let runs := runsOf px
  if runs.length = 1 then 1 :: fmt.cpixel (unpack (px.headD 0))
  else
    let pal := build px
    match (bestKind fmt.cpixelLen w h runs pal).2 with
    | .raw => rawForm fmt px
    | .plainRle => plainRleForm fmt runs
    | .packed => packedForm fmt (pal.getD []) px w h
    | .paletteRle => paletteRleForm fmt (pal.getD []) runs

def encodeTile (fmt : PixelFormat) (rgb : Grid Px) (x y w h : Nat) : List UInt8 :=
  encodePixels fmt ((rgb.cut x y w h).map packRgb) w h

/-! ### Tiles of a rectangle -/

/-- A side cut into tiles: offset and length of each, the last one shorter. -/
def spans (off n : Nat) : List (Nat × Nat) :=
  if n = 0 then [] else (off, min 64 n) :: spans (off + min 64 n) (n - min 64 n)
termination_by n
decreasing_by omega

/-- What `encode_rect` puts into the zlib stream: the tiles from left to right, top to bottom. -/
def encodeRect (fmt : PixelFormat) (rgb : Grid Px) (x y w h : Nat) : List UInt8 :=
  (spans 0 h).flatMap fun t => (spans 0 w).flatMap fun s =>
    encodeTile fmt rgb (x + s.1) (y + t.1) s.2 t.2

/-! ### Facts about runs -/

def expand (runs : List (UInt32 × Nat)) : List UInt32 :=
  runs.flatMap fun r => List.replicate r.2 r.1

theorem pushRun_cases (runs : List (UInt32 × Nat)) (c : UInt32) :
    (∃ init n, runs = init ++ [(c, n)] ∧ pushRun runs c = init ++ [(c, n + 1)]) ∨
      pushRun runs c = runs ++ [(c, 1)] := by
  rcases List.eq_nil_or_concat runs with rfl | ⟨init, ⟨last, n⟩, rfl⟩
  · exact Or.inr rfl
  · by_cases hlast : last = c
    · subst hlast
      exact Or.inl ⟨init, n, by simp, by simp [pushRun]⟩
    · exact Or.inr (by simp [pushRun, hlast])

theorem expand_pushRun (runs : List (UInt32 × Nat)) (c : UInt32) :
    expand (pushRun runs c) = expand runs ++ [c] := by
  rcases pushRun_cases runs c with ⟨init, n, rfl, hpush⟩ | hpush
  · rw [hpush]
    simp [expand, List.replicate_succ']
  · rw [hpush]
    simp [expand]

theorem expand_runsOf (px : List UInt32) : expand (runsOf px) = px := by
  induction px using List.reverseRecOn with
  | nil => rfl
  | append_singleton px c ih =>
      rw [runsOf, List.foldl_append]
      exact (expand_pushRun (runsOf px) c).trans (by rw [ih])

theorem runsOf_pos (px : List UInt32) : ∀ r ∈ runsOf px, 0 < r.2 := by
  induction px using List.reverseRecOn with
  | nil => simp [runsOf]
  | append_singleton px c ih =>
      intro r hr
      rw [runsOf, List.foldl_append] at hr
      change r ∈ pushRun (runsOf px) c at hr
      rcases pushRun_cases (runsOf px) c with ⟨init, n, hruns, hpush⟩ | hpush
      · rw [hpush] at hr
        rcases List.mem_append.mp hr with hr | hr
        · exact ih r (by rw [hruns]; exact List.mem_append_left _ hr)
        · rw [List.mem_singleton.mp hr]
          exact Nat.succ_pos n
      · rw [hpush] at hr
        rcases List.mem_append.mp hr with hr | hr
        · exact ih r hr
        · rw [List.mem_singleton.mp hr]
          exact Nat.one_pos

theorem mem_of_mem_runsOf {px : List UInt32} {r : UInt32 × Nat} (h : r ∈ runsOf px) : r.1 ∈ px := by
  rw [← expand_runsOf px, expand, List.mem_flatMap]
  refine ⟨r, h, ?_⟩
  rw [List.mem_replicate]
  exact ⟨(runsOf_pos px r h).ne', rfl⟩

/-- A tile of one colour is one run. -/
theorem length_runsOf_of_const {px : List UInt32} {c : UInt32} (h : ∀ d ∈ px, d = c) :
    (runsOf px).length ≤ 1 := by
  have hruns : runsOf px = [] ∨ ∃ n, runsOf px = [(c, n)] := by
    induction px using List.reverseRecOn with
    | nil => exact Or.inl rfl
    | append_singleton px d ih =>
        have hd : d = c := h d (by simp)
        rw [runsOf, List.foldl_append]
        change pushRun (runsOf px) d = [] ∨ ∃ n, pushRun (runsOf px) d = [(c, n)]
        rcases ih fun e he => h e (by simp [he]) with hnil | ⟨n, hone⟩
        · exact Or.inr ⟨1, by simp [hnil, pushRun, hd]⟩
        · exact Or.inr ⟨n + 1, by simp [hone, pushRun, hd]⟩
  rcases hruns with hnil | ⟨n, hone⟩
  · simp [hnil]
  · simp [hone]

/-- One run is a tile of one colour. -/
theorem eq_replicate_of_length_runsOf {px : List UInt32} (h : (runsOf px).length = 1) :
    px = List.replicate px.length (px.headD 0) := by
  obtain ⟨⟨c, n⟩, hruns⟩ := List.length_eq_one_iff.mp h
  have hpx := expand_runsOf px
  have hpos := runsOf_pos px (c, n) (by simp [hruns])
  rw [hruns] at hpx
  simp only [expand, List.flatMap_cons, List.flatMap_nil, List.append_nil] at hpx
  obtain ⟨m, rfl⟩ := Nat.exists_eq_succ_of_ne_zero hpos.ne'
  rw [← hpx]
  simp [List.replicate_succ]

/-! ### Facts about the palette -/

/-- The table has a slot for every colour and no more, and points at colours that exist. -/
structure PaletteInv (p : PaletteState) : Prop where
  size : p.table.length = SLOTS
  free : p.table.count 255 + p.colors.length = SLOTS
  few : p.colors.length ≤ 127

theorem paletteInv_empty : PaletteInv .empty := by
  constructor
  · rw [PaletteState.empty, List.length_replicate]
  · rw [PaletteState.empty, List.count_replicate_self]
    rfl
  · exact Nat.zero_le _

theorem probe_isSome {p : PaletteState} {c : UInt32} (d : Nat) :
    ∀ fuel i, i < SLOTS → d < fuel → p.table.getD ((i + d) % SLOTS) 255 = 255 →
      (p.probe c fuel i).isSome = true := by
  induction d with
  | zero =>
      intro fuel i hi hd hfree
      obtain ⟨fuel, rfl⟩ := Nat.exists_eq_succ_of_ne_zero (Nat.ne_of_gt hd)
      rw [Nat.add_zero, Nat.mod_eq_of_lt hi] at hfree
      rw [PaletteState.probe]
      simp only [hfree, if_true, Option.isSome_some]
  | succ d ih =>
      intro fuel i hi hd hfree
      obtain ⟨fuel, rfl⟩ := Nat.exists_eq_succ_of_ne_zero (by omega : fuel ≠ 0)
      simp only [PaletteState.probe]
      split
      · rfl
      · split
        · rfl
        · apply ih fuel ((i + 1) % SLOTS) (Nat.mod_lt _ (by decide)) (by omega)
          rw [Nat.mod_add_mod, Nat.add_right_comm]
          exact hfree

/-- The table is never full, so a probe ends at the colour or at a free slot. -/
theorem probe_ne_none {p : PaletteState} (inv : PaletteInv p) (c : UInt32) (i : Nat)
    (hi : i < SLOTS) : p.probe c SLOTS i ≠ none := by
  have hcount : 0 < p.table.count 255 := by
    have h1 := inv.free
    have h2 := inv.few
    simp only [SLOTS] at h1
    omega
  obtain ⟨j, hj, hfree⟩ := List.mem_iff_getElem.mp (List.count_pos_iff.mp hcount)
  have hj' : j < SLOTS := inv.size ▸ hj
  have hreach : (i + (j + SLOTS - i) % SLOTS) % SLOTS = j := by
    simp only [SLOTS] at *
    omega
  have hsome := probe_isSome (p := p) (c := c) ((j + SLOTS - i) % SLOTS) SLOTS i hi
    (Nat.mod_lt _ (by decide)) (by rw [hreach, List.getD_eq_getElem _ _ hj, hfree])
  intro hnone
  rw [hnone] at hsome
  cases hsome

theorem probe_free {p : PaletteState} {c : UInt32} {slot : Nat} :
    ∀ fuel i, p.table.length = SLOTS → i < SLOTS → p.probe c fuel i = some (.free slot) →
      slot < SLOTS ∧ p.table[slot]? = some 255 := by
  intro fuel
  induction fuel with
  | zero =>
      intro i _ _ h
      cases h
  | succ fuel ih =>
      intro i hlen hi h
      simp only [PaletteState.probe] at h
      split at h
      · rename_i hfree
        obtain ⟨rfl⟩ : slot = i := by simpa using h.symm
        have hlt : slot < p.table.length := hlen ▸ hi
        rw [List.getD_eq_getElem _ _ hlt] at hfree
        exact ⟨hi, by rw [List.getElem?_eq_getElem hlt, hfree]⟩
      · split at h
        · cases h
        · exact ih _ hlen (Nat.mod_lt _ (by decide)) h

theorem probe_found {p : PaletteState} {c : UInt32} :
    ∀ fuel i, p.probe c fuel i = some .found → c ∈ p.colors := by
  intro fuel
  induction fuel with
  | zero =>
      intro i h
      cases h
  | succ fuel ih =>
      intro i h
      simp only [PaletteState.probe] at h
      split at h
      · cases h
      · split at h
        · rename_i hc
          exact List.mem_of_getElem? hc
        · exact ih _ h

theorem insert_inv {p p' : PaletteState} {c : UInt32} (inv : PaletteInv p)
    (h : p.insert c = some p') : PaletteInv p' ∧ c ∈ p'.colors ∧ p.colors ⊆ p'.colors := by
  have hslot : slotOf c < SLOTS := Nat.mod_lt _ (by decide)
  simp only [PaletteState.insert] at h
  split at h
  · rename_i i hprobe
    obtain ⟨hi, hfree⟩ := probe_free SLOTS (slotOf c) inv.size hslot hprobe
    split at h
    · cases h
    · cases h
      have hlt : i < p.table.length := inv.size ▸ hi
      have hget : p.table[i] = 255 := by
        rw [List.getElem?_eq_getElem hlt] at hfree
        exact Option.some.inj hfree
      have hne : (UInt8.ofNat p.colors.length == 255) = false := by
        rw [beq_eq_false_iff_ne]
        intro heq
        have := congrArg UInt8.toNat heq
        rw [UInt8.toNat_ofNat'] at this
        simp only [UInt8.reduceToNat] at this
        omega
      have hpos : 0 < p.table.count 255 :=
        List.count_pos_iff.mpr (List.mem_iff_getElem.mpr ⟨i, hlt, hget⟩)
      have hfr := inv.free
      refine ⟨⟨by simp [inv.size], ?_, by simp; omega⟩, by simp, by simp⟩
      rw [List.count_set hlt, hget, hne]
      simp
      omega
  · rename_i hprobe
    cases h
    exact ⟨inv, probe_found _ _ hprobe, List.Subset.refl _⟩
  · cases h

/-- A colour is refused only by a full palette; the probe itself always ends. -/
theorem insert_eq_none {p : PaletteState} {c : UInt32} (inv : PaletteInv p)
    (h : p.insert c = none) : 127 ≤ p.colors.length := by
  have hslot : slotOf c < SLOTS := Nat.mod_lt _ (by decide)
  simp only [PaletteState.insert] at h
  split at h
  · split at h
    · assumption
    · cases h
  · cases h
  · rename_i hprobe
    exact absurd hprobe (probe_ne_none inv c _ hslot)

theorem buildFrom_spec (tile : List UInt32) :
    ∀ {p p' : PaletteState}, PaletteInv p → buildFrom p tile = some p' →
      p'.colors.length ≤ 127 ∧ p.colors ⊆ p'.colors ∧ ∀ c ∈ tile, c ∈ p'.colors := by
  induction tile with
  | nil =>
      intro p p' inv h
      cases h
      exact ⟨inv.few, List.Subset.refl _, by simp⟩
  | cons c tile ih =>
      intro p p' inv h
      simp only [buildFrom] at h
      split at h
      · rename_i q hq
        obtain ⟨inv', hmem, hsub⟩ := insert_inv inv hq
        obtain ⟨hfew, hsub', hall⟩ := ih inv' h
        refine ⟨hfew, List.Subset.trans hsub hsub', ?_⟩
        intro d hd
        rcases List.mem_cons.mp hd with rfl | hd
        · exact hsub' hmem
        · exact hall d hd
      · cases h

/-- A palette holds at most 127 colours and every colour of its tile. -/
theorem build_spec {tile colors : List UInt32} (h : build tile = some colors) :
    colors.length ≤ 127 ∧ ∀ c ∈ tile, c ∈ colors := by
  rw [build, Option.map_eq_some_iff] at h
  obtain ⟨p, hp, rfl⟩ := h
  obtain ⟨hfew, -, hall⟩ := buildFrom_spec tile paletteInv_empty hp
  exact ⟨hfew, hall⟩

/-- A palette has two colours when the tile is not one run. -/
theorem two_le_length_build {tile colors : List UInt32} (h : build tile = some colors)
    (hruns : 2 ≤ (runsOf tile).length) : 2 ≤ colors.length := by
  by_contra hlt
  obtain ⟨-, hall⟩ := build_spec h
  have hconst : ∀ d ∈ tile, d = colors.headD 0 := by
    intro d hd
    have hmem := hall d hd
    cases colors with
    | nil => cases hmem
    | cons c rest =>
        cases rest with
        | nil => simpa using hmem
        | cons e rest => simp at hlt
  have := length_runsOf_of_const hconst
  omega

end Zrle

end Hdmicap

end Paniolo
