import Paniolo.Hdmicap.Zrle.Tile

/-!
# Decoding ZRLE

The reading side of RFC 6143, section 7.7.6: a tile starts with its
subencoding byte, and the five forms are read back one by one. The main result
is `decodeTile_encodeTile`: whatever form the encoder chose, the tile's pixels
are read back and the input is left exactly behind the tile.
-/

namespace Paniolo

namespace Hdmicap

namespace Zrle

/-- A reader takes a value off the front of the input. -/
abbrev Reader (α : Type) := List UInt8 → Option (α × List UInt8)

def readN {α : Type} (read : Reader α) : Nat → Reader (List α)
  | 0, bs => some ([], bs)
  | n + 1, bs => do
      let (a, bs) ← read bs
      let (as, bs) ← readN read n bs
      pure (a :: as, bs)

/-- Bytes that sum up to the length of a run less one; the last is not 255. -/
def readRunLen : Reader Nat
  | [] => none
  | b :: bs =>
      if b = 255 then do
        let (n, bs) ← readRunLen bs
        pure (n + 255, bs)
      else some (b.toNat + 1, bs)

/-- Runs until the tile's `total` pixels are there. A run is never empty, so `total` rounds do. -/
def readRuns (readRun : Reader (Px × Nat)) : Nat → Nat → Reader (List Px)
  | _, 0, bs => some ([], bs)
  | 0, _ + 1, _ => none
  | fuel + 1, total + 1, bs => do
      let ((p, n), bs) ← readRun bs
      if n = 0 ∨ total + 1 < n then none
      else do
        let (ps, bs) ← readRuns readRun fuel (total + 1 - n) bs
        pure (List.replicate n p ++ ps, bs)

def readPlainRun (fmt : PixelFormat) : Reader (Px × Nat) := fun bs => do
  let (p, bs) ← fmt.readCpixel bs
  let (n, bs) ← readRunLen bs
  pure ((p, n), bs)

/-- A palette index; its top bit says that a run length follows. -/
def readPaletteRun (palette : List Px) : Reader (Px × Nat)
  | [] => none
  | i :: bs =>
      if i < 128 then do
        let p ← palette[i.toNat]?
        pure ((p, 1), bs)
      else do
        let p ← palette[i.toNat - 128]?
        let (n, bs) ← readRunLen bs
        pure ((p, n), bs)

/-- The indices of one byte, most significant first. -/
def unpackByte (b : Nat) (v : UInt8) : List UInt8 :=
  (List.range (8 / b)).map fun j => (v >>> UInt8.ofNat (8 - b * (j + 1))) &&& UInt8.ofNat (2 ^ b - 1)

def indexBits (n : Nat) : Nat :=
  if n = 2 then 1 else if n ≤ 4 then 2 else 4

/-- One row of packed indices, padded to whole bytes. -/
def readPackedRow (palette : List Px) (w : Nat) : Reader (List Px) := fun bs =>
  let b := indexBits palette.length
  let len := (w * b + 7) / 8
  if bs.length < len then none
  else do
    let row ← (((bs.take len).flatMap (unpackByte b)).take w).mapM fun i => palette[i.toNat]?
    pure (row, bs.drop len)

def decodeTile (fmt : PixelFormat) (w h : Nat) : Reader (List Px)
  | [] => none
  | s :: bs =>
      if s = 0 then readN fmt.readCpixel (w * h) bs
      else if s = 1 then do
        let (p, bs) ← fmt.readCpixel bs
        pure (List.replicate (w * h) p, bs)
      else if 2 ≤ s ∧ s ≤ 16 then do
        let (palette, bs) ← readN fmt.readCpixel s.toNat bs
        let (rows, bs) ← readN (readPackedRow palette w) h bs
        pure (rows.flatten, bs)
      else if s = 128 then readRuns (readPlainRun fmt) (w * h) (w * h) bs
      else if 130 ≤ s then do
        let (palette, bs) ← readN fmt.readCpixel (s.toNat - 128) bs
        readRuns (readPaletteRun palette) (w * h) (w * h) bs
      else none

/-! ### Readers against writers -/

theorem readN_flatMap {α β : Type} (read : Reader β) (write : α → List UInt8) (val : α → β)
    (as : List α) (h : ∀ a ∈ as, ∀ rest, read (write a ++ rest) = some (val a, rest))
    (rest : List UInt8) :
    readN read as.length (as.flatMap write ++ rest) = some (as.map val, rest) := by
  induction as with
  | nil => rfl
  | cons a as ih =>
      rw [List.flatMap_cons, List.append_assoc, List.length_cons, readN, h a (by simp)]
      simp [ih fun b hb => h b (by simp [hb])]

theorem readN_pushCpixels (fmt : PixelFormat) (px : List UInt32) (rest : List UInt8) :
    readN fmt.readCpixel px.length (pushCpixels fmt px ++ rest) = some (px.map unpack, rest) :=
  readN_flatMap _ _ _ px (fun c _ rest => fmt.readCpixel_cpixel (unpack c) rest) rest

theorem readRunLen_runLenTail (n : Nat) (rest : List UInt8) :
    readRunLen (runLenTail n ++ rest) = some (n + 1, rest) := by
  induction n using Nat.strong_induction_on with
  | _ n ih =>
      rw [runLenTail]
      by_cases hn : 255 ≤ n
      · rw [if_pos hn, List.cons_append, readRunLen, if_pos rfl, ih (n - 255) (by omega)]
        simp
        omega
      · have hne : UInt8.ofNat n ≠ 255 := by
          intro heq
          have := congrArg UInt8.toNat heq
          rw [UInt8.toNat_ofNat'] at this
          simp only [UInt8.reduceToNat] at this
          omega
        rw [if_neg hn, List.cons_append, readRunLen, if_neg hne, UInt8.toNat_ofNat',
          Nat.mod_eq_of_lt (by omega)]
        rfl

theorem readRunLen_pushRunLen {n : Nat} (hn : 0 < n) (rest : List UInt8) :
    readRunLen (pushRunLen n ++ rest) = some (n, rest) := by
  rw [pushRunLen, readRunLen_runLenTail, Nat.sub_add_cancel hn]

/-- Runs are read back whatever a single run looks like on the wire. -/
theorem readRuns_flatMap (readRun : Reader (Px × Nat)) (write : UInt32 × Nat → List UInt8)
    (runs : List (UInt32 × Nat))
    (h : ∀ r ∈ runs, 0 < r.2 ∧ ∀ rest, readRun (write r ++ rest) = some ((unpack r.1, r.2), rest))
    (rest : List UInt8) :
    ∀ fuel, (expand runs).length ≤ fuel →
      readRuns readRun fuel (expand runs).length (runs.flatMap write ++ rest) =
        some ((expand runs).map unpack, rest) := by
  induction runs with
  | nil =>
      intro fuel _
      cases fuel <;> rfl
  | cons r runs ih =>
      intro fuel hfuel
      obtain ⟨hpos, hread⟩ := h r (by simp)
      have hexp : expand (r :: runs) = List.replicate r.2 r.1 ++ expand runs := by simp [expand]
      rw [hexp, List.length_append, List.length_replicate] at hfuel ⊢
      obtain ⟨n, hn⟩ := Nat.exists_eq_succ_of_ne_zero hpos.ne'
      obtain ⟨fuel, rfl⟩ := Nat.exists_eq_succ_of_ne_zero (by omega : fuel ≠ 0)
      have htotal : r.2 + (expand runs).length = (n + (expand runs).length) + 1 := by omega
      have hrest : n + (expand runs).length + 1 - r.2 = (expand runs).length := by omega
      rw [List.flatMap_cons, List.append_assoc, htotal, readRuns, hread]
      have hlen : ¬(r.2 = 0 ∨ n + (expand runs).length + 1 < r.2) := by omega
      simp only [Option.bind_eq_bind, Option.bind_some, if_neg hlen, hrest,
        ih (fun q hq => h q (by simp [hq])) fuel (by omega)]
      simp

/-! ### Packed rows -/

/-- A byte of packed indices: the indices shifted in from the left. -/
def packByte (b : Nat) (chunk : List UInt8) : UInt8 :=
  chunk.foldl (fun acc i => acc <<< UInt8.ofNat b ||| i) 0

/-- What packing with `b` bits needs to know about single bytes: `m` indices fill one. -/
structure PackWidth (b m : Nat) : Prop where
  pos : 0 < m
  bits : b * m = 8
  full : ∀ chunk : List UInt8, chunk.length = m → (∀ i ∈ chunk, i.toNat < 2 ^ b) →
    unpackByte b (packByte b chunk) = chunk
  tail : ∀ chunk : List UInt8, chunk.length < m → (∀ i ∈ chunk, i.toNat < 2 ^ b) →
    (unpackByte b (packByte b chunk <<< UInt8.ofNat (8 - b * chunk.length))).take chunk.length =
      chunk

theorem foldl_packStep {b m : Nat} (hw : PackWidth b m) (out : List UInt8) (chunk : List UInt8)
    (hlen : chunk.length < m) :
    chunk.foldl (packStep b) (out, 0, 0) = (out, packByte b chunk, b * chunk.length) := by
  induction chunk using List.reverseRecOn with
  | nil => rfl
  | append_singleton chunk i ih =>
      rw [List.length_append, List.length_singleton] at hlen
      have hne : b * chunk.length + b ≠ 8 := by
        rw [← hw.bits, ← Nat.mul_succ]
        intro heq
        have hb : 0 < b := Nat.pos_of_ne_zero fun hb => by
          have hbits := hw.bits
          simp [hb] at hbits
        have := Nat.eq_of_mul_eq_mul_left hb heq
        omega
      rw [List.foldl_append, ih (by omega)]
      simp [packStep, packByte, hne, Nat.mul_succ]

theorem foldl_packStep_full {b m : Nat} (hw : PackWidth b m) (out : List UInt8)
    (chunk : List UInt8) (hlen : chunk.length = m) :
    chunk.foldl (packStep b) (out, 0, 0) = (out ++ [packByte b chunk], 0, 0) := by
  rcases List.eq_nil_or_concat chunk with rfl | ⟨init, i, rfl⟩
  · have := hw.pos
    simp at hlen
    omega
  · rw [List.concat_eq_append, List.length_append, List.length_singleton] at hlen
    have hbits : b * init.length + b = 8 := by
      rw [← Nat.mul_succ, Nat.succ_eq_add_one, hlen, hw.bits]
    rw [List.concat_eq_append, List.foldl_append, foldl_packStep hw out init (by omega)]
    simp [packStep, packByte, hbits]

theorem packStep_out (b : Nat) (row : List UInt8) (out : List UInt8) (acc : UInt8) (k : Nat) :
    row.foldl (packStep b) (out, acc, k) =
      (out ++ (row.foldl (packStep b) ([], acc, k)).1, (row.foldl (packStep b) ([], acc, k)).2) := by
  induction row generalizing out acc k with
  | nil => simp
  | cons i row ih =>
      rw [List.foldl_cons, List.foldl_cons]
      simp only [packStep, List.nil_append]
      split
      · rw [ih (out ++ _), ih [_]]
        simp
      · exact ih out _ _

theorem packRow_append {b m : Nat} (hw : PackWidth b m) {chunk : List UInt8}
    (hlen : chunk.length = m) (row : List UInt8) :
    packRow b (chunk ++ row) = packByte b chunk :: packRow b row := by
  have hfold : (chunk ++ row).foldl (packStep b) ([], 0, 0) =
      (packByte b chunk :: (row.foldl (packStep b) ([], 0, 0)).1,
        (row.foldl (packStep b) ([], 0, 0)).2) := by
    rw [List.foldl_append, foldl_packStep_full hw [] chunk hlen, List.nil_append,
      packStep_out b row [packByte b chunk] 0 0]
    rfl
  rw [packRow, packRow, hfold]
  split <;> rfl

/-- A packed row has whole bytes and its indices come back in order. -/
theorem unpack_packRow {b m : Nat} (hw : PackWidth b m) (row : List UInt8)
    (hrow : ∀ i ∈ row, i.toNat < 2 ^ b) :
    (packRow b row).length = (row.length * b + 7) / 8 ∧
      ((packRow b row).flatMap (unpackByte b)).take row.length = row := by
  induction hn : row.length using Nat.strong_induction_on generalizing row with
  | _ n ih =>
      subst hn
      have hbits := hw.bits
      by_cases hlt : row.length < m
      · have hle : b * row.length ≤ b * m := Nat.mul_le_mul_left _ (Nat.le_of_lt hlt)
        have hcomm : row.length * b = b * row.length := Nat.mul_comm _ _
        rw [packRow, foldl_packStep hw [] row hlt]
        by_cases hpos : b * row.length > 0
        · have hb : 0 < b := Nat.pos_of_mul_pos_right hpos
          have hlt' : b * row.length < b * m := Nat.mul_lt_mul_of_pos_left hlt hb
          simp only [if_pos hpos, List.nil_append, List.length_singleton, List.flatMap_cons,
            List.flatMap_nil, List.append_nil]
          exact ⟨by omega, hw.tail row hlt hrow⟩
        · have hb : 0 < b := Nat.pos_of_ne_zero fun hb => by simp [hb] at hbits
          have hnil : row = [] := by
            rcases Nat.eq_zero_or_pos row.length with h0 | h0
            · exact List.length_eq_zero_iff.mp h0
            · exact absurd (Nat.mul_pos hb h0) hpos
          subst hnil
          simp
      · have hsplit : row = row.take m ++ row.drop m := (List.take_append_drop m row).symm
        have htake : (row.take m).length = m := by
          rw [List.length_take]
          omega
        have hdrop : (row.drop m).length = row.length - m := List.length_drop ..
        have hpos := hw.pos
        obtain ⟨hlen, hrest⟩ := ih _ (by omega : (row.drop m).length < row.length) (row.drop m)
          (fun i hi => hrow i (List.mem_of_mem_drop hi)) rfl
        have hpack : packRow b row = packByte b (row.take m) :: packRow b (row.drop m) := by
          rw [← packRow_append hw htake, List.take_append_drop]
        have hfull := hw.full (row.take m) htake fun i hi => hrow i (List.mem_of_mem_take hi)
        rw [hpack]
        constructor
        · have hmul : row.length * b = (row.length - m) * b + 8 := by
            rw [← hbits, Nat.mul_comm b m, ← Nat.add_mul, Nat.sub_add_cancel (by omega)]
          rw [List.length_cons, hlen, hdrop, hmul]
          omega
        · rw [List.flatMap_cons, hfull, List.take_append, htake,
            List.take_of_length_le (by omega : (row.take m).length ≤ row.length), ← hdrop, hrest,
            List.take_append_drop]

/-- All lists of `k` indices below `n`. -/
def indexLists (n : Nat) : Nat → List (List UInt8)
  | 0 => [[]]
  | k + 1 => (List.range n).flatMap fun i => (indexLists n k).map (UInt8.ofNat i :: ·)

theorem mem_indexLists {n : Nat} (chunk : List UInt8) (h : ∀ i ∈ chunk, i.toNat < n) :
    chunk ∈ indexLists n chunk.length := by
  induction chunk with
  | nil => simp [indexLists]
  | cons i chunk ih =>
      simp only [List.length_cons, indexLists, List.mem_flatMap, List.mem_range, List.mem_map]
      exact ⟨i.toNat, h i (by simp), chunk, ih fun j hj => h j (by simp [hj]), by simp⟩

/-- The three index widths the format has, checked on every byte. -/
theorem packWidth_of_check {b m : Nat} (hpos : 0 < m) (hbits : b * m = 8)
    (hfull : ∀ chunk ∈ indexLists (2 ^ b) m, unpackByte b (packByte b chunk) = chunk)
    (htail : ∀ k < m, ∀ chunk ∈ indexLists (2 ^ b) k,
      (unpackByte b (packByte b chunk <<< UInt8.ofNat (8 - b * k))).take k = chunk) :
    PackWidth b m where
  pos := hpos
  bits := hbits
  full chunk hlen h := hfull chunk (hlen ▸ mem_indexLists chunk h)
  tail chunk hlen h := htail _ hlen chunk (mem_indexLists chunk h)

theorem packWidth_one : PackWidth 1 8 :=
  packWidth_of_check (by decide) rfl (by decide +kernel) (by decide +kernel)

theorem packWidth_two : PackWidth 2 4 :=
  packWidth_of_check (by decide) rfl (by decide +kernel) (by decide +kernel)

theorem packWidth_four : PackWidth 4 2 :=
  packWidth_of_check (by decide) rfl (by decide +kernel) (by decide +kernel)

theorem exists_packWidth {n : Nat} (h2 : 2 ≤ n) (h16 : n ≤ 16) :
    ∃ m, PackWidth (bits n) m ∧ n ≤ 2 ^ bits n ∧ indexBits n = bits n := by
  by_cases hn2 : n = 2
  · subst hn2
    exact ⟨8, packWidth_one, by decide, rfl⟩
  · by_cases hn4 : n ≤ 4
    · obtain rfl | rfl : n = 3 ∨ n = 4 := by omega
      · exact ⟨4, packWidth_two, by decide, rfl⟩
      · exact ⟨4, packWidth_two, by decide, rfl⟩
    · have hbits : bits n = 4 := by
        unfold bits
        split <;> omega
      rw [hbits, indexBits, if_neg hn2, if_neg hn4]
      exact ⟨2, packWidth_four, h16, rfl⟩

/-! ### Every form is read back -/

section Palette

variable {colors : List UInt32} {c : UInt32}

theorem toNat_indexOf (hfew : colors.length ≤ 127) (hc : c ∈ colors) :
    (indexOf colors c).toNat = colors.idxOf c ∧ colors.idxOf c < colors.length := by
  have hlt : colors.idxOf c < colors.length := List.idxOf_lt_length_iff.mpr hc
  refine ⟨?_, hlt⟩
  rw [indexOf, UInt8.toNat_ofNat', Nat.mod_eq_of_lt (by omega)]

theorem getElem?_indexOf (hfew : colors.length ≤ 127) (hc : c ∈ colors) :
    (colors.map unpack)[(indexOf colors c).toNat]? = some (unpack c) := by
  obtain ⟨hidx, hlt⟩ := toNat_indexOf hfew hc
  rw [hidx, List.getElem?_map, List.getElem?_eq_getElem hlt, List.getElem_idxOf]
  rfl

theorem readPaletteRun_paletteRun (hfew : colors.length ≤ 127) {n : Nat} (hc : c ∈ colors)
    (hn : 0 < n) (rest : List UInt8) :
    readPaletteRun (colors.map unpack) (paletteRun colors (c, n) ++ rest) =
      some ((unpack c, n), rest) := by
  obtain ⟨hidx, hlt⟩ := toNat_indexOf hfew hc
  have hsmall : indexOf colors c < 128 := by
    rw [UInt8.lt_iff_toNat_lt, hidx]
    exact Nat.lt_of_lt_of_le hlt (Nat.le_succ_of_le hfew)
  have hget := getElem?_indexOf hfew hc
  have htop : ∀ i : Fin 128, ¬(UInt8.ofNat i ||| 0x80 < 128) ∧
      (UInt8.ofNat i ||| 0x80).toNat - 128 = i := by decide +kernel
  simp only [paletteRun]
  by_cases h1 : n = 1
  · subst h1
    simp only [if_true, List.cons_append, List.nil_append, readPaletteRun, if_pos hsmall, hget]
    rfl
  · have hbit := htop ⟨colors.idxOf c, by omega⟩
    have hofNat : UInt8.ofNat (colors.idxOf c) = indexOf colors c := rfl
    simp only [hofNat] at hbit
    rw [← hidx] at hbit
    simp only [if_neg h1, List.cons_append, readPaletteRun, if_neg hbit.1, hbit.2, hget,
      readRunLen_pushRunLen hn, Option.bind_eq_bind, Option.bind_some]
    rfl

theorem readPackedRow_packRow {w : Nat} {row : List UInt32} (h2 : 2 ≤ colors.length)
    (h16 : colors.length ≤ 16) (hw : row.length = w) (hrow : ∀ c ∈ row, c ∈ colors)
    (rest : List UInt8) :
    readPackedRow (colors.map unpack) w
        (packRow (bits colors.length) (row.map (indexOf colors)) ++ rest) =
      some (row.map unpack, rest) := by
  obtain ⟨m, hpw, hfit, hib⟩ := exists_packWidth h2 h16
  have hidx : ∀ i ∈ row.map (indexOf colors), i.toNat < 2 ^ bits colors.length := by
    intro i hi
    obtain ⟨c, hc, rfl⟩ := List.mem_map.mp hi
    obtain ⟨heq, hlt⟩ := toNat_indexOf (by omega) (hrow c hc)
    omega
  obtain ⟨hlen, hunpack⟩ := unpack_packRow hpw (row.map (indexOf colors)) hidx
  rw [List.length_map, hw] at hlen hunpack
  have hmap : (row.map (indexOf colors)).mapM (fun i => (colors.map unpack)[i.toNat]?) =
      some (row.map unpack) := by
    clear hidx hlen hunpack hw
    induction row with
    | nil => rfl
    | cons c row ih =>
        rw [List.map_cons, List.mapM_cons, getElem?_indexOf (by omega) (hrow c (by simp)),
          ih fun d hd => hrow d (by simp [hd])]
        rfl
  simp only [readPackedRow, List.length_map, hib]
  rw [if_neg (by rw [List.length_append, hlen]; omega), ← hlen, List.take_left, List.drop_left,
    hunpack, hmap]
  rfl

end Palette

/-- Which form is chosen, and what the choice promises. -/
theorem bestKind_cases (cp w h : Nat) (runs : List (UInt32 × Nat)) (pal : Option (List UInt32)) :
    ((bestKind cp w h runs pal).2 = .packed → ∃ colors, pal = some colors ∧ colors.length ≤ 16) ∧
      ((bestKind cp w h runs pal).2 = .paletteRle → ∃ colors, pal = some colors) := by
  cases pal with
  | none =>
      simp only [bestKind, better]
      split <;> simp
  | some colors =>
      simp only [bestKind, better]
      split_ifs <;> simp_all

theorem flatten_rows {α : Type} (px : List α) (w h : Nat) :
    ((List.range h).map fun row => (px.drop (row * w)).take w).flatten = px.take (h * w) := by
  induction h with
  | zero => simp
  | succ h ih =>
      rw [List.range_succ, List.map_append, List.flatten_append, ih, Nat.succ_mul, List.take_add]
      simp

theorem decodeTile_rawForm (fmt : PixelFormat) {px : List UInt32} {w h : Nat}
    (hlen : px.length = w * h) (rest : List UInt8) :
    decodeTile fmt w h (rawForm fmt px ++ rest) = some (px.map unpack, rest) := by
  rw [rawForm, List.cons_append, decodeTile, if_pos rfl, ← hlen]
  exact readN_pushCpixels fmt px rest

theorem decodeTile_plainRleForm (fmt : PixelFormat) {px : List UInt32} {w h : Nat}
    (hlen : px.length = w * h) (rest : List UInt8) :
    decodeTile fmt w h (plainRleForm fmt (runsOf px) ++ rest) = some (px.map unpack, rest) := by
  have hread := readRuns_flatMap (readPlainRun fmt)
    (fun r => fmt.cpixel (unpack r.1) ++ pushRunLen r.2) (runsOf px) ?_ rest px.length
    (by rw [expand_runsOf])
  · rw [expand_runsOf] at hread
    rw [plainRleForm, List.cons_append, decodeTile, if_neg (by decide), if_neg (by decide),
      if_neg (by decide), if_pos rfl, ← hlen]
    exact hread
  · intro r hr
    have hpos := runsOf_pos px r hr
    refine ⟨hpos, ?_⟩
    intro rest'
    rw [readPlainRun, List.append_assoc, fmt.readCpixel_cpixel]
    simp [readRunLen_pushRunLen hpos]

theorem decodeTile_paletteRleForm (fmt : PixelFormat) {px colors : List UInt32} {w h : Nat}
    (hlen : px.length = w * h) (h2 : 2 ≤ colors.length) (hfew : colors.length ≤ 127)
    (hall : ∀ c ∈ px, c ∈ colors) (rest : List UInt8) :
    decodeTile fmt w h (paletteRleForm fmt colors (runsOf px) ++ rest) =
      some (px.map unpack, rest) := by
  have hsub : ∀ n : Fin 128, 2 ≤ n.val → 128 + UInt8.ofNat n ≠ 0 ∧ 128 + UInt8.ofNat n ≠ 1 ∧
      ¬(2 ≤ 128 + UInt8.ofNat n ∧ 128 + UInt8.ofNat n ≤ 16) ∧ 128 + UInt8.ofNat n ≠ 128 ∧
      130 ≤ 128 + UInt8.ofNat n ∧ (128 + UInt8.ofNat n).toNat - 128 = n := by decide +kernel
  obtain ⟨h0, h1, h16, h128, h130, hnat⟩ := hsub ⟨colors.length, by omega⟩ h2
  dsimp only at h0 h1 h16 h128 h130 hnat
  have hread := readRuns_flatMap (readPaletteRun (colors.map unpack)) (paletteRun colors)
    (runsOf px) ?_ rest px.length (by rw [expand_runsOf])
  · rw [expand_runsOf] at hread
    rw [paletteRleForm, List.cons_append, List.cons_append, List.append_assoc, decodeTile,
      if_neg h0, if_neg h1, if_neg h16, if_neg h128, if_pos h130, hnat, readN_pushCpixels, ← hlen]
    exact hread
  · intro r hr
    have hpos := runsOf_pos px r hr
    exact ⟨hpos, readPaletteRun_paletteRun hfew (hall _ (mem_of_mem_runsOf hr)) hpos⟩

theorem decodeTile_packedForm (fmt : PixelFormat) {px colors : List UInt32} {w h : Nat}
    (hlen : px.length = w * h) (h2 : 2 ≤ colors.length) (h16 : colors.length ≤ 16)
    (hall : ∀ c ∈ px, c ∈ colors) (rest : List UInt8) :
    decodeTile fmt w h (packedForm fmt colors px w h ++ rest) = some (px.map unpack, rest) := by
  have hsub : ∀ n : Fin 17, 2 ≤ n.val → UInt8.ofNat n ≠ 0 ∧ UInt8.ofNat n ≠ 1 ∧
      (2 ≤ UInt8.ofNat n ∧ UInt8.ofNat n ≤ 16) ∧ (UInt8.ofNat n).toNat = n := by decide +kernel
  obtain ⟨h0, h1, hin, hnat⟩ := hsub ⟨colors.length, by omega⟩ h2
  dsimp only at h0 h1 hin hnat
  have hrows := readN_flatMap (readPackedRow (colors.map unpack) w)
    (fun row => packRow (bits colors.length) (((px.drop (row * w)).take w).map (indexOf colors)))
    (fun row => ((px.drop (row * w)).take w).map unpack) (List.range h) ?_ rest
  · have hflat : ((List.range h).map fun row => ((px.drop (row * w)).take w).map unpack).flatten =
        px.map unpack := by
      have hmap := congrArg (List.map unpack) (flatten_rows px w h)
      rw [List.map_flatten, List.map_map, Nat.mul_comm, ← hlen, List.take_length] at hmap
      exact hmap
    rw [List.length_range] at hrows
    rw [packedForm, List.cons_append, List.cons_append, List.append_assoc, decodeTile,
      if_neg h0, if_neg h1, if_pos hin, hnat, readN_pushCpixels]
    simp only [Option.bind_eq_bind, Option.bind_some, hrows, hflat]
    rfl
  · intro row hrow rest'
    have hrow' : row < h := List.mem_range.mp hrow
    have hend : (row + 1) * w ≤ px.length := by
      rw [hlen, Nat.mul_comm w h]
      exact Nat.mul_le_mul_right _ hrow'
    rw [Nat.succ_mul] at hend
    refine readPackedRow_packRow h2 h16 ?_ ?_ rest'
    · rw [List.length_take, List.length_drop]
      omega
    · intro c hc
      exact hall c (List.mem_of_mem_drop (List.mem_of_mem_take hc))

theorem decodeTile_encodePixels (fmt : PixelFormat) {px : List UInt32} {w h : Nat}
    (hlen : px.length = w * h) (hpos : 0 < w * h) (rest : List UInt8) :
    decodeTile fmt w h (encodePixels fmt px w h ++ rest) = some (px.map unpack, rest) := by
  simp only [encodePixels]
  by_cases hone : (runsOf px).length = 1
  · have hpx := eq_replicate_of_length_runsOf hone
    rw [if_pos hone, List.cons_append, decodeTile, if_neg (by decide), if_pos rfl,
      fmt.readCpixel_cpixel]
    have hmap : px.map unpack = List.replicate (w * h) (unpack (px.headD 0)) := by
      rw [← hlen]
      conv_lhs => rw [hpx, List.map_replicate]
    rw [hmap]
    rfl
  · rw [if_neg hone]
    have hruns : 2 ≤ (runsOf px).length := by
      rcases Nat.eq_zero_or_pos (runsOf px).length with h0 | h0
      · have hnil : px = [] := by
          rw [← expand_runsOf px, List.length_eq_zero_iff.mp h0]
          rfl
        rw [hnil, List.length_nil] at hlen
        omega
      · omega
    obtain ⟨hpacked, hpalette⟩ :=
      bestKind_cases fmt.cpixelLen w h (runsOf px) (build px)
    cases hkind : (bestKind fmt.cpixelLen w h (runsOf px) (build px)).2 with
    | raw => exact decodeTile_rawForm fmt hlen rest
    | plainRle => exact decodeTile_plainRleForm fmt hlen rest
    | packed =>
        obtain ⟨colors, hpal, h16⟩ := hpacked hkind
        obtain ⟨-, hall⟩ := build_spec hpal
        simp only [hpal, Option.getD_some]
        exact decodeTile_packedForm fmt hlen (two_le_length_build hpal hruns) h16 hall rest
    | paletteRle =>
        obtain ⟨colors, hpal⟩ := hpalette hkind
        obtain ⟨hfew, hall⟩ := build_spec hpal
        simp only [hpal, Option.getD_some]
        exact decodeTile_paletteRleForm fmt hlen (two_le_length_build hpal hruns) hfew hall rest

/-- Whatever form was chosen, the tile's pixels are read back. -/
theorem decodeTile_encodeTile (fmt : PixelFormat) {rgb : Grid Px} {x y w h : Nat}
    (hx : x + w ≤ rgb.w) (hy : y + h ≤ rgb.h) (hw : 0 < w) (hh : 0 < h) (rest : List UInt8) :
    decodeTile fmt w h (encodeTile fmt rgb x y w h ++ rest) = some (rgb.cut x y w h, rest) := by
  have hlen : ((rgb.cut x y w h).map packRgb).length = w * h := by
    rw [List.length_map, rgb.length_cut hx hy, Nat.mul_comm]
  have hunpack : ((rgb.cut x y w h).map packRgb).map unpack = rgb.cut x y w h := by
    simp [Function.comp_def]
  rw [encodeTile, decodeTile_encodePixels fmt hlen (Nat.mul_pos hw hh), hunpack]

end Zrle

end Hdmicap

end Paniolo
