import Mathlib.Algebra.GroupWithZero.Nat
import Mathlib.Data.List.DropRight

/-!
# Annex-B and SPS parsing

`splitAnnexB`, `bitReader` and `parseSPS` of `jetkvm/video.go`, with Go's 64-bit integers. Where Go
would index or slice out of range there is no result.
-/

namespace Paniolo

namespace Jetkvm

namespace Sps

/-! ### NAL units -/

/-- `b[lo:hi]`. -/
def slice (b : List UInt8) (lo hi : Nat) : Option (List UInt8) :=
  if lo ≤ hi ∧ hi ≤ b.length then some ((b.take hi).drop lo) else none

def trimZeros (b : List UInt8) : List UInt8 := b.rdropWhile (· == 0)

/-- Close the NAL unit that began at `start`, if one did. -/
def closeUnit (b : List UInt8) (start : Option Nat) (i : Nat) (out : List (List UInt8)) :
    Option (List (List UInt8)) :=
  match start with
  | some s => (slice b s i).map fun n => out ++ [trimZeros n]
  | none => some out

/-- The loop of `splitAnnexB` from the index `i` on. -/
def splitFrom (b : List UInt8) (i : Nat) (start : Option Nat) (out : List (List UInt8)) :
    Option (Option Nat × List (List UInt8)) :=
  if i + 2 < b.length then
    match b[i]?, b[i + 1]?, b[i + 2]? with
    | some x, some y, some z =>
        if x = 0 ∧ y = 0 ∧ z = 1 then
          (closeUnit b start i out).bind fun out => splitFrom b (i + 3) (some (i + 3)) out
        else splitFrom b (i + 1) start out
    | _, _, _ => none
  else some (start, out)
termination_by b.length - i

/-- The NAL units in `b`, without start codes. -/
def splitAnnexB (b : List UInt8) : Option (List (List UInt8)) := do
  let (start, out) ← splitFrom b 0 none []
  let out ← closeUnit b (start.filter (· < b.length)) b.length out
  pure (out.filter (· ≠ []))

/-! ### Bits -/

structure BitReader where
  b : List UInt8
  pos : Nat
  err : Option String

abbrev Read (α : Type) := StateT BitReader Option α

/-- `r.err == nil`. -/
def ok : Read Bool := fun r => some (r.err.isNone, r)

def fail (e : String) : Read Unit := fun r => some ((), { r with err := some e })

def bit : Read UInt64 := fun r =>
  if r.b.length ≤ r.pos / 8 then some (0, { r with err := some "SPS truncated" })
  else
    match r.b[r.pos / 8]? with
    | some x =>
        some (UInt64.ofNat (x.toNat >>> (7 - r.pos % 8) &&& 1), { r with pos := r.pos + 1 })
    | none => none

/-- Read `n` more bits behind `v`. -/
def bitsFrom : Nat → UInt64 → Read UInt64
  | 0, v => pure v
  | n + 1, v => do
      let b ← bit
      bitsFrom n (v <<< 1 ||| b)

def bits (n : Nat) : Read UInt64 := bitsFrom n 0

/-- The loop of `ue` where `left` more zeros may come. -/
def ueFrom (left : Nat) : Read UInt64 := do
  let b ← bit
  let good ← ok
  if b = 0 ∧ good then
    match left with
    | 0 => do
        fail "bad exp-Golomb code"
        pure 0
    | left + 1 => ueFrom left
  else do
    let v ← bits (32 - left)
    pure ((1 <<< UInt64.ofNat (32 - left)) - 1 + v)

def ue : Read UInt64 := ueFrom 32

def se : Read Int64 := do
  let k ← ue
  if k &&& 1 = 1 then pure ((k + 1) / 2).toInt64
  else pure (-(k / 2).toInt64)

/-- Read `n` signed numbers, or up to an error. -/
def skipSe : Nat → Read Unit
  | 0 => pure ()
  | n + 1 => do
      if ← ok then
        let _ ← se
        skipSe n

/-! ### The sequence parameter set -/

/-- The steps of a scaling list of which `n` are left. -/
def scalingFrom : Nat → Int64 → Int64 → Read Unit
  | 0, _, _ => pure ()
  | n + 1, last, next => do
      if ← ok then
        if next ≠ 0 then
          let delta ← se
          let next := (last + delta + 256) % 256
          scalingFrom n (if next ≠ 0 then next else last) next
        else scalingFrom n last next

/-- The scaling lists from the `i`th on, of which `n` are left. -/
def scalingLists : Nat → Nat → Read Unit
  | 0, _ => pure ()
  | n + 1, i => do
      if (← bit) = 1 then scalingFrom (if 6 ≤ i then 64 else 16) 8 8
      scalingLists n (i + 1)

def highProfiles : List UInt64 := [100, 110, 122, 244, 44, 83, 86, 118, 128, 138, 139, 134, 135]

/-- `chroma_format_idc`, with the fields that some profiles have around it. -/
def chromaFormat (profile : UInt64) : Read UInt64 := do
  if profile ∈ highProfiles then
    let chroma ← ue
    if chroma = 3 then
      let _ ← bit
    let _ ← ue
    let _ ← ue
    let _ ← bit
    if (← bit) = 1 then scalingLists (if chroma = 3 then 12 else 8) 0
    pure chroma
  else pure 1

/-- The fields of `pic_order_cnt_type`. -/
def picOrderCnt : Read Unit := do
  let type ← ue
  if type = 0 then
    let _ ← ue
  else if type = 1 then
    let _ ← bit
    let _ ← se
    let _ ← se
    let n ← ue
    skipSe n.toNat

/-- The offsets of the cropping rectangle: left, right, top and bottom. -/
structure Crop where
  l : UInt64
  rt : UInt64
  t : UInt64
  b : UInt64

/-- The fields that the picture size depends on. -/
structure Fields where
  chroma : UInt64
  widthMinus1 : UInt64
  heightMinus1 : UInt64
  frameMbsOnly : UInt64
  crop : Option Crop

def cropping : Read (Option Crop) := do
  if (← bit) = 1 then
    let l ← ue
    let rt ← ue
    let t ← ue
    let b ← ue
    pure (some ⟨l, rt, t, b⟩)
  else pure none

/-- The fields of `parseSPS`, one after the other. -/
def fields : Read Fields := do
  let profile ← bits 8
  let _ ← bits 8
  let _ ← bits 8
  let _ ← ue
  let chroma ← chromaFormat profile
  let _ ← ue
  picOrderCnt
  let _ ← ue
  let _ ← bit
  let mbW ← ue
  let mapH ← ue
  let frameMbsOnly ← bit
  if frameMbsOnly = 0 then
    let _ ← bit
  let _ ← bit
  let crop ← cropping
  pure ⟨chroma, mbW, mapH, frameMbsOnly, crop⟩

namespace Fields

/-- What one step of a horizontal and of a vertical offset cuts off. -/
def cropUnits (f : Fields) : Int64 × Int64 :=
  let frame := 2 - f.frameMbsOnly.toInt64
  if f.chroma ≠ 0 then
    let sub : Int64 × Int64 :=
      if f.chroma = 3 then (1, 1) else if f.chroma = 2 then (2, 1) else (2, 2)
    (sub.1, sub.2 * frame)
  else (1, frame)

/-- The cropped picture size. -/
def size (f : Fields) : Int64 × Int64 :=
  let mbW := f.widthMinus1.toInt64 + 1
  let mapH := f.heightMinus1.toInt64 + 1
  let w := mbW * 16
  let h := (2 - f.frameMbsOnly.toInt64) * mapH * 16
  match f.crop with
  | none => (w, h)
  | some c => (w - (c.l.toInt64 + c.rt.toInt64) * f.cropUnits.1,
      h - (c.t.toInt64 + c.b.toInt64) * f.cropUnits.2)

end Fields

/-- Remove the emulation-prevention bytes behind `zeros` zero bytes. -/
def removeEmulation : Nat → List UInt8 → List UInt8
  | _, [] => []
  | zeros, c :: nal =>
      if 2 ≤ zeros ∧ c = 3 then removeEmulation 0 nal
      else c :: removeEmulation (if c = 0 then zeros + 1 else 0) nal

/-- The fields of an SPS NAL unit, header byte included, or an error. -/
def parseFields (nal : List UInt8) : Option (Except String Fields) :=
  if nal.length < 4 then some (.error "not an SPS")
  else
    nal[0]?.bind fun header =>
      if header &&& 0x1f ≠ 7 then some (.error "not an SPS")
      else
        (fields ⟨removeEmulation 0 (nal.drop 1), 0, none⟩).map fun r =>
          match r.2.err with
          | some e => .error e
          | none => .ok r.1

/-- The last check of `parseSPS`. -/
def checkSize (w h : Int64) : Except String (Int64 × Int64) :=
  if w ≤ 0 ∨ h ≤ 0 then .error s!"implausible picture size {w}x{h}" else .ok (w, h)

/-- The cropped picture size of an SPS NAL unit, header byte included. -/
def parseSPS (nal : List UInt8) : Option (Except String (Int64 × Int64)) :=
  (parseFields nal).map fun r => r.bind fun f => checkSize f.size.1 f.size.2

/-! ### Every read comes to a result -/

/-- From every reader, `m` has a result, and `P` holds of it. -/
def Ensures {α : Type} (m : Read α) (P : α → Prop) : Prop :=
  ∀ r, ∃ a r', m r = some (a, r') ∧ P a

section Ensures

variable {α β : Type} {P : α → Prop} {Q : β → Prop}

theorem ensures_pure {a : α} (h : P a) : Ensures (pure a) P := fun r => ⟨a, r, rfl, h⟩

theorem Ensures.bind {m : Read α} {f : α → Read β} (hm : Ensures m P)
    (hf : ∀ a, P a → Ensures (f a) Q) : Ensures (m >>= f) Q := by
  intro r
  obtain ⟨a, r₁, hr₁, ha⟩ := hm r
  obtain ⟨b, r₂, hr₂, hb⟩ := hf a ha r₁
  refine ⟨b, r₂, ?_, hb⟩
  change ((m r).bind fun p => f p.1 p.2) = _
  rw [hr₁]
  exact hr₂

theorem Ensures.mono {m : Read α} {P' : α → Prop} (hm : Ensures m P) (h : ∀ a, P a → P' a) :
    Ensures m P' := by
  intro r
  obtain ⟨a, r', hr, ha⟩ := hm r
  exact ⟨a, r', hr, h a ha⟩

theorem ensures_ite {c : Prop} [Decidable c] {m m' : Read α} (h : c → Ensures m P)
    (h' : ¬c → Ensures m' P) : Ensures (if c then m else m') P := by
  split
  · next hc => exact h hc
  · next hc => exact h' hc

end Ensures

theorem ensures_ok : Ensures ok fun _ => True := fun r => ⟨_, r, rfl, trivial⟩

theorem ensures_bit : Ensures bit fun v => v.toNat ≤ 1 := by
  intro r
  rw [bit]
  split
  · exact ⟨_, _, rfl, Nat.zero_le 1⟩
  · next hpos =>
      have hget := List.getElem?_eq_getElem (Nat.lt_of_not_le hpos)
      rw [hget]
      refine ⟨_, _, rfl, ?_⟩
      have hone : (r.b[r.pos / 8].toNat >>> (7 - r.pos % 8) &&& 1) ≤ 1 := Nat.and_le_right
      change (UInt64.ofNat _).toNat ≤ 1
      rw [UInt64.toNat_ofNat', Nat.mod_eq_of_lt (by omega)]
      exact hone

/-- A bit goes behind a number that has room for it. -/
theorem toNat_shift_or {v b : UInt64} (hb : b.toNat ≤ 1) (hv : v.toNat < 2 ^ 63) :
    (v <<< 1 ||| b).toNat = 2 * v.toNat + b.toNat := by
  rw [UInt64.toNat_or, UInt64.toNat_shiftLeft]
  have hshift : v.toNat <<< ((1 : UInt64).toNat % 64) % 2 ^ 64 = 2 ^ 1 * v.toNat := by
    rw [show (1 : UInt64).toNat % 64 = 1 from rfl, Nat.shiftLeft_eq, Nat.mul_comm,
      Nat.mod_eq_of_lt (by omega)]
  rw [hshift, ← Nat.two_pow_add_eq_or_of_lt (by omega)]

theorem ensures_bitsFrom (n : Nat) {v : UInt64} (h : 2 ^ n * (v.toNat + 1) ≤ 2 ^ 64) :
    Ensures (bitsFrom n v) fun x => x.toNat < 2 ^ n * (v.toNat + 1) := by
  induction n generalizing v with
  | zero =>
      refine ensures_pure ?_
      omega
  | succ n ih =>
      refine ensures_bit.bind fun b hb => ?_
      have hpos : 0 < 2 ^ n := Nat.two_pow_pos n
      have hroom : 2 * (v.toNat + 1) ≤ 2 ^ 64 := by
        rw [Nat.pow_succ, Nat.mul_assoc] at h
        exact (Nat.le_mul_of_pos_left _ hpos).trans h
      have hvalue := toNat_shift_or hb (by omega : v.toNat < 2 ^ 63)
      have hle : 2 ^ n * ((v <<< 1 ||| b).toNat + 1) ≤ 2 ^ (n + 1) * (v.toNat + 1) := by
        rw [hvalue, Nat.pow_succ, Nat.mul_assoc]
        exact Nat.mul_le_mul_left _ (by omega)
      exact (ih (hle.trans h)).mono fun x hx => hx.trans_le hle

theorem ensures_bits {n : Nat} (hn : n ≤ 64) : Ensures (bits n) fun x => x.toNat < 2 ^ n := by
  refine (ensures_bitsFrom n ?_).mono fun x hx => ?_
  · rw [UInt64.toNat_zero, Nat.zero_add, Nat.mul_one]
    exact Nat.pow_le_pow_right (by decide) hn
  · rwa [UInt64.toNat_zero, Nat.zero_add, Nat.mul_one] at hx

/-- The largest number that an Exp-Golomb code of at most 32 zeros has. -/
def maxCode : Nat := 2 ^ 33 - 2

/-- The value of a code with `n` zeros, and `v` behind its first one. -/
theorem toNat_code {n : Nat} (hn : n ≤ 32) {v : UInt64} (hv : v.toNat < 2 ^ n) :
    ((1 <<< UInt64.ofNat n) - 1 + v).toNat = 2 ^ n - 1 + v.toNat := by
  have hpow : 2 ^ n ≤ 2 ^ 32 := Nat.pow_le_pow_right (by decide) hn
  have hpos : 0 < 2 ^ n := Nat.two_pow_pos n
  have hshift : ((1 : UInt64) <<< UInt64.ofNat n).toNat = 2 ^ n := by
    rw [UInt64.toNat_shiftLeft, UInt64.toNat_ofNat', Nat.mod_eq_of_lt (by omega : n < 2 ^ 64),
      Nat.mod_eq_of_lt (by omega : n < 64), UInt64.toNat_one, Nat.one_shiftLeft,
      Nat.mod_eq_of_lt (by omega)]
  have hsub : ((1 : UInt64) <<< UInt64.ofNat n - 1).toNat = 2 ^ n - 1 := by
    rw [UInt64.toNat_sub_of_le _ _ (UInt64.le_iff_toNat_le.mpr ?_), hshift]
    · rfl
    · rw [hshift]
      exact hpos
  rw [UInt64.toNat_add, hsub, Nat.mod_eq_of_lt (by omega)]

theorem ensures_ueFrom {left : Nat} (hleft : left ≤ 32) :
    Ensures (ueFrom left) fun x => x.toNat ≤ maxCode := by
  have hcode : ∀ left, Ensures (bits (32 - left) >>= fun v =>
      pure ((1 <<< UInt64.ofNat (32 - left)) - 1 + v)) fun x => x.toNat ≤ maxCode := by
    intro left
    have hpow : 2 ^ (32 - left) ≤ 2 ^ 32 := Nat.pow_le_pow_right (by decide) (by omega)
    refine (ensures_bits (by omega)).bind fun v hv => ensures_pure ?_
    rw [toNat_code (by omega) hv, maxCode]
    omega
  induction left with
  | zero =>
      rw [ueFrom]
      refine ensures_bit.bind fun b _ => ensures_ok.bind fun good _ => ensures_ite (fun _ => ?_)
        fun _ => hcode 0
      exact fun r => ⟨0, _, rfl, Nat.zero_le _⟩
  | succ left ih =>
      rw [ueFrom]
      exact ensures_bit.bind fun b _ => ensures_ok.bind fun good _ =>
        ensures_ite (fun _ => ih (by omega)) fun _ => hcode (left + 1)

theorem ensures_ue : Ensures ue fun x => x.toNat ≤ maxCode := ensures_ueFrom (Nat.le_refl 32)

theorem ensures_se : Ensures se fun _ => True :=
  ensures_ue.bind fun _ _ => ensures_ite (fun _ => ensures_pure trivial) fun _ => ensures_pure trivial

theorem ensures_skipSe (n : Nat) : Ensures (skipSe n) fun _ => True := by
  induction n with
  | zero => exact ensures_pure trivial
  | succ n ih =>
      exact ensures_ok.bind fun good _ =>
        ensures_ite (fun _ => ensures_se.bind fun _ _ => ih) fun _ => ensures_pure trivial

theorem ensures_scalingFrom (n : Nat) (last next : Int64) :
    Ensures (scalingFrom n last next) fun _ => True := by
  induction n generalizing last next with
  | zero => exact ensures_pure trivial
  | succ n ih =>
      refine ensures_ok.bind fun good _ => ensures_ite (fun _ => ?_) fun _ => ensures_pure trivial
      exact ensures_ite (fun _ => ensures_se.bind fun delta _ => ih _ _) fun _ => ih last next

theorem ensures_scalingLists (n i : Nat) : Ensures (scalingLists n i) fun _ => True := by
  induction n generalizing i with
  | zero => exact ensures_pure trivial
  | succ n ih =>
      exact ensures_bit.bind fun b _ => ensures_ite
        (fun _ => (ensures_scalingFrom _ 8 8).bind fun _ _ => ih (i + 1)) fun _ => ih (i + 1)

theorem ensures_chromaFormat (profile : UInt64) : Ensures (chromaFormat profile) fun _ => True := by
  refine ensures_ite (fun _ => ensures_ue.bind fun chroma _ => ?_) fun _ => ensures_pure trivial
  have hlists : ∀ n, Ensures (do
      let _ ← ue
      let _ ← ue
      let _ ← bit
      if (← bit) = 1 then scalingLists n 0
      pure chroma) fun _ => True := fun n =>
    ensures_ue.bind fun _ _ => ensures_ue.bind fun _ _ => ensures_bit.bind fun _ _ =>
      ensures_bit.bind fun _ _ => ensures_ite
        (fun _ => (ensures_scalingLists n 0).bind fun _ _ => ensures_pure trivial)
        fun _ => ensures_pure trivial
  exact ensures_ite (fun _ => ensures_bit.bind fun _ _ => hlists _) fun _ => hlists _

theorem ensures_picOrderCnt : Ensures picOrderCnt fun _ => True := by
  refine ensures_ue.bind fun type _ => ensures_ite
    (fun _ => ensures_ue.bind fun _ _ => ensures_pure trivial) fun _ => ensures_ite (fun _ => ?_)
      fun _ => ensures_pure trivial
  exact ensures_bit.bind fun _ _ => ensures_se.bind fun _ _ => ensures_se.bind fun _ _ =>
    ensures_ue.bind fun n _ => ensures_skipSe _

/-- The offsets are numbers that Exp-Golomb codes have. -/
structure Crop.Coded (c : Crop) : Prop where
  l : c.l.toNat ≤ maxCode
  rt : c.rt.toNat ≤ maxCode
  t : c.t.toNat ≤ maxCode
  b : c.b.toNat ≤ maxCode

/-- The fields are numbers that their codes have. -/
structure Fields.Coded (f : Fields) : Prop where
  widthMinus1 : f.widthMinus1.toNat ≤ maxCode
  heightMinus1 : f.heightMinus1.toNat ≤ maxCode
  frameMbsOnly : f.frameMbsOnly.toNat ≤ 1
  crop : ∀ c ∈ f.crop, c.Coded

theorem ensures_cropping : Ensures cropping fun crop => ∀ c ∈ crop, c.Coded := by
  refine ensures_bit.bind fun b _ => ensures_ite (fun _ => ?_) fun _ => ensures_pure nofun
  refine ensures_ue.bind fun l hl => ensures_ue.bind fun rt hrt => ensures_ue.bind fun t ht =>
    ensures_ue.bind fun b hb => ensures_pure ?_
  rintro c ⟨⟩
  exact ⟨hl, hrt, ht, hb⟩

theorem ensures_fields : Ensures fields Fields.Coded := by
  have hrest : ∀ {chroma mbW mapH frameMbsOnly : UInt64}, mbW.toNat ≤ maxCode →
      mapH.toNat ≤ maxCode → frameMbsOnly.toNat ≤ 1 → Ensures (do
        let _ ← bit
        let crop ← cropping
        pure (Fields.mk chroma mbW mapH frameMbsOnly crop)) Fields.Coded :=
    fun hw hh hf => ensures_bit.bind fun _ _ => ensures_cropping.bind fun crop hcrop =>
      ensures_pure ⟨hw, hh, hf, hcrop⟩
  have hbyte : Ensures (bits 8) fun _ => True := (ensures_bits (by decide)).mono fun _ _ => trivial
  refine hbyte.bind fun profile _ => hbyte.bind fun _ _ => hbyte.bind fun _ _ =>
    ensures_ue.bind fun _ _ => (ensures_chromaFormat profile).bind fun chroma _ =>
    ensures_ue.bind fun _ _ => ensures_picOrderCnt.bind fun _ _ => ensures_ue.bind fun _ _ =>
    ensures_bit.bind fun _ _ => ensures_ue.bind fun mbW hw => ensures_ue.bind fun mapH hh =>
    ensures_bit.bind fun frameMbsOnly hf => ?_
  exact ensures_ite (fun _ => ensures_bit.bind fun _ _ => hrest hw hh hf) fun _ => hrest hw hh hf

/-- Every byte string has a result: its fields, which are such as their codes have, or an error. -/
theorem parseFields_isSome (nal : List UInt8) :
    ∃ r, parseFields nal = some r ∧ ∀ f, r = .ok f → f.Coded := by
  rw [parseFields]
  split
  · exact ⟨_, rfl, nofun⟩
  · next hlen =>
      rw [List.getElem?_eq_getElem (by omega : 0 < nal.length), Option.bind_some]
      split
      · exact ⟨_, rfl, nofun⟩
      · obtain ⟨f, r, hr, hf⟩ := ensures_fields ⟨removeEmulation 0 (nal.drop 1), 0, none⟩
        rw [hr]
        refine ⟨_, rfl, fun g hg => ?_⟩
        dsimp only at hg
        split at hg
        · cases hg
        · cases hg
          exact hf

theorem closeUnit_isSome {b : List UInt8} {start : Option Nat} {i : Nat} (hi : i ≤ b.length)
    (hstart : ∀ s ∈ start, s ≤ i) (out : List (List UInt8)) :
    ∃ out', closeUnit b start i out = some out' := by
  cases start with
  | none => exact ⟨out, rfl⟩
  | some s =>
      rw [closeUnit, slice, if_pos ⟨hstart s rfl, hi⟩]
      exact ⟨_, rfl⟩

/-- The slices of `splitAnnexB` stay in range: a unit starts behind the start code found last. -/
theorem splitFrom_isSome (b : List UInt8) (i : Nat) (start : Option Nat) (out : List (List UInt8))
    (hstart : ∀ s ∈ start, s ≤ i) : ∃ r, splitFrom b i start out = some r := by
  induction h : b.length - i using Nat.strong_induction_on generalizing i start out with
  | _ n ih =>
      rw [splitFrom]
      split
      · next hi =>
          rw [List.getElem?_eq_getElem (by omega : i < b.length),
            List.getElem?_eq_getElem (by omega : i + 1 < b.length), List.getElem?_eq_getElem hi]
          dsimp only
          split
          · obtain ⟨out', hout⟩ := closeUnit_isSome (by omega : i ≤ b.length) hstart out
            rw [hout, Option.bind_some]
            exact ih _ (by omega) (i + 3) (some (i + 3)) out' (by rintro s ⟨⟩; rfl) rfl
          · exact ih _ (by omega) (i + 1) start out
              (fun s hs => (hstart s hs).trans (Nat.le_succ i)) rfl
      · exact ⟨_, rfl⟩

theorem splitAnnexB_isSome (b : List UInt8) : ∃ nals, splitAnnexB b = some nals := by
  obtain ⟨r, hr⟩ := splitFrom_isSome b 0 none [] nofun
  have hstart : ∀ s ∈ r.1.filter (· < b.length), s ≤ b.length := by
    intro s hs
    exact Nat.le_of_lt (of_decide_eq_true (Option.mem_filter_iff.mp hs).2)
  obtain ⟨out, hout⟩ := closeUnit_isSome (Nat.le_refl b.length) hstart r.2
  refine ⟨out.filter (· ≠ []), ?_⟩
  rw [splitAnnexB, hr]
  change (closeUnit b (r.1.filter (· < b.length)) b.length r.2).bind _ = _
  rw [hout]
  rfl

theorem parseSPS_isSome (nal : List UInt8) : ∃ r, parseSPS nal = some r := by
  obtain ⟨r, hr, -⟩ := parseFields_isSome nal
  rw [parseSPS, hr]
  exact ⟨_, rfl⟩

end Sps

end Jetkvm

end Paniolo
