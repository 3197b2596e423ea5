import Paniolo.Hdmicap.RfbServe.Messages
import Paniolo.Hdmicap.Zrle.Rect

/-!
# Framebuffer updates

`Work.update` answers one request: it tells the client of a new size, diffs the
frame against what the client holds, encodes the regions and commits them. The
spec of this module separates what is sent (`Sent`: the regions, each with its
bytes) from what is remembered, so that a client can be set against the first
and the invariant against the second.
-/

namespace Paniolo

namespace Hdmicap

namespace RfbServe

open Zrle (Zlib)

/-- What the encode step needs: the client's framebuffer and its zlib stream. -/
structure Work (z : Zlib) where
  cfb : ClientFb
  zrle : z.Enc

structure UpdateOut where
  /-- The whole FramebufferUpdate message, when there is anything to send. -/
  msg : Option (List UInt8)
  /-- The request covered the entire framebuffer. -/
  coversAll : Bool
  /-- The frame changed size and the client cannot be told. -/
  noDesktopSize : Bool

def pushRectHead (r : Rect) (enc : Int) : List UInt8 :=
  be16 r.x ++ be16 r.y ++ be16 r.w ++ be16 r.h ++ beI32 enc

def rawBody (fmt : PixelFormat) (fb : Rgb) (r : Rect) : List UInt8 :=
  (List.range' r.y r.h).flatMap fun row => (fb.row r.x row r.w).flatMap fmt.wire

section

variable {z : Zlib}

/-- Head and payload of one region. -/
def encodeRegion (fmt : PixelFormat) (useZrle : Bool) (fb : Rgb) (e : z.Enc) (r : Rect) :
    Option (z.Enc × List UInt8) :=
  if useZrle then do
    let (e, bytes) ← z.deflate e (Zrle.encodeRect fmt fb r.x r.y r.w r.h)
    pure (e, pushRectHead r ENC_ZRLE ++ be32 bytes.length ++ bytes)
  else
    some (e, pushRectHead r ENC_RAW ++ rawBody fmt fb r)

/-- The loop over the regions: encode, commit, count. The counter is a `u16`. -/
def sendRegions (fmt : PixelFormat) (useZrle : Bool) (fb : Rgb) :
    List Rect → Work z → List UInt8 → UInt16 → Option (Work z × List UInt8 × UInt16)
  | [], wk, body, rects => some (wk, body, rects)
  | r :: rs, wk, body, rects => do
      let (e, bytes) ← encodeRegion fmt useZrle fb wk.zrle r
      sendRegions fmt useZrle fb rs ⟨wk.cfb.commit fb r, e⟩ (body ++ bytes) (rects + 1)

namespace Work

def resized (wk : Work z) (fb : Rgb) : Bool :=
  fb.w ≠ wk.cfb.sent.w || fb.h ≠ wk.cfb.sent.h

/-- The framebuffer the update works on: a new one after a resize. -/
def cfbFor (wk : Work z) (fb : Rgb) : ClientFb :=
  if wk.resized fb then ClientFb.new fb.w fb.h else wk.cfb

/-- The request the update answers: after a resize the whole frame. -/
def reqFor (wk : Work z) (fb : Rgb) (req : Req) : Req :=
  if wk.resized fb then ⟨false, 0, 0, fb.w, fb.h⟩ else req

/-- The DesktopSize rectangle of a resize, and how many rectangles that is. -/
def sizeRect (wk : Work z) (fb : Rgb) : List UInt8 :=
  if wk.resized fb then pushRectHead ⟨0, 0, fb.w, fb.h⟩ ENC_DESKTOP_SIZE else []

def sizeCount (wk : Work z) (fb : Rgb) : Nat :=
  if wk.resized fb then 1 else 0

def regions (wk : Work z) (fb : Rgb) (req : Req) : List Rect :=
  let req := wk.reqFor fb req
  let cfb := wk.cfbFor fb
  cfb.dirtyRegions fb (cfb.clip req) (!req.incremental)

def update (wk : Work z) (fb : Rgb) (req : Req) (fmt : PixelFormat) (useZrle desktopOk : Bool) :
    Option (Work z × UpdateOut) :=
  if wk.resized fb && !desktopOk then some (wk, ⟨none, false, true⟩)
  else do
    let clip := (wk.cfbFor fb).clip (wk.reqFor fb req)
    let coversAll := clip.w = fb.w && clip.h = fb.h
    let (wk', body, rects) ←
      sendRegions fmt useZrle fb (wk.regions fb req) ⟨wk.cfbFor fb, wk.zrle⟩ (wk.sizeRect fb)
        (UInt16.ofNat (wk.sizeCount fb))
    let msg := if rects > 0 then some ([0, 0] ++ be16 rects.toNat ++ body) else none
    pure (wk', ⟨msg, coversAll, false⟩)

end Work

/-! ### What an update remembers -/

/-- The regions in the order they are committed. -/
def commitAll (c : ClientFb) (fb : Rgb) (rs : List Rect) : ClientFb :=
  rs.foldl (fun c r => c.commit fb r) c

/-- Some region of the list holds the pixel. -/
def Covered (rs : List Rect) (a b : Nat) : Prop := ∃ r ∈ rs, r.Has a b

instance (rs : List Rect) (a b : Nat) : Decidable (Covered rs a b) :=
  inferInstanceAs (Decidable (∃ r ∈ rs, r.Has a b))

/-- Regions that are not empty and lie in a frame of this size. -/
def Inside (w h : Nat) (rs : List Rect) : Prop :=
  ∀ r ∈ rs, 0 < r.w ∧ 0 < r.h ∧ r.x + r.w ≤ w ∧ r.y + r.h ≤ h

/-- What the first region draws stays or is drawn again by the others. -/
theorem ite_covered_cons {α : Type*} (r : Rect) (rs : List Rect) (a b : Nat) (drawn old : α) :
    (if Covered rs a b then drawn else if r.Has a b then drawn else old) =
      if Covered (r :: rs) a b then drawn else old := by
  by_cases hr : r.Has a b
  · have hcons : Covered (r :: rs) a b := ⟨r, by simp, hr⟩
    rw [if_pos hr, if_pos hcons, ite_self]
  · have hiff : Covered (r :: rs) a b ↔ Covered rs a b := by
      simp only [Covered, List.mem_cons, exists_eq_or_imp, or_iff_right hr]
    simp only [if_neg hr, hiff]

/-- Regions copied one after the other from a frame of the same size. -/
theorem foldl_copyFrom (fb : Rgb) (rs : List Rect) :
    ∀ g : Rgb, g.w = fb.w → g.h = fb.h → Inside fb.w fb.h rs →
      (rs.foldl (fun g r => g.copyFrom fb r.x r.y r.w r.h) g).w = fb.w ∧
      (rs.foldl (fun g r => g.copyFrom fb r.x r.y r.w r.h) g).h = fb.h ∧
      ∀ a b, (rs.foldl (fun g r => g.copyFrom fb r.x r.y r.w r.h) g).cell a b =
        if Covered rs a b then fb.cell a b else g.cell a b := by
  induction rs with
  | nil =>
      intro g hw hh _
      exact ⟨hw, hh, by simp [Covered]⟩
  | cons r rs ih =>
      intro g hw hh hin
      obtain ⟨-, -, hx, hy⟩ := hin r (by simp)
      obtain ⟨hw', hh', hcell⟩ := ih (g.copyFrom fb r.x r.y r.w r.h) (by simpa using hw)
        (by simpa using hh) fun q hq => hin q (by simp [hq])
      refine ⟨hw', hh', ?_⟩
      intro a b
      have hcopy : (g.copyFrom fb r.x r.y r.w r.h).cell a b =
          if r.Has a b then fb.cell a b else g.cell a b :=
        Grid.cell_copyFrom g fb hw.symm hh.symm (by omega) (by omega) a b
      rw [List.foldl_cons, hcell, hcopy, ite_covered_cons]

theorem commitAll_dims (c : ClientFb) (fb : Rgb) (rs : List Rect) :
    (commitAll c fb rs).sent.w = c.sent.w ∧ (commitAll c fb rs).sent.h = c.sent.h := by
  induction rs generalizing c with
  | nil => exact ⟨rfl, rfl⟩
  | cons r rs ih =>
      obtain ⟨hw, hh⟩ := ih (c.commit fb r)
      exact ⟨hw.trans (by simp), hh.trans (by simp)⟩

theorem sent_commitAll {c : ClientFb} {fb : Rgb} {rs : List Rect} (hw : fb.w = c.sent.w)
    (hh : fb.h = c.sent.h) (hin : Inside c.sent.w c.sent.h rs) (a b : Nat) :
    (commitAll c fb rs).sent.cell a b =
      if Covered rs a b then fb.cell a b else c.sent.cell a b := by
  induction rs generalizing c with
  | nil => simp [commitAll, Covered]
  | cons r rs ih =>
      obtain ⟨-, -, hx, hy⟩ := hin r (by simp)
      have hrest := ih (c := c.commit fb r) (by simpa using hw) (by simpa using hh)
        (fun q hq => by simpa using hin q (by simp [hq]))
      have hone := ClientFb.sent_commit (r := r) hw hh hx hy a b
      rw [commitAll, List.foldl_cons]
      change (commitAll (c.commit fb r) fb rs).sent.cell a b = _
      rw [hrest, hone, ite_covered_cons]

theorem isKnown_commitAll {c : ClientFb} {fb : Rgb} {rs : List Rect}
    (hin : Inside c.sent.w c.sent.h rs) {tx ty : Nat}
    (h : (commitAll c fb rs).isKnown tx ty = true) :
    c.isKnown tx ty = true ∨ ∃ r ∈ rs, c.TileIn r tx ty := by
  induction rs generalizing c with
  | nil => exact Or.inl h
  | cons r rs ih =>
      obtain ⟨hrw, hrh, hx, hy⟩ := hin r (by simp)
      rcases ih (c := c.commit fb r) (fun q hq => by simpa using hin q (by simp [hq])) h with
        hknown | ⟨q, hq, htile⟩
      · rcases ClientFb.isKnown_commit hrw hrh hx hy hknown with hold | htile
        · exact Or.inl hold
        · exact Or.inr ⟨r, by simp, htile⟩
      · refine Or.inr ⟨q, by simp [hq], ?_⟩
        simpa [ClientFb.TileIn] using htile

/-- A picture of the screen agrees with the pixels sent, on every tile marked known. -/
def Agrees (c : ClientFb) (pic : Nat → Nat → Option Px) : Prop :=
  ∀ a b, a < c.sent.w → b < c.sent.h → c.isKnown (a / TILE) (b / TILE) = true →
    pic a b = c.sent.cell a b

theorem agrees_new (w h : Nat) (pic : Nat → Nat → Option Px) : Agrees (ClientFb.new w h) pic := by
  intro a b _ _ hknown
  rw [ClientFb.isKnown_new] at hknown
  cases hknown

/-- A picture that takes over the regions stays in agreement. -/
theorem agrees_commitAll {c : ClientFb} {fb : Rgb} {rs : List Rect}
    {pic pic' : Nat → Nat → Option Px} (hw : fb.w = c.sent.w) (hh : fb.h = c.sent.h)
    (hin : Inside c.sent.w c.sent.h rs) (hagree : Agrees c pic)
    (hpic : ∀ a b, pic' a b = if Covered rs a b then fb.cell a b else pic a b) :
    Agrees (commitAll c fb rs) pic' := by
  intro a b ha hb hknown
  obtain ⟨hdw, hdh⟩ := commitAll_dims c fb rs
  rw [hpic, sent_commitAll hw hh hin]
  by_cases hcov : Covered rs a b
  · rw [if_pos hcov, if_pos hcov]
  · rw [if_neg hcov, if_neg hcov]
    rcases isKnown_commitAll hin hknown with hold | ⟨r, hr, htile⟩
    · exact hagree a b (by omega) (by omega) hold
    · exact absurd ⟨r, hr, htile a b rfl rfl (by omega) (by omega)⟩ hcov

namespace Work

variable (wk : Work z) (fb : Rgb) (req : Req)

theorem cfbFor_dims : (wk.cfbFor fb).sent.w = fb.w ∧ (wk.cfbFor fb).sent.h = fb.h := by
  rw [cfbFor]
  by_cases h : wk.resized fb = true
  · rw [if_pos h]
    exact ⟨rfl, rfl⟩
  · rw [if_neg h]
    simp only [resized, ne_eq, Bool.or_eq_true, decide_eq_true_eq, not_or, not_not] at h
    exact ⟨h.1.symm, h.2.symm⟩

theorem inside_regions : Inside fb.w fb.h (wk.regions fb req) := by
  obtain ⟨hw, hh⟩ := wk.cfbFor_dims fb
  obtain ⟨hcw, hch⟩ := (wk.cfbFor fb).clip_le (wk.reqFor fb req)
  obtain ⟨hwithin, -, -⟩ := (wk.cfbFor fb).dirtyRegions_spec fb
    ((wk.cfbFor fb).clip (wk.reqFor fb req)) (!(wk.reqFor fb req).incremental)
  intro r hr
  have := hwithin r hr
  omega

theorem height_regions : ∀ r ∈ wk.regions fb req, r.h ≤ TILE := by
  obtain ⟨hwithin, -, -⟩ := (wk.cfbFor fb).dirtyRegions_spec fb
    ((wk.cfbFor fb).clip (wk.reqFor fb req)) (!(wk.reqFor fb req).incremental)
  intro r hr
  exact (hwithin r hr).2.2.1

theorem clip_subset {a b : Nat} (h : ((wk.cfbFor fb).clip req).Has a b) :
    ((wk.cfbFor fb).clip (wk.reqFor fb req)).Has a b := by
  obtain ⟨hw, hh⟩ := wk.cfbFor_dims fb
  rw [ClientFb.has_clip] at h ⊢
  rw [reqFor]
  split
  · dsimp only
    omega
  · exact h

/-- Where the request reaches and nothing is sent, the frame shows what is known already. -/
theorem eq_sent_of_not_covered {a b : Nat}
    (hclip : ((wk.cfbFor fb).clip (wk.reqFor fb req)).Has a b)
    (hcov : ¬Covered (wk.regions fb req) a b) :
    (wk.cfbFor fb).isKnown (a / TILE) (b / TILE) = true ∧
      fb.cell a b = (wk.cfbFor fb).sent.cell a b := by
  obtain ⟨hw, hh⟩ := wk.cfbFor_dims fb
  obtain ⟨hcw, hch⟩ := (wk.cfbFor fb).clip_le (wk.reqFor fb req)
  obtain ⟨-, hreach, -⟩ := (wk.cfbFor fb).dirtyRegions_spec fb
    ((wk.cfbFor fb).clip (wk.reqFor fb req)) (!(wk.reqFor fb req).incremental)
  cases hd : (wk.cfbFor fb).tileDirty fb ((wk.cfbFor fb).clip (wk.reqFor fb req))
      (!(wk.reqFor fb req).incremental) (a / TILE) (b / TILE) with
  | true => exact absurd (hreach a b hclip hd) hcov
  | false => exact (ClientFb.eq_of_not_tileDirty hw.symm hh.symm hcw hch hclip hd).2

/-- A picture that takes over the regions shows the frame wherever the request reaches. -/
theorem shows_clip {pic pic' : Nat → Nat → Option Px} (hagree : Agrees (wk.cfbFor fb) pic)
    (hpic : ∀ a b, pic' a b = if Covered (wk.regions fb req) a b then fb.cell a b else pic a b)
    {a b : Nat} (hclip : ((wk.cfbFor fb).clip (wk.reqFor fb req)).Has a b) :
    pic' a b = fb.cell a b := by
  obtain ⟨hcw, hch⟩ := (wk.cfbFor fb).clip_le (wk.reqFor fb req)
  rw [hpic]
  by_cases hcov : Covered (wk.regions fb req) a b
  · rw [if_pos hcov]
  · obtain ⟨hknown, heq⟩ := wk.eq_sent_of_not_covered fb req hclip hcov
    have hin := hclip
    simp only [Rect.Has] at hin
    rw [if_neg hcov, heq]
    exact hagree a b (by omega) (by omega) hknown

/-- There are no more regions than tiles. -/
theorem length_regions_le :
    (wk.regions fb req).length ≤ divCeil fb.w TILE * divCeil fb.h TILE := by
  obtain ⟨hw, hh⟩ := wk.cfbFor_dims fb
  obtain ⟨hcw, hch⟩ := (wk.cfbFor fb).clip_le (wk.reqFor fb req)
  obtain ⟨-, -, hcount⟩ := (wk.cfbFor fb).dirtyRegions_spec fb
    ((wk.cfbFor fb).clip (wk.reqFor fb req)) (!(wk.reqFor fb req).incremental)
  by_cases hempty : ((wk.cfbFor fb).clip (wk.reqFor fb req)).w = 0 ∨
      ((wk.cfbFor fb).clip (wk.reqFor fb req)).h = 0
  · simp only [regions, ClientFb.dirtyRegions, if_pos hempty, List.length_nil]
    exact Nat.zero_le _
  · refine Nat.le_trans hcount (Nat.mul_le_mul ?_ ?_)
    · simp only [divCeil, TILE]
      omega
    · simp only [divCeil, TILE]
      omega

end Work

theorem sendRegions_cfb {fmt : PixelFormat} {useZrle : Bool} {fb : Rgb} (rs : List Rect) :
    ∀ {wk wk' : Work z} {body body' : List UInt8} {rects rects' : UInt16},
      sendRegions fmt useZrle fb rs wk body rects = some (wk', body', rects') →
      wk'.cfb = commitAll wk.cfb fb rs ∧ rects' = rects + UInt16.ofNat rs.length := by
  induction rs with
  | nil =>
      intro wk wk' body body' rects rects' h
      cases h
      exact ⟨rfl, by simp⟩
  | cons r rs ih =>
      intro wk wk' body body' rects rects' h
      rw [sendRegions, Option.bind_eq_bind, Option.bind_eq_some_iff] at h
      obtain ⟨⟨e, bytes⟩, -, h⟩ := h
      obtain ⟨hcfb, hrects⟩ := ih h
      refine ⟨hcfb, ?_⟩
      rw [hrects, List.length_cons]
      simp [UInt16.add_assoc, UInt16.add_comm]

/-- The framebuffer after an update that the client could follow. -/
theorem Work.update_cfb {wk wk' : Work z} {fb : Rgb} {req : Req} {fmt : PixelFormat}
    {useZrle : Bool} {out : UpdateOut} (h : wk.update fb req fmt useZrle true = some (wk', out)) :
    wk'.cfb = commitAll (wk.cfbFor fb) fb (wk.regions fb req) := by
  have hnot : ¬(wk.resized fb && !true) = true := by simp
  rw [Work.update, if_neg hnot, Option.bind_eq_bind, Option.bind_eq_some_iff] at h
  obtain ⟨⟨wk'', body, rects⟩, hsend, h⟩ := h
  obtain ⟨hcfb, -⟩ := sendRegions_cfb _ hsend
  cases h
  exact hcfb

theorem toNat_rects {k n : Nat} (h : k + n ≤ 65535) :
    (UInt16.ofNat k + UInt16.ofNat n).toNat = k + n := by
  rw [← UInt16.ofNat_add, UInt16.toNat_ofNat', Nat.mod_eq_of_lt (by omega)]

/-- An update whose rectangles can be counted: the message is there when there is one to count. -/
theorem Work.update_eq {wk wk' : Work z} {fb : Rgb} {req : Req} {fmt : PixelFormat}
    {useZrle : Bool} {body : List UInt8}
    (hcount : wk.sizeCount fb + (wk.regions fb req).length ≤ 65535)
    (hsend : sendRegions fmt useZrle fb (wk.regions fb req) ⟨wk.cfbFor fb, wk.zrle⟩
      (wk.sizeRect fb) (UInt16.ofNat (wk.sizeCount fb)) = some (wk', body,
        UInt16.ofNat (wk.sizeCount fb) + UInt16.ofNat (wk.regions fb req).length)) :
    ∃ coversAll, wk.update fb req fmt useZrle true = some (wk',
      ⟨if 0 < wk.sizeCount fb + (wk.regions fb req).length then
        some ([0, 0] ++ be16 (wk.sizeCount fb + (wk.regions fb req).length) ++ body) else none,
        coversAll, false⟩) := by
  have hpos : UInt16.ofNat (wk.sizeCount fb) + UInt16.ofNat (wk.regions fb req).length > 0 ↔
      0 < wk.sizeCount fb + (wk.regions fb req).length := by
    rw [gt_iff_lt, UInt16.lt_iff_toNat_lt, toNat_rects hcount]
    rfl
  have hnot : ¬(wk.resized fb && !true) = true := by simp
  rw [Work.update, if_neg hnot]
  simp only [Option.bind_eq_bind, hsend, Option.bind_some, hpos, toNat_rects hcount]
  exact ⟨_, rfl⟩

end

end RfbServe

end Hdmicap

end Paniolo
