import Paniolo.Library.Machine
import Paniolo.Hdmicap.RfbServe.Work

/-!
# A viewer of the server

A client that follows RFC 6143: it has a framebuffer of its own, inflates one
zlib stream, and applies the rectangles of each FramebufferUpdate in order. On
DesktopSize it takes the new size; what its framebuffer shows until it is
drawn on is left open. The session of the server and this client is a machine
whose steps are the updates, and `viewer_agrees` is the agreement of the two
after every one of them.
-/

namespace Paniolo

namespace Hdmicap

namespace RfbServe

open Zrle (Zlib Patch cutPatch tiles readN readTiles)

structure Viewer (z : Zlib) where
  w : Nat
  h : Nat
  px : Nat → Nat → Px
  dec : z.Dec

/-- What a framebuffer shows after a change of size. -/
abbrev Realloc := Nat → Nat → (Nat → Nat → Px) → Nat → Nat → Px

def blit (px : Nat → Nat → Px) (p : Patch) : Nat → Nat → Px := fun a b =>
  if p.rect.Has a b then
    (p.px[(b - p.rect.y) * p.rect.w + (a - p.rect.x)]?).getD Px.black
  else px a b

def paint (px : Nat → Nat → Px) (ps : List Patch) : Nat → Nat → Px := ps.foldl blit px

def readRectHead : List UInt8 → Option ((Rect × Int) × List UInt8)
  | x1 :: x0 :: y1 :: y0 :: w1 :: w0 :: h1 :: h0 :: e3 :: e2 :: e1 :: e0 :: rest =>
      some ((⟨ofBe16 x1 x0, ofBe16 y1 y0, ofBe16 w1 w0, ofBe16 h1 h0⟩, ofBeI32 e3 e2 e1 e0), rest)
  | _ => none

/-- A payload with its 32-bit length in front. -/
def readPayload : List UInt8 → Option (List UInt8 × List UInt8)
  | a :: b :: c :: d :: rest =>
      let n := ofBe32 a b c d
      if rest.length < n then none else some (rest.take n, rest.drop n)
  | _ => none

namespace Viewer

variable {z : Zlib}

def pic (v : Viewer z) (a b : Nat) : Option Px :=
  if a < v.w ∧ b < v.h then some (v.px a b) else none

def readRect (fmt : PixelFormat) (realloc : Realloc) (v : Viewer z) (bs : List UInt8) :
    Option (Viewer z × List UInt8) := do
  let ((r, enc), bs) ← readRectHead bs
  if enc = ENC_RAW then do
    let (px, bs) ← readN fmt.readPixel (r.h * r.w) bs
    pure ({ v with px := paint v.px [⟨r, px⟩] }, bs)
  else if enc = ENC_ZRLE then do
    let (payload, bs) ← readPayload bs
    let (dec, raw) ← z.inflate v.dec payload
    let (ps, left) ← readTiles fmt (tiles r) raw
    if left.length = 0 then
      pure ({ v with
              px := paint v.px ps
              dec := dec }, bs)
    else none
  else if enc = ENC_DESKTOP_SIZE then
    pure ({ v with
            w := r.w
            h := r.h
            px := realloc r.w r.h v.px }, bs)
  else none

def readRects (fmt : PixelFormat) (realloc : Realloc) :
    Nat → Viewer z → List UInt8 → Option (Viewer z × List UInt8)
  | 0, v, bs => some (v, bs)
  | n + 1, v, bs => do
      let (v, bs) ← v.readRect fmt realloc bs
      readRects fmt realloc n v bs

/-- One FramebufferUpdate, which has to end with its last rectangle. -/
def readUpdate (fmt : PixelFormat) (realloc : Realloc) (v : Viewer z) :
    List UInt8 → Option (Viewer z)
  | ty :: _ :: n1 :: n0 :: bs =>
      if ty = 0 then do
        let (v, bs) ← readRects fmt realloc (ofBe16 n1 n0) v bs
        if bs.length = 0 then pure v else none
      else none
  | _ => none

end Viewer

/-- One answered request: the frame at hand and what the client asked for and negotiated. -/
structure Update where
  fb : Rgb
  req : Req
  fmt : PixelFormat
  useZrle : Bool

structure Session (z : Zlib) where
  work : Work z
  viewer : Viewer z

namespace Session

variable {z : Zlib}

/-- A fresh connection: the client learned the size from ServerInit. -/
def start (w h : Nat) (px : Nat → Nat → Px) : Session z where
  work := ⟨ClientFb.new w h, z.enc⟩
  viewer := ⟨w, h, px, z.dec⟩

def step (realloc : Realloc) (s : Session z) (u : Update) : Option (Session z) := do
  let (work, out) ← s.work.update u.fb u.req u.fmt u.useZrle true
  match out.msg with
  | none => some ⟨work, s.viewer⟩
  | some msg => do
      let viewer ← s.viewer.readUpdate u.fmt realloc msg
      pure ⟨work, viewer⟩

/-- The wire's 16-bit fields can hold the frame's size and the number of rectangles. -/
def Fits (s : Session z) (u : Update) : Prop :=
  u.fb.w ≤ 65535 ∧ u.fb.h ≤ 65535 ∧
    s.work.sizeCount u.fb + (s.work.regions u.fb u.req).length ≤ 65535

end Session

/-! ### Reading single rectangles -/

theorem readRectHead_pushRectHead {r : Rect} (hx : r.x ≤ 65535) (hy : r.y ≤ 65535)
    (hw : r.w ≤ 65535) (hh : r.h ≤ 65535) (enc : Int)
    (henc : enc = ENC_RAW ∨ enc = ENC_ZRLE ∨ enc = ENC_DESKTOP_SIZE) (rest : List UInt8) :
    readRectHead (pushRectHead r enc ++ rest) = some ((r, enc), rest) := by
  have hbytes : ∃ e3 e2 e1 e0, beI32 enc = [e3, e2, e1, e0] ∧ ofBeI32 e3 e2 e1 e0 = enc := by
    rcases henc with rfl | rfl | rfl <;> exact ⟨_, _, _, _, rfl, by decide⟩
  obtain ⟨e3, e2, e1, e0, hbe, hof⟩ := hbytes
  simp [pushRectHead, hbe, be16, readRectHead, hof, ofBe16_ofNat, Nat.mod_eq_of_lt,
    Nat.lt_succ_of_le hx, Nat.lt_succ_of_le hy, Nat.lt_succ_of_le hw, Nat.lt_succ_of_le hh]

theorem readPayload_be32 {bytes : List UInt8} (h : bytes.length < 4294967296) (rest : List UInt8) :
    readPayload (be32 bytes.length ++ bytes ++ rest) = some (bytes, rest) := by
  have hlen : bytes.length % 4294967296 = bytes.length := Nat.mod_eq_of_lt h
  simp [be32, readPayload, ofBe32_ofNat, hlen]

theorem rawBody_eq (fmt : PixelFormat) (fb : Rgb) (r : Rect) :
    rawBody fmt fb r = (fb.cut r.x r.y r.w r.h).flatMap fmt.wire := by
  rw [rawBody, Grid.cut, List.flatMap_assoc, List.range'_eq_map_range, List.flatMap_map]

theorem paint_cutPatches (fb : Rgb) (px : Nat → Nat → Px) (ts : List Rect)
    (hin : Inside fb.w fb.h ts) (a b : Nat) :
    paint px (ts.map (cutPatch fb)) a b =
      if Covered ts a b then (fb.cell a b).getD Px.black else px a b := by
  induction ts generalizing px with
  | nil => simp [paint, Covered]
  | cons t ts ih =>
      obtain ⟨-, -, htx, hty⟩ := hin t (by simp)
      have hrest := ih (blit px (cutPatch fb t)) fun q hq => hin q (by simp [hq])
      rw [List.map_cons, paint, List.foldl_cons]
      change paint (blit px (cutPatch fb t)) (ts.map (cutPatch fb)) a b = _
      have hblit : blit px (cutPatch fb t) a b =
          if t.Has a b then (fb.cell a b).getD Px.black else px a b := by
        by_cases ht : t.Has a b
        · obtain ⟨hta, htb⟩ := id ht
          have hxa : t.x + (a - t.x) = a := by omega
          have hyb : t.y + (b - t.y) = b := by omega
          have hcut := fb.getElem?_cut htx hty (i := b - t.y) (j := a - t.x) (by omega) (by omega)
          rw [hxa, hyb] at hcut
          rw [if_pos ht, ← hcut]
          exact if_pos ht
        · rw [if_neg ht]
          exact if_neg ht
      rw [hrest, hblit, ite_covered_cons]

theorem inside_tiles {w h : Nat} {r : Rect} (hx : r.x + r.w ≤ w) (hy : r.y + r.h ≤ h) :
    Inside w h (tiles r) := by
  intro t ht
  have := Zrle.mem_tiles ht
  omega

theorem covered_tiles {r : Rect} {a b : Nat} : Covered (tiles r) a b ↔ r.Has a b :=
  ⟨fun ⟨_, ht, hab⟩ => Zrle.has_of_tile ht hab, fun hab => Zrle.exists_tile hab⟩

section

variable {z : Zlib} {R : z.Enc → z.Dec → List UInt8 → Prop} {owed : z.Enc → List UInt8 → Nat}

namespace Viewer

variable {fmt : PixelFormat} {realloc : Realloc} {v : Viewer z} {r : Rect}
  {bs body payload raw rest : List UInt8}

theorem readRect_raw {px : List Px} (hhead : readRectHead bs = some ((r, ENC_RAW), body))
    (hpx : readN fmt.readPixel (r.h * r.w) body = some (px, rest)) :
    v.readRect fmt realloc bs = some ({ v with px := paint v.px [⟨r, px⟩] }, rest) := by
  simp [readRect, hhead, hpx]

theorem readRect_zrle {ps : List Patch} {dec : z.Dec}
    (hhead : readRectHead bs = some ((r, ENC_ZRLE), body))
    (hpay : readPayload body = some (payload, rest))
    (hinf : z.inflate v.dec payload = some (dec, raw))
    (htiles : readTiles fmt (tiles r) raw = some (ps, [])) :
    v.readRect fmt realloc bs =
      some ({ v with px := paint v.px ps, dec := dec }, rest) := by
  have hne : ¬ENC_ZRLE = ENC_RAW := by decide
  simp [readRect, hhead, hne, hpay, hinf, htiles]

theorem readRect_desktopSize (hhead : readRectHead bs = some ((r, ENC_DESKTOP_SIZE), rest)) :
    v.readRect fmt realloc bs =
      some ({ v with w := r.w, h := r.h, px := realloc r.w r.h v.px }, rest) := by
  have hne : ¬ENC_DESKTOP_SIZE = ENC_RAW := by decide
  have hne' : ¬ENC_DESKTOP_SIZE = ENC_ZRLE := by decide
  simp [readRect, hhead, hne, hne']

end Viewer

/-- The viewer with one region of the frame drawn. -/
def Viewer.Draws (v v' : Viewer z) (fb : Rgb) (rs : List Rect) : Prop :=
  v'.w = v.w ∧ v'.h = v.h ∧
    ∀ a b, v'.px a b = if Covered rs a b then (fb.cell a b).getD Px.black else v.px a b

/-- A region in either encoding is read to its last byte and drawn. -/
theorem readRect_encodeRegion (law : z.Lossless R owed) (fmt : PixelFormat) (useZrle : Bool)
    (realloc : Realloc) {fb : Rgb} {e : z.Enc} {v : Viewer z} (hR : R e v.dec []) {r : Rect}
    (hfw : fb.w ≤ 65535) (hfh : fb.h ≤ 65535) (hin : Inside fb.w fb.h [r]) (hr : r.h ≤ TILE) :
    ∃ e' bytes v', encodeRegion fmt useZrle fb e r = some (e', bytes) ∧ R e' v'.dec [] ∧
      v.Draws v' fb [r] ∧
      ∀ rest, v.readRect fmt realloc (bytes ++ rest) = some (v', rest) := by
  obtain ⟨hrw, hrh, hx, hy⟩ := hin r (by simp)
  have hhead := fun enc henc rest => readRectHead_pushRectHead (r := r) (by omega) (by omega)
    (by omega) (by omega) enc henc rest
  cases useZrle with
  | true =>
      obtain ⟨e', d', out, hdef, hinf, hR', hlen⟩ :=
        Zlib.inflate_deflate law hR (Zrle.encodeRect fmt fb r.x r.y r.w r.h)
      have hsize := Zrle.length_encodeRect_lt fmt hx hy (by omega) hr
      have hlt : out.length < 4294967296 := by
        have h25 : 2 ^ 25 = 33554432 := rfl
        omega
      have htiles := Zrle.readTiles_encodeRect fmt _ hx hy []
      rw [List.append_nil] at htiles
      refine ⟨e', pushRectHead r ENC_ZRLE ++ be32 out.length ++ out,
        { v with px := paint v.px ((tiles r).map (cutPatch fb)), dec := d' }, ?_, hR', ?_, ?_⟩
      · rw [encodeRegion, if_pos rfl, hdef]
        rfl
      · refine ⟨rfl, rfl, ?_⟩
        intro a b
        have hpaint := paint_cutPatches fb v.px (tiles r) (inside_tiles hx hy) a b
        have hone : Covered [r] a b ↔ Covered (tiles r) a b := by
          rw [covered_tiles]
          simp [Covered]
        simp only [hone]
        exact hpaint
      · intro rest
        have hpay := readPayload_be32 hlt rest
        refine Viewer.readRect_zrle ?_ hpay hinf htiles
        rw [List.append_assoc, List.append_assoc, hhead ENC_ZRLE (Or.inr (Or.inl rfl)),
          List.append_assoc]
  | false =>
      refine ⟨e, pushRectHead r ENC_RAW ++ rawBody fmt fb r,
        { v with px := paint v.px ([r].map (cutPatch fb)) }, rfl, hR, ?_, ?_⟩
      · exact ⟨rfl, rfl, paint_cutPatches fb v.px [r] hin⟩
      · intro rest
        have hread := Zrle.readN_flatMap fmt.readPixel fmt.wire id (fb.cut r.x r.y r.w r.h)
          (fun p _ rest => fmt.readPixel_wire p rest) rest
        rw [fb.length_cut hx hy, List.map_id] at hread
        refine Viewer.readRect_raw ?_ hread
        rw [List.append_assoc, hhead ENC_RAW (Or.inl rfl), rawBody_eq]

theorem Viewer.Draws.trans {v v' v'' : Viewer z} {fb : Rgb} {r : Rect} {rs : List Rect}
    (h : v.Draws v' fb [r]) (h' : v'.Draws v'' fb rs) : v.Draws v'' fb (r :: rs) := by
  obtain ⟨hw, hh, hpx⟩ := h
  obtain ⟨hw', hh', hpx'⟩ := h'
  refine ⟨hw'.trans hw, hh'.trans hh, ?_⟩
  intro a b
  have hone : Covered [r] a b ↔ r.Has a b := by simp [Covered]
  rw [hpx', hpx]
  simp only [hone]
  exact ite_covered_cons r rs a b _ _

/-- The whole loop over the regions against the client's loop over the rectangles. -/
theorem readRects_sendRegions (law : z.Lossless R owed) (fmt : PixelFormat) (useZrle : Bool)
    (realloc : Realloc) {fb : Rgb} (hfw : fb.w ≤ 65535) (hfh : fb.h ≤ 65535) (rs : List Rect) :
    ∀ (wk : Work z) (v : Viewer z) (body : List UInt8) (rects : UInt16), R wk.zrle v.dec [] →
      Inside fb.w fb.h rs → (∀ r ∈ rs, r.h ≤ TILE) →
      ∃ wk' bytes v', sendRegions fmt useZrle fb rs wk body rects =
          some (wk', body ++ bytes, rects + UInt16.ofNat rs.length) ∧
        R wk'.zrle v'.dec [] ∧ v.Draws v' fb rs ∧
        ∀ rest, Viewer.readRects fmt realloc rs.length v (bytes ++ rest) = some (v', rest) := by
  induction rs with
  | nil =>
      intro wk v body rects hR _ _
      exact ⟨wk, [], v, by simp [sendRegions], hR, ⟨rfl, rfl, by simp [Covered]⟩, fun _ => rfl⟩
  | cons r rs ih =>
      intro wk v body rects hR hin hrh
      obtain ⟨e', bytes, v', henc, hR', hdraw, hread⟩ :=
        readRect_encodeRegion law fmt useZrle realloc hR hfw hfh
          (fun q hq => hin q (by simp at hq; simp [hq])) (hrh r (by simp))
      obtain ⟨wk'', bytes', v'', hsend, hR'', hdraw', hread'⟩ :=
        ih ⟨wk.cfb.commit fb r, e'⟩ v' (body ++ bytes) (rects + 1) hR'
          (fun q hq => hin q (by simp [hq])) (fun q hq => hrh q (by simp [hq]))
      refine ⟨wk'', bytes ++ bytes', v'', ?_, hR'', hdraw.trans hdraw', ?_⟩
      · rw [sendRegions, henc]
        simp only [Option.bind_eq_bind, Option.bind_some, hsend, List.append_assoc,
          List.length_cons]
        simp [UInt16.add_assoc, UInt16.add_comm]
      · intro rest
        rw [List.length_cons, Viewer.readRects, List.append_assoc, hread]
        exact hread' rest

theorem Viewer.Draws.pic_eq {v v' : Viewer z} {fb : Rgb} {rs : List Rect}
    (h : v.Draws v' fb rs) (hw : v.w = fb.w) (hh : v.h = fb.h) (hin : Inside fb.w fb.h rs)
    (a b : Nat) : v'.pic a b = if Covered rs a b then fb.cell a b else v.pic a b := by
  obtain ⟨hvw, hvh, hpx⟩ := h
  rw [Viewer.pic, hvw, hvh, hpx]
  by_cases hcov : Covered rs a b
  · obtain ⟨r, hr, hab⟩ := hcov
    have hr' := hin r hr
    have hlt : a < fb.w ∧ b < fb.h := by
      simp only [Rect.Has] at hab
      omega
    obtain ⟨c, hc⟩ := fb.cell_isSome hlt.1 hlt.2
    have hcov' : Covered rs a b := ⟨r, hr, hab⟩
    rw [if_pos (by omega), if_pos hcov', if_pos hcov', hc]
    rfl
  · simp only [if_neg hcov]
    rfl

/-! ### One update -/

/-- What holds of a session between updates. -/
structure Session.Synced (R : z.Enc → z.Dec → List UInt8 → Prop) (s : Session z) : Prop where
  stream : R s.work.zrle s.viewer.dec []
  width : s.viewer.w = s.work.cfb.sent.w
  height : s.viewer.h = s.work.cfb.sent.h
  agrees : Agrees s.work.cfb s.viewer.pic

/-- The viewer after the DesktopSize rectangle, if there is one. -/
def Viewer.reallocated (v : Viewer z) (realloc : Realloc) (fb : Rgb) : Viewer z :=
  { v with w := fb.w, h := fb.h, px := realloc fb.w fb.h v.px }

theorem readUpdate_eq {fmt : PixelFormat} {realloc : Realloc} {v v' : Viewer z} {n : Nat}
    {body : List UInt8} (hn : n ≤ 65535)
    (h : Viewer.readRects fmt realloc n v body = some (v', [])) :
    v.readUpdate fmt realloc ([0, 0] ++ be16 n ++ body) = some v' := by
  have hcount : ofBe16 (UInt8.ofNat (n / 256)) (UInt8.ofNat n) = n := by
    rw [ofBe16_ofNat, Nat.mod_eq_of_lt (by omega)]
  simp [Viewer.readUpdate, be16, hcount, h]

/-- The viewer the regions are drawn on, and the rectangle that brings it there. -/
theorem exists_drawn_on (realloc : Realloc) (fmt : PixelFormat) {s : Session z} {fb : Rgb}
    (hs : s.Synced R) (hfw : fb.w ≤ 65535) (hfh : fb.h ≤ 65535) :
    ∃ v0 : Viewer z, R s.work.zrle v0.dec [] ∧ v0.w = fb.w ∧ v0.h = fb.h ∧
      Agrees (s.work.cfbFor fb) v0.pic ∧ (s.work.sizeCount fb = 0 → v0 = s.viewer) ∧
      ∀ n v' bytes, Viewer.readRects fmt realloc n v0 bytes = some (v', []) →
        Viewer.readRects fmt realloc (s.work.sizeCount fb + n) s.viewer
          (s.work.sizeRect fb ++ bytes) = some (v', []) := by
  obtain ⟨hcw, hch⟩ := s.work.cfbFor_dims fb
  rw [Work.sizeCount, Work.sizeRect]
  by_cases hres : s.work.resized fb = true
  · rw [if_pos hres, if_pos hres]
    refine ⟨{ s.viewer with w := fb.w, h := fb.h, px := realloc fb.w fb.h s.viewer.px },
      hs.stream, rfl, rfl, ?_, ?_, ?_⟩
    · rw [Work.cfbFor, if_pos hres]
      exact agrees_new _ _ _
    · intro h
      cases h
    · intro n v' bytes hread
      have hhead := readRectHead_pushRectHead (r := ⟨0, 0, fb.w, fb.h⟩) (by simp) (by simp)
        hfw hfh ENC_DESKTOP_SIZE (Or.inr (Or.inr rfl)) bytes
      rw [Nat.add_comm, Viewer.readRects, Viewer.readRect_desktopSize hhead]
      exact hread
  · have hcfb : s.work.cfbFor fb = s.work.cfb := by rw [Work.cfbFor, if_neg hres]
    rw [hcfb] at hcw hch ⊢
    rw [if_neg hres, if_neg hres]
    refine ⟨s.viewer, hs.stream, hs.width.trans hcw, hs.height.trans hch, hs.agrees,
      fun _ => rfl, ?_⟩
    intro n v' bytes hread
    rw [Nat.zero_add, List.nil_append]
    exact hread

/-- Every update that fits the wire goes through, and afterwards the two sides agree. -/
theorem step_synced (law : z.Lossless R owed) (realloc : Realloc) {s : Session z} {u : Update}
    (hs : s.Synced R) (hfit : s.Fits u) :
    ∃ t, s.step realloc u = some t ∧ t.Synced R ∧
      (t.work.cfb.sent.w = u.fb.w ∧ t.work.cfb.sent.h = u.fb.h) ∧
      ∀ a b, (t.work.cfb.clip u.req).Has a b → t.viewer.pic a b = u.fb.cell a b := by
  obtain ⟨hfw, hfh, hcount⟩ := hfit
  obtain ⟨hcw, hch⟩ := s.work.cfbFor_dims u.fb
  have hin := s.work.inside_regions u.fb u.req
  obtain ⟨v0, hR0, hw0, hh0, hagree0, hsame, hread0⟩ :=
    exists_drawn_on realloc u.fmt hs hfw hfh
  obtain ⟨wk', bytes, v', hsend, hR', hdraw, hread⟩ :=
    readRects_sendRegions law u.fmt u.useZrle realloc hfw hfh (s.work.regions u.fb u.req)
      ⟨s.work.cfbFor u.fb, s.work.zrle⟩ v0 (s.work.sizeRect u.fb)
      (UInt16.ofNat (s.work.sizeCount u.fb)) hR0 hin (s.work.height_regions u.fb u.req)
  obtain ⟨hcfb, -⟩ := sendRegions_cfb _ hsend
  dsimp only at hcfb
  obtain ⟨coversAll, hupdate⟩ := Work.update_eq hcount hsend
  obtain ⟨hdw, hdh⟩ := commitAll_dims (s.work.cfbFor u.fb) u.fb (s.work.regions u.fb u.req)
  have hpic := hdraw.pic_eq hw0 hh0 hin
  -- no message at all means that nothing had to be drawn
  have hstep : s.step realloc u = some ⟨wk', v'⟩ := by
    rw [Session.step, hupdate]
    by_cases htotal : 0 < s.work.sizeCount u.fb + (s.work.regions u.fb u.req).length
    · have hall := hread0 _ v' bytes (by simpa using hread [])
      simp only [Option.bind_eq_bind, Option.bind_some, if_pos htotal,
        readUpdate_eq hcount hall]
      rfl
    · have hnil : s.work.regions u.fb u.req = [] := List.length_eq_zero_iff.mp (by omega)
      have hv : v' = s.viewer := by
        have hread' := hread []
        rw [hnil, List.length_nil, Viewer.readRects, Option.some.injEq, Prod.mk.injEq] at hread'
        rw [← hread'.1, hsame (by omega)]
      simp only [Option.bind_eq_bind, Option.bind_some, if_neg htotal, hv]
  refine ⟨⟨wk', v'⟩, hstep, ⟨hR', ?_, ?_, ?_⟩, ⟨?_, ?_⟩, ?_⟩
  · rw [hdraw.1, hcfb, hdw, hcw, hw0]
  · rw [hdraw.2.1, hcfb, hdh, hch, hh0]
  · dsimp only
    rw [hcfb]
    exact agrees_commitAll hcw.symm hch.symm (by rw [hcw, hch]; exact hin) hagree0 hpic
  · rw [hcfb, hdw, hcw]
  · rw [hcfb, hdh, hch]
  · intro a b hab
    have hclip : ((s.work.cfbFor u.fb).clip u.req).Has a b := by
      rw [ClientFb.has_clip] at hab ⊢
      rwa [hcfb, hdw, hdh] at hab
    exact s.work.shows_clip u.fb u.req hagree0 hpic (s.work.clip_subset u.fb u.req hclip)

end

/-- The server and its viewer agree after every update of a session. -/
theorem viewer_agrees {z : Zlib} {R : z.Enc → z.Dec → List UInt8 → Prop}
    {owed : z.Enc → List UInt8 → Nat} (law : z.Lossless R owed) (realloc : Realloc) (w h : Nat)
    (px : Nat → Nat → Px) (us : List Update) (u : Update)
    (hfit : Machine.meets (Session.step realloc) Session.Fits (Session.start w h px : Session z)
      (us ++ [u])) :
    ∃ t, Machine.run (Session.step realloc) (Session.start w h px : Session z) (us ++ [u]) = some t ∧
      (t.viewer.w = t.work.cfb.sent.w ∧ t.viewer.h = t.work.cfb.sent.h) ∧
      (∀ a b, a < t.work.cfb.sent.w → b < t.work.cfb.sent.h →
        t.work.cfb.isKnown (a / TILE) (b / TILE) = true →
        t.viewer.pic a b = t.work.cfb.sent.cell a b) ∧
      (t.work.cfb.sent.w = u.fb.w ∧ t.work.cfb.sent.h = u.fb.h) ∧
      ∀ a b, (t.work.cfb.clip u.req).Has a b → t.viewer.pic a b = u.fb.cell a b := by
  have hstart : (Session.start w h px : Session z).Synced R :=
    ⟨law.start, rfl, rfl, agrees_new _ _ _⟩
  obtain ⟨m, hrun, hm⟩ := Machine.exists_run_of_meets
    (fun m u hm hu => by
      obtain ⟨t, hstep, ht, -⟩ := step_synced law realloc hm hu
      exact ⟨t, hstep, ht⟩) hstart (Machine.meets_append_left hfit)
  obtain ⟨-, hlast⟩ := Machine.meets_concat hfit hrun
  obtain ⟨t, hstep, ht, hdims, hshow⟩ := step_synced law realloc hm hlast
  exact ⟨t, Machine.run_concat_eq_some.mpr ⟨m, hrun, hstep⟩, ⟨ht.width, ht.height⟩, ht.agrees,
    hdims, hshow⟩

/-- A screen of two pixels for a client that was told of one. -/
def twoPixels : Update where
  fb := ⟨2, 1, [⟨1, 2, 3⟩, ⟨4, 5, 6⟩], rfl⟩
  req := ⟨false, 0, 0, 1, 1⟩
  fmt := PixelFormat.default
  useZrle := false

theorem viewer_agrees_twoPixels :
    Session.Fits (Session.start 1 1 (fun _ _ => Px.black) : Session Zlib.passthrough) twoPixels ∧
      ∃ t, Machine.run (Session.step fun _ _ px => px)
          (Session.start 1 1 (fun _ _ => Px.black) : Session Zlib.passthrough) [twoPixels] = some t ∧
        t.viewer.pic 0 0 = some ⟨1, 2, 3⟩ := by
  have hfit : Session.Fits (Session.start 1 1 (fun _ _ => Px.black) : Session Zlib.passthrough)
      twoPixels := ⟨by decide, by decide, by decide⟩
  obtain ⟨t, hrun, -, -, hdims, hshow⟩ := viewer_agrees Zlib.lossless_passthrough
    (fun _ _ px => px) 1 1 (fun _ _ => Px.black) [] twoPixels ⟨hfit, fun _ _ => trivial⟩
  refine ⟨hfit, t, hrun, hshow 0 0 ?_⟩
  rw [ClientFb.has_clip, hdims.1, hdims.2]
  decide

/-! ### Sizes the wire cannot hold -/

section

variable {z : Zlib}

theorem Viewer.readRect_width {fmt : PixelFormat} {realloc : Realloc} {v v' : Viewer z}
    {bs rest : List UInt8} (hv : v.w < 65536)
    (h : v.readRect fmt realloc bs = some (v', rest)) : v'.w < 65536 := by
  rw [Viewer.readRect, Option.bind_eq_bind, Option.bind_eq_some_iff] at h
  obtain ⟨⟨⟨r, enc⟩, body⟩, hhead, h⟩ := h
  dsimp only at h
  split at h
  · rw [Option.bind_eq_bind, Option.bind_eq_some_iff] at h
    obtain ⟨_, -, h⟩ := h
    cases h
    exact hv
  · split at h
    · simp only [Option.bind_eq_bind, Option.bind_eq_some_iff] at h
      obtain ⟨_, -, _, -, _, -, h⟩ := h
      split at h
      · cases h
        exact hv
      · cases h
    · split at h
      · cases h
        unfold readRectHead at hhead
        split at hhead
        · cases hhead
          exact ofBe16_lt _ _
        · cases hhead
      · cases h

theorem Viewer.readRects_width {fmt : PixelFormat} {realloc : Realloc} (n : Nat) :
    ∀ {v v' : Viewer z} {bs rest : List UInt8}, v.w < 65536 →
      Viewer.readRects fmt realloc n v bs = some (v', rest) → v'.w < 65536 := by
  induction n with
  | zero =>
      intro v v' bs rest hv h
      cases h
      exact hv
  | succ n ih =>
      intro v v' bs rest hv h
      rw [Viewer.readRects, Option.bind_eq_bind, Option.bind_eq_some_iff] at h
      obtain ⟨⟨m, body⟩, hone, h⟩ := h
      exact ih (Viewer.readRect_width hv hone) h

theorem Viewer.readUpdate_width {fmt : PixelFormat} {realloc : Realloc} {v v' : Viewer z}
    {msg : List UInt8} (hv : v.w < 65536) (h : v.readUpdate fmt realloc msg = some v') :
    v'.w < 65536 := by
  unfold Viewer.readUpdate at h
  split at h
  · split at h
    · rw [Option.bind_eq_bind, Option.bind_eq_some_iff] at h
      obtain ⟨⟨m, rest⟩, hrects, h⟩ := h
      dsimp only at h
      split at h
      · cases h
        exact Viewer.readRects_width _ hv hrects
      · cases h
    · cases h
  · cases h

/-- However wide the frame, a viewer never gets to a width that 16 bits cannot hold. -/
theorem Session.step_width {realloc : Realloc} {s t : Session z} {u : Update}
    (hv : s.viewer.w < 65536) (h : s.step realloc u = some t) : t.viewer.w < 65536 := by
  rw [Session.step, Option.bind_eq_bind, Option.bind_eq_some_iff] at h
  obtain ⟨⟨work, out⟩, -, h⟩ := h
  dsimp only at h
  split at h
  · cases h
    exact hv
  · rw [Option.bind_eq_bind, Option.bind_eq_some_iff] at h
    obtain ⟨v', hread, h⟩ := h
    cases h
    exact Viewer.readUpdate_width hv hread

theorem Session.step_cfb {realloc : Realloc} {s t : Session z} {u : Update}
    (h : s.step realloc u = some t) :
    t.work.cfb.sent.w = u.fb.w ∧ t.work.cfb.sent.h = u.fb.h := by
  rw [Session.step, Option.bind_eq_bind, Option.bind_eq_some_iff] at h
  obtain ⟨⟨work, out⟩, hupdate, h⟩ := h
  have hcfb := Work.update_cfb hupdate
  obtain ⟨hcw, hch⟩ := s.work.cfbFor_dims u.fb
  obtain ⟨hdw, hdh⟩ := commitAll_dims (s.work.cfbFor u.fb) u.fb (s.work.regions u.fb u.req)
  have hwork : t.work = work := by
    dsimp only at h
    split at h
    · cases h
      rfl
    · rw [Option.bind_eq_bind, Option.bind_eq_some_iff] at h
      obtain ⟨v', -, h⟩ := h
      cases h
      rfl
  rw [hwork, hcfb, hdw, hdh]
  exact ⟨hcw, hch⟩

end

/-- A frame one pixel wider than 16 bits can say. -/
def wideFrame : Update where
  fb := Grid.fill 65536 1 Px.black
  req := ⟨false, 1, 0, 65535, 1⟩
  fmt := PixelFormat.default
  useZrle := false

theorem not_viewer_agrees_wideFrame :
    ¬∃ t, Machine.run (Session.step fun _ _ px => px)
        (Session.start 1 1 (fun _ _ => Px.black) : Session Zlib.passthrough) [wideFrame] = some t ∧
      ∀ a b, (t.work.cfb.clip wideFrame.req).Has a b →
        t.viewer.pic a b = wideFrame.fb.cell a b := by
  rintro ⟨t, hrun, hshow⟩
  have hstep : Session.step (fun _ _ px => px)
      (Session.start 1 1 (fun _ _ => Px.black) : Session Zlib.passthrough) wideFrame = some t := by
    simpa [Machine.run] using hrun
  obtain ⟨hw, hh⟩ := Session.step_cfb hstep
  have hwidth := Session.step_width (by decide) hstep
  have hlast := hshow 65535 0 (by
    rw [ClientFb.has_clip, hw, hh]
    simp [wideFrame])
  rw [Viewer.pic, if_neg (by omega)] at hlast
  simp [wideFrame] at hlast

end RfbServe

end Hdmicap

end Paniolo
