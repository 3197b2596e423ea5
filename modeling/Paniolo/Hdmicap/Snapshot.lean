import Paniolo.Library.Hex
import Paniolo.Library.Machine

/-!
# Snapshots

`GET /snapshot` of `server.rs` beside the capture thread that publishes frames. The request decides
on one read of the watch channel whether the newest frame is ready and takes the frame on another;
whatever is published in between is what it answers with.
-/

namespace Paniolo

namespace Hdmicap

namespace Snapshot

/-- Pixels in the format of the capture device. -/
inductive PixelData where
  | empty
  | rgb (buf : List UInt8)
  | nv12 (y cbcr : List UInt8)
deriving DecidableEq

inductive Signal where
  | noDevice
  | noSignal
  | modeSwitching
  | stable
  | stale
deriving DecidableEq

/-- A published frame. Instants are counted in nanoseconds. -/
structure FrameState where
  jpeg : Option (List UInt8)
  pixels : PixelData
  width : UInt32
  height : UInt32
  hash : UInt64
  signal : Signal
  resolutionEpoch : UInt64
  capturedAt : Nat
deriving DecidableEq

def STALE_AFTER : Nat := 3000000000

def FRESH_ENOUGH : Nat := 66000000

def FRESH_WAIT : Nat := 250000000

def DEFAULT_TIMEOUT_MS : UInt64 := 2000

namespace FrameState

/-- The signal as it applies now: a frame that has aged out is stale. -/
def effectiveSignal (f : FrameState) (now : Nat) : Signal :=
  if (f.signal = .stable ∨ f.signal = .modeSwitching) ∧ STALE_AFTER < now - f.capturedAt then .stale
  else f.signal

def noDevice (now : Nat) : FrameState :=
  ⟨none, .empty, 0, 0, 0, .noDevice, 0, now⟩

end FrameState

/-! ### The picture of a frame -/

/-- Three bytes a pixel, row after row. -/
structure RgbImage where
  width : Nat
  height : Nat
  pixels : List UInt8

def clampByte (v : Int) : UInt8 := UInt8.ofNat (min v 255).toNat

/-- Video-range BT.601 to RGB. -/
def ycbcrToRgb (y cb cr : UInt8) : List UInt8 :=
  let c : Int := y.toNat - 16
  let d : Int := cb.toNat - 128
  let e : Int := cr.toNat - 128
  [clampByte ((298 * c + 409 * e + 128) / 256),
    clampByte ((298 * c - 100 * d - 208 * e + 128) / 256),
    clampByte ((298 * c + 516 * d + 128) / 256)]

/-- A pixel whose samples are missing stays black. -/
def nv12Pixel (y cbcr : List UInt8) (w row col : Nat) : List UInt8 :=
  match y[row * w + col]?, cbcr[row / 2 * w + col / 2 * 2]?, cbcr[row / 2 * w + col / 2 * 2 + 1]? with
  | some l, some cb, some cr => ycbcrToRgb l cb cr
  | _, _, _ => [0, 0, 0]

def nv12ToRgb (y cbcr : List UInt8) (w h : Nat) : RgbImage :=
  ⟨w, h, (List.range h).flatMap fun row => (List.range w).flatMap fun col =>
    nv12Pixel y cbcr w row col⟩

/-- The image libraries: the picture in a JPEG and the PNG of a picture, when they have one. -/
structure Codecs where
  decompressImage : List UInt8 → Option RgbImage
  writePng : RgbImage → Option (List UInt8)

/-- The full-resolution picture, as the Linux build decodes it. -/
def decodeRgb (lib : Codecs) (f : FrameState) : Option RgbImage :=
  let w := f.width.toNat
  let h := f.height.toNat
  match f.pixels with
  | .rgb buf => if 3 * (w * h) ≤ buf.length then some ⟨w, h, buf.take (3 * (w * h))⟩ else none
  | .nv12 y cbcr => some (nv12ToRgb y cbcr w h)
  | .empty => f.jpeg.bind lib.decompressImage

/-- `encode_png`; an encoder that panics counts as one that fails. -/
def encodePng (lib : Codecs) (f : FrameState) : Option (List UInt8) :=
  (decodeRgb lib f).bind lib.writePng

/-! ### The request -/

/-- The query of `/snapshot`. -/
structure SnapReq where
  wait : Option (List Char)
  changedSince : Option (List Char)
  timeout : Option UInt64

namespace SnapReq

def wantStable (q : SnapReq) : Bool := q.wait = some "stable".toList

/-- The hash to differ from; a text that is no hash counts as none given. -/
def changedSinceHash (q : SnapReq) : Option UInt64 :=
  q.changedSince.bind fun h => (Text.fromHex (2 ^ 64) h).map UInt64.ofNat

/-- How long the request may take, in nanoseconds. -/
def patience (q : SnapReq) : Nat :=
  min ((q.timeout.getD DEFAULT_TIMEOUT_MS).toNat * 1000000) 60000000000

end SnapReq

def snapshotReady (f : FrameState) (now : Nat) (wantStable : Bool) (changedSince : Option UInt64) :
    Bool :=
  let stable : Bool := f.effectiveSignal now = .stable
  match wantStable, changedSince with
  | true, some h => stable && f.hash != h
  | true, none => stable
  | false, some h => f.hash != h
  | false, none => true

def signalName : Signal → String
  | .stable => "stable"
  | .stale => "stale"
  | .modeSwitching => "mode_switching"
  | .noSignal => "no_signal"
  | .noDevice => "no_device"

inductive Body where
  | text (s : String)
  | bytes (b : List UInt8)
deriving DecidableEq

structure Response where
  status : Nat
  headers : List (String × List Char)
  body : Body
deriving DecidableEq

def Response.header (r : Response) (name : String) : Option (List Char) := r.headers.lookup name

/-- `png_response` up to the encoding: the answers without a picture. -/
def pngRefusal (f : FrameState) (now : Nat) : Option Response :=
  if f.effectiveSignal now = .stale then
    some ⟨503, [("x-signal", "stale".toList)],
      .text "capture stalled; the last frame is too old to be the screen"⟩
  else if f.signal = .noDevice ∨ f.width = 0 then
    some ⟨503, [("x-signal", "no_device".toList)], .text "no capture device"⟩
  else none

/-- The answer with the picture `b` of a frame. -/
def pngPicture (f : FrameState) (timedOut : Bool) (b : List UInt8) : Response :=
  ⟨200, [("content-type", "image/png".toList),
    ("x-signal", (signalName f.signal).toList),
    ("x-resolution-epoch", Nat.toDigits 10 f.resolutionEpoch.toNat),
    ("x-frame-hash", Text.lowerHex 16 f.hash.toNat),
    ("x-timeout", Nat.toDigits 10 timedOut.toNat)], .bytes b⟩

/-- `png_response` from the encoding on. -/
def pngAnswer (lib : Codecs) (f : FrameState) (timedOut : Bool) : Response :=
  match encodePng lib f with
  | some b => pngPicture f timedOut b
  | none => ⟨500, [], .text "frame buffer size mismatch"⟩

/-! ### The capture thread beside the request -/

/-- The watch channel with the request's receiver: the newest value, its version, the version the
receiver has seen, and whether the sender is gone. -/
structure Watch where
  value : FrameState
  version : Nat
  seen : Nat
  closed : Bool
deriving DecidableEq

inductive Wake where
  | changed
  | closed
  | elapsed

namespace Watch

def send (c : Watch) (f : FrameState) : Watch := { c with value := f, version := c.version + 1 }

def markSeen (c : Watch) : Watch := { c with seen := c.version }

/-- `timeout(.., rx.changed())` when it is polled: how the wait is over, if it is. -/
def changedOrElapsed (c : Watch) (now limit : Nat) : Option (Wake × Watch) :=
  if c.version ≠ c.seen then some (.changed, c.markSeen)
  else if c.closed then some (.closed, c)
  else if limit ≤ now then some (.elapsed, c)
  else none

end Watch

/-- Where the request stands: `fresh_frame`, the loop with its deadline, and `png_response`. -/
inductive Stage where
  | arriving
  | freshening (limit : Nat)
  | beginning
  | checking (deadline : Nat)
  | taking
  | deciding (deadline : Nat)
  | waiting (deadline : Nat)
  | late
  | responding (f : FrameState) (timedOut : Bool)
  | encoding (f : FrameState) (timedOut : Bool)
  | done (r : Response)
deriving DecidableEq

structure State where
  now : Nat
  frames : Watch
  published : List FrameState
  stage : Stage
deriving DecidableEq

inductive Action where
  | publish (f : FrameState)
  | hangUp
  | tick (d : Nat)
  | proceed

/-- The channel starts with the frame that says there is no device. -/
def init (now : Nat) : State := ⟨now, ⟨FrameState.noDevice now, 0, 0, false⟩, [], .arriving⟩

/-- One step of the request. -/
def proceed (lib : Codecs) (q : SnapReq) (s : State) : Option State :=
  match s.stage with
  | .arriving =>
      let s := { s with frames := s.frames.markSeen }
      if s.now - s.frames.value.capturedAt ≤ FRESH_ENOUGH then some { s with stage := .beginning }
      else some { s with stage := .freshening (s.now + FRESH_WAIT) }
  | .freshening limit =>
      (s.frames.changedOrElapsed s.now limit).map fun w =>
        { s with frames := w.2, stage := .beginning }
  | .beginning => some { s with stage := .checking (s.now + q.patience) }
  | .checking deadline =>
      let s := { s with frames := s.frames.markSeen }
      if snapshotReady s.frames.value s.now q.wantStable q.changedSinceHash then
        some { s with stage := .taking }
      else some { s with stage := .deciding deadline }
  | .taking => some { s with stage := .responding s.frames.value false }
  | .deciding deadline =>
      if deadline - s.now = 0 then some { s with stage := .late }
      else some { s with stage := .waiting deadline }
  | .waiting deadline =>
      match s.frames.changedOrElapsed s.now deadline with
      | some (.changed, frames) => some { s with frames := frames, stage := .checking deadline }
      | some (.closed, _) => some { s with stage := .done ⟨503, [], .text "capture thread gone"⟩ }
      | some (.elapsed, _) => some { s with stage := .late }
      | none => none
  | .late => some { s with stage := .responding s.frames.value true }
  | .responding f timedOut =>
      match pngRefusal f s.now with
      | some r => some { s with stage := .done r }
      | none => some { s with stage := .encoding f timedOut }
  | .encoding f timedOut => some { s with stage := .done (pngAnswer lib f timedOut) }
  | .done _ => none

def step (lib : Codecs) (q : SnapReq) (s : State) : Action → Option State
  | .publish f =>
      if s.frames.closed then none
      else some { s with frames := s.frames.send f, published := f :: s.published }
  | .hangUp => some { s with frames := { s.frames with closed := true } }
  | .tick d => some { s with now := s.now + d }
  | .proceed => proceed lib q s

/-! ### What the answer shows -/

theorem signal_of_effectiveSignal {f : FrameState} {now : Nat}
    (h : f.effectiveSignal now = .stable) : f.signal = .stable := by
  rw [FrameState.effectiveSignal] at h
  split at h
  · cases h
  · exact h

/-- A frame that is still alive later is as ready as it was. -/
theorem snapshotReady_of_ne_stale {f : FrameState} {t now : Nat} {w : Bool} {h : Option UInt64}
    (hready : snapshotReady f t w h = true) (hlive : f.effectiveSignal now ≠ .stale) :
    snapshotReady f now w h = true := by
  have hstable : f.effectiveSignal t = .stable → f.effectiveSignal now = .stable := by
    intro hst
    rw [FrameState.effectiveSignal] at hlive ⊢
    split
    · next hold => exact absurd (if_pos hold) hlive
    · exact signal_of_effectiveSignal hst
  cases w with
  | false =>
      cases h with
      | none => rfl
      | some h => exact hready
  | true =>
      cases h with
      | none => exact decide_eq_true (hstable (of_decide_eq_true hready))
      | some h =>
          obtain ⟨hst, hhash⟩ := Bool.and_eq_true_iff.mp hready
          exact Bool.and_eq_true_iff.mpr ⟨decide_eq_true (hstable (of_decide_eq_true hst)), hhash⟩

/-- A ready frame does not carry the hash the caller already has. -/
theorem hash_ne_of_snapshotReady {f : FrameState} {now : Nat} {w : Bool} {h : UInt64}
    (hready : snapshotReady f now w (some h) = true) : f.hash ≠ h := by
  cases w with
  | false => exact bne_iff_ne.mp hready
  | true => exact bne_iff_ne.mp (Bool.and_eq_true_iff.mp hready).2

theorem stable_of_snapshotReady {f : FrameState} {now : Nat} {w : Bool} {h : Option UInt64}
    (hw : w = true) (hready : snapshotReady f now w h = true) :
    f.effectiveSignal now = .stable := by
  cases hw
  cases h with
  | none => exact of_decide_eq_true hready
  | some h => exact of_decide_eq_true (Bool.and_eq_true_iff.mp hready).1

/-- The number in `changed_since` is not the hash of a ready frame. -/
theorem toNat_hash_ne {f : FrameState} {now : Nat} {q : SnapReq} {text : List Char} {h : Nat}
    (htext : q.changedSince = some text) (hparse : Text.fromHex (2 ^ 64) text = some h)
    (hready : snapshotReady f now q.wantStable q.changedSinceHash = true) : f.hash.toNat ≠ h := by
  have hsince : q.changedSinceHash = some (UInt64.ofNat h) := by
    rw [SnapReq.changedSinceHash, htext, Option.bind_some, hparse, Option.map_some]
  rw [hsince] at hready
  intro heq
  refine hash_ne_of_snapshotReady hready ?_
  rw [← heq, UInt64.ofNat_toNat]

/-- An answer with a picture that is no time-out, of the frame `f` at the time `now`. -/
structure Shows (lib : Codecs) (q : SnapReq) (f : FrameState) (now : Nat) (r : Response) :
    Prop where
  ready : snapshotReady f now q.wantStable q.changedSinceHash = true
  hash : r.header "x-frame-hash" = some (Text.lowerHex 16 f.hash.toNat)
  signal : r.header "x-signal" = some (signalName f.signal).toList
  picture : ∃ b, encodePng lib f = some b ∧ r.body = .bytes b

theorem pngRefusal_status {f : FrameState} {now : Nat} {r : Response}
    (h : pngRefusal f now = some r) : r.status = 503 := by
  rw [pngRefusal] at h
  split at h
  · cases h
    rfl
  · split at h
    · cases h
      rfl
    · cases h

/-- A frame that is not refused is alive and comes from a device. -/
theorem live_of_pngRefusal {f : FrameState} {now : Nat} (h : pngRefusal f now = none) :
    f.effectiveSignal now ≠ .stale ∧ f.signal ≠ .noDevice := by
  rw [pngRefusal] at h
  split at h
  · cases h
  · next hstale =>
      split at h
      · cases h
      · next hdevice => exact ⟨hstale, fun hs => hdevice (Or.inl hs)⟩

/-- A 200 answer carries the picture of the frame. -/
theorem pngAnswer_of_ok {lib : Codecs} {f : FrameState} {timedOut : Bool}
    (hok : (pngAnswer lib f timedOut).status = 200) :
    ∃ b, encodePng lib f = some b ∧ pngAnswer lib f timedOut = pngPicture f timedOut b := by
  rw [pngAnswer] at hok ⊢
  cases hpng : encodePng lib f with
  | none =>
      rw [hpng] at hok
      cases hok
  | some b => exact ⟨b, rfl, rfl⟩

theorem shows_pngPicture {lib : Codecs} {q : SnapReq} {f : FrameState} {now : Nat} {b : List UInt8}
    (hready : snapshotReady f now q.wantStable q.changedSinceHash = true)
    (hpng : encodePng lib f = some b) (timedOut : Bool) :
    Shows lib q f now (pngPicture f timedOut b) where
  ready := hready
  hash := rfl
  signal := rfl
  picture := ⟨b, hpng, rfl⟩

/-! ### The run of a request -/

/-- Whatever is published between the read that finds a frame ready and the read that takes it is
ready as well. -/
def Undisturbed (q : SnapReq) (s : State) : Action → Prop
  | .publish f =>
      s.stage = .taking → snapshotReady f s.now q.wantStable q.changedSinceHash = true
  | _ => True

/-- The frame in the channel is a published one, or the one that says there is no device. -/
def Known (s : State) (f : FrameState) : Prop := f ∈ s.published ∨ f.signal = .noDevice

/-- The run was about to answer with the published frame `f`, which was ready at the time. -/
def Began (lib : Codecs) (q : SnapReq) (start : Nat) (as : List Action) (f : FrameState)
    (now : Nat) : Prop :=
  ∃ bs m, bs <+: as ∧ Machine.run (step lib q) (init start) bs = some m ∧
    m.stage = .responding f false ∧ f ∈ m.published ∧ m.now = now ∧
    snapshotReady f now q.wantStable q.changedSinceHash = true

/-- What holds at each stage of a request that has not timed out. -/
def Sound (lib : Codecs) (q : SnapReq) (start : Nat) (as : List Action) (s : State) :
    Stage → Prop
  | .taking => ∃ t, snapshotReady s.frames.value t q.wantStable q.changedSinceHash = true
  | .responding f false =>
      Known s f ∧ ∃ t, snapshotReady f t q.wantStable q.changedSinceHash = true
  | .encoding f false => ∃ now, Began lib q start as f now
  | .done r => r.status = 200 → r.header "x-timeout" = some ['0'] →
      ∃ f now, Began lib q start as f now ∧ Shows lib q f now r
  | _ => True

theorem Began.extend {lib : Codecs} {q : SnapReq} {start : Nat} {as : List Action} {f : FrameState}
    {now : Nat} (h : Began lib q start as f now) (a : Action) :
    Began lib q start (as ++ [a]) f now := by
  obtain ⟨bs, m, hbs, hm⟩ := h
  exact ⟨bs, m, hbs.trans (List.prefix_append as [a]), hm⟩

theorem Known.mono {s t : State} (hpub : ∀ g ∈ s.published, g ∈ t.published) {f : FrameState}
    (h : Known s f) : Known t f := h.imp_left (hpub f)

/-- A step that leaves the stage alone, and the frame that is about to be taken, keeps what holds. -/
theorem Sound.extend {lib : Codecs} {q : SnapReq} {start : Nat} {as : List Action} {s t : State}
    {stage : Stage} (h : Sound lib q start as s stage) (a : Action)
    (hpub : ∀ g ∈ s.published, g ∈ t.published)
    (htaking : stage = .taking → Sound lib q start (as ++ [a]) t .taking) :
    Sound lib q start (as ++ [a]) t stage := by
  cases stage with
  | taking => exact htaking rfl
  | responding f timedOut =>
      cases timedOut with
      | false => exact ⟨h.1.mono hpub, h.2⟩
      | true => trivial
  | encoding f timedOut =>
      cases timedOut with
      | false =>
          obtain ⟨now, hbegan⟩ := h
          exact ⟨now, hbegan.extend a⟩
      | true => trivial
  | done r =>
      intro hok htime
      obtain ⟨f, now, hbegan, hshows⟩ := h hok htime
      exact ⟨f, now, hbegan.extend a, hshows⟩
  | arriving => trivial
  | freshening limit => trivial
  | beginning => trivial
  | checking deadline => trivial
  | deciding deadline => trivial
  | waiting deadline => trivial
  | late => trivial

theorem Watch.value_of_changedOrElapsed {c : Watch} {now limit : Nat} {w : Wake × Watch}
    (h : c.changedOrElapsed now limit = some w) : w.2.value = c.value := by
  rw [Watch.changedOrElapsed] at h
  split at h
  · cases h
    rfl
  · split at h
    · cases h
      rfl
    · split at h
      · cases h
        rfl
      · cases h

/-- A step of the request publishes nothing and takes no time. -/
theorem proceed_frame {lib : Codecs} {q : SnapReq} {s t : State} (h : proceed lib q s = some t) :
    t.published = s.published ∧ t.frames.value = s.frames.value := by
  rw [proceed] at h
  split at h
  · dsimp only at h
    split at h <;> cases h <;> exact ⟨rfl, rfl⟩
  · obtain ⟨w, hw, rfl⟩ := Option.map_eq_some_iff.mp h
    exact ⟨rfl, Watch.value_of_changedOrElapsed hw⟩
  · cases h
    exact ⟨rfl, rfl⟩
  · dsimp only at h
    split at h <;> cases h <;> exact ⟨rfl, rfl⟩
  · cases h
    exact ⟨rfl, rfl⟩
  · split at h <;> cases h <;> exact ⟨rfl, rfl⟩
  · split at h
    · next hw =>
        cases h
        exact ⟨rfl, Watch.value_of_changedOrElapsed hw⟩
    · cases h
      exact ⟨rfl, rfl⟩
    · cases h
      exact ⟨rfl, rfl⟩
    · cases h
  · cases h
    exact ⟨rfl, rfl⟩
  · split at h <;> cases h <;> exact ⟨rfl, rfl⟩
  · cases h
    exact ⟨rfl, rfl⟩
  · cases h

/-- A step of the request keeps what holds at its stages. -/
theorem sound_proceed {lib : Codecs} {q : SnapReq} {start : Nat} {as : List Action} {s t : State}
    (hrun : Machine.run (step lib q) (init start) as = some s)
    (hknown : Known s s.frames.value) (hsound : Sound lib q start as s s.stage)
    (h : proceed lib q s = some t) : Sound lib q start (as ++ [.proceed]) t t.stage := by
  rw [proceed] at h
  split at h
  · dsimp only at h
    split at h <;> cases h <;> trivial
  · obtain ⟨w, hw, rfl⟩ := Option.map_eq_some_iff.mp h
    trivial
  · cases h
    trivial
  · dsimp only at h
    split at h
    · next hready =>
        cases h
        exact ⟨s.now, hready⟩
    · cases h
      trivial
  · next hstage =>
      rw [hstage] at hsound
      cases h
      exact ⟨hknown, hsound⟩
  · split at h <;> cases h <;> trivial
  · split at h
    · cases h
      trivial
    · cases h
      exact nofun
    · cases h
      trivial
    · cases h
  · cases h
    trivial
  · next f timedOut hstage =>
      rw [hstage] at hsound
      split at h
      · next r hrefused =>
          cases h
          intro hok
          rw [pngRefusal_status hrefused] at hok
          cases hok
      · next hanswered =>
          cases h
          cases timedOut with
          | true => trivial
          | false =>
              obtain ⟨hfrom, t, hready⟩ := hsound
              obtain ⟨hlive, hdevice⟩ := live_of_pngRefusal hanswered
              exact ⟨s.now, as, s, List.prefix_append as _, hrun, hstage,
                hfrom.resolve_right hdevice, rfl, snapshotReady_of_ne_stale hready hlive⟩
  · next f timedOut hstage =>
      rw [hstage] at hsound
      cases h
      intro hok htime
      obtain ⟨b, hpng, hanswer⟩ := pngAnswer_of_ok hok
      rw [hanswer] at htime ⊢
      cases timedOut with
      | true =>
          have hone : some (Nat.toDigits 10 1) = some ['0'] := htime
          exact absurd hone (by decide)
      | false =>
          obtain ⟨now, hbegan⟩ := hsound
          obtain ⟨-, -, -, -, -, -, -, hready⟩ := id hbegan
          exact ⟨f, now, hbegan.extend _, shows_pngPicture hready hpng false⟩
  · cases h

/-- What holds at the stages holds all along a run in which the frame that is about to be taken
stays ready. -/
theorem sound_run (lib : Codecs) (q : SnapReq) (start : Nat) :
    ∀ as s, Machine.meets (step lib q) (Undisturbed q) (init start) as →
      Machine.run (step lib q) (init start) as = some s →
      Known s s.frames.value ∧ Sound lib q start as s s.stage := by
  refine Machine.run_history_of_meets ⟨Or.inr rfl, trivial⟩ ?_
  rintro as m a t hrun ⟨hknown, hsound⟩ hcond hstep
  cases a with
  | publish f =>
      rw [step] at hstep
      split at hstep
      · cases hstep
      · cases hstep
        refine ⟨Or.inl (List.mem_cons_self ..), hsound.extend _ (fun g => List.mem_cons_of_mem f) ?_⟩
        intro htaking
        exact ⟨m.now, hcond htaking⟩
  | hangUp =>
      cases hstep
      exact ⟨hknown, hsound.extend _ (fun _ => id) fun htaking => by rwa [htaking] at hsound⟩
  | tick d =>
      cases hstep
      exact ⟨hknown, hsound.extend _ (fun _ => id) fun htaking => by rwa [htaking] at hsound⟩
  | proceed =>
      obtain ⟨hpub, hvalue⟩ := proceed_frame hstep
      refine ⟨?_, sound_proceed hrun hknown hsound hstep⟩
      rw [hvalue]
      exact hknown.mono fun g hg => by rw [hpub]; exact hg

/-- In a run that publishes nothing unready between the two reads, a 200 answer that is no time-out
shows one published frame, ready when the answer began: its picture, its hash and its signal. -/
theorem shows_ready_frame (lib : Codecs) (q : SnapReq) (start : Nat) (as : List Action) (s : State)
    (r : Response) (hmeets : Machine.meets (step lib q) (Undisturbed q) (init start) as)
    (hrun : Machine.run (step lib q) (init start) as = some s) (hdone : s.stage = .done r)
    (hok : r.status = 200) (htime : r.header "x-timeout" = some ['0']) :
    ∃ f now, Began lib q start as f now ∧ Shows lib q f now r ∧
      (q.wait = some "stable".toList → f.effectiveSignal now = .stable) ∧
      ∀ text, q.changedSince = some text → r.header "x-frame-hash" ≠ some text ∧
        ∀ h, Text.fromHex (2 ^ 64) text = some h → f.hash.toNat ≠ h := by
  obtain ⟨-, hsound⟩ := sound_run lib q start as s hmeets hrun
  rw [hdone] at hsound
  obtain ⟨f, now, hbegan, hshows⟩ := hsound hok htime
  have hready := hshows.ready
  refine ⟨f, now, hbegan, hshows, fun hwait => ?_, fun text htext => ?_⟩
  · exact stable_of_snapshotReady (decide_eq_true hwait) hready
  · have hhash : ∀ h, Text.fromHex (2 ^ 64) text = some h → f.hash.toNat ≠ h :=
      fun h hparse => toNat_hash_ne htext hparse hready
    refine ⟨fun hheader => ?_, hhash⟩
    rw [hshows.hash, Option.some.injEq] at hheader
    exact hhash _ (hheader ▸ Text.fromHex_lowerHex f.hash.toNat_lt 16) rfl

/-- A screen with one pixel, captured when the clock starts. -/
def onePixel (hash : UInt64) (signal : Signal) : FrameState :=
  ⟨none, .rgb [1, 2, 3], 1, 1, hash, signal, 1, 0⟩

/-- Image libraries that take the pixels for the file. -/
def rawPixels : Codecs := ⟨fun _ => none, fun image => some image.pixels⟩

/-- A request for a stable frame that is answered with the frame it found, or with `between`. -/
def oneRequest (between : List Action) : List Action :=
  [.publish (onePixel 10 .stable), .proceed, .proceed, .proceed] ++ between ++
    [.proceed, .proceed, .proceed]

def waitStable : SnapReq := ⟨some "stable".toList, none, none⟩

/-- Nothing at all is published between the two reads. -/
def quiet (s : State) : Action → Bool
  | .publish _ => s.stage ≠ .taking
  | _ => true

theorem undisturbed_of_quiet {q : SnapReq} {s : State} {a : Action} (h : quiet s a = true) :
    Undisturbed q s a := by
  cases a with
  | publish f => exact fun htaking => absurd htaking (of_decide_eq_true h)
  | hangUp => trivial
  | tick d => trivial
  | proceed => trivial

theorem shows_ready_frame_stable :
    ∃ f now, Began rawPixels waitStable 0 (oneRequest []) f now ∧
      Shows rawPixels waitStable f now (pngPicture (onePixel 10 .stable) false [1, 2, 3]) ∧
      (waitStable.wait = some "stable".toList → f.effectiveSignal now = .stable) ∧
      ∀ text, waitStable.changedSince = some text →
        (pngPicture (onePixel 10 .stable) false [1, 2, 3]).header "x-frame-hash" ≠ some text ∧
        ∀ h, Text.fromHex (2 ^ 64) text = some h → f.hash.toNat ≠ h :=
  shows_ready_frame rawPixels waitStable 0 (oneRequest [])
    ⟨0, ⟨onePixel 10 .stable, 1, 1, false⟩, [onePixel 10 .stable],
      .done (pngPicture (onePixel 10 .stable) false [1, 2, 3])⟩ _
    (Machine.meets_of_check (fun _ _ => undisturbed_of_quiet) (by decide)) rfl rfl rfl rfl

/-- A frame published between the two reads is what the request answers with: a stable screen was
asked for and found, and one that is switching modes is shown as such. -/
theorem shows_unready_frame :
    ∃ s r, Machine.run (step rawPixels waitStable) (init 0)
        (oneRequest [.publish (onePixel 11 .modeSwitching)]) = some s ∧
      s.stage = .done r ∧ r.status = 200 ∧ r.header "x-timeout" = some ['0'] ∧
      r.header "x-signal" = some "mode_switching".toList ∧
      ∀ f ∈ s.published, ∀ now, ¬Shows rawPixels waitStable f now r := by
  refine ⟨_, _, rfl, rfl, rfl, rfl, rfl, fun f hf now hshows => ?_⟩
  rcases List.mem_cons.mp hf with rfl | hf
  · have hstable := signal_of_effectiveSignal (stable_of_snapshotReady rfl hshows.ready)
    cases hstable
  · cases List.mem_singleton.mp hf
    exact absurd hshows.hash (by decide)

end Snapshot

end Hdmicap

end Paniolo
