import Paniolo.Hdmicap.Snapshot
import Paniolo.Library.Entries

/-!
# The preview streams

`GET /preview` of `server.rs`: any number of browsers that watch the newest
frame as a stream of JPEGs, beside the capture thread that publishes frames. A
frame that does not come as a JPEG is encoded, by whichever stream comes first;
the others find it in the preview cache. `demand.rs` counts the open streams
for the pace of the capture thread.

A step of a stream ends where it waits or where it touches what it shares with
the others: the watch channel, the permits and the cache. Each stream keeps a
record of what it looked at and what came of it; `preview_faithful` is about
these records.
-/

namespace Paniolo

namespace Hdmicap

namespace Preview

open Snapshot (FrameState PixelData RgbImage Signal)

def EXPENSIVE_PERMITS : Nat := 2

/-! ### The pictures -/

def PREVIEW_MAX_WIDTH : Nat := 1920

def PLACEHOLDER_DEFAULT_DIMS : UInt32 × UInt32 := (640, 360)

/-- The JPEG encoder, for packed pixels and their dimensions, and the placeholder that is drawn for
some dimensions: when they come to an end, and with what bytes. -/
structure Encoders where
  encode : List UInt8 → UInt16 → UInt16 → Option (List UInt8)
  crossed : UInt32 × UInt32 → Option (List UInt8)

/-- The mean of four lumas with the chroma of their block. -/
def nv12PixelHalf (y cbcr : List UInt8) (w row col : Nat) : List UInt8 :=
  let yi := row * 2 * w + col * 2
  let ci := row * w + col * 2
  match y[yi]?, y[yi + 1]?, y[yi + w]?, y[yi + w + 1]?, cbcr[ci]?, cbcr[ci + 1]? with
  | some a, some b, some c, some d, some cb, some cr =>
      Snapshot.ycbcrToRgb
        (UInt8.ofNat ((a.toNat + b.toNat + c.toNat + d.toNat + 2) / 4)) cb cr
  | _, _, _, _, _, _ => [0, 0, 0]

def nv12ToRgbHalf (y cbcr : List UInt8) (w h : Nat) : RgbImage :=
  ⟨w / 2, h / 2, (List.range (h / 2)).flatMap fun row => (List.range (w / 2)).flatMap fun col =>
    nv12PixelHalf y cbcr w row col⟩

def Encoders.encodeImage (lib : Encoders) (img : RgbImage) : Option (List UInt8) :=
  lib.encode img.pixels (UInt16.ofNat img.width) (UInt16.ofNat img.height)

def encodePreviewJpeg (lib : Encoders) (f : FrameState) : Option (List UInt8) :=
  let w := f.width.toNat
  let h := f.height.toNat
  match f.pixels with
  | .nv12 y cbcr =>
      if PREVIEW_MAX_WIDTH < w then lib.encodeImage (nv12ToRgbHalf y cbcr w h)
      else lib.encodeImage (Snapshot.nv12ToRgb y cbcr w h)
  | .rgb buf => if 3 * (w * h) ≤ buf.length then lib.encodeImage ⟨w, h, buf⟩ else none
  | .empty => none

def placeholderJpeg (lib : Encoders) (dims : Option (UInt32 × UInt32)) : Option (List UInt8) :=
  lib.crossed ((dims.filter fun d => decide (0 < d.1 ∧ 0 < d.2)).getD PLACEHOLDER_DEFAULT_DIMS)

/-- The bytes that a live frame is sent with, if it can be sent. -/
def frameJpeg (lib : Encoders) (f : FrameState) : Option (List UInt8) :=
  f.jpeg.or (encodePreviewJpeg lib f)

/-! ### The pace of the capture thread -/

def TARGET_FRAME_INTERVAL : Nat := 33000000

def IDLE_INTERVAL : Nat := 200000000

def MAX_IDLE_INTERVAL : Nat := 1000000000

def PULL_LINGER : Nat := 300000000

def captureInterval (streams : Nat) (sincePull : Option Nat) : Nat :=
  if 0 < streams ∨ sincePull.any (· < PULL_LINGER) then TARGET_FRAME_INTERVAL else IDLE_INTERVAL

/-- The open streams and the last pull. -/
structure Demand where
  streams : Nat
  lastPull : Option Nat

def Demand.interval (d : Demand) (now : Nat) : Nat :=
  min (captureInterval d.streams (d.lastPull.map (now - ·))) MAX_IDLE_INTERVAL

/-! ### A stream -/

/-- What a stream has put on the wire last, or has tried to. -/
inductive Served where
  | frame (at' : Nat)
  | failed (at' : Nat)
  | placeholder (sig : Signal)
deriving DecidableEq

def shouldAttemptLive (lastServed : Option Served) (capturedAt : Nat) : Bool :=
  lastServed != some (.frame capturedAt) && lastServed != some (.failed capturedAt)

/-- The frame describes the screen now. -/
def live (f : FrameState) (now : Nat) : Bool :=
  decide ((f.effectiveSignal now = .stable ∨ f.effectiveSignal now = .modeSwitching) ∧
    0 < f.width ∧ 0 < f.height)

/-- A frame with the moment at which the stream has looked at it. -/
structure Look where
  frame : FrameState
  now : Nat

namespace Look

def live (l : Look) : Bool := Preview.live l.frame l.now

def signal (l : Look) : Signal := l.frame.effectiveSignal l.now

def dims (l : Look) : UInt32 × UInt32 := (l.frame.width, l.frame.height)

end Look

inductive Outcome where
  | sent (jpeg : List UInt8)
  | failed
  | placeholder (dims : Option (UInt32 × UInt32)) (jpeg : Option (List UInt8))

structure Attempt where
  look : Look
  outcome : Outcome

def Attempt.served (a : Attempt) : Served :=
  match a.outcome with
  | .sent _ => .frame a.look.frame.capturedAt
  | .failed => .failed a.look.frame.capturedAt
  | .placeholder _ _ => .placeholder a.look.signal

/-- Where a stream is: it waits for the next tick, for a permit, for the cache or for an encoder. -/
inductive Stage where
  | ticking
  | acquiring (l : Look)
  | holding (l : Look)
  | encoding (l : Look)
  | drawing (l : Look) (dims : Option (UInt32 × UInt32))
  | gone

def Stage.hasPermit : Stage → Bool
  | .holding _ => true
  | .encoding _ => true
  | _ => false

def Stage.watches : Stage → Bool
  | .gone => false
  | _ => true

/-- `attempts`, the newest first, is a record that no step reads. -/
structure Viewer where
  stage : Stage
  lastServed : Option Served
  lastDims : Option (UInt32 × UInt32)
  attempts : List Attempt

namespace Viewer

def new : Viewer := ⟨.ticking, none, none, []⟩

def goto (v : Viewer) (stage : Stage) : Viewer := { v with stage := stage }

/-- An attempt is over. -/
def conclude (v : Viewer) (a : Attempt) : Viewer :=
  { v with stage := .ticking, lastServed := some a.served, attempts := a :: v.attempts }

/-- A tick. -/
def look (v : Viewer) (l : Look) : Viewer :=
  if l.live then
    let v := { v with lastDims := some l.dims }
    if shouldAttemptLive v.lastServed l.frame.capturedAt then
      match l.frame.jpeg with
      | some raw => v.conclude ⟨l, .sent raw⟩
      | none => v.goto (.acquiring l)
    else v
  else if v.lastServed = some (.placeholder l.signal) then v
  else v.goto (.drawing l v.lastDims)

end Viewer

/-! ### The daemon -/

/-- `taken` counts the permits and `waiting` the stream guards that other requests have. -/
structure State where
  now : Nat
  value : FrameState
  published : List FrameState
  cache : Option (Nat × List UInt8)
  permits : Nat
  taken : Nat
  demand : Demand
  waiting : Nat
  viewers : List Viewer

/-- What a stream does next. -/
inductive Move where
  | leave
  | look
  | acquire
  | lookup
  | encode (panics : Bool)
  | draw (panics : Bool)

/-- Other requests pull a frame, wait with a stream guard, and take permits. -/
inductive Action where
  | tick (d : Nat)
  | publish (f : FrameState)
  | pull
  | wait
  | waited
  | take
  | give
  | join
  | viewer (k : Nat) (m : Move)

namespace State

def new (now : Nat) : State :=
  ⟨now, FrameState.noDevice now, [FrameState.noDevice now], none, EXPENSIVE_PERMITS, 0, ⟨0, none⟩,
    0, []⟩

def setViewer (s : State) (k : Nat) (v : Viewer) : State :=
  { s with viewers := s.viewers.set k v }

/-- A permit is given back. -/
def release (s : State) : State := { s with permits := s.permits + 1 }

/-- The stream is dropped, with all that it holds. -/
def leave (s : State) (k : Nat) (v : Viewer) : State :=
  let s := if v.stage.hasPermit then s.release else s
  { s.setViewer k (v.goto .gone) with demand := { s.demand with streams := s.demand.streams - 1 } }

def acquire (s : State) (k : Nat) (v : Viewer) (l : Look) : Option State :=
  if 0 < s.permits then
    some { s.setViewer k (v.goto (.holding l)) with permits := s.permits - 1 }
  else none

def lookup (s : State) (k : Nat) (v : Viewer) (l : Look) : State :=
  match s.cache with
  | some (at', bytes) =>
      if at' = l.frame.capturedAt then (s.setViewer k (v.conclude ⟨l, .sent bytes⟩)).release
      else s.setViewer k (v.goto (.encoding l))
  | none => s.setViewer k (v.goto (.encoding l))

/-- The encoder is done, or its task panicked. -/
def encode (lib : Encoders) (s : State) (k : Nat) (v : Viewer) (l : Look) (panics : Bool) : State :=
  match if panics then none else encodePreviewJpeg lib l.frame with
  | some bytes => { (s.setViewer k (v.conclude ⟨l, .sent bytes⟩)).release with
      cache := some (l.frame.capturedAt, bytes) }
  | none => (s.setViewer k (v.conclude ⟨l, .failed⟩)).release

def draw (lib : Encoders) (s : State) (k : Nat) (v : Viewer) (l : Look)
    (dims : Option (UInt32 × UInt32)) (panics : Bool) : State :=
  s.setViewer k (v.conclude
    ⟨l, .placeholder dims (if panics then none else placeholderJpeg lib dims)⟩)

def move (lib : Encoders) (s : State) (k : Nat) (v : Viewer) : Move → Option State
  | .leave => if v.stage.watches then some (s.leave k v) else none
  | .look =>
      match v.stage with
      | .ticking => some (s.setViewer k (v.look ⟨s.value, s.now⟩))
      | _ => none
  | .acquire =>
      match v.stage with
      | .acquiring l => s.acquire k v l
      | _ => none
  | .lookup =>
      match v.stage with
      | .holding l => some (s.lookup k v l)
      | _ => none
  | .encode panics =>
      match v.stage with
      | .encoding l => some (s.encode lib k v l panics)
      | _ => none
  | .draw panics =>
      match v.stage with
      | .drawing l dims => some (s.draw lib k v l dims panics)
      | _ => none

def step (lib : Encoders) (s : State) : Action → Option State
  | .tick d => some { s with now := s.now + d }
  | .publish f => some { s with value := f, published := f :: s.published }
  | .pull => some { s with demand := { s.demand with lastPull := some s.now } }
  | .wait => some { s with
      waiting := s.waiting + 1, demand := { s.demand with streams := s.demand.streams + 1 } }
  | .waited =>
      if 0 < s.waiting then
        some { s with
          waiting := s.waiting - 1, demand := { s.demand with streams := s.demand.streams - 1 } }
      else none
  | .take =>
      if 0 < s.permits then some { s with permits := s.permits - 1, taken := s.taken + 1 } else none
  | .give => if 0 < s.taken then some { s.release with taken := s.taken - 1 } else none
  | .join => some { s with
      viewers := s.viewers ++ [.new]
      demand := { s.demand with streams := s.demand.streams + 1 } }
  | .viewer k m => (s.viewers[k]?).bind fun v => s.move lib k v m

/-- The capture thread stamps its frames one after the other, and not ahead of the clock. -/
def Stamped (s : State) : Action → Prop
  | .publish f => s.value.capturedAt < f.capturedAt ∧ f.capturedAt ≤ s.now
  | _ => True

end State

/-! ### What the streams send -/

/-- The stream has seen a published frame, at a moment of the past. -/
structure Look.Known (published : List FrameState) (now : Nat) (l : Look) : Prop where
  published : l.frame ∈ published
  stamped : l.frame.capturedAt ≤ l.now
  past : l.now ≤ now

/-- What comes of a look is what should. -/
def Attempt.Right (lib : Encoders) (a : Attempt) : Prop :=
  match a.outcome with
  | .sent jpeg => a.look.live = true ∧ frameJpeg lib a.look.frame = some jpeg
  | .failed => a.look.live = true ∧ a.look.frame.jpeg = none
  | .placeholder dims jpeg => a.look.live = false ∧ (jpeg = none ∨ jpeg = placeholderJpeg lib dims)

/-- The size of the last live frame. -/
def liveDims (attempts : List Attempt) : Option (UInt32 × UInt32) :=
  (attempts.find? (·.look.live)).map (·.look.dims)

/-- An attempt after the older ones. -/
structure Attempt.After (lib : Encoders) (older : List Attempt) (a : Attempt) : Prop where
  right : a.Right lib
  forward : ∀ b ∈ older, b.look.frame.capturedAt ≤ a.look.frame.capturedAt
  /-- A live frame is tried once. -/
  once : a.look.live = true → ∀ b ∈ older, b.look.frame.capturedAt < a.look.frame.capturedAt
  /-- A placeholder comes when the signal has changed. -/
  changed : a.look.live = false → ∀ b, older.head? = some b → b.look.live = false →
    b.look.signal ≠ a.look.signal
  /-- It has the size of the last live frame. -/
  size : ∀ dims jpeg, a.outcome = .placeholder dims jpeg →
    dims = liveDims older

def Recorded (lib : Encoders) : List Attempt → Prop
  | [] => True
  | a :: older => a.After lib older ∧ Recorded lib older

structure State.Sound (lib : Encoders) (s : State) : Prop where
  records : ∀ (k : Nat) (v : Viewer), s.viewers[k]? = some v → Recorded lib v.attempts ∧
    ∀ a ∈ v.attempts, a.look.Known s.published s.now
  encoders : s.taken + s.viewers.countP (·.stage.hasPermit) ≤ EXPENSIVE_PERMITS
  /-- The capture thread goes at full rate while somebody watches. -/
  pace : ∀ (k : Nat) (v : Viewer), s.viewers[k]? = some v → v.stage.watches = true →
    s.demand.interval s.now = TARGET_FRAME_INTERVAL

section Live

variable {f : FrameState} {now later : Nat}

/-- A frame that is not alive does not come back to life. -/
theorem live_of_later (h : live f later = true) (hle : now ≤ later) : live f now = true := by
  rw [live, decide_eq_true_eq] at h ⊢
  have hfresh : f.effectiveSignal later ≠ .stale := by
    rcases h.1 with h | h
    · rw [h]
      exact fun h => Signal.noConfusion h
    · rw [h]
      exact fun h => Signal.noConfusion h
  have hsame : f.effectiveSignal now = f.effectiveSignal later := by
    rw [FrameState.effectiveSignal] at hfresh ⊢
    rw [FrameState.effectiveSignal]
    split at hfresh
    next => exact absurd rfl hfresh
    next hlater =>
      have hnow : ¬((f.signal = .stable ∨ f.signal = .modeSwitching) ∧
          Snapshot.STALE_AFTER < now - f.capturedAt) :=
        fun hold => hlater ⟨hold.1, Nat.lt_of_lt_of_le hold.2 (Nat.sub_le_sub_right hle _)⟩
      rw [if_neg hlater, if_neg hnow]
  rw [hsame]
  exact h

end Live

section Size

variable {a : Attempt} {older : List Attempt}

theorem liveDims_cons_live (h : a.look.live = true) :
    liveDims (a :: older) = some a.look.dims := by
  simp only [liveDims, List.find?_cons, h, Option.map_some]

theorem liveDims_cons_dead (h : a.look.live = false) : liveDims (a :: older) = liveDims older := by
  simp only [liveDims, List.find?_cons, h]

end Size

/-- What the capture thread has published. -/
structure History (published : List FrameState) (value : FrameState) (now : Nat) : Prop where
  mem : value ∈ published
  newest : ∀ f ∈ published, f.capturedAt ≤ value.capturedAt
  unique : ∀ f ∈ published, ∀ g ∈ published, f.capturedAt = g.capturedAt → f = g
  past : value.capturedAt ≤ now

theorem History.publish {published : List FrameState} {value f : FrameState} {now : Nat}
    (h : History published value now) (hnew : value.capturedAt < f.capturedAt)
    (hpast : f.capturedAt ≤ now) : History (f :: published) f now where
  mem := List.mem_cons_self
  newest g hg := by
    rcases List.mem_cons.mp hg with rfl | hg
    · exact Nat.le_refl _
    · exact (h.newest g hg).trans (Nat.le_of_lt hnew)
  unique g hg g' hg' heq := by
    have hold : ∀ e ∈ published, e.capturedAt ≠ f.capturedAt := fun e he =>
      Nat.ne_of_lt (Nat.lt_of_le_of_lt (h.newest e he) hnew)
    rcases List.mem_cons.mp hg with hgf | hgold
    · rcases List.mem_cons.mp hg' with hgf' | hgold'
      · rw [hgf, hgf']
      · exact absurd (heq.symm.trans (congrArg _ hgf)) (hold g' hgold')
    · rcases List.mem_cons.mp hg' with hgf' | hgold'
      · exact absurd (heq.trans (congrArg _ hgf')) (hold g hgold)
      · exact h.unique g hgold g' hgold' heq
  past := hpast

theorem Look.Known.mono {published published' : List FrameState} {now now' : Nat} {l : Look}
    (h : l.Known published now) (hpublished : ∀ f ∈ published, f ∈ published')
    (hnow : now ≤ now') : l.Known published' now' :=
  ⟨hpublished _ h.published, h.stamped, h.past.trans hnow⟩

namespace Viewer

/-- A live frame that is about to be encoded. -/
structure Pending (published : List FrameState) (now : Nat) (v : Viewer) (l : Look) : Prop where
  known : l.Known published now
  live : l.live = true
  jpeg : l.frame.jpeg = none
  newer : ∀ a ∈ v.attempts, a.look.frame.capturedAt < l.frame.capturedAt
  lastDims : v.lastDims = some l.dims

/-- A placeholder that is about to be drawn. -/
structure Drawing (published : List FrameState) (now : Nat) (v : Viewer) (l : Look)
    (dims : Option (UInt32 × UInt32)) : Prop where
  known : l.Known published now
  live : l.live = false
  forward : ∀ a ∈ v.attempts, a.look.frame.capturedAt ≤ l.frame.capturedAt
  changed : ∀ a, v.attempts.head? = some a → a.look.live = false → a.look.signal ≠ l.signal
  size : dims = liveDims v.attempts
  lastDims : v.lastDims = dims

def Standing (published : List FrameState) (now : Nat) (v : Viewer) : Stage → Prop
  | .ticking => v.lastDims = liveDims v.attempts
  | .acquiring l => v.Pending published now l
  | .holding l => v.Pending published now l
  | .encoding l => v.Pending published now l
  | .drawing l dims => v.Drawing published now l dims
  | .gone => True

structure Inv (lib : Encoders) (published : List FrameState) (now : Nat) (v : Viewer) : Prop where
  recorded : Recorded lib v.attempts
  known : ∀ a ∈ v.attempts, a.look.Known published now
  lastServed : v.lastServed = v.attempts.head?.map Attempt.served
  standing : v.Standing published now v.stage

variable {lib : Encoders} {published published' : List FrameState} {now now' : Nat} {v : Viewer}
  {l : Look}

theorem inv_new (lib : Encoders) (published : List FrameState) (now : Nat) :
    new.Inv lib published now :=
  ⟨trivial, fun _ ha => absurd ha List.not_mem_nil, rfl, rfl⟩

theorem Pending.mono (h : v.Pending published now l)
    (hpublished : ∀ f ∈ published, f ∈ published') (hnow : now ≤ now') :
    v.Pending published' now' l :=
  ⟨h.known.mono hpublished hnow, h.live, h.jpeg, h.newer, h.lastDims⟩

theorem Inv.mono (h : v.Inv lib published now) (hpublished : ∀ f ∈ published, f ∈ published')
    (hnow : now ≤ now') : v.Inv lib published' now' where
  recorded := h.recorded
  known a ha := (h.known a ha).mono hpublished hnow
  lastServed := h.lastServed
  standing := by
    have hstanding := h.standing
    cases hstage : v.stage with
    | ticking =>
        rw [hstage] at hstanding
        exact hstanding
    | acquiring l =>
        rw [hstage] at hstanding
        exact hstanding.mono hpublished hnow
    | holding l =>
        rw [hstage] at hstanding
        exact hstanding.mono hpublished hnow
    | encoding l =>
        rw [hstage] at hstanding
        exact hstanding.mono hpublished hnow
    | drawing l dims =>
        rw [hstage] at hstanding
        exact ⟨hstanding.known.mono hpublished hnow, hstanding.live, hstanding.forward,
          hstanding.changed, hstanding.size, hstanding.lastDims⟩
    | gone => trivial

end Viewer

namespace Attempt

variable {lib : Encoders} {a : Attempt}

theorem Right.served_of_live (h : a.Right lib) (hlive : a.look.live = true) :
    a.served = .frame a.look.frame.capturedAt ∨ a.served = .failed a.look.frame.capturedAt := by
  rw [Right] at h
  rw [served]
  cases hout : a.outcome with
  | sent jpeg => exact .inl rfl
  | failed => exact .inr rfl
  | placeholder dims jpeg =>
      rw [hout] at h
      exact absurd (h.1.symm.trans hlive) Bool.false_ne_true

theorem Right.served_of_not_live (h : a.Right lib) (hlive : a.look.live = false) :
    a.served = .placeholder a.look.signal := by
  rw [Right] at h
  rw [served]
  cases hout : a.outcome with
  | sent jpeg =>
      rw [hout] at h
      exact absurd (hlive.symm.trans h.1) Bool.false_ne_true
  | failed =>
      rw [hout] at h
      exact absurd (hlive.symm.trans h.1) Bool.false_ne_true
  | placeholder dims jpeg => rfl

theorem Right.live_of_served {t : Nat} (h : a.Right lib)
    (hserved : a.served = .frame t ∨ a.served = .failed t) :
    a.look.live = true ∧ a.look.frame.capturedAt = t := by
  by_cases hlive : a.look.live = true
  · refine ⟨hlive, ?_⟩
    rcases h.served_of_live hlive with hs | hs
    · rw [hs] at hserved
      rcases hserved with heq | heq
      · exact Served.frame.inj heq
      · exact Served.noConfusion heq
    · rw [hs] at hserved
      rcases hserved with heq | heq
      · exact Served.noConfusion heq
      · exact Served.failed.inj heq
  · rw [Bool.not_eq_true] at hlive
    rw [h.served_of_not_live hlive] at hserved
    rcases hserved with heq | heq
    · exact Served.noConfusion heq
    · exact Served.noConfusion heq

/-- A live frame that is newer than everything looked at before. -/
theorem After.of_live {older : List Attempt} (hlive : a.look.live = true)
    (hnewer : ∀ b ∈ older, b.look.frame.capturedAt < a.look.frame.capturedAt)
    (hright : a.Right lib) : a.After lib older where
  right := hright
  forward b hb := Nat.le_of_lt (hnewer b hb)
  once _ := hnewer
  changed hdead := absurd (hdead.symm.trans hlive) Bool.false_ne_true
  size dims jpeg hout := by
    rw [Right, hout] at hright
    exact absurd (hright.1.symm.trans hlive) Bool.false_ne_true

end Attempt

namespace Viewer

variable {lib : Encoders} {published : List FrameState} {now : Nat} {v : Viewer} {l : Look}

theorem inv_conclude {a : Attempt} (hrecorded : Recorded lib v.attempts)
    (hall : ∀ b ∈ v.attempts, b.look.Known published now) (hknown : a.look.Known published now)
    (hafter : a.After lib v.attempts) (hdims : v.lastDims = liveDims (a :: v.attempts)) :
    (v.conclude a).Inv lib published now where
  recorded := ⟨hafter, hrecorded⟩
  known b hb := by
    rcases List.mem_cons.mp hb with rfl | hb
    · exact hknown
    · exact hall b hb
  lastServed := rfl
  standing := hdims

/-- A frame that was waited for, with what came of it. -/
theorem Inv.conclude_pending (h : v.Inv lib published now) (hpending : v.Pending published now l)
    {outcome : Outcome} (hright : Attempt.Right lib ⟨l, outcome⟩) :
    (v.conclude ⟨l, outcome⟩).Inv lib published now := by
  refine inv_conclude h.recorded h.known hpending.known
    (.of_live hpending.live hpending.newer hright) ?_
  rw [liveDims_cons_live hpending.live]
  exact hpending.lastDims

theorem Inv.conclude_drawing {dims : Option (UInt32 × UInt32)} (h : v.Inv lib published now)
    (hdrawing : v.Drawing published now l dims) {jpeg : Option (List UInt8)}
    (hjpeg : jpeg = none ∨ jpeg = placeholderJpeg lib dims) :
    (v.conclude ⟨l, .placeholder dims jpeg⟩).Inv lib published now := by
  refine inv_conclude h.recorded h.known hdrawing.known ⟨⟨hdrawing.live, hjpeg⟩, hdrawing.forward,
    fun hlive => absurd (hdrawing.live.symm.trans hlive) Bool.false_ne_true,
    fun _ => hdrawing.changed, fun dims' jpeg' hout => ?_⟩ ?_
  · cases hout
    exact hdrawing.size
  · rw [liveDims_cons_dead hdrawing.live, ← hdrawing.size]
    exact hdrawing.lastDims

/-- A frame that is to be attempted is newer than everything looked at before. -/
theorem Inv.newer (h : v.Inv lib published now) (hl : l.Known published now) (hlive : l.live = true)
    (hunique : ∀ f ∈ published, ∀ g ∈ published, f.capturedAt = g.capturedAt → f = g)
    (hforward : ∀ a ∈ v.attempts, a.look.frame.capturedAt ≤ l.frame.capturedAt ∧ a.look.now ≤ l.now)
    (hattempt : shouldAttemptLive v.lastServed l.frame.capturedAt = true) :
    ∀ a ∈ v.attempts, a.look.frame.capturedAt < l.frame.capturedAt := by
  have hrecorded := h.recorded
  have hserved := h.lastServed
  have hknown := h.known
  cases hattempts : v.attempts with
  | nil => exact fun a ha => absurd ha List.not_mem_nil
  | cons b older =>
      rw [hattempts] at hrecorded hserved hforward hknown
      rw [shouldAttemptLive, hserved, Bool.and_eq_true, bne_iff_ne, bne_iff_ne] at hattempt
      have hhead : b.look.frame.capturedAt < l.frame.capturedAt := by
        refine Nat.lt_of_le_of_ne (hforward b List.mem_cons_self).1 fun hsame => ?_
        by_cases hb : b.look.live = true
        · rcases hrecorded.1.right.served_of_live hb with hs | hs
          · exact hattempt.1 (congrArg some (hs.trans (congrArg _ hsame)))
          · exact hattempt.2 (congrArg some (hs.trans (congrArg _ hsame)))
        · -- the frame was dead already, and is so now
          have hframe : b.look.frame = l.frame :=
            hunique _ (hknown b List.mem_cons_self).published _ hl.published hsame
          refine hb ?_
          rw [Look.live, hframe]
          exact live_of_later hlive (hforward b List.mem_cons_self).2
      intro a ha
      rcases List.mem_cons.mp ha with rfl | ha
      · exact hhead
      · exact Nat.lt_of_le_of_lt (hrecorded.1.forward a ha) hhead

theorem look_stage (h : v.stage = .ticking) (l : Look) :
    (v.look l).stage.hasPermit = false ∧ (v.look l).stage.watches = true := by
  have hticking : v.stage.hasPermit = false ∧ v.stage.watches = true := by
    rw [h]
    exact ⟨rfl, rfl⟩
  rw [Viewer.look]
  split
  · dsimp only
    split
    · split
      · exact ⟨rfl, rfl⟩
      · exact ⟨rfl, rfl⟩
    · exact hticking
  · split
    · exact hticking
    · exact ⟨rfl, rfl⟩

/-- A live frame that is not to be attempted was so before. -/
theorem Inv.attempted (h : v.Inv lib published now) (hl : l.Known published now)
    (hunique : ∀ f ∈ published, ∀ g ∈ published, f.capturedAt = g.capturedAt → f = g)
    (hattempt : ¬shouldAttemptLive v.lastServed l.frame.capturedAt = true) :
    some l.dims = liveDims v.attempts := by
  have hrecorded := h.recorded
  have hserved := h.lastServed
  have hknown := h.known
  rw [shouldAttemptLive, Bool.and_eq_true, bne_iff_ne, bne_iff_ne, ← not_or, not_not, hserved]
    at hattempt
  cases hattempts : v.attempts with
  | nil =>
      rw [hattempts] at hattempt
      rcases hattempt with hnone | hnone
      · cases hnone
      · cases hnone
  | cons b older =>
      rw [hattempts] at hrecorded hknown hattempt
      obtain ⟨hlive, hsame⟩ := hrecorded.1.right.live_of_served
        (hattempt.imp Option.some.inj Option.some.inj)
      have hframe : b.look.frame = l.frame :=
        hunique _ (hknown b List.mem_cons_self).published _ hl.published hsame
      rw [liveDims_cons_live hlive, Look.dims, Look.dims, hframe]

theorem Inv.look {value : FrameState} (h : v.Inv lib published now) (hstage : v.stage = .ticking)
    (hhistory : History published value now) : (v.look ⟨value, now⟩).Inv lib published now := by
  have hknown : Look.Known published now ⟨value, now⟩ :=
    ⟨hhistory.mem, hhistory.past, Nat.le_refl _⟩
  have hdims : v.lastDims = liveDims v.attempts := by
    have hstanding := h.standing
    rw [hstage] at hstanding
    exact hstanding
  have hforward : ∀ a ∈ v.attempts,
      a.look.frame.capturedAt ≤ value.capturedAt ∧ a.look.now ≤ now :=
    fun a ha => ⟨hhistory.newest _ (h.known a ha).published, (h.known a ha).past⟩
  rw [Viewer.look]
  by_cases hlive : Look.live ⟨value, now⟩ = true
  · rw [if_pos hlive]
    dsimp only
    by_cases hattempt : shouldAttemptLive v.lastServed value.capturedAt = true
    · rw [if_pos hattempt]
      have hnewer := h.newer hknown hlive hhistory.unique hforward hattempt
      cases hjpeg : value.jpeg with
      | some raw =>
          have hright : Attempt.Right lib ⟨⟨value, now⟩, .sent raw⟩ := by
            refine ⟨hlive, ?_⟩
            rw [frameJpeg, hjpeg, Option.some_or]
          have hsize : some (Look.dims ⟨value, now⟩) =
              liveDims (⟨⟨value, now⟩, .sent raw⟩ :: v.attempts) :=
            (liveDims_cons_live (a := ⟨⟨value, now⟩, .sent raw⟩) hlive).symm
          exact inv_conclude h.recorded h.known hknown (.of_live hlive hnewer hright) hsize
      | none => exact ⟨h.recorded, h.known, h.lastServed, hknown, hlive, hjpeg, hnewer, rfl⟩
    · rw [if_neg hattempt]
      refine ⟨h.recorded, h.known, h.lastServed, ?_⟩
      change Standing published now _ v.stage
      rw [hstage]
      exact h.attempted hknown hhistory.unique hattempt
  · rw [if_neg hlive]
    rw [Bool.not_eq_true] at hlive
    by_cases hsame : v.lastServed = some (.placeholder (Look.signal ⟨value, now⟩))
    · rw [if_pos hsame]
      exact h
    · rw [if_neg hsame]
      refine ⟨h.recorded, h.known, h.lastServed, hknown, hlive, fun a ha => (hforward a ha).1,
        fun a ha hdead heq => hsame ?_, hdims, rfl⟩
      have hrecorded := h.recorded
      change v.attempts.head? = some a at ha
      rw [h.lastServed, ha, Option.map_some]
      cases hattempts : v.attempts with
      | nil =>
          rw [hattempts] at ha
          cases ha
      | cons b older =>
          rw [hattempts] at ha hrecorded
          cases ha
          rw [hrecorded.1.right.served_of_not_live hdead, heq]

end Viewer

/-! ### Every run -/

namespace State

variable {lib : Encoders} {s t : State} {k : Nat} {v v' : Viewer} {l : Look}

structure Inv (lib : Encoders) (s : State) : Prop where
  history : History s.published s.value s.now
  cache : ∀ t bytes, s.cache = some (t, bytes) →
    ∃ f ∈ s.published, f.capturedAt = t ∧ encodePreviewJpeg lib f = some bytes
  permits : s.permits + s.taken + s.viewers.countP (·.stage.hasPermit) = EXPENSIVE_PERMITS
  streams : s.demand.streams = s.waiting + s.viewers.countP (·.stage.watches)
  viewers : ∀ (k : Nat) (v : Viewer), s.viewers[k]? = some v → v.Inv lib s.published s.now

theorem interval_of_streams {d : Demand} {now : Nat} (h : 0 < d.streams) :
    d.interval now = TARGET_FRAME_INTERVAL := by
  rw [Demand.interval, captureInterval, if_pos (.inl h)]
  decide

theorem Inv.sound (h : s.Inv lib) : s.Sound lib where
  records k v hv := ⟨(h.viewers k v hv).recorded, (h.viewers k v hv).known⟩
  encoders := by
    have hpermits := h.permits
    omega
  pace k v hv hwatches := by
    refine interval_of_streams ?_
    have hpos : 0 < s.viewers.countP (·.stage.watches) :=
      List.countP_pos_iff.mpr ⟨v, List.mem_of_getElem? hv, hwatches⟩
    rw [h.streams]
    omega

theorem inv_new (lib : Encoders) (now : Nat) : (new now).Inv lib where
  history := ⟨List.mem_cons_self, fun f hf => by rw [List.mem_singleton.mp hf]; rfl,
    fun f hf g hg _ => by rw [List.mem_singleton.mp hf, List.mem_singleton.mp hg],
    Nat.le_refl now⟩
  cache t bytes hcache := by cases hcache
  permits := rfl
  streams := rfl
  viewers k v hv := by cases hv

/-- A stream goes on, and takes or gives back what the state counts. -/
theorem Inv.set (h : s.Inv lib) (hv : s.viewers[k]? = some v)
    (hv' : v'.Inv lib s.published s.now) (hhistory : t.published = s.published)
    (hvalue : t.value = s.value) (hnow : t.now = s.now)
    (hviewers : t.viewers = s.viewers.set k v')
    (hcache : ∀ at' bytes, t.cache = some (at', bytes) →
      ∃ f ∈ s.published, f.capturedAt = at' ∧ encodePreviewJpeg lib f = some bytes)
    (hpermits : t.permits + t.taken + (if v'.stage.hasPermit then 1 else 0) =
      s.permits + s.taken + if v.stage.hasPermit then 1 else 0)
    (hstreams : t.demand.streams + s.waiting + (if v.stage.watches then 1 else 0) =
      s.demand.streams + t.waiting + if v'.stage.watches then 1 else 0) :
    t.Inv lib where
  history := by
    rw [hhistory, hvalue, hnow]
    exact h.history
  cache := by
    rw [hhistory]
    exact hcache
  permits := by
    have hcount := Entries.countP_set hv v' (·.stage.hasPermit)
    have hall := h.permits
    rw [hviewers]
    omega
  streams := by
    have hcount := Entries.countP_set hv v' (·.stage.watches)
    have hall := h.streams
    rw [hviewers]
    omega
  viewers := by
    rw [hviewers, hhistory, hnow]
    exact Entries.forall_set hv' fun j b _ hb => h.viewers j b hb

/-- A stream goes on by itself. -/
theorem Inv.setViewer (h : s.Inv lib) (hv : s.viewers[k]? = some v)
    (hv' : v'.Inv lib s.published s.now) (hpermit : v'.stage.hasPermit = v.stage.hasPermit)
    (hwatches : v'.stage.watches = v.stage.watches) : (s.setViewer k v').Inv lib := by
  refine h.set hv hv' rfl rfl rfl rfl h.cache ?_ ?_
  · rw [hpermit]
    rfl
  · rw [hwatches]
    rfl

/-- A stream concludes with a permit in its hand, and gives it back. -/
theorem Inv.conclude {a : Attempt} (h : s.Inv lib) (hv : s.viewers[k]? = some v)
    (hv' : (v.conclude a).Inv lib s.published s.now) (hpermit : v.stage.hasPermit = true)
    (hwatches : v.stage.watches = true) (hviewers : t.viewers = s.viewers.set k (v.conclude a))
    (hsame : t.published = s.published ∧ t.value = s.value ∧ t.now = s.now ∧
      t.demand = s.demand ∧ t.waiting = s.waiting ∧ t.taken = s.taken)
    (hrelease : t.permits = s.permits + 1)
    (hcache : ∀ at' bytes, t.cache = some (at', bytes) →
      ∃ f ∈ s.published, f.capturedAt = at' ∧ encodePreviewJpeg lib f = some bytes) :
    t.Inv lib := by
  obtain ⟨hpublished, hvalue, hnow, hdemand, hwaiting, htaken⟩ := hsame
  refine h.set hv hv' hpublished hvalue hnow hviewers hcache ?_ ?_
  · rw [hrelease, htaken, hpermit]
    change s.permits + 1 + s.taken + 0 = s.permits + s.taken + 1
    omega
  · rw [hdemand, hwaiting, hwatches]
    rfl

theorem pending_of_stage (h : s.Inv lib) (hv : s.viewers[k]? = some v)
    (hstage : v.stage = .acquiring l ∨ v.stage = .holding l ∨ v.stage = .encoding l) :
    v.Pending s.published s.now l := by
  have hstanding := (h.viewers k v hv).standing
  rcases hstage with hstage | hstage | hstage
  all_goals
    rw [hstage] at hstanding
    exact hstanding

theorem Inv.lookup (h : s.Inv lib) (hv : s.viewers[k]? = some v) (hstage : v.stage = .holding l) :
    (s.lookup k v l).Inv lib := by
  have hpending := pending_of_stage h hv (.inr (.inl hstage))
  have hinv := h.viewers k v hv
  have hmiss : (s.setViewer k (v.goto (.encoding l))).Inv lib := by
    refine h.setViewer hv ⟨hinv.recorded, hinv.known, hinv.lastServed, hpending.known,
      hpending.live, hpending.jpeg, hpending.newer, hpending.lastDims⟩ ?_ ?_
    · rw [hstage]
      rfl
    · rw [hstage]
      rfl
  rw [State.lookup]
  split
  next at' bytes hcache =>
    split
    next hhit =>
      obtain ⟨f, hf, hat, hbytes⟩ := h.cache _ _ hcache
      have hframe : f = l.frame :=
        h.history.unique f hf l.frame hpending.known.published (hat.trans hhit)
      have hright : Attempt.Right lib ⟨l, .sent bytes⟩ := by
        refine ⟨hpending.live, ?_⟩
        rw [frameJpeg, hpending.jpeg, Option.none_or, ← hframe]
        exact hbytes
      refine h.conclude hv (hinv.conclude_pending hpending hright) ?_ ?_ rfl
        ⟨rfl, rfl, rfl, rfl, rfl, rfl⟩ rfl h.cache
      · rw [hstage]
        rfl
      · rw [hstage]
        rfl
    next => exact hmiss
  next => exact hmiss

theorem Inv.encode (h : s.Inv lib) (hv : s.viewers[k]? = some v) (hstage : v.stage = .encoding l)
    (panics : Bool) : (s.encode lib k v l panics).Inv lib := by
  have hpending := pending_of_stage h hv (.inr (.inr hstage))
  have hinv := h.viewers k v hv
  have hpermit : v.stage.hasPermit = true := by
    rw [hstage]
    rfl
  have hwatches : v.stage.watches = true := by
    rw [hstage]
    rfl
  rw [State.encode]
  split
  next bytes hencoded =>
    have hbytes : encodePreviewJpeg lib l.frame = some bytes := by
      cases panics with
      | true => cases hencoded
      | false => exact hencoded
    have hright : Attempt.Right lib ⟨l, .sent bytes⟩ := by
      refine ⟨hpending.live, ?_⟩
      rw [frameJpeg, hpending.jpeg, Option.none_or]
      exact hbytes
    refine h.conclude hv (hinv.conclude_pending hpending hright) hpermit hwatches rfl
      ⟨rfl, rfl, rfl, rfl, rfl, rfl⟩ rfl fun at' bytes' hcache => ?_
    cases hcache
    exact ⟨l.frame, hpending.known.published, rfl, hbytes⟩
  next =>
    have hright : Attempt.Right lib ⟨l, .failed⟩ := ⟨hpending.live, hpending.jpeg⟩
    exact h.conclude hv (hinv.conclude_pending hpending hright) hpermit hwatches rfl
      ⟨rfl, rfl, rfl, rfl, rfl, rfl⟩ rfl h.cache

theorem Inv.leave (h : s.Inv lib) (hv : s.viewers[k]? = some v)
    (hwatches : v.stage.watches = true) : (s.leave k v).Inv lib := by
  have hinv := h.viewers k v hv
  have hpos : 0 < s.viewers.countP (·.stage.watches) :=
    List.countP_pos_iff.mpr ⟨v, List.mem_of_getElem? hv, hwatches⟩
  have hstreams := h.streams
  have hgone : (v.goto .gone).Inv lib s.published s.now :=
    ⟨hinv.recorded, hinv.known, hinv.lastServed, trivial⟩
  rw [State.leave]
  cases hpermit : v.stage.hasPermit with
  | true =>
      refine h.set hv hgone rfl rfl rfl rfl h.cache ?_ ?_
      · rw [hpermit]
        change s.permits + 1 + s.taken + 0 = s.permits + s.taken + 1
        omega
      · rw [hwatches]
        change s.demand.streams - 1 + s.waiting + 1 = s.demand.streams + s.waiting + 0
        omega
  | false =>
      refine h.set hv hgone rfl rfl rfl rfl h.cache ?_ ?_
      · rw [hpermit]
        rfl
      · rw [hwatches]
        change s.demand.streams - 1 + s.waiting + 1 = s.demand.streams + s.waiting + 0
        omega

theorem Inv.move {m : Move} (h : s.Inv lib) (hv : s.viewers[k]? = some v)
    (hmove : s.move lib k v m = some t) : t.Inv lib := by
  have hinv := h.viewers k v hv
  cases m with
  | leave =>
      obtain ⟨hwatches, hmove⟩ := Option.ite_none_right_eq_some.mp hmove
      cases hmove
      exact h.leave hv hwatches
  | look =>
      rw [State.move] at hmove
      split at hmove
      next hstage =>
        cases hmove
        obtain ⟨hpermit, hwatches⟩ := Viewer.look_stage hstage ⟨s.value, s.now⟩
        refine h.setViewer hv (hinv.look hstage h.history) ?_ ?_
        · rw [hpermit, hstage]
          rfl
        · rw [hwatches, hstage]
          rfl
      next => cases hmove
  | acquire =>
      rw [State.move] at hmove
      split at hmove
      next l hstage =>
        obtain ⟨hpos, hmove⟩ := Option.ite_none_right_eq_some.mp hmove
        cases hmove
        have hpending := pending_of_stage h hv (.inl hstage)
        have hholding : (v.goto (.holding l)).Inv lib s.published s.now :=
          ⟨hinv.recorded, hinv.known, hinv.lastServed, hpending.known, hpending.live,
            hpending.jpeg, hpending.newer, hpending.lastDims⟩
        refine h.set hv hholding rfl rfl rfl rfl h.cache ?_ ?_
        · rw [hstage]
          change s.permits - 1 + s.taken + 1 = s.permits + s.taken + 0
          omega
        · rw [hstage]
          rfl
      next => cases hmove
  | lookup =>
      rw [State.move] at hmove
      split at hmove
      next l hstage =>
        cases hmove
        exact h.lookup hv hstage
      next => cases hmove
  | encode panics =>
      rw [State.move] at hmove
      split at hmove
      next l hstage =>
        cases hmove
        exact h.encode hv hstage panics
      next => cases hmove
  | draw panics =>
      rw [State.move] at hmove
      split at hmove
      next l dims hstage =>
        cases hmove
        have hdrawing : v.Drawing s.published s.now l dims := by
          have hstanding := hinv.standing
          rw [hstage] at hstanding
          exact hstanding
        refine h.setViewer hv (hinv.conclude_drawing hdrawing ?_) ?_ ?_
        · split
          · exact .inl rfl
          · exact .inr rfl
        · rw [hstage]
          rfl
        · rw [hstage]
          rfl
      next => cases hmove

/-- A step that is none of a stream's, and leaves their number alone. -/
theorem Inv.others (h : s.Inv lib) (hhistory : History t.published t.value t.now)
    (hpublished : ∀ f ∈ s.published, f ∈ t.published) (hnow : s.now ≤ t.now)
    (hcache : t.cache = s.cache) (hviewers : t.viewers = s.viewers)
    (hpermits : t.permits + t.taken = s.permits + s.taken)
    (hstreams : t.demand.streams + s.waiting = s.demand.streams + t.waiting) : t.Inv lib where
  history := hhistory
  cache at' bytes ht := by
    rw [hcache] at ht
    obtain ⟨f, hf, hat⟩ := h.cache at' bytes ht
    exact ⟨f, hpublished f hf, hat⟩
  permits := by
    rw [hviewers, hpermits]
    exact h.permits
  streams := by
    have hall := h.streams
    rw [hviewers]
    omega
  viewers := by
    rw [hviewers]
    exact fun k v hv => (h.viewers k v hv).mono hpublished hnow

theorem Inv.join (h : s.Inv lib) : Inv lib { s with
    viewers := s.viewers ++ [.new]
    demand := { s.demand with streams := s.demand.streams + 1 } } where
  history := h.history
  cache := h.cache
  permits := by
    rw [List.countP_append]
    exact h.permits
  streams := by
    have hall := h.streams
    rw [List.countP_append]
    change s.demand.streams + 1 = s.waiting + (s.viewers.countP (·.stage.watches) + 1)
    omega
  viewers := Entries.forall_concat (Viewer.inv_new lib s.published s.now) h.viewers

theorem Inv.step {a : Action} (h : s.Inv lib) (ha : s.Stamped a)
    (hstep : s.step lib a = some t) : t.Inv lib := by
  have hself : ∀ f ∈ s.published, f ∈ s.published := fun _ hf => hf
  cases a with
  | tick d =>
      cases hstep
      have hlater : History s.published s.value (s.now + d) :=
        ⟨h.history.mem, h.history.newest, h.history.unique,
          h.history.past.trans (Nat.le_add_right _ _)⟩
      exact h.others hlater hself (Nat.le_add_right _ _) rfl rfl rfl rfl
  | publish f =>
      cases hstep
      exact h.others (h.history.publish ha.1 ha.2) (fun g hg => List.mem_cons_of_mem f hg)
        (Nat.le_refl _) rfl rfl rfl rfl
  | pull =>
      cases hstep
      exact h.others h.history hself (Nat.le_refl _) rfl rfl rfl rfl
  | wait =>
      cases hstep
      refine h.others h.history hself (Nat.le_refl _) rfl rfl rfl ?_
      change s.demand.streams + 1 + s.waiting = s.demand.streams + (s.waiting + 1)
      omega
  | waited =>
      obtain ⟨hpos, hstep⟩ := Option.ite_none_right_eq_some.mp hstep
      cases hstep
      have hall := h.streams
      refine h.others h.history hself (Nat.le_refl _) rfl rfl rfl ?_
      change s.demand.streams - 1 + s.waiting = s.demand.streams + (s.waiting - 1)
      omega
  | take =>
      obtain ⟨hpos, hstep⟩ := Option.ite_none_right_eq_some.mp hstep
      cases hstep
      refine h.others h.history hself (Nat.le_refl _) rfl rfl ?_ rfl
      change s.permits - 1 + (s.taken + 1) = s.permits + s.taken
      omega
  | give =>
      obtain ⟨hpos, hstep⟩ := Option.ite_none_right_eq_some.mp hstep
      cases hstep
      refine h.others h.history hself (Nat.le_refl _) rfl rfl ?_ rfl
      change s.permits + 1 + (s.taken - 1) = s.permits + s.taken
      omega
  | join =>
      cases hstep
      exact h.join
  | viewer k m =>
      obtain ⟨v, hv, hmove⟩ := Option.bind_eq_some_iff.mp hstep
      exact h.move hv hmove

/-- `Stamped`, evaluated. -/
def isStamped (s : State) : Action → Bool
  | .publish f => decide (s.value.capturedAt < f.capturedAt ∧ f.capturedAt ≤ s.now)
  | _ => true

theorem stamped_of_check (s : State) (a : Action) (h : s.isStamped a = true) : s.Stamped a := by
  cases a with
  | publish f =>
      rw [isStamped, decide_eq_true_eq] at h
      exact h
  | _ => trivial

end State

/-- Encoders that put the first byte of a picture, or its width, behind a mark. -/
def marking : Encoders :=
  ⟨fun px _ _ => some (255 :: px.take 1), fun d => some [254, UInt8.ofNat d.1.toNat]⟩

/-- Two streams watch one frame: one has to encode it, the other finds it in the cache; then the
frame goes stale. -/
def twoStreams : List Action :=
  let f : FrameState := ⟨none, .rgb [7, 7, 7], 1, 1, 0, .stable, 1, 10⟩
  [.join, .join, .viewer 0 .look, .viewer 0 (.draw false), .tick 10, .publish f, .viewer 0 .look,
    .viewer 0 .acquire, .viewer 0 .lookup, .viewer 1 .look, .viewer 0 (.encode false),
    .viewer 1 .acquire, .viewer 1 .lookup, .viewer 1 .look, .tick Snapshot.STALE_AFTER, .tick 1,
    .viewer 1 .look, .viewer 1 (.draw false)]

end Preview

end Hdmicap

end Paniolo
