import Paniolo.Hdmicap.Digest
import Paniolo.Hdmicap.Settle
import Paniolo.Hdmicap.Snapshot
import Paniolo.Library.Streak

/-!
# The capture thread

`capture_loop` of `capture_thread.rs`: the thread that owns the device, opens
and reopens it, classifies every frame and publishes the newest one, beside the
watchdog that flags a stall. `classify_*` and `is_no_signal` of `frame.rs` tell
a black screen from a lit one.

A step is one turn of the thread or of the watchdog, and time passes in
between. What the channel holds is set against the frames captured since the
device was opened; when the process gives up is set against the log of what
happened.
-/

namespace Paniolo

namespace Hdmicap

namespace Capture

open Snapshot Streak

/-- A full-range luma plane, with its own dimensions. -/
structure LumaPlane where
  data : List UInt8
  width : UInt32
  height : UInt32
deriving DecidableEq

structure CapturedFrame where
  jpeg : Option (List UInt8)
  luma : Option LumaPlane
  pixels : PixelData
  width : UInt32
  height : UInt32
deriving DecidableEq

/-! ### The classification of a frame -/

/-- Edge of the lattice of luma samples. -/
def GRID : Nat := 64

def BRIGHT : Nat := 64

/-- The samples of the lattice, each in the middle of its slot. -/
def lattice (w h : UInt32) (lumaAt : UInt32 → UInt32 → UInt8) : List Nat :=
  (List.range GRID).flatMap fun gy => (List.range GRID).map fun gx =>
    let y := (UInt32.ofNat gy * h + h / 2) / UInt32.ofNat GRID
    let x := (UInt32.ofNat gx * w + w / 2) / UInt32.ofNat GRID
    (lumaAt (min x (w - 1)) (min y (h - 1))).toNat

/-- Low mean, low variance and no bright sample. -/
def isNoSignal (w h : UInt32) (lumaAt : UInt32 → UInt32 → UInt8) : Bool :=
  if w = 0 ∨ h = 0 then true
  else
    let samples := lattice w h lumaAt
    let n := GRID * GRID
    let mean := samples.sum / n
    let var := (samples.map fun l => l * l).sum / n - mean * mean
    decide (mean < 10 ∧ var < 64 ∧ samples.foldl max 0 < BRIGHT)

/-- The place of a pixel in its plane. -/
def offset (w x y : UInt32) : Nat := y.toNat * w.toNat + x.toNat

/-- Video-range luma, brought to full range. -/
def classifyNv12 (y : List UInt8) (w h : UInt32) : UInt64 × Bool :=
  (Digest.classifyNv12 y w h, isNoSignal w h fun col row =>
    UInt8.ofNat (min (((y[offset w col row]?.getD 16).toNat - 16) * 255 / 219) 255))

def classifyGray (y : List UInt8) (w h : UInt32) : UInt64 × Bool :=
  (Digest.classifyGray y w h, isNoSignal w h fun col row => y[offset w col row]?.getD 0)

def classifyRgb (rgb : List UInt8) (w h : UInt32) : UInt64 × Bool :=
  (Digest.classifyRgb rgb w h, isNoSignal w h fun col row =>
    let i := offset w col row * 3
    match rgb[i]?, rgb[i + 1]?, rgb[i + 2]? with
    | some r, some g, some b => Settling.rgbLuma (r, g, b)
    | _, _, _ => 0)

/-- The frame hash, and whether the screen is black. A luma plane wins over the pixels. -/
def classifyCaptured (c : CapturedFrame) : UInt64 × Bool :=
  match c.luma, c.pixels with
  | some l, _ => classifyGray l.data l.width l.height
  | none, .nv12 y _ => classifyNv12 y c.width c.height
  | none, .rgb buf => classifyRgb buf c.width c.height
  | none, .empty => (0, true)

/-- What the settler compares: the dimensions of the plane, and its samples. -/
def settleInput (c : CapturedFrame) : UInt32 × UInt32 × Option Settling.Samples :=
  match c.luma, c.pixels with
  | some l, _ => (l.width, l.height, some (.luma l.data))
  | none, .nv12 y _ => (c.width, c.height, some (.luma y))
  | none, .rgb buf => (c.width, c.height, some (.rgb buf))
  | none, .empty => (c.width, c.height, none)

namespace CapturedFrame

def dims (c : CapturedFrame) : UInt32 × UInt32 := (c.width, c.height)

def noSignal (c : CapturedFrame) : Bool := (classifyCaptured c).2

/-- The frame as the settler gets it. -/
def settling (c : CapturedFrame) : Settling.Frame :=
  ⟨(classifyCaptured c).1, (settleInput c).1.toNat, (settleInput c).2.1.toNat, (settleInput c).2.2⟩

end CapturedFrame

/-! ### The thread and the watchdog -/

def MAX_CONSECUTIVE_STALLS : Nat := 8

def MAX_CONSECUTIVE_ERRORS : Nat := 8

def STABLE_FRAMES : Nat := 8

/-- Nanoseconds, as every time here. -/
def GRACE : Nat := 12000000000

def POLL : Nat := 4000000000

structure StallTracker where
  consecutive : Nat

namespace StallTracker

def new : StallTracker := ⟨0⟩

def recovered (_ : StallTracker) : StallTracker := ⟨0⟩

/-- Whether this was the last straw, too. -/
def stalled (t : StallTracker) : Bool × StallTracker :=
  (decide (MAX_CONSECUTIVE_STALLS ≤ t.consecutive + 1), ⟨t.consecutive + 1⟩)

end StallTracker

/-- The watchdog of an open device: the count it has seen last, unless it is in its grace period,
and when it wakes up. -/
structure Watchdog where
  prev : Option Nat
  due : Nat

/-- What belongs to one opening of the device. -/
structure Backend where
  watchdog : Watchdog
  frameCount : Nat
  stalled : Bool
  settler : Settling.Settler
  lastDims : UInt32 × UInt32
  epoch : UInt64
  stableCount : Nat
  consecutiveErrors : Nat

def Backend.new (threshold : UInt8) (now : Nat) : Backend :=
  ⟨⟨none, now + GRACE⟩, 0, false, .new threshold, (0, 0), 0, 0, 0⟩

/-- Why the process ends. -/
inductive Exit where
  | stalls
  | wedged
deriving DecidableEq

/-- Where the thread is: before `open_backend`, before the top of the frame loop or in
`backend.frame()`, or at its end. -/
inductive Stage where
  | opening
  | running (b : Backend) (inFrame : Bool)
  | returned
  | exited (why : Exit)

inductive Event where
  | opened
  | frame (c : CapturedFrame)
  | error
  | forced

namespace Event

def isOpened : Event → Bool
  | .opened => true
  | _ => false

def isError : Event → Bool
  | .error => true
  | _ => false

def isForced : Event → Bool
  | .forced => true
  | _ => false

def frame? : Event → Option CapturedFrame
  | .frame c => some c
  | _ => none

end Event

/-- `value` is what the watch channel holds. `looked` is when the thread last came to the top of its
loop, and `log` what happened, the newest first: no step reads them. -/
structure State where
  now : Nat
  receivers : Bool
  value : FrameState
  stalls : StallTracker
  stage : Stage
  looked : Nat
  log : List Event

inductive Action where
  | tick (d : Nat)
  | leave
  | openFailed
  | opened
  | turn
  | frame (c : CapturedFrame)
  | error
  | poll

namespace State

def new : State :=
  ⟨0, true, FrameState.noDevice 0, .new, .opening, 0, []⟩

/-- `tx.send`, which does nothing when nobody has a receiver. -/
def send (s : State) (f : FrameState) : State :=
  if s.receivers then { s with value := f } else s

def note (s : State) (e : Event) : State := { s with log := e :: s.log }

def goto (s : State) (stage : Stage) : State := { s with stage := stage }

/-- `open_backend` fails. -/
def openFailed (s : State) : State :=
  (s.send (FrameState.noDevice s.now)).goto (if s.receivers then .opening else .returned)

def opened (threshold : UInt8) (s : State) : State :=
  { s.note .opened with
    stage := .running (.new threshold s.now) false
    looked := s.now }

/-- The top of the frame loop. -/
def turn (s : State) (b : Backend) : State :=
  if ¬s.receivers then s.goto .returned
  else if b.stalled then
    let (exit, stalls) := s.stalls.stalled
    ({ s.note .forced with stalls := stalls }.send (FrameState.noDevice s.now)).goto
      (if exit then .exited .stalls else .opening)
  else { s.goto (.running b true) with looked := s.now }

end State

/-- The signal of a frame and the count of stable frames after it. -/
def signalAfter (noSignal : Bool) (stableCount : Nat) : Signal × Nat :=
  if noSignal then (.noSignal, 0)
  else if stableCount < STABLE_FRAMES then (.modeSwitching, stableCount + 1)
  else (.stable, stableCount)

namespace Backend

/-- A change of the resolution. -/
def resize (b : Backend) (dims : UInt32 × UInt32) : Backend :=
  if dims ≠ b.lastDims then { b with epoch := b.epoch + 1, stableCount := 0, lastDims := dims }
  else b

/-- A frame goes through the classification and the settler. -/
def classify (b : Backend) (c : CapturedFrame) (now : Nat) : FrameState × Backend :=
  let b := { b with consecutiveErrors := 0 }.resize c.dims
  let (hash, settler) := b.settler.settle c.settling
  let (signal, stableCount) := signalAfter c.noSignal b.stableCount
  (⟨c.jpeg, if c.jpeg.isSome then .empty else c.pixels, c.width, c.height, hash, signal, b.epoch,
    now⟩,
    { b with settler := settler, stableCount := stableCount, frameCount := b.frameCount + 1 })

end Backend

namespace State

def frame (s : State) (b : Backend) (c : CapturedFrame) : State :=
  let (f, b) := b.classify c s.now
  ({ s.note (.frame c) with stalls := s.stalls.recovered }.send f).goto (.running b false)

/-- `backend.frame()` fails. -/
def error (s : State) (b : Backend) : State :=
  let b := { b with consecutiveErrors := b.consecutiveErrors + 1 }
  if MAX_CONSECUTIVE_ERRORS ≤ b.consecutiveErrors then
    ((s.note .error).send (FrameState.noDevice s.now)).goto .opening
  else (s.note .error).goto (.running b false)

/-- The watchdog wakes up. -/
def poll (s : State) (b : Backend) (inFrame : Bool) : State :=
  let watchdog : Watchdog := ⟨some b.frameCount, s.now + POLL⟩
  match b.watchdog.prev with
  | none =>
      s.goto (.running
        { b with watchdog := watchdog, stalled := b.stalled || b.frameCount == 0 } inFrame)
  | some prev =>
      if b.frameCount = prev then
        if b.stalled then s.goto (.exited .wedged)
        else s.goto (.running { b with watchdog := watchdog, stalled := true } inFrame)
      else s.goto (.running { b with watchdog := watchdog } inFrame)

def step (threshold : UInt8) (s : State) : Action → Option State
  | .tick d => some { s with now := s.now + d }
  | .leave => some { s with receivers := false }
  | .openFailed =>
      match s.stage with
      | .opening => some s.openFailed
      | _ => none
  | .opened =>
      match s.stage with
      | .opening => some (s.opened threshold)
      | _ => none
  | .turn =>
      match s.stage with
      | .running b false => some (s.turn b)
      | _ => none
  | .frame c =>
      match s.stage with
      | .running b true => some (s.frame b c)
      | _ => none
  | .error =>
      match s.stage with
      | .running b true => some (s.error b)
      | _ => none
  | .poll =>
      match s.stage with
      | .running b inFrame => if b.watchdog.due ≤ s.now then some (s.poll b inFrame) else none
      | _ => none

end State

/-! ### What is published, and when the process gives up -/

/-- The frames captured since the device was opened, the newest first. -/
def framesOf (log : List Event) : List CapturedFrame :=
  (log.takeWhile fun e => !e.isOpened).filterMap Event.frame?

/-- How often the device was reopened by force since the last frame. -/
def forcedSinceFrame (log : List Event) : Nat :=
  (log.takeWhile fun e => e.frame?.isNone).countP Event.isForced

/-- How often the dimensions changed, from none on; the newest come first. -/
def changes : List (UInt32 × UInt32) → Nat
  | [] => 0
  | d :: ds => changes ds + if d = ds.headD (0, 0) then 0 else 1

/-- What is published of a frame, after the earlier ones of the same opening. -/
structure Shows (threshold : UInt8) (c : CapturedFrame) (earlier : List CapturedFrame)
    (f : FrameState) : Prop where
  picture : f.jpeg = c.jpeg ∧ f.pixels = (if c.jpeg.isSome then .empty else c.pixels) ∧
    (f.width, f.height) = c.dims
  hash : ((Settling.Settler.new threshold).settleAll
    ((c :: earlier).reverse.map (·.settling))).getLast? = some f.hash
  epoch : f.resolutionEpoch = UInt64.ofNat (changes ((c :: earlier).map (·.dims)))
  signal : f.signal = .noSignal ∨ f.signal = .modeSwitching ∨ f.signal = .stable
  noSignal : f.signal = .noSignal ↔ c.noSignal = true
  /-- The screen is lit, and was so at the same size in the frames before. -/
  stable : f.signal = .stable ↔ c.noSignal = false ∧
    ∃ run older, earlier = run ++ older ∧ run.length = STABLE_FRAMES ∧
      ∀ d ∈ run, d.noSignal = false ∧ d.dims = c.dims

/-- Without a frame since the opening there is no device. -/
def Describes (threshold : UInt8) : List CapturedFrame → FrameState → Prop
  | [], f => ∃ t, f = FrameState.noDevice t
  | c :: earlier, f => Shows threshold c earlier f

/-- The frames that the channel should tell of, while the thread goes on. -/
def State.frames (s : State) : Option (List CapturedFrame) :=
  match s.stage with
  | .opening => some []
  | .running _ _ => some (framesOf s.log)
  | _ => none

structure State.Sound (threshold : UInt8) (s : State) : Prop where
  value : s.receivers = true → ∀ cs, s.frames = some cs → Describes threshold cs s.value
  /-- The device is kept in spite of a few errors. -/
  patience : ∀ b k, s.stage = .running b k → streak Event.isError s.log < MAX_CONSECUTIVE_ERRORS
  /-- The process gives the device up when it was reopened too often without a frame. -/
  gaveUp : s.stage = .exited .stalls ↔ MAX_CONSECUTIVE_STALLS ≤ forcedSinceFrame s.log
  /-- The watchdog ends the process only when the thread has not come round for a while. -/
  wedged : s.stage = .exited .wedged → s.looked + POLL ≤ s.now

section Log

variable {c : CapturedFrame} {log : List Event}

theorem forcedSinceFrame_frame : forcedSinceFrame (.frame c :: log) = 0 := rfl

theorem forcedSinceFrame_forced :
    forcedSinceFrame (.forced :: log) = forcedSinceFrame log + 1 := by
  rw [forcedSinceFrame, List.takeWhile_cons_of_pos rfl, List.countP_cons_of_pos rfl,
    forcedSinceFrame]

end Log

/-! ### One frame -/

/-- A lit frame of these dimensions. -/
def alike (dims : UInt32 × UInt32) (c : CapturedFrame) : Bool :=
  !c.noSignal && c.dims == dims

theorem alike_eq_true {dims : UInt32 × UInt32} {c : CapturedFrame} :
    alike dims c = true ↔ c.noSignal = false ∧ c.dims = dims := by
  rw [alike, Bool.and_eq_true, Bool.not_eq_true', beq_iff_eq]

/-- The settler after some frames. -/
def settled (s : Settling.Settler) (fs : List Settling.Frame) : Settling.Settler :=
  fs.foldl (fun s f => (s.settle f).2) s

theorem settleAll_concat (s : Settling.Settler) (fs : List Settling.Frame) (f : Settling.Frame) :
    s.settleAll (fs ++ [f]) = s.settleAll fs ++ [((settled s fs).settle f).1] := by
  induction fs generalizing s with
  | nil => rfl
  | cons g fs ih =>
      rw [List.cons_append, Settling.Settler.settleAll, ih, Settling.Settler.settleAll,
        List.cons_append]
      rfl

theorem settled_concat (s : Settling.Settler) (fs : List Settling.Frame) (f : Settling.Frame) :
    settled s (fs ++ [f]) = ((settled s fs).settle f).2 := List.foldl_concat ..

/-- The frames as the settler got them, the oldest first. -/
def settlings (cs : List CapturedFrame) : List Settling.Frame :=
  cs.reverse.map (·.settling)

theorem settlings_cons (c : CapturedFrame) (cs : List CapturedFrame) :
    settlings (c :: cs) = settlings cs ++ [c.settling] := by
  rw [settlings, List.reverse_cons, List.map_append, settlings, List.map_singleton]

/-- What an open device knows of its frames. -/
structure Held (threshold : UInt8) (cs : List CapturedFrame) (b : Backend) : Prop where
  settler : b.settler = settled (.new threshold) (settlings cs)
  lastDims : b.lastDims = (cs.map (·.dims)).headD (0, 0)
  epoch : b.epoch = UInt64.ofNat (changes (cs.map (·.dims)))
  stableCount : b.stableCount = min STABLE_FRAMES (streak (alike b.lastDims) cs)

namespace Held

variable {threshold : UInt8} {cs : List CapturedFrame} {b : Backend}

theorem new (threshold : UInt8) (now : Nat) : Held threshold [] (.new threshold now) :=
  ⟨rfl, rfl, rfl, rfl⟩

/-- The dimensions of the next frame are in place, and what is counted is counted for them. -/
theorem resize (h : Held threshold cs b) (c : CapturedFrame) :
    (b.resize c.dims).settler = b.settler ∧ (b.resize c.dims).lastDims = c.dims ∧
      (b.resize c.dims).epoch = UInt64.ofNat (changes ((c :: cs).map (·.dims))) ∧
      (b.resize c.dims).stableCount = min STABLE_FRAMES (streak (alike c.dims) cs) := by
  rw [Backend.resize, List.map_cons, changes, ← h.lastDims]
  by_cases hdims : c.dims = b.lastDims
  · rw [if_neg (not_not_intro hdims), if_pos hdims, Nat.add_zero, hdims]
    exact ⟨rfl, rfl, h.epoch, h.stableCount⟩
  · rw [if_pos hdims, if_neg hdims, UInt64.ofNat_add, ← h.epoch]
    refine ⟨rfl, rfl, rfl, ?_⟩
    have hnone : streak (alike c.dims) cs = 0 := by
      cases cs with
      | nil => rfl
      | cons d cs =>
          have hd : b.lastDims = d.dims := h.lastDims
          refine streak_cons_neg (Bool.eq_false_iff.mpr fun hlike => hdims ?_)
          exact (hd.trans (alike_eq_true.mp hlike).2).symm
    rw [hnone]
    rfl

/-- The counter of stable frames is the length of the streak, up to its bound. -/
theorem signalAfter_spec {c : CapturedFrame} {stableCount : Nat}
    (h : stableCount = min STABLE_FRAMES (streak (alike c.dims) cs)) :
    ((signalAfter c.noSignal stableCount).1 = .noSignal ↔ c.noSignal = true) ∧
      ((signalAfter c.noSignal stableCount).1 = .stable ↔ c.noSignal = false ∧
        STABLE_FRAMES ≤ streak (alike c.dims) cs) ∧
      ((signalAfter c.noSignal stableCount).1 = .noSignal ∨
        (signalAfter c.noSignal stableCount).1 = .modeSwitching ∨
        (signalAfter c.noSignal stableCount).1 = .stable) ∧
      (signalAfter c.noSignal stableCount).2 =
        min STABLE_FRAMES (streak (alike c.dims) (c :: cs)) := by
  rw [signalAfter]
  cases hblack : c.noSignal with
  | true =>
      have hnone : streak (alike c.dims) (c :: cs) = 0 :=
        streak_cons_neg (Bool.eq_false_iff.mpr fun hlike =>
          Bool.noConfusion (hblack.symm.trans (alike_eq_true.mp hlike).1))
      rw [if_pos rfl, hnone]
      exact ⟨⟨fun _ => rfl, fun _ => rfl⟩,
        ⟨fun h => Signal.noConfusion h, fun h => Bool.noConfusion h.1⟩, .inl rfl, rfl⟩
  | false =>
      have hmore : streak (alike c.dims) (c :: cs) = streak (alike c.dims) cs + 1 :=
        streak_cons_pos (alike_eq_true.mpr ⟨hblack, rfl⟩)
      rw [if_neg Bool.false_ne_true, hmore]
      by_cases hlt : stableCount < STABLE_FRAMES
      · rw [if_pos hlt]
        refine ⟨⟨fun h => Signal.noConfusion h, fun h => Bool.noConfusion h⟩,
          ⟨fun h => Signal.noConfusion h, fun hlong => ?_⟩, .inr (.inl rfl), ?_⟩
        · exact absurd hlong.2 (by omega)
        · change stableCount + 1 = _
          omega
      · rw [if_neg hlt]
        refine ⟨⟨fun h => Signal.noConfusion h, fun h => Bool.noConfusion h⟩,
          ⟨fun _ => ⟨rfl, by omega⟩, fun _ => rfl⟩, .inr (.inr rfl), ?_⟩
        change stableCount = _
        omega

theorem le_streak_alike {c : CapturedFrame} :
    STABLE_FRAMES ≤ streak (alike c.dims) cs ↔
      ∃ run older, cs = run ++ older ∧ run.length = STABLE_FRAMES ∧
        ∀ d ∈ run, d.noSignal = false ∧ d.dims = c.dims := by
  rw [le_streak_iff]
  simp only [alike_eq_true]

/-- A frame: what is published of it, and what the device knows after it. -/
theorem classify (h : Held threshold cs b) (c : CapturedFrame) (now : Nat) :
    Shows threshold c cs (b.classify c now).1 ∧ Held threshold (c :: cs) (b.classify c now).2 := by
  have h₀ : Held threshold cs { b with consecutiveErrors := 0 } :=
    ⟨h.settler, h.lastDims, h.epoch, h.stableCount⟩
  obtain ⟨hsettler, hdims, hepoch, hcount⟩ := h₀.resize c
  obtain ⟨hnoSignal, hstable, hsignal, hafter⟩ := signalAfter_spec hcount
  have hsettled : ({ b with consecutiveErrors := 0 }.resize c.dims).settler =
      settled (.new threshold) (settlings cs) := hsettler.trans h.settler
  constructor
  · refine ⟨⟨rfl, rfl, rfl⟩, ?_, hepoch, hsignal, hnoSignal, hstable.trans ?_⟩
    · have hall : ((Settling.Settler.new threshold).settleAll (settlings (c :: cs))).getLast? =
          some ((settled (.new threshold) (settlings cs)).settle c.settling).1 := by
        rw [settlings_cons, settleAll_concat, List.getLast?_concat]
      rw [← hsettled] at hall
      exact hall
    · rw [le_streak_alike]
  · constructor
    · rw [settlings_cons, settled_concat, ← hsettled]
      rfl
    · exact hdims
    · exact hepoch
    · change (signalAfter c.noSignal _).2 = min STABLE_FRAMES (streak (alike _) (c :: cs))
      rw [hafter]
      exact congrArg (fun d => min STABLE_FRAMES (streak (alike d) (c :: cs))) hdims.symm

theorem classify_others (b : Backend) (c : CapturedFrame) (now : Nat) :
    (b.classify c now).2.consecutiveErrors = 0 ∧ (b.classify c now).2.stalled = b.stalled ∧
      (b.classify c now).2.watchdog = b.watchdog := by
  have hresize : ∀ (b : Backend) (d : UInt32 × UInt32),
      (b.resize d).consecutiveErrors = b.consecutiveErrors ∧ (b.resize d).stalled = b.stalled ∧
        (b.resize d).watchdog = b.watchdog := by
    intro b d
    rw [Backend.resize]
    split
    · exact ⟨rfl, rfl, rfl⟩
    · exact ⟨rfl, rfl, rfl⟩
  exact hresize { b with consecutiveErrors := 0 } c.dims

end Held

/-! ### Every run -/

/-- What holds of an open device. -/
structure Open (threshold : UInt8) (log : List Event) (looked : Nat) (b : Backend) : Prop where
  held : Held threshold (framesOf log) b
  errors : b.consecutiveErrors = streak Event.isError log
  patience : b.consecutiveErrors < MAX_CONSECUTIVE_ERRORS
  flagged : b.stalled = true → looked + POLL ≤ b.watchdog.due

namespace State

variable {threshold : UInt8} {s t : State} {b : Backend} {inFrame : Bool}

structure Inv (threshold : UInt8) (s : State) : Prop where
  device : ∀ b k, s.stage = .running b k → Open threshold s.log s.looked b
  value : s.receivers = true → ∀ cs, s.frames = some cs → Describes threshold cs s.value
  stalls : s.stalls.consecutive = forcedSinceFrame s.log
  gaveUp : s.stage = .exited .stalls ↔ MAX_CONSECUTIVE_STALLS ≤ forcedSinceFrame s.log
  wedged : s.stage = .exited .wedged → s.looked + POLL ≤ s.now
  looked : s.looked ≤ s.now

theorem Inv.sound (h : s.Inv threshold) : s.Sound threshold where
  value := h.value
  patience b k hb := by
    rw [← (h.device b k hb).errors]
    exact (h.device b k hb).patience
  gaveUp := h.gaveUp
  wedged := h.wedged

theorem inv_new (threshold : UInt8) : new.Inv threshold where
  device b k hb := by cases hb
  value _ cs hcs := by
    cases hcs
    exact ⟨0, rfl⟩
  stalls := rfl
  gaveUp := ⟨fun h => Stage.noConfusion h, fun h => by cases h⟩
  wedged h := by cases h
  looked := Nat.le_refl _

theorem send_eq (s : State) (f : FrameState) :
    s.send f = { s with value := if s.receivers then f else s.value } := by
  rw [send]
  split
  · rfl
  · rfl

theorem Inv.lt_of_running (h : s.Inv threshold) (hstage : s.stage = .running b inFrame) :
    forcedSinceFrame s.log < MAX_CONSECUTIVE_STALLS := by
  rw [← Nat.not_le, ← h.gaveUp, hstage]
  exact fun h => Stage.noConfusion h

/-- The thread goes on with an open device. -/
theorem Inv.goOn (log : List Event) {stalls : StallTracker} {value : FrameState} {looked : Nat}
    (hopen : Open threshold log looked b)
    (hvalue : s.receivers = true → Describes threshold (framesOf log) value)
    (hstalls : stalls.consecutive = forcedSinceFrame log)
    (hless : forcedSinceFrame log < MAX_CONSECUTIVE_STALLS) (hlooked : looked ≤ s.now) :
    Inv threshold ⟨s.now, s.receivers, value, stalls, .running b inFrame, looked, log⟩ where
  device _ _ hb := by
    cases hb
    exact hopen
  value hreceivers cs hcs := by
    cases hcs
    exact hvalue hreceivers
  stalls := hstalls
  gaveUp := ⟨fun h => Stage.noConfusion h, fun h => absurd h (Nat.not_le.mpr hless)⟩
  wedged h := Stage.noConfusion h
  looked := hlooked

/-- The device is lost, or could not be opened. -/
theorem Inv.lose (log : List Event) {stalls : StallTracker} {stage : Stage}
    (hstage : stage = .opening ∨ stage = .returned ∨ stage = .exited .stalls)
    (hstalls : stalls.consecutive = forcedSinceFrame log)
    (hgaveUp : stage = .exited .stalls ↔ MAX_CONSECUTIVE_STALLS ≤ forcedSinceFrame log)
    (hlooked : s.looked ≤ s.now) :
    Inv threshold ⟨s.now, s.receivers, if s.receivers then FrameState.noDevice s.now else s.value,
      stalls, stage, s.looked, log⟩ where
  device b k hb := by
    change stage = _ at hb
    rcases hstage with rfl | rfl | rfl <;> cases hb
  value hreceivers cs hcs := by
    change s.receivers = true at hreceivers
    rcases hstage with rfl | rfl | rfl
    · cases hcs
      exact ⟨s.now, if_pos hreceivers⟩
    · cases hcs
    · cases hcs
  stalls := hstalls
  gaveUp := hgaveUp
  wedged h := by
    change stage = _ at h
    rcases hstage with rfl | rfl | rfl <;> cases h
  looked := hlooked

theorem Inv.openFailed (h : s.Inv threshold) (hstage : s.stage = .opening) :
    s.openFailed.Inv threshold := by
  have hnot : ¬MAX_CONSECUTIVE_STALLS ≤ forcedSinceFrame s.log := by
    rw [← h.gaveUp, hstage]
    exact fun h => Stage.noConfusion h
  rw [State.openFailed, send_eq]
  refine Inv.lose s.log ?_ h.stalls ⟨fun hout => ?_, fun hmany => absurd hmany hnot⟩ h.looked
  · split
    · exact .inl rfl
    · exact .inr (.inl rfl)
  · split at hout <;> cases hout

theorem Inv.opened (h : s.Inv threshold) (hstage : s.stage = .opening) :
    (s.opened threshold).Inv threshold := by
  have hless : forcedSinceFrame s.log < MAX_CONSECUTIVE_STALLS := by
    rw [← Nat.not_le, ← h.gaveUp, hstage]
    exact fun h => Stage.noConfusion h
  refine Inv.goOn (.opened :: s.log)
    ⟨Held.new threshold s.now, rfl, Nat.succ_pos 7, fun h => Bool.noConfusion h⟩
    (fun hreceivers => ?_) h.stalls hless (Nat.le_refl _)
  refine h.value hreceivers [] ?_
  rw [State.frames, hstage]

theorem Inv.turn (h : s.Inv threshold) (hstage : s.stage = .running b false) :
    (s.turn b).Inv threshold := by
  have hopen := h.device b false hstage
  have hless := h.lt_of_running hstage
  rw [State.turn]
  split
  next hnobody =>
    refine ⟨fun b k hb => Stage.noConfusion hb, fun hreceivers => absurd hreceivers hnobody,
      h.stalls, ⟨fun h => Stage.noConfusion h, fun hmany => absurd hmany (Nat.not_le.mpr hless)⟩,
      fun h => Stage.noConfusion h, h.looked⟩
  next hsome =>
    split
    next hflag =>
      rw [StallTracker.stalled]
      dsimp only
      rw [send_eq]
      refine Inv.lose (.forced :: s.log) ?_ ?_ ?_ h.looked
      · split
        · exact .inr (.inr rfl)
        · exact .inl rfl
      · rw [forcedSinceFrame_forced, h.stalls]
      · rw [forcedSinceFrame_forced, h.stalls]
        split
        next hmany => exact ⟨fun _ => of_decide_eq_true hmany, fun _ => rfl⟩
        next hfew =>
          rw [decide_eq_true_eq] at hfew
          exact ⟨fun h => Stage.noConfusion h, fun hmany => absurd hmany hfew⟩
    next hclear =>
      refine Inv.goOn s.log ⟨hopen.held, hopen.errors, hopen.patience, fun h => absurd h hclear⟩
        (fun hreceivers => h.value hreceivers (framesOf s.log) ?_) h.stalls hless (Nat.le_refl _)
      rw [State.frames, hstage]

theorem Inv.frame (h : s.Inv threshold) (hstage : s.stage = .running b true) (c : CapturedFrame) :
    (s.frame b c).Inv threshold := by
  have hopen := h.device b true hstage
  obtain ⟨hshows, hheld⟩ := hopen.held.classify c s.now
  obtain ⟨herrors, hstalled, hwatchdog⟩ := Held.classify_others b c s.now
  have hframe : s.frame b c = ⟨s.now, s.receivers,
      if s.receivers then (b.classify c s.now).1 else s.value, .new,
      .running (b.classify c s.now).2 false, s.looked, .frame c :: s.log⟩ := by
    change ({ s.note (.frame c) with stalls := s.stalls.recovered }.send
      (b.classify c s.now).1).goto (.running (b.classify c s.now).2 false) = _
    rw [send_eq]
    rfl
  rw [hframe]
  refine Inv.goOn (.frame c :: s.log) ⟨hheld, herrors, by rw [herrors]; decide, ?_⟩
    (fun hreceivers => ?_) forcedSinceFrame_frame.symm (forcedSinceFrame_frame ▸ Nat.succ_pos 7)
    h.looked
  · rw [hstalled, hwatchdog]
    exact hopen.flagged
  · rw [if_pos hreceivers]
    exact hshows

theorem Inv.error (h : s.Inv threshold) (hstage : s.stage = .running b true) :
    (s.error b).Inv threshold := by
  have hopen := h.device b true hstage
  have hless := h.lt_of_running hstage
  have hmore : b.consecutiveErrors + 1 = streak Event.isError (.error :: s.log) := by
    rw [streak_cons_pos rfl, hopen.errors]
  rw [State.error]
  dsimp only
  split
  next =>
    rw [send_eq]
    exact Inv.lose (.error :: s.log) (.inl rfl) h.stalls
      ⟨fun h => Stage.noConfusion h, fun hmany => absurd hmany (Nat.not_le.mpr hless)⟩ h.looked
  next hfew =>
    refine Inv.goOn (.error :: s.log)
      ⟨⟨hopen.held.settler, hopen.held.lastDims, hopen.held.epoch, hopen.held.stableCount⟩, hmore,
        Nat.not_le.mp hfew, hopen.flagged⟩
      (fun hreceivers => h.value hreceivers (framesOf s.log) ?_) h.stalls hless h.looked
    rw [State.frames, hstage]

theorem Inv.poll (h : s.Inv threshold) (hstage : s.stage = .running b inFrame)
    (hdue : b.watchdog.due ≤ s.now) : (s.poll b inFrame).Inv threshold := by
  have hopen := h.device b inFrame hstage
  have hless := h.lt_of_running hstage
  have hframes : s.frames = some (framesOf s.log) := by rw [State.frames, hstage]
  have hlater : s.looked + POLL ≤ s.now + POLL := Nat.add_le_add_right h.looked POLL
  have hgoOn : ∀ (watchdog : Watchdog) (stalled : Bool), watchdog.due = s.now + POLL →
      (s.goto (.running { b with watchdog := watchdog, stalled := stalled } inFrame)).Inv
        threshold := by
    intro watchdog stalled hnext
    refine Inv.goOn s.log ⟨⟨hopen.held.settler, hopen.held.lastDims, hopen.held.epoch,
      hopen.held.stableCount⟩, hopen.errors, hopen.patience, fun _ => ?_⟩
      (fun hreceivers => h.value hreceivers _ hframes) h.stalls hless h.looked
    rw [hnext]
    exact hlater
  rw [State.poll]
  split
  next => exact hgoOn _ _ rfl
  next =>
    split
    next =>
      split
      next hflag =>
        -- the flag has been up since the watchdog woke up last
        have hlong : s.looked + POLL ≤ s.now := (hopen.flagged hflag).trans hdue
        exact ⟨fun b k hb => Stage.noConfusion hb, fun _ cs hcs => (by cases hcs), h.stalls,
          ⟨fun hout => (by cases hout), fun hmany => absurd hmany (Nat.not_le.mpr hless)⟩,
          fun _ => hlong, h.looked⟩
      next => exact hgoOn _ _ rfl
    next => exact hgoOn ⟨some b.frameCount, s.now + POLL⟩ b.stalled rfl

theorem Inv.tick (h : s.Inv threshold) (d : Nat) : Inv threshold { s with now := s.now + d } where
  device := h.device
  value := h.value
  stalls := h.stalls
  gaveUp := h.gaveUp
  wedged hw := (h.wedged hw).trans (Nat.le_add_right _ _)
  looked := h.looked.trans (Nat.le_add_right _ _)

theorem Inv.leave (h : s.Inv threshold) : Inv threshold { s with receivers := false } where
  device := h.device
  value hreceivers := Bool.noConfusion hreceivers
  stalls := h.stalls
  gaveUp := h.gaveUp
  wedged := h.wedged
  looked := h.looked

theorem Inv.step {a : Action} (h : s.Inv threshold) (hstep : s.step threshold a = some t) :
    t.Inv threshold := by
  cases a with
  | tick d =>
      cases hstep
      exact h.tick d
  | leave =>
      cases hstep
      exact h.leave
  | openFailed =>
      rw [State.step] at hstep
      split at hstep
      next hstage =>
        cases hstep
        exact h.openFailed hstage
      next => cases hstep
  | opened =>
      rw [State.step] at hstep
      split at hstep
      next hstage =>
        cases hstep
        exact h.opened hstage
      next => cases hstep
  | turn =>
      rw [State.step] at hstep
      split at hstep
      next b hstage =>
        cases hstep
        exact h.turn hstage
      next => cases hstep
  | frame c =>
      rw [State.step] at hstep
      split at hstep
      next b hstage =>
        cases hstep
        exact h.frame hstage c
      next => cases hstep
  | error =>
      rw [State.step] at hstep
      split at hstep
      next b hstage =>
        cases hstep
        exact h.error hstage
      next => cases hstep
  | poll =>
      rw [State.step] at hstep
      split at hstep
      next b inFrame hstage =>
        obtain ⟨hdue, hstep⟩ := Option.ite_none_right_eq_some.mp hstep
        cases hstep
        exact h.poll hstage hdue
      next => cases hstep

end State

/-- A device that cannot be opened at first, two frames of a white pixel with an error in between,
and a stall. -/
def whitePixel : List Action :=
  [.openFailed, .opened, .turn, .frame ⟨none, none, .rgb [255, 255, 255], 1, 1⟩, .turn, .error,
    .turn, .frame ⟨none, none, .rgb [255, 255, 255], 1, 1⟩, .tick GRACE, .poll, .tick POLL, .poll]

end Capture

end Hdmicap

end Paniolo
