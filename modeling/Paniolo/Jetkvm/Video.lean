import Paniolo.Jetkvm.Sps.PictureSize
import Paniolo.Library.Entries
import Paniolo.Library.Machine

/-!
# The video pipeline and its decoders

A `Video` decodes while somebody watches, and for a while after. What its
methods do under its lock is one step each; what they do after giving the lock
back are steps of their own, as are those of the timers, the keepers and the
decoders that they start. So any of them may come in between.

`supervised` says that no decoder is forgotten: one that runs is the current one,
which has the size of the last parameter set, or is about to be stopped. Nothing
runs when nobody has watched for long enough, and nothing is started after
`Close`.
-/

namespace Paniolo

namespace Jetkvm

namespace Video

open Sps (splitAnnexB parseSPS)

/-- A decoder process: its picture size, the access units that wait for it and those it was given,
whether `stop` was called and whether the process was reaped. -/
structure Decoder where
  w : Int64
  h : Int64
  queue : List (List UInt8) := []
  stdin : List (List UInt8) := []
  quit : Bool := false
  exited : Bool := false
deriving DecidableEq

namespace Decoder

/-- The capacity of `in`. -/
def QUEUE_CAP : Nat := 128

/-- `write`: `none` when the decoder is too far behind. -/
def write (d : Decoder) (b : List UInt8) : Option Decoder :=
  if d.queue.length < QUEUE_CAP then some { d with queue := d.queue ++ [b] } else none

theorem eq_of_write {d c : Decoder} {b : List UInt8} (h : d.write b = some c) :
    d.queue.length < QUEUE_CAP ∧ c = { d with queue := d.queue ++ [b] } := by
  rw [write] at h
  split at h
  next hroom =>
    cases h
    exact ⟨hroom, rfl⟩
  next => cases h

/-- The process runs and nobody told it to stop. -/
def running (d : Decoder) : Bool := !d.quit && !d.exited

end Decoder

/-- A goroutine of `keeper`: whether it is at its first attempt, and what became of its context. -/
structure Keeper where
  first : Bool := true
  cancelled : Bool := false
  ended : Bool := false
deriving DecidableEq

/-- A `Video` and what it has started. `clients` are those between `Acquire` and `Release`, `armed`
the timers that have not fired and `fired` the number of those whose `deactivate` waits for the
lock. `owed` are the decoders that somebody is about to stop, `feeds` the access units about to be
fed, and `writes` those about to be written. `keyframes` counts the keyframes asked for, `takeovers`
the attempts to connect while another client has the device. -/
structure State where
  ffmpeg : String
  refs : Nat := 0
  active : Bool := false
  stopTimer : Option Nat := none
  keyframe : Bool := false
  gotFrame : Bool := false
  sb : Bool := false
  dec : Option Nat := none
  sps : Option (List UInt8) := none
  pps : Option (List UInt8) := none
  spsW : Int64 := 0
  spsH : Int64 := 0
  lastErr : String
  cancel : Option Nat := none
  closed : Bool := false
  clients : Nat := 0
  timers : Nat := 0
  armed : List Nat := []
  fired : Nat := 0
  keepers : List Keeper := []
  decoders : List Decoder := []
  owed : List Nat := []
  feeds : List (List UInt8) := []
  writes : List (Nat × List UInt8) := []
  keyframes : Nat := 0
  takeovers : Nat := 0
deriving DecidableEq

/-- `NewVideo`, with the reason why there is no `ffmpeg`. -/
def new (ffmpeg unavailable : String) : State where
  ffmpeg := ffmpeg
  lastErr := if ffmpeg = "" then unavailable else ""

def startCode (nal : List UInt8) : List UInt8 := [0, 0, 0, 1] ++ nal

/-- The last NAL unit of the type. -/
def lastOf (type : UInt8) (nals : List (List UInt8)) : Option (List UInt8) :=
  (nals.filter fun n => n.head?.any fun b => b &&& 0x1f == type).getLast?

/-- `startDecoder`, where `failure` is why the process could not be started. -/
def startDecoder (w h : Int64) (failure : Option String) : Except String Decoder :=
  match Sps.startDecoder w h, failure with
  | .error e, _ => .error e
  | .ok _, some e => .error e
  | .ok _, none => .ok { w := w, h := h }

namespace State

/-- `close` of the context's `cancel`. -/
def cancelKeeper (v : State) : State :=
  match v.cancel with
  | some k => { v with keepers := v.keepers.modify k fun c => { c with cancelled := true } }
  | none => v

/-- `stopTimer.Stop()`. -/
def disarm (v : State) : State :=
  match v.stopTimer with
  | some t => { v with armed := v.armed.erase t, stopTimer := none }
  | none => v

/-- The decoder is taken out, to be stopped. -/
def takeDecoder (v : State) : State := { v with dec := none, owed := v.dec.toList ++ v.owed }

/-- Switch the pipeline on, if it is off. -/
def activate (v : State) : State :=
  if v.active then v
  else { v with
    active := true
    gotFrame := false
    sb := true
    cancel := some v.keepers.length
    keepers := v.keepers ++ [({} : Keeper)] }

def acquire (v : State) : Except String State :=
  if v.ffmpeg = "" then .error v.lastErr
  else if v.closed then .error "video is shutting down"
  else .ok { v with refs := v.refs + 1 }.disarm.activate

def release (v : State) : State :=
  let v := { v with refs := v.refs - 1 }
  if v.refs = 0 ∧ v.active ∧ v.stopTimer = none then
    { v with stopTimer := some v.timers, timers := v.timers + 1, armed := v.timers :: v.armed }
  else v

def deactivate (v : State) : State :=
  if 0 < v.refs ∨ v.active = false then v
  else { v with active := false, stopTimer := none }.cancelKeeper.takeDecoder

def close (v : State) : State :=
  { v with closed := true, refs := 0, active := false }.disarm.cancelKeeper.takeDecoder

/-- The first half of a round of `keeper`: `connected` and `kicked` are the host's `linkState`, and
`failure` is why its `ensure` failed. -/
def connect (v : State) (k : Nat) (c : Keeper) (connected kicked : Bool) (failure : Option String) :
    State :=
  let v := { v with keepers := v.keepers.set k { c with first := false } }
  if !connected && (c.first || !kicked) then
    { v with
      lastErr := failure.elim "" fun e => "JetKVM session: " ++ e
      takeovers := if kicked then v.takeovers + 1 else v.takeovers }
  else if !connected && kicked then
    { v with lastErr := "session taken over by another client; reattach to retry" }
  else v

/-- The second half, which asks for a keyframe. -/
def nudge (v : State) : State :=
  if v.keyframe && !v.gotFrame then { v with keyframes := v.keyframes + 1 } else v

def attach (v : State) : State :=
  { v with
    keyframe := true
    gotFrame := false
    sb := true
    keyframes := if v.active then v.keyframes + 1 else v.keyframes }

/-- `Packet`, where `aus` is what the sample builder has ready. -/
def packet (v : State) (aus : List (List UInt8)) : State :=
  if v.active && v.sb then { v with feeds := v.feeds ++ aus } else v

/-- Keep a sequence parameter set, if its picture size can be read. -/
def takeSPS (v : State) (sps : List UInt8) : Option State :=
  (parseSPS sps).map fun size =>
    match size with
    | .ok (w, h) => { v with sps := some sps, spsW := w, spsH := h }
    | .error _ => v

/-- Keep the parameter sets of an access unit. -/
def takeSets (v : State) (sps pps : Option (List UInt8)) : Option State :=
  (sps.elim (some v) v.takeSPS).map fun v => if pps.isSome then { v with pps := pps } else v

/-- The decoder, if it has the size of the parameter set. -/
def fitting (v : State) : Option Nat :=
  v.dec.filter fun d => v.decoders[d]?.any fun c => c.w = v.spsW && c.h = v.spsH

/-- The end of `feedAU`: the access unit goes to the decoder, to a new one if there is none of the
right size, which has the known parameter sets first unless the access unit has both. -/
def decode (v : State) (au : List UInt8) (both : Bool) (failure : Option String) : State :=
  let data := au ++ [0, 0, 0, 1, 0x09, 0x10]
  match v.fitting with
  | some d => { v with writes := v.writes ++ [(d, data)] }
  | none =>
      let known := (v.sps.toList ++ v.pps.toList).map startCode
      match startDecoder v.spsW v.spsH failure with
      | .ok c => { v.takeDecoder with
          decoders := v.decoders ++ [if both then c else { c with queue := known }]
          dec := some v.decoders.length
          writes := v.writes ++ [(v.decoders.length, data)] }
      | .error e => { v.takeDecoder with lastErr := "ffmpeg: " ++ e }

def feedAU (v : State) (au : List UInt8) (failure : Option String) : Option State := do
  let nals ← splitAnnexB au
  let sps := lastOf 7 nals
  let pps := lastOf 8 nals
  if v.active then
    let v ← v.takeSets sps pps
    pure (if v.spsW = 0 then v else v.decode au (sps.isSome && pps.isSome) failure)
  else pure v

def onFrame (v : State) : State := { v with gotFrame := true, lastErr := "" }

def onDecoderExit (v : State) (d : Nat) (err : Option String) : State :=
  if v.dec = some d then
    { v with dec := none, lastErr := err.elim v.lastErr fun e => "ffmpeg exited: " ++ e }
  else v

def setDecoder (v : State) (d : Nat) (c : Decoder) : State :=
  { v with decoders := v.decoders.set d c }

end State

inductive Action where
  | acquire
  | release
  | fire (timer : Nat)
  | deactivate
  | close
  | connect (k : Nat) (connected kicked : Bool) (failure : Option String)
  | nudge (k : Nat)
  /-- The keeper sees that it is cancelled. -/
  | end_ (k : Nat)
  | attach
  | packet (aus : List (List UInt8))
  | feedAU (au : List UInt8) (failure : Option String)
  | write (d : Nat) (data : List UInt8)
  /-- The decoder's writer gives an access unit to the process. -/
  | drain (d : Nat)
  | onFrame (d : Nat)
  /-- `stop`, by whom the decoder was taken out. -/
  | stop (d : Nat)
  /-- The process is killed or ends, and is reaped. -/
  | exit (d : Nat)
  | onDecoderExit (d : Nat) (err : Option String)
deriving DecidableEq

namespace State

/-- Go on with the keeper, which has not ended. -/
def withKeeper (v : State) (k : Nat) (f : Keeper → Option State) : Option State :=
  (v.keepers[k]?).bind fun c => if c.ended then none else f c

def step (v : State) : Action → Option State
  | .acquire => v.acquire.toOption.map fun w => { w with clients := v.clients + 1 }
  | .release => if 0 < v.clients then some { v.release with clients := v.clients - 1 } else none
  | .fire t =>
      if t ∈ v.armed then some { v with armed := v.armed.erase t, fired := v.fired + 1 } else none
  | .deactivate => if 0 < v.fired then some { v.deactivate with fired := v.fired - 1 } else none
  | .close => some v.close
  | .connect k connected kicked failure => v.withKeeper k fun c =>
      some (v.connect k c connected kicked failure)
  | .nudge k => v.withKeeper k fun _ => some v.nudge
  | .end_ k => v.withKeeper k fun c =>
      if c.cancelled then some { v with keepers := v.keepers.set k { c with ended := true } }
      else none
  | .attach => some v.attach
  | .packet aus => some (v.packet aus)
  | .feedAU au failure =>
      if au ∈ v.feeds then { v with feeds := v.feeds.erase au }.feedAU au failure else none
  | .write d data =>
      if (d, data) ∈ v.writes then
        (v.decoders[d]?).map fun c =>
          let v := { v with writes := v.writes.erase (d, data) }
          match c.write data with
          | some c => v.setDecoder d c
          | none => { v with keyframes := if v.keyframe then v.keyframes + 1 else v.keyframes }
      else none
  | .drain d => (v.decoders[d]?).bind fun c =>
      match c.queue with
      | b :: rest => some (v.setDecoder d { c with queue := rest, stdin := c.stdin ++ [b] })
      | [] => none
  | .onFrame d => (v.decoders[d]?).bind fun c => if c.exited then none else some v.onFrame
  | .stop d =>
      if d ∈ v.owed then
        (v.decoders[d]?).map fun c =>
          { v with owed := v.owed.erase d }.setDecoder d { c with quit := true }
      else none
  | .exit d => (v.decoders[d]?).map fun c => v.setDecoder d { c with exited := true }
  | .onDecoderExit d err => (v.decoders[d]?).bind fun c =>
      if c.exited then some (v.onDecoderExit d err) else none

end State

/-! ### The decoders -/

/-- What holds of the decoders: one that runs is the current one or about to be stopped, and the
current one has the size of the last parameter set. -/
structure Decoders (v : State) : Prop where
  running : ∀ (d : Nat) (c : Decoder), v.decoders[d]? = some c → c.running = true →
    v.dec = some d ∨ d ∈ v.owed
  current : ∀ d, v.dec = some d → v.active = true ∧ v.spsW ≠ 0 ∧
    ∃ c, v.decoders[d]? = some c ∧ c.w = v.spsW ∧ c.h = v.spsH
  sized : v.spsW ≠ 0 → ∃ sps, v.sps = some sps ∧ parseSPS sps = some (.ok (v.spsW, v.spsH))

namespace Decoders

variable {v w : State}

/-- The current decoder may be of another size than the last parameter set, and not be the current
one for long. -/
structure Loose (v : State) : Prop where
  running : ∀ (d : Nat) (c : Decoder), v.decoders[d]? = some c → c.running = true →
    v.dec = some d ∨ d ∈ v.owed
  current : ∀ d, v.dec = some d → ∃ c, v.decoders[d]? = some c
  sized : v.spsW ≠ 0 → ∃ sps, v.sps = some sps ∧ parseSPS sps = some (.ok (v.spsW, v.spsH))

theorem loose (h : Decoders v) : Loose v where
  running := h.running
  current d hd := by
    obtain ⟨-, -, c, hc, -⟩ := h.current d hd
    exact ⟨c, hc⟩
  sized := h.sized

theorem takeDecoder (h : Loose v) : Decoders v.takeDecoder where
  running d c hc hrunning := by
    rcases h.running d c hc hrunning with hd | hd
    · exact .inr (List.mem_append_left _ (by rw [hd]; exact List.mem_singleton.mpr rfl))
    · exact .inr (List.mem_append_right _ hd)
  current d hd := by cases hd
  sized := h.sized

/-- The current decoder goes away by itself. -/
theorem onDecoderExit (h : Decoders v) {d : Nat} {c : Decoder} (hc : v.decoders[d]? = some c)
    (hexited : c.exited = true) (err : Option String) : Decoders (v.onDecoderExit d err) := by
  rw [State.onDecoderExit]
  split
  next hdec =>
    refine ⟨fun e b hb hrunning => ?_, fun e he => ?_, h.sized⟩
    swap
    · cases he
    rcases h.running e b hb hrunning with he | he
    · cases hdec.symm.trans he
      cases hc.symm.trans hb
      rw [Decoder.running, hexited, Bool.not_true, Bool.and_false] at hrunning
      cases hrunning
    · exact .inr he
  next => exact h

/-- A decoder goes on, or stops running. -/
theorem setDecoder (h : Decoders v) {d : Nat} {c c' : Decoder} (hc : v.decoders[d]? = some c)
    (hw : c'.w = c.w) (hh : c'.h = c.h) (hrunning : c'.running = true → c.running = true) :
    Decoders (v.setDecoder d c') where
  running := by
    refine Entries.forall_set (fun hc' => h.running d c hc (hrunning hc')) ?_
    exact fun e b _ hb => h.running e b hb
  current e he := by
    obtain ⟨hactive, hne, b, hb, hbw, hbh⟩ := h.current e he
    refine ⟨hactive, hne, ?_⟩
    change ∃ b, (v.decoders.set d c')[e]? = some b ∧ b.w = v.spsW ∧ b.h = v.spsH
    by_cases hde : d = e
    · subst hde
      cases hc.symm.trans hb
      obtain ⟨hlt, -⟩ := List.getElem?_eq_some_iff.mp hc
      exact ⟨c', List.getElem?_set_self hlt, hw.trans hbw, hh.trans hbh⟩
    · exact ⟨b, (List.getElem?_set_ne hde).trans hb, hbw, hbh⟩
  sized := h.sized

/-- A decoder that was told to stop is owed nothing more. -/
theorem stop (h : Decoders v) {d : Nat} {c : Decoder} (hc : v.decoders[d]? = some c) :
    Decoders ({ v with owed := v.owed.erase d }.setDecoder d { c with quit := true }) := by
  have hset : Decoders (v.setDecoder d { c with quit := true }) :=
    h.setDecoder hc rfl rfl fun hrunning => by cases hrunning
  refine ⟨fun e b hb hrunning => ?_, hset.current, hset.sized⟩
  rcases hset.running e b hb hrunning with he | he
  · exact .inl he
  · by_cases hed : e = d
    · subst hed
      change (v.decoders.set e { c with quit := true })[e]? = some b at hb
      rw [List.getElem?_set_self (List.getElem?_eq_some_iff.mp hc).1] at hb
      cases hb
      cases hrunning
    · exact .inr ((List.mem_erase_of_ne hed).mpr he)

theorem takeSPS (h : Decoders v) {sps : List UInt8} (hw : v.takeSPS sps = some w) :
    Loose w ∧ w.active = v.active ∧ (w.spsW = 0 → Decoders w) := by
  obtain ⟨size, hsize, rfl⟩ := Option.map_eq_some_iff.mp hw
  cases size with
  | error e => exact ⟨h.loose, rfl, fun _ => h⟩
  | ok size =>
      obtain ⟨-, -, -, hpos, -⟩ := Sps.parseSPS_eq_ok.mp hsize
      refine ⟨⟨h.running, h.loose.current, fun _ => ⟨sps, rfl, hsize⟩⟩, rfl, fun hzero => ?_⟩
      change size.1 = 0 at hzero
      rw [hzero] at hpos
      exact absurd hpos (Int.lt_irrefl 0)

theorem takeSets (h : Decoders v) {sps pps : Option (List UInt8)}
    (hw : v.takeSets sps pps = some w) :
    Loose w ∧ w.active = v.active ∧ (w.spsW = 0 → Decoders w) := by
  obtain ⟨m, hm, rfl⟩ := Option.map_eq_some_iff.mp hw
  have hsets : Loose m ∧ m.active = v.active ∧ (m.spsW = 0 → Decoders m) := by
    cases sps with
    | none =>
        cases hm
        exact ⟨h.loose, rfl, fun _ => h⟩
    | some sps => exact h.takeSPS hm
  obtain ⟨hloose, hactive, hzero⟩ := hsets
  split
  · exact ⟨⟨hloose.running, hloose.current, hloose.sized⟩, hactive,
      fun hw => ⟨(hzero hw).running, (hzero hw).current, (hzero hw).sized⟩⟩
  · exact ⟨hloose, hactive, hzero⟩

theorem startDecoder_eq_ok {w h : Int64} {failure : Option String} {c : Decoder}
    (hc : startDecoder w h failure = .ok c) : c = { w := w, h := h } := by
  unfold startDecoder at hc
  split at hc
  · cases hc
  · cases hc
  · cases hc
    rfl

/-- Afterwards the current decoder has the size of the parameter set. -/
theorem decode (h : Loose v) (hactive : v.active = true) (hne : v.spsW ≠ 0) (au : List UInt8)
    (both : Bool) (failure : Option String) : Decoders (v.decode au both failure) := by
  rw [State.decode]
  split
  next d hd =>
    obtain ⟨hdec, hfits⟩ := Option.filter_eq_some_iff.mp hd
    refine ⟨h.running, fun e he => ⟨hactive, hne, ?_⟩, h.sized⟩
    cases hdec.symm.trans he
    obtain ⟨c, hc⟩ := h.current d hdec
    rw [hc, Option.any_some, Bool.and_eq_true] at hfits
    exact ⟨c, hc, of_decide_eq_true hfits.1, of_decide_eq_true hfits.2⟩
  next =>
    have htaken := takeDecoder h
    split
    next c hc =>
      cases startDecoder_eq_ok hc
      refine ⟨?_, fun e he => ⟨hactive, hne, ?_⟩, h.sized⟩
      · refine Entries.forall_concat (fun _ => .inl rfl) fun e b hb hrunning => ?_
        rcases htaken.running e b hb hrunning with he | he
        · cases he
        · exact .inr he
      · cases he
        refine ⟨_, List.getElem?_concat_length, ?_⟩
        cases both <;> exact ⟨rfl, rfl⟩
    next => exact ⟨htaken.running, htaken.current, htaken.sized⟩

theorem feedAU (h : Decoders v) {au : List UInt8} {failure : Option String}
    (hw : v.feedAU au failure = some w) : Decoders w := by
  obtain ⟨nals, -, hw⟩ := Option.bind_eq_some_iff.mp hw
  split at hw
  next hactive =>
    obtain ⟨m, hm, hw⟩ := Option.bind_eq_some_iff.mp hw
    obtain ⟨hloose, heq, hzero⟩ := h.takeSets hm
    cases hw
    split
    next hw => exact hzero hw
    next hw => exact decode hloose (heq.trans hactive) hw au _ failure
  next =>
    cases hw
    exact h

end Decoders

/-! ### The clients and the timers -/

/-- A `deactivate` is to come. -/
def State.due (v : State) : Prop := v.armed ≠ [] ∨ 0 < v.fired

/-- What holds of the clients and the timers: the pipeline is on while somebody watches, and is to
be switched off when nobody does. -/
structure Watched (v : State) : Prop where
  counted : v.closed = false → v.refs = v.clients
  watched : 0 < v.refs → v.active = true
  closed : v.closed = true → v.active = false
  due : v.active = true → 0 < v.refs ∨ v.due
  timer : v.stopTimer ≠ none → v.active = true ∧ v.refs = 0 ∧ v.due

namespace State

variable (v : State)

theorem disarm_eq : ∃ armed, v.disarm = { v with armed := armed, stopTimer := none } := by
  rw [disarm]
  split
  next => exact ⟨_, rfl⟩
  next hnone =>
    refine ⟨v.armed, ?_⟩
    rw [← hnone]

/-- `Acquire` succeeds before `Close` only. -/
theorem eq_of_acquire {v w : State} (h : v.acquire = .ok w) :
    v.closed = false ∧ w = { v with refs := v.refs + 1 }.disarm.activate := by
  rw [acquire] at h
  split at h
  next => cases h
  next =>
    split at h
    next => cases h
    next hopen =>
      cases h
      exact ⟨Bool.eq_false_of_not_eq_true hopen, rfl⟩

theorem eq_ok_of_toOption {r : Except String State} {w : State} (h : r.toOption = some w) :
    r = .ok w := by
  cases r with
  | error e => cases h
  | ok v =>
      cases h
      rfl

theorem length_keepers_cancelKeeper : v.cancelKeeper.keepers.length = v.keepers.length := by
  rw [cancelKeeper]
  split
  next => exact List.length_modify _ _ _
  next => rfl

theorem cancelKeeper_eq : ∃ keepers, v.cancelKeeper = { v with keepers := keepers } := by
  rw [cancelKeeper]
  split
  next => exact ⟨_, rfl⟩
  next => exact ⟨v.keepers, rfl⟩

end State

namespace Watched

variable {v w : State}

/-- Somebody watches. -/
theorem of_active (hopen : v.closed = false) (hrefs : v.refs = v.clients) (hpos : 0 < v.refs)
    (hactive : v.active = true) (htimer : v.stopTimer = none) : Watched v where
  counted _ := hrefs
  watched _ := hactive
  closed hclosed := by
    rw [hopen] at hclosed
    cases hclosed
  due _ := .inl hpos
  timer hne := absurd htimer hne

/-- Nobody does, and the pipeline is off. -/
theorem of_inactive (hrefs : v.closed = false → v.refs = v.clients) (hzero : v.refs = 0)
    (hactive : v.active = false) (htimer : v.stopTimer = none) : Watched v where
  counted := hrefs
  watched hpos := by
    rw [hzero] at hpos
    exact absurd hpos (Nat.lt_irrefl 0)
  closed _ := hactive
  due hon := by
    rw [hactive] at hon
    cases hon
  timer hne := absurd htimer hne

theorem acquire (h : Watched v) (hw : v.acquire = .ok w) :
    Watched { w with clients := v.clients + 1 } := by
  obtain ⟨hopen, rfl⟩ := State.eq_of_acquire hw
  obtain ⟨armed, hdisarm⟩ := { v with refs := v.refs + 1 : State }.disarm_eq
  have hcounted := congrArg Nat.succ (h.counted hopen)
  rw [hdisarm, State.activate]
  split
  next hactive => exact of_active hopen hcounted (Nat.succ_pos _) hactive rfl
  next => exact of_active hopen hcounted (Nat.succ_pos _) rfl rfl

theorem release (h : Watched v) : Watched { v.release with clients := v.clients - 1 } := by
  rw [State.release]
  split
  next hidle =>
    obtain ⟨hzero, hactive, -⟩ := hidle
    have hdue : State.due { v with
        refs := v.refs - 1, stopTimer := some v.timers, timers := v.timers + 1,
        armed := v.timers :: v.armed, clients := v.clients - 1 } := .inl (List.cons_ne_nil _ _)
    exact {
      counted := fun hopen => congrArg (· - 1) (h.counted hopen)
      watched := fun _ => hactive
      closed := h.closed
      due := fun _ => .inr hdue
      timer := fun _ => ⟨hactive, hzero, hdue⟩ }
  next hbusy =>
    exact {
      counted := fun hopen => congrArg (· - 1) (h.counted hopen)
      watched := fun hpos => h.watched (Nat.lt_of_lt_of_le hpos (Nat.sub_le _ _))
      closed := h.closed
      due := fun hactive => by
        by_cases htimer : v.stopTimer = none
        · refine .inl (Nat.pos_of_ne_zero fun hzero => hbusy ⟨hzero, hactive, htimer⟩)
        · exact .inr (h.timer htimer).2.2
      timer := fun hne => by
        obtain ⟨hactive, hzero, hdue⟩ := h.timer hne
        exact ⟨hactive, congrArg (· - 1) hzero, hdue⟩ }

theorem fire (h : Watched v) (t : Nat) :
    Watched { v with armed := v.armed.erase t, fired := v.fired + 1 } where
  counted := h.counted
  watched := h.watched
  closed := h.closed
  due _ := .inr (.inr (Nat.succ_pos _))
  timer hne := by
    obtain ⟨hactive, hzero, -⟩ := h.timer hne
    exact ⟨hactive, hzero, .inr (Nat.succ_pos _)⟩

theorem deactivate (h : Watched v) : Watched { v.deactivate with fired := v.fired - 1 } := by
  rw [State.deactivate]
  split
  next hnot =>
    have hrefs : v.active = true → 0 < v.refs := by
      intro hactive
      rcases hnot with hpos | hinactive
      · exact hpos
      · rw [hactive] at hinactive
        cases hinactive
    exact {
      counted := h.counted
      watched := h.watched
      closed := h.closed
      due := fun hactive => .inl (hrefs hactive)
      timer := fun hne => by
        obtain ⟨hactive, hzero, -⟩ := h.timer hne
        exact absurd hzero (hrefs hactive).ne' }
  next hidle =>
    have hzero : v.refs = 0 := Nat.eq_zero_of_not_pos fun hpos => hidle (.inl hpos)
    obtain ⟨keepers, hcancel⟩ :=
      { v with active := false, stopTimer := none : State }.cancelKeeper_eq
    rw [hcancel]
    exact of_inactive h.counted hzero rfl rfl

theorem close (v : State) : Watched v.close := by
  obtain ⟨armed, hdisarm⟩ :=
    { v with closed := true, refs := 0, active := false : State }.disarm_eq
  obtain ⟨keepers, hcancel⟩ := { v with
    closed := true
    refs := 0
    active := false
    armed := armed
    stopTimer := none : State }.cancelKeeper_eq
  rw [State.close, hdisarm, hcancel]
  refine of_inactive ?_ rfl rfl rfl
  rintro ⟨⟩

end Watched

/-! ### The keepers -/

/-- What holds of the keepers: the only one that is not cancelled is that of the pipeline that is
on, and no more than one attempt of each is made against another client. -/
structure Keepers (v : State) : Prop where
  live : ∀ (k : Nat) (c : Keeper), v.keepers[k]? = some c → c.cancelled = false →
    v.active = true ∧ v.cancel = some k
  takeovers : v.takeovers + v.keepers.countP (·.first) ≤ v.keepers.length

namespace Keepers

variable {v w : State}

/-- After `cancel` no keeper is left. -/
theorem cancelKeeper (hlive : ∀ (k : Nat) (c : Keeper), v.keepers[k]? = some c →
    c.cancelled = false → v.cancel = some k)
    (htakeovers : v.takeovers + v.keepers.countP (·.first) ≤ v.keepers.length) :
    Keepers v.cancelKeeper := by
  rw [State.cancelKeeper]
  split
  next k hk =>
    constructor
    · refine Entries.forall_modify (fun _ _ hnot => ?_) fun j b hj hb hnot => ?_
      · cases hnot
      · exact absurd (Option.some.inj ((hlive j b hb hnot).symm.trans hk)) hj
    · change _ + (v.keepers.modify k _).countP _ ≤ (v.keepers.modify k _).length
      rw [Entries.countP_modify, List.length_modify]
      · exact htakeovers
      · exact fun _ => rfl
  next hnone =>
    refine ⟨fun k c hc hnot => ?_, htakeovers⟩
    cases hnone.symm.trans (hlive k c hc hnot)

theorem deactivate (h : Keepers v) : Keepers v.deactivate := by
  rw [State.deactivate]
  split
  next => exact h
  next =>
    have hcancelled : Keepers { v with active := false, stopTimer := none : State }.cancelKeeper :=
      cancelKeeper (fun k c hc hnot => (h.live k c hc hnot).2) h.takeovers
    exact ⟨hcancelled.live, hcancelled.takeovers⟩

theorem close (h : Keepers v) : Keepers v.close := by
  obtain ⟨armed, hdisarm⟩ :=
    { v with closed := true, refs := 0, active := false : State }.disarm_eq
  rw [State.close, hdisarm]
  have hcancelled : Keepers { v with
      closed := true
      refs := 0
      active := false
      armed := armed
      stopTimer := none : State }.cancelKeeper :=
    cancelKeeper (fun k c hc hnot => (h.live k c hc hnot).2) h.takeovers
  exact ⟨hcancelled.live, hcancelled.takeovers⟩

theorem acquire (h : Keepers v) (hw : v.acquire = .ok w) : Keepers w := by
  obtain ⟨-, rfl⟩ := State.eq_of_acquire hw
  obtain ⟨armed, hdisarm⟩ := { v with refs := v.refs + 1 : State }.disarm_eq
  rw [hdisarm, State.activate]
  split
  next => exact ⟨h.live, h.takeovers⟩
  next hoff =>
    constructor
    · refine Entries.forall_concat (fun _ => ⟨rfl, rfl⟩) fun k c hc hnot => ?_
      exact absurd (h.live k c hc hnot).1 hoff
    · change _ + (v.keepers ++ [_]).countP _ ≤ (v.keepers ++ [_]).length
      rw [List.countP_append, List.length_append, ← Nat.add_assoc]
      exact Nat.add_le_add_right h.takeovers 1

theorem connect (h : Keepers v) {k : Nat} {c : Keeper} (hc : v.keepers[k]? = some c)
    (connected kicked : Bool) (failure : Option String) :
    Keepers (v.connect k c connected kicked failure) := by
  have hlive : ∀ (j : Nat) (b : Keeper),
      (v.keepers.set k { c with first := false })[j]? = some b → b.cancelled = false →
        v.active = true ∧ v.cancel = some j :=
    Entries.forall_set (h.live k c hc) fun j b _ hb => h.live j b hb
  have hcount := Entries.countP_set hc { c with first := false } (·.first)
  rw [if_neg Bool.false_ne_true, Nat.add_zero] at hcount
  have htakeovers := h.takeovers
  rw [← hcount] at htakeovers
  rw [State.connect]
  split
  next hensure =>
    refine ⟨hlive, ?_⟩
    change (if kicked then v.takeovers + 1 else v.takeovers) + (v.keepers.set k _).countP _ ≤
      (v.keepers.set k _).length
    rw [List.length_set]
    cases kicked with
    | false => exact (Nat.add_le_add_left (Nat.le_add_right _ _) _).trans htakeovers
    | true =>
        rw [Bool.and_eq_true, Bool.not_true, Bool.or_false] at hensure
        rw [if_pos hensure.2] at htakeovers
        rw [if_pos rfl]
        omega
  next =>
    have hle : v.takeovers + (v.keepers.set k { c with first := false }).countP (·.first) ≤
        (v.keepers.set k { c with first := false }).length := by
      rw [List.length_set]
      exact (Nat.add_le_add_left (Nat.le_add_right _ _) _).trans htakeovers
    split
    · exact ⟨hlive, hle⟩
    · exact ⟨hlive, hle⟩

/-- A keeper that is cancelled ends. -/
theorem end_ (h : Keepers v) {k : Nat} {c : Keeper} (hc : v.keepers[k]? = some c) :
    Keepers { v with keepers := v.keepers.set k { c with ended := true } } := by
  constructor
  · exact Entries.forall_set (h.live k c hc) fun j b _ hb => h.live j b hb
  · have hcount := Entries.countP_set hc { c with ended := true } (·.first)
    change _ + (v.keepers.set k _).countP _ ≤ (v.keepers.set k _).length
    rw [List.length_set, Nat.add_right_cancel hcount]
    exact h.takeovers

end Keepers

/-! ### Runs -/

structure State.Inv (v : State) : Prop where
  decoders : Decoders v
  watched : Watched v
  keepers : Keepers v

namespace Decoders

variable {v w : State}

theorem acquire (h : Decoders v) (hw : v.acquire = .ok w) : Decoders w := by
  obtain ⟨-, rfl⟩ := State.eq_of_acquire hw
  obtain ⟨armed, hdisarm⟩ := { v with refs := v.refs + 1 : State }.disarm_eq
  rw [hdisarm, State.activate]
  split
  next => exact ⟨h.running, h.current, h.sized⟩
  next => exact ⟨h.running, fun d hd => ⟨rfl, (h.current d hd).2⟩, h.sized⟩

theorem deactivate (h : Decoders v) : Decoders v.deactivate := by
  rw [State.deactivate]
  split
  next => exact h
  next =>
    obtain ⟨keepers, hcancel⟩ :=
      { v with active := false, stopTimer := none : State }.cancelKeeper_eq
    rw [hcancel]
    exact takeDecoder ⟨h.running, h.loose.current, h.sized⟩

theorem close (h : Decoders v) : Decoders v.close := by
  obtain ⟨armed, hdisarm⟩ :=
    { v with closed := true, refs := 0, active := false : State }.disarm_eq
  obtain ⟨keepers, hcancel⟩ := { v with
    closed := true
    refs := 0
    active := false
    armed := armed
    stopTimer := none : State }.cancelKeeper_eq
  rw [State.close, hdisarm, hcancel]
  exact takeDecoder ⟨h.running, h.loose.current, h.sized⟩

end Decoders

namespace State

variable {v w : State}

theorem withKeeper_eq_some {k : Nat} {f : Keeper → Option State} :
    v.withKeeper k f = some w ↔ ∃ c, v.keepers[k]? = some c ∧ c.ended = false ∧ f c = some w := by
  rw [withKeeper, Option.bind_eq_some_iff]
  refine exists_congr fun c => and_congr_right fun _ => ?_
  cases c.ended with
  | false => exact ⟨fun h => ⟨rfl, h⟩, fun h => h.2⟩
  | true =>
      constructor
      · intro h
        cases h
      · rintro ⟨h, -⟩
        cases h

theorem inv_new (ffmpeg unavailable : String) : (new ffmpeg unavailable).Inv where
  decoders := by
    refine ⟨fun _ _ h => ?_, fun _ h => ?_, fun h => absurd rfl h⟩
    · cases h
    · cases h
  watched := Watched.of_inactive (fun _ => rfl) rfl rfl rfl
  keepers := by
    refine ⟨fun _ _ h => ?_, le_rfl⟩
    cases h

theorem release_eq (v : State) : ∃ stopTimer timers armed,
    v.release = { v with
      refs := v.refs - 1
      stopTimer := stopTimer
      timers := timers
      armed := armed } := by
  rw [release]
  split
  next => exact ⟨_, _, _, rfl⟩
  next => exact ⟨v.stopTimer, v.timers, v.armed, rfl⟩

theorem takeSets_eq {sps pps : Option (List UInt8)} (h : v.takeSets sps pps = some w) :
    ∃ sps pps width height,
      w = { v with sps := sps, pps := pps, spsW := width, spsH := height } := by
  obtain ⟨m, hm, rfl⟩ := Option.map_eq_some_iff.mp h
  have hsets : ∃ sps width height, m = { v with sps := sps, spsW := width, spsH := height } := by
    cases sps with
    | none =>
        cases hm
        exact ⟨_, _, _, rfl⟩
    | some sps =>
        obtain ⟨size, -, rfl⟩ := Option.map_eq_some_iff.mp hm
        cases size with
        | error e => exact ⟨_, _, _, rfl⟩
        | ok size => exact ⟨_, _, _, rfl⟩
  obtain ⟨kept, width, height, rfl⟩ := hsets
  split
  · exact ⟨_, _, _, _, rfl⟩
  · exact ⟨_, _, _, _, rfl⟩

theorem decode_eq (v : State) (au : List UInt8) (both : Bool) (failure : Option String) :
    ∃ decoders dec owed writes lastErr, v.decode au both failure = { v with
      decoders := decoders
      dec := dec
      owed := owed
      writes := writes
      lastErr := lastErr } := by
  rw [decode]
  split
  next => exact ⟨_, _, _, _, _, rfl⟩
  next =>
    split
    · exact ⟨_, _, _, _, _, rfl⟩
    · exact ⟨_, _, _, _, _, rfl⟩

/-- An access unit changes nothing of the clients, the timers and the keepers. -/
theorem feedAU_frame {au : List UInt8} {failure : Option String}
    (h : v.feedAU au failure = some w) : (Watched v → Watched w) ∧ (Keepers v → Keepers w) := by
  obtain ⟨nals, -, h⟩ := Option.bind_eq_some_iff.mp h
  split at h
  next =>
    obtain ⟨m, hm, h⟩ := Option.bind_eq_some_iff.mp h
    obtain ⟨sps, pps, width, height, rfl⟩ := takeSets_eq hm
    cases h
    split
    next => exact ⟨fun h => ⟨h.counted, h.watched, h.closed, h.due, h.timer⟩,
      fun h => ⟨h.live, h.takeovers⟩⟩
    next =>
      obtain ⟨decoders, dec, owed, writes, lastErr, heq⟩ := decode_eq
        { v with sps := sps, pps := pps, spsW := width, spsH := height } au
        ((lastOf 7 nals).isSome && (lastOf 8 nals).isSome) failure
      rw [heq]
      exact ⟨fun h => ⟨h.counted, h.watched, h.closed, h.due, h.timer⟩,
        fun h => ⟨h.live, h.takeovers⟩⟩
  next =>
    cases h
    exact ⟨id, id⟩

/-- The invariant is about none of these. -/
theorem Inv.others (h : v.Inv) (keyframe gotFrame sb : Bool) (lastErr : String)
    (feeds : List (List UInt8)) (writes : List (Nat × List UInt8)) (keyframes : Nat) :
    { v with
      keyframe := keyframe
      gotFrame := gotFrame
      sb := sb
      lastErr := lastErr
      feeds := feeds
      writes := writes
      keyframes := keyframes : State }.Inv where
  decoders := ⟨h.decoders.running, h.decoders.current, h.decoders.sized⟩
  watched := ⟨h.watched.counted, h.watched.watched, h.watched.closed, h.watched.due,
    h.watched.timer⟩
  keepers := ⟨h.keepers.live, h.keepers.takeovers⟩

/-- The clients, the timers and the keepers have nothing to do with the processes. -/
theorem Inv.of_decoders (h : v.Inv) {decoders : List Decoder} {owed : List Nat} {dec : Option Nat}
    {lastErr : String}
    (hdecoders : Decoders { v with
      decoders := decoders, owed := owed, dec := dec, lastErr := lastErr }) :
    { v with decoders := decoders, owed := owed, dec := dec, lastErr := lastErr : State }.Inv where
  decoders := hdecoders
  watched := ⟨h.watched.counted, h.watched.watched, h.watched.closed, h.watched.due,
    h.watched.timer⟩
  keepers := ⟨h.keepers.live, h.keepers.takeovers⟩

/-- Every step keeps the invariant. -/
theorem inv_step {a : Action} (h : v.Inv) (hstep : v.step a = some w) : w.Inv := by
  have hdecoders := h.decoders
  have hwatched := h.watched
  have hkeepers := h.keepers
  cases a with
  | acquire =>
      obtain ⟨m, hm, rfl⟩ := Option.map_eq_some_iff.mp hstep
      have hok : v.acquire = .ok m := eq_ok_of_toOption hm
      have hdecoders := hdecoders.acquire hok
      have hkeepers := hkeepers.acquire hok
      exact ⟨⟨hdecoders.running, hdecoders.current, hdecoders.sized⟩, hwatched.acquire hok,
        ⟨hkeepers.live, hkeepers.takeovers⟩⟩
  | release =>
      simp only [step] at hstep
      split at hstep
      next =>
        cases hstep
        refine ⟨?_, hwatched.release, ?_⟩
        all_goals
          obtain ⟨stopTimer, timers, armed, heq⟩ := v.release_eq
          rw [heq]
        · exact ⟨hdecoders.running, hdecoders.current, hdecoders.sized⟩
        · exact ⟨hkeepers.live, hkeepers.takeovers⟩
      next => cases hstep
  | fire t =>
      simp only [step] at hstep
      split at hstep
      next =>
        cases hstep
        exact ⟨⟨hdecoders.running, hdecoders.current, hdecoders.sized⟩, hwatched.fire t,
          ⟨hkeepers.live, hkeepers.takeovers⟩⟩
      next => cases hstep
  | deactivate =>
      simp only [step] at hstep
      split at hstep
      next =>
        cases hstep
        have hdecoders := hdecoders.deactivate
        have hkeepers := hkeepers.deactivate
        exact ⟨⟨hdecoders.running, hdecoders.current, hdecoders.sized⟩, hwatched.deactivate,
          ⟨hkeepers.live, hkeepers.takeovers⟩⟩
      next => cases hstep
  | close =>
      cases hstep
      exact ⟨hdecoders.close, Watched.close v, hkeepers.close⟩
  | connect k connected kicked failure =>
      obtain ⟨c, hc, -, hstep⟩ := withKeeper_eq_some.mp hstep
      cases hstep
      refine ⟨?_, ?_, hkeepers.connect hc connected kicked failure⟩
      all_goals
        rw [connect]
        split
      · exact ⟨hdecoders.running, hdecoders.current, hdecoders.sized⟩
      · split <;> exact ⟨hdecoders.running, hdecoders.current, hdecoders.sized⟩
      · exact ⟨hwatched.counted, hwatched.watched, hwatched.closed, hwatched.due, hwatched.timer⟩
      · split <;> exact
          ⟨hwatched.counted, hwatched.watched, hwatched.closed, hwatched.due, hwatched.timer⟩
  | nudge k =>
      obtain ⟨c, hc, -, hstep⟩ := withKeeper_eq_some.mp hstep
      cases hstep
      rw [nudge]
      split
      · exact h.others _ _ _ _ _ _ _
      · exact h
  | end_ k =>
      obtain ⟨c, hc, -, hstep⟩ := withKeeper_eq_some.mp hstep
      split at hstep
      · cases hstep
        exact ⟨⟨hdecoders.running, hdecoders.current, hdecoders.sized⟩,
          ⟨hwatched.counted, hwatched.watched, hwatched.closed, hwatched.due, hwatched.timer⟩,
          hkeepers.end_ hc⟩
      · cases hstep
  | attach =>
      cases hstep
      exact h.others _ _ _ _ _ _ _
  | packet aus =>
      cases hstep
      rw [packet]
      split
      · exact h.others _ _ _ _ _ _ _
      · exact h
  | feedAU au failure =>
      simp only [step] at hstep
      split at hstep
      next =>
        obtain ⟨hwatch, hkeep⟩ := feedAU_frame hstep
        have hfed : { v with feeds := v.feeds.erase au : State }.Inv := h.others _ _ _ _ _ _ _
        exact ⟨hfed.decoders.feedAU hstep, hwatch hfed.watched, hkeep hfed.keepers⟩
      next => cases hstep
  | write d data =>
      simp only [step] at hstep
      split at hstep
      next =>
        obtain ⟨c, hc, rfl⟩ := Option.map_eq_some_iff.mp hstep
        have hwritten : { v with writes := v.writes.erase (d, data) : State }.Inv :=
          h.others _ _ _ _ _ _ _
        split
        next c' hc' =>
          obtain ⟨-, rfl⟩ := Decoder.eq_of_write hc'
          exact hwritten.of_decoders (hwritten.decoders.setDecoder hc rfl rfl id)
        next => exact hwritten.others _ _ _ _ _ _ _
      next => cases hstep
  | drain d =>
      obtain ⟨c, hc, hstep⟩ := Option.bind_eq_some_iff.mp hstep
      split at hstep
      · cases hstep
        exact h.of_decoders (hdecoders.setDecoder hc rfl rfl id)
      · cases hstep
  | onFrame d =>
      obtain ⟨c, -, hstep⟩ := Option.bind_eq_some_iff.mp hstep
      split at hstep
      · cases hstep
      · cases hstep
        exact h.others _ _ _ _ _ _ _
  | stop d =>
      simp only [step] at hstep
      split at hstep
      next =>
        obtain ⟨c, hc, rfl⟩ := Option.map_eq_some_iff.mp hstep
        exact h.of_decoders (hdecoders.stop hc)
      next => cases hstep
  | exit d =>
      obtain ⟨c, hc, rfl⟩ := Option.map_eq_some_iff.mp hstep
      refine h.of_decoders (hdecoders.setDecoder hc rfl rfl fun hrunning => ?_)
      rw [Decoder.running, Bool.not_true, Bool.and_false] at hrunning
      cases hrunning
  | onDecoderExit d err =>
      obtain ⟨c, hc, hstep⟩ := Option.bind_eq_some_iff.mp hstep
      split at hstep
      next hexited =>
        cases hstep
        have hexit := hdecoders.onDecoderExit hc hexited err
        rw [onDecoderExit] at hexit ⊢
        split at hexit
        next hdec =>
          rw [if_pos hdec]
          exact h.of_decoders hexit
        next hdec =>
          rw [if_neg hdec]
          exact h
      next => cases hstep

end State

/-! ### What holds in every run -/

/-- The decoder runs and was not told to stop. -/
def State.Running (v : State) (d : Nat) : Prop := ∃ c, v.decoders[d]? = some c ∧ c.running = true

/-- The keeper goes on connecting. -/
def State.Keeping (v : State) (k : Nat) : Prop :=
  ∃ c, v.keepers[k]? = some c ∧ c.cancelled = false

/-- What a viewer and the operator can count on. -/
structure Supervised (v : State) : Prop where
  running : ∀ d, v.Running d → v.dec = some d ∨ d ∈ v.owed
  current : ∀ d, v.dec = some d → v.active = true ∧ ∃ c sps, v.decoders[d]? = some c ∧
    v.sps = some sps ∧ parseSPS sps = some (.ok (c.w, c.h))
  watched : v.closed = false → v.refs = v.clients ∧ (0 < v.clients → v.active = true)
  idle : v.closed = true ∨ (v.clients = 0 ∧ ¬v.due) →
    (∀ d, v.Running d → d ∈ v.owed) ∧ ∀ k, ¬v.Keeping k
  keeping : ∀ k l, v.Keeping k → v.Keeping l → k = l
  takeovers : v.takeovers ≤ v.keepers.length

theorem State.Inv.supervised {v : State} (h : v.Inv) : Supervised v where
  running := by
    rintro d ⟨c, hc, hrunning⟩
    exact h.decoders.running d c hc hrunning
  current d hd := by
    obtain ⟨hactive, hne, c, hc, hw, hh⟩ := h.decoders.current d hd
    obtain ⟨sps, hsps, hparse⟩ := h.decoders.sized hne
    refine ⟨hactive, c, sps, hc, hsps, ?_⟩
    rw [hw, hh]
    exact hparse
  watched hopen := by
    have hcounted := h.watched.counted hopen
    refine ⟨hcounted, fun hpos => h.watched.watched ?_⟩
    rw [hcounted]
    exact hpos
  idle hidle := by
    have hoff : v.active = false := by
      rcases hidle with hclosed | ⟨hnobody, hdue⟩
      · exact h.watched.closed hclosed
      · cases hactive : v.active with
        | false => rfl
        | true =>
            exfalso
            have hopen : v.closed = false := by
              cases hclosed : v.closed with
              | false => rfl
              | true => rw [h.watched.closed hclosed] at hactive; cases hactive
            rcases h.watched.due hactive with hpos | hd
            · rw [h.watched.counted hopen, hnobody] at hpos
              exact Nat.lt_irrefl 0 hpos
            · exact hdue hd
    have hnot : ∀ {p : Prop}, v.active = true → p := by
      intro p hon
      rw [hoff] at hon
      cases hon
    constructor
    · rintro d ⟨c, hc, hrunning⟩
      rcases h.decoders.running d c hc hrunning with hd | hd
      · exact hnot (h.decoders.current d hd).1
      · exact hd
    · rintro k ⟨c, hc, hlive⟩
      exact hnot (h.keepers.live k c hc hlive).1
  keeping := by
    rintro k l ⟨c, hc, hcl⟩ ⟨b, hb, hbl⟩
    exact Option.some.inj
      ((h.keepers.live k c hc hcl).2.symm.trans (h.keepers.live l b hb hbl).2)
  takeovers := (Nat.le_add_right _ _).trans h.keepers.takeovers

namespace State

variable {v w : State}

/-- Nothing is started after `Close`. -/
theorem closed_step {a : Action} (h : v.Inv) (hclosed : v.closed = true)
    (hstep : v.step a = some w) : w.closed = true ∧
      w.decoders.length = v.decoders.length ∧ w.keepers.length = v.keepers.length := by
  have hoff : v.active = false := h.watched.closed hclosed
  cases a with
  | acquire =>
      obtain ⟨m, hm, rfl⟩ := Option.map_eq_some_iff.mp hstep
      have hacquire : v.acquire = .ok m := eq_ok_of_toOption hm
      rw [(eq_of_acquire hacquire).1] at hclosed
      cases hclosed
  | release =>
      simp only [step] at hstep
      split at hstep
      next =>
        cases hstep
        obtain ⟨stopTimer, timers, armed, heq⟩ := v.release_eq
        rw [heq]
        exact ⟨hclosed, rfl, rfl⟩
      next => cases hstep
  | fire t =>
      simp only [step] at hstep
      split at hstep
      · cases hstep
        exact ⟨hclosed, rfl, rfl⟩
      · cases hstep
  | deactivate =>
      simp only [step] at hstep
      split at hstep
      next =>
        cases hstep
        rw [deactivate, if_pos (.inr hoff)]
        exact ⟨hclosed, rfl, rfl⟩
      next => cases hstep
  | close =>
      cases hstep
      obtain ⟨armed, hdisarm⟩ :=
        { v with closed := true, refs := 0, active := false : State }.disarm_eq
      rw [close, hdisarm]
      refine ⟨?_, ?_, length_keepers_cancelKeeper _⟩
      all_goals
        obtain ⟨keepers, hcancel⟩ := { v with
          closed := true
          refs := 0
          active := false
          armed := armed
          stopTimer := none : State }.cancelKeeper_eq
        rw [hcancel]
        rfl
  | connect k connected kicked failure =>
      obtain ⟨c, hc, -, hstep⟩ := withKeeper_eq_some.mp hstep
      cases hstep
      have hlength : (v.keepers.set k { c with first := false }).length = v.keepers.length :=
        List.length_set
      rw [connect]
      split
      · exact ⟨hclosed, rfl, hlength⟩
      · split <;> exact ⟨hclosed, rfl, hlength⟩
  | nudge k =>
      obtain ⟨c, hc, -, hstep⟩ := withKeeper_eq_some.mp hstep
      cases hstep
      rw [nudge]
      split <;> exact ⟨hclosed, rfl, rfl⟩
  | end_ k =>
      obtain ⟨c, hc, -, hstep⟩ := withKeeper_eq_some.mp hstep
      split at hstep
      · cases hstep
        exact ⟨hclosed, rfl, List.length_set⟩
      · cases hstep
  | attach =>
      cases hstep
      exact ⟨hclosed, rfl, rfl⟩
  | packet aus =>
      cases hstep
      rw [packet]
      split <;> exact ⟨hclosed, rfl, rfl⟩
  | feedAU au failure =>
      simp only [step] at hstep
      split at hstep
      next =>
        obtain ⟨nals, -, hstep⟩ := Option.bind_eq_some_iff.mp hstep
        rw [if_neg (Bool.eq_false_iff.mp hoff)] at hstep
        cases hstep
        exact ⟨hclosed, rfl, rfl⟩
      next => cases hstep
  | write d data =>
      simp only [step] at hstep
      split at hstep
      next =>
        obtain ⟨c, hc, rfl⟩ := Option.map_eq_some_iff.mp hstep
        split
        · exact ⟨hclosed, List.length_set, rfl⟩
        · exact ⟨hclosed, rfl, rfl⟩
      next => cases hstep
  | drain d =>
      obtain ⟨c, hc, hstep⟩ := Option.bind_eq_some_iff.mp hstep
      split at hstep
      · cases hstep
        exact ⟨hclosed, List.length_set, rfl⟩
      · cases hstep
  | onFrame d =>
      obtain ⟨c, -, hstep⟩ := Option.bind_eq_some_iff.mp hstep
      split at hstep
      · cases hstep
      · cases hstep
        exact ⟨hclosed, rfl, rfl⟩
  | stop d =>
      simp only [step] at hstep
      split at hstep
      next =>
        obtain ⟨c, hc, rfl⟩ := Option.map_eq_some_iff.mp hstep
        exact ⟨hclosed, List.length_set, rfl⟩
      next => cases hstep
  | exit d =>
      obtain ⟨c, hc, rfl⟩ := Option.map_eq_some_iff.mp hstep
      exact ⟨hclosed, List.length_set, rfl⟩
  | onDecoderExit d err =>
      obtain ⟨c, hc, hstep⟩ := Option.bind_eq_some_iff.mp hstep
      split at hstep
      next =>
        cases hstep
        rw [onDecoderExit]
        split <;> exact ⟨hclosed, rfl, rfl⟩
      next => cases hstep

theorem inv_of_run {ffmpeg unavailable : String} {as : List Action}
    (h : Machine.run step (new ffmpeg unavailable) as = some v) : v.Inv :=
  Machine.run_induct (inv_new ffmpeg unavailable) (fun _ _ _ hm hstep => inv_step hm hstep) h

/-- After `Close` nothing is started any more. -/
theorem Inv.closed_run {bs : List Action} (h : v.Inv) (hclosed : v.closed = true)
    (hrun : Machine.run step v bs = some w) : w.closed = true ∧
      w.decoders.length = v.decoders.length ∧ w.keepers.length = v.keepers.length := by
  have hall : w.Inv ∧ w.closed = true ∧
      w.decoders.length = v.decoders.length ∧ w.keepers.length = v.keepers.length := by
    refine Machine.run_induct (P := fun m => m.Inv ∧ m.closed = true ∧
      m.decoders.length = v.decoders.length ∧ m.keepers.length = v.keepers.length)
      ⟨h, hclosed, rfl, rfl⟩ ?_ hrun
    rintro m a n ⟨hm, hmclosed, hdecoders, hkeepers⟩ hstep
    obtain ⟨hn, hd, hk⟩ := closed_step hm hmclosed hstep
    exact ⟨inv_step hm hstep, hn, hd.trans hdecoders, hk.trans hkeepers⟩
  exact hall.2

end State

/-- An access unit with the parameter sets of a picture of one macroblock. -/
def smallUnit : List UInt8 := [0, 0, 0, 1, 0x67, 0x42, 0, 0x1e, 0xfb, 0xc8, 0, 0, 0, 1, 0x68, 0xce]

/-- A viewer comes and goes, and the timer of its leaving fires. -/
def oneViewer : List Action :=
  [.acquire, .connect 0 false false none, .attach, .packet [smallUnit], .feedAU smallUnit none,
    .release, .fire 0, .deactivate]

end Video

end Jetkvm

end Paniolo
