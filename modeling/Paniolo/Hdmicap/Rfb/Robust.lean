import Paniolo.Library.Machine
import Paniolo.Hdmicap.Rfb.Safety

/-!
# The client under any stream

Runs of a session over all that a server can send. On a stream whose greeting
does not cut a character no run panics, the framebuffer keeps its size, and
every step takes bytes, waits for more or ends the session; on any other stream
a run panics.
-/

namespace Paniolo

namespace Hdmicap

namespace Rfb

namespace Session

open Reader (Conn Holds Stopped)

/-- The program waits for more bytes than there are. -/
def Blocked {σ α : Type} (r : Prog σ α) (c : Conn σ) : Prop :=
  ∃ n k, r = .take n k ∧ c.buf.length < n

def Event.isTick : Event → Bool
  | .tick _ _ _ => true
  | _ => false

namespace State

/-- What is buffered. -/
def buf : State → List UInt8
  | .opening _ c => c.buf
  | .top c => c.buf
  | .inside _ c => c.buf
  | .ended _ => []
  | .panicked => []

def Over : State → Prop
  | .ended _ => True
  | _ => False

def Waits : State → Prop
  | .opening r c => Blocked r c
  | .top c => c.buf = []
  | .inside r c => Blocked r c
  | .ended _ => False
  | .panicked => False

/-- Not panicked, and the framebuffer is sane. -/
def Safe : State → Prop
  | .opening _ _ => True
  | .top c => c.state.Sane
  | .inside _ c => c.state.Sane
  | .ended _ => True
  | .panicked => False

/-- What holds when `read` has been read. -/
def Inv (read : List UInt8) : State → Prop
  | .opening r c => Blocked r c ∧
      (r = Session.opening ∧ c.buf = read ∨ r.Holds (fun _ => True) Fb.Sane 0)
  | .top c => c.state.Sane
  | .inside r c => Blocked r c ∧ c.state.Sane ∧ r.Holds World.Sane (fun _ => True) 0
  | .ended _ => True
  | .panicked => False

theorem Inv.safe {read : List UInt8} {s : State} (h : s.Inv read) : s.Safe := by
  cases s with
  | opening r c => trivial
  | top c => exact h
  | inside r c => exact h.2.1
  | ended e => trivial
  | panicked => exact h

end State

/-- The step took bytes, or the session now waits for more or is over. -/
def Progress (s : State) (e : Event) (s' : State) : Prop :=
  s'.Over ∨ s'.Waits ∨ s'.buf.length < (s.buf ++ e.bytes).length

theorem inv_ofOpening {read : List UInt8} {r : Prog Unit Fb} {c : Conn Unit}
    (h : Stopped (fun _ => True) Fb.Sane r c) : (State.ofOpening (r, c)).Inv read := by
  cases r with
  | done fb => exact ⟨h.1, fun _ hf => by cases hf⟩
  | fail e => trivial
  | take n k => exact ⟨⟨n, k, rfl, h.1⟩, Or.inr h.2.2⟩
  | panic => exact h
  | advance n k => exact h.elim
  | send bytes k => exact h.elim
  | get k => exact h.elim
  | set s k => exact h.elim

theorem inv_ofMessage {read : List UInt8} {r : Prog World Unit} {c : Conn World}
    (h : Stopped World.Sane (fun _ => True) r c) : (State.ofMessage (r, c)).Inv read := by
  cases r with
  | done u => exact h.2
  | fail e => trivial
  | take n k => exact ⟨⟨n, k, rfl, h.1⟩, h.2.1, h.2.2⟩
  | panic => exact h
  | advance n k => exact h.elim
  | send bytes k => exact h.elim
  | get k => exact h.elim
  | set s k => exact h.elim

section

variable {writes : Nat → Option String} {stream read : List UInt8}

theorem inv_turn {c : Conn World} (hc : c.state.Sane) (hbuf : c.buf ≠ []) :
    (State.turn writes c).Inv read := by
  obtain ⟨t, rest, heq⟩ := List.exists_cons_of_ne_nil hbuf
  rw [State.turn, heq, List.getElem?_cons_zero]
  refine inv_ofMessage ((holds_message t).resume writes hc ?_)
  rw [heq, List.length_cons]
  exact Nat.succ_pos _

/-- The greeting that has been read is the beginning of the stream. -/
theorem holds_of_greetingOk (hok : GreetingOk stream) (hread : read <+: stream)
    (hlen : 12 ≤ read.length) :
    (greeting (read.take 12) >>= handshakeFrom >>= openWith).Holds (fun _ => True) Fb.Sane 0 := by
  obtain ⟨more, rfl⟩ := hread
  have htake : (read ++ more).take 12 = read.take 12 := List.take_append_of_le_length hlen
  refine holds_afterGreeting (by rw [List.length_take, Nat.min_eq_left hlen]) fun hg b hb => ?_
  refine hok (by rw [List.length_append]; omega) (by rwa [htake]) b ?_
  rw [List.getElem?_append_left (by omega)]
  rwa [List.getElem?_take_of_lt (by omega)] at hb

theorem blocked_opening {c : Conn Unit} : Blocked Session.opening c ↔ c.buf.length < 12 := by
  rw [opening_eq]
  constructor
  · rintro ⟨n, k, hr, hlt⟩
    cases hr
    exact hlt
  · exact fun hlt => ⟨12, _, rfl, hlt⟩

/-- More of the handshake. -/
theorem inv_opening_data (hok : GreetingOk stream) {r : Prog Unit Fb} {c : Conn Unit}
    (h : (State.opening r c).Inv read) {b : List UInt8} (hread : read ++ b <+: stream) :
    (State.ofOpening (r.resume writes { c with buf := c.buf ++ b })).Inv (read ++ b) := by
  obtain ⟨hblocked, ⟨rfl, hbuf⟩ | hholds⟩ := h
  · rw [hbuf, opening_eq, Reader.resume]
    split
    · next hshort => exact ⟨⟨12, _, rfl, hshort⟩, Or.inl ⟨opening_eq.symm, rfl⟩⟩
    · next hlong =>
        have hholds := holds_of_greetingOk hok hread (Nat.le_of_not_lt hlong)
        exact inv_ofOpening (hholds.resume writes trivial (Nat.zero_le _))
  · exact inv_ofOpening (hholds.resume writes trivial (Nat.zero_le _))

theorem inv_step (hok : GreetingOk stream) {s s' : State} {e : Event} (h : s.Inv read)
    (hread : read ++ e.bytes <+: stream) (hstep : s.step writes e = some s') :
    s'.Inv (read ++ e.bytes) := by
  cases s with
  | opening r c =>
      cases e with
      | data b =>
          cases hstep
          exact inv_opening_data hok h hread
      | ready => cases hstep
      | tick stop dead due => cases hstep
      | _ =>
          cases hstep
          trivial
  | top c =>
      cases e with
      | data b =>
          simp only [State.step] at hstep
          split at hstep
          · cases hstep
          · split at hstep
            · cases hstep
              exact h
            · next hne =>
                cases hstep
                exact inv_turn h hne
      | ready =>
          simp only [State.step] at hstep
          split at hstep
          · cases hstep
          · next hne =>
              cases hstep
              exact inv_turn h hne
      | closed =>
          simp only [State.step] at hstep
          split at hstep
          · cases hstep
            trivial
          · cases hstep
      | readError e =>
          simp only [State.step] at hstep
          split at hstep
          · cases hstep
            trivial
          · cases hstep
      | tick stop dead due =>
          simp only [State.step] at hstep
          split at hstep
          · cases hstep
            trivial
          · split at hstep
            · cases hstep
              trivial
            · split at hstep
              · cases hstep
                exact inv_ofMessage ((Reader.holds_write _).resume writes h (Nat.zero_le _))
              · cases hstep
                exact h
      | stalled => cases hstep
      | openTimeout => cases hstep
  | inside r c =>
      cases e with
      | data b =>
          cases hstep
          exact inv_ofMessage (h.2.2.resume writes h.2.1 (Nat.zero_le _))
      | ready => cases hstep
      | tick stop dead due => cases hstep
      | openTimeout => cases hstep
      | _ =>
          cases hstep
          trivial
  | ended o => cases hstep
  | panicked => cases hstep

/-! ### Progress -/

theorem progress_ofOpening {x : Prog Unit Fb × Conn Unit} {m : Nat}
    (hinv : (State.ofOpening x).Inv read)
    (hdone : ∀ fb, x.1 = .done fb → x.2.buf.length < m) :
    (State.ofOpening x).Over ∨ (State.ofOpening x).Waits ∨ (State.ofOpening x).buf.length < m := by
  obtain ⟨r, c⟩ := x
  cases r with
  | done fb => exact Or.inr (Or.inr (hdone fb rfl))
  | fail e => exact Or.inl trivial
  | panic => exact hinv.elim
  | _ => exact Or.inr (Or.inl hinv.1)

theorem progress_ofMessage {x : Prog World Unit × Conn World} {m : Nat}
    (hinv : (State.ofMessage x).Inv read)
    (hdone : ∀ u, x.1 = .done u → x.2.buf.length < m) :
    (State.ofMessage x).Over ∨ (State.ofMessage x).Waits ∨ (State.ofMessage x).buf.length < m := by
  obtain ⟨r, c⟩ := x
  cases r with
  | done u => exact Or.inr (Or.inr (hdone u rfl))
  | fail e => exact Or.inl trivial
  | panic => exact hinv.elim
  | _ => exact Or.inr (Or.inl hinv.1)

/-- A program that has waited ends only when it has taken what it waited for. -/
theorem length_lt_of_blocked {σ α : Type} {r : Prog σ α} {c c' : Conn σ} (h : Blocked r c) {a : α}
    (hdone : (r.resume writes c').1 = .done a) :
    (r.resume writes c').2.buf.length < c'.buf.length := by
  obtain ⟨n, k, rfl, hlt⟩ := h
  have := (Reader.eats_take n k).resume writes hdone
  omega

theorem progress_turn {c : Conn World} (hinv : (State.turn writes c).Inv read)
    (hbuf : c.buf ≠ []) :
    (State.turn writes c).Over ∨ (State.turn writes c).Waits ∨
      (State.turn writes c).buf.length < c.buf.length := by
  obtain ⟨t, rest, heq⟩ := List.exists_cons_of_ne_nil hbuf
  have hturn : State.turn writes c = State.ofMessage ((message t).resume writes c) := by
    rw [State.turn, heq, List.getElem?_cons_zero]
  rw [hturn] at hinv ⊢
  exact progress_ofMessage hinv fun u hdone => (eats_message t).resume writes hdone

theorem progress_step {s s' : State} {e : Event} {read' : List UInt8} (h : s.Inv read)
    (h' : s'.Inv read') (hstep : s.step writes e = some s') (he : e.isTick = false) :
    Progress s e s' := by
  cases s with
  | opening r c =>
      cases e with
      | data b =>
          cases hstep
          exact progress_ofOpening h' fun fb => length_lt_of_blocked h.1
      | ready => cases hstep
      | tick stop dead due => cases he
      | _ =>
          cases hstep
          exact Or.inl trivial
  | top c =>
      cases e with
      | data b =>
          simp only [State.step] at hstep
          split at hstep
          · cases hstep
          · next hbuf =>
              rw [not_not] at hbuf
              split at hstep
              · cases hstep
                exact Or.inr (Or.inl hbuf)
              · next hne =>
                  cases hstep
                  rw [Progress, State.buf, hbuf, List.nil_append]
                  exact progress_turn h' hne
      | ready =>
          simp only [State.step] at hstep
          split at hstep
          · cases hstep
          · next hne =>
              cases hstep
              have hbytes : Event.ready.bytes = [] := rfl
              rw [Progress, hbytes, List.append_nil]
              exact progress_turn h' hne
      | closed =>
          simp only [State.step] at hstep
          split at hstep
          · cases hstep
            exact Or.inl trivial
          · cases hstep
      | readError e =>
          simp only [State.step] at hstep
          split at hstep
          · cases hstep
            exact Or.inl trivial
          · cases hstep
      | tick stop dead due => cases he
      | stalled => cases hstep
      | openTimeout => cases hstep
  | inside r c =>
      cases e with
      | data b =>
          cases hstep
          exact progress_ofMessage h' fun u => length_lt_of_blocked h.1
      | ready => cases hstep
      | tick stop dead due => cases he
      | openTimeout => cases hstep
      | _ =>
          cases hstep
          exact Or.inl trivial
  | ended o => cases hstep
  | panicked => cases hstep

end

/-! ### Streams -/

/-- Every run that reads the stream, or a beginning of it, is safe and goes on. -/
structure SafeOn (writes : Nat → Option String) (stream : List UInt8) : Prop where
  safe : ∀ es s, Machine.run (State.step writes) .initial es = some s →
    received es <+: stream → s.Safe
  progress : ∀ es s e s', Machine.run (State.step writes) .initial es = some s →
    s.step writes e = some s' → received (es ++ [e]) <+: stream → e.isTick = false →
      Progress s e s'

theorem received_concat (es : List Event) (e : Event) :
    received (es ++ [e]) = received es ++ e.bytes := by
  rw [received, List.flatMap_append, List.flatMap_singleton]
  rfl

theorem inv_run {writes : Nat → Option String} {stream : List UInt8} (hok : GreetingOk stream) :
    ∀ es s, Machine.run (State.step writes) .initial es = some s →
      received es <+: stream → s.Inv (received es) := by
  apply Machine.run_history
  · exact fun _ => ⟨blocked_opening.mpr (by decide), Or.inl ⟨rfl, rfl⟩⟩
  · intro es s e s' _ ih hstep hread
    rw [received_concat] at hread ⊢
    exact inv_step hok (ih ((List.prefix_append _ _).trans hread)) hread hstep

theorem safeOn_of_greetingOk {stream : List UInt8} (hok : GreetingOk stream)
    (writes : Nat → Option String) : SafeOn writes stream where
  safe es s hrun hread := (inv_run hok es s hrun hread).safe
  progress es s e s' hrun hstep hread he := by
    rw [received_concat] at hread
    have h := inv_run hok es s hrun ((List.prefix_append _ _).trans hread)
    exact progress_step h (inv_step hok h hread hstep) hstep he

/-- A greeting that cuts a character ends in a panic when it is read. -/
theorem panics_of_not_greetingOk {stream : List UInt8} (h : ¬GreetingOk stream)
    (writes : Nat → Option String) :
    Machine.run (State.step writes) .initial [.data stream] = some .panicked := by
  simp only [GreetingOk, Classical.not_imp, not_forall] at h
  obtain ⟨hlen, hg, b, hb, hcut⟩ := h
  rw [Bool.not_eq_false] at hcut
  have hgreeting := greeting_eq_panic (σ := Unit) (v := stream.take 12)
    (by rw [List.length_take, Nat.min_eq_left hlen]) hg (b := b)
    (by rw [List.getElem?_take_of_lt (by decide), hb]) hcut
  have hresume : Session.opening.resume writes ⟨(), [] ++ stream, []⟩ =
      (.panic, ⟨(), stream.drop 12, []⟩) := by
    rw [opening_eq, Reader.resume]
    simp only [List.nil_append]
    rw [if_neg (Nat.not_lt.mpr hlen), hgreeting]
    rfl
  rw [Machine.run_cons, State.initial]
  simp only [State.step, hresume]
  rfl

/-- The session is safe on exactly the streams whose greeting does not cut a character. -/
theorem safeOn_iff (writes : Nat → Option String) (stream : List UInt8) :
    SafeOn writes stream ↔ GreetingOk stream := by
  refine ⟨fun h => ?_, fun hok => safeOn_of_greetingOk hok writes⟩
  by_contra hbad
  have hread : received [.data stream] = stream := List.append_nil stream
  exact h.safe [.data stream] .panicked (panics_of_not_greetingOk hbad writes)
    (hread.symm ▸ List.prefix_refl stream)

/-- `RFB 003.éab` with a newline at its end. -/
def cutGreeting : List UInt8 := [82, 70, 66, 32, 48, 48, 51, 195, 169, 97, 98, 10]

theorem not_safeOn_cutGreeting : ¬SafeOn (fun _ => none) cutGreeting := by
  intro h
  exact h.safe [.data cutGreeting] .panicked rfl (by decide)

end Session

end Rfb

end Hdmicap

end Paniolo
