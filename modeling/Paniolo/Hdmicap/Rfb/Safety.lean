import Mathlib.Tactic.Ring
import Paniolo.Hdmicap.Rfb.Session

/-!
# The client does not panic

Whatever the server sends, in whatever pieces, the session after the greeting
takes bytes, waits for more or ends with an error, and its framebuffer keeps
its size. The greeting itself is sliced as a text: a session survives it
exactly when the slice does not cut a character.
-/

namespace Paniolo

namespace Hdmicap

namespace Rfb

namespace Session

open RfbServe (ENC_RAW ENC_DESKTOP_SIZE)
open Reader (Conn Holds Eats bytes write state put slice index copyFromSlice holds_pure holds_bytes
  holds_write holds_state holds_put holds_slice holds_index holds_copyFromSlice holds_foldlM_range)

/-! ### What is kept -/

/-- A framebuffer has three bytes a pixel, and some pixels but not too many. -/
structure Fb.Sane (fb : Fb) : Prop where
  length : fb.rgb.length = fb.w * fb.h * 3
  pos : 0 < fb.w * fb.h
  le : fb.w * fb.h ≤ MAX_PIXELS

structure World.Sane (s : World) : Prop where
  fb : s.fb.Sane
  frame : ∀ f, s.frame = some f → f.Sane

theorem World.Sane.setFb {s : World} (h : s.Sane) {fb : Fb} (hfb : fb.Sane) :
    World.Sane { s with fb := fb } := ⟨hfb, h.frame⟩

section

variable {σ : Type} {I : σ → Prop}

/-! ### Numbers -/

theorem holds_be16Of {b : List UInt8} (h : 2 ≤ b.length) :
    (be16Of b : Prog σ Nat).Holds I (fun _ => True) 0 :=
  (holds_index (by omega)).bind fun _ _ => (holds_index (by omega)).bind fun _ _ =>
    holds_pure trivial

theorem holds_be32Of {b : List UInt8} (h : b.length = 4) :
    (be32Of b : Prog σ Nat).Holds I (fun _ => True) 0 := by
  obtain ⟨a0, a1, a2, a3, rfl⟩ := List.length_eq_four.mp h
  exact holds_pure trivial

theorem holds_beI32Of {b : List UInt8} (h : b.length = 4) :
    (beI32Of b : Prog σ Int).Holds I (fun _ => True) 0 := by
  obtain ⟨a0, a1, a2, a3, rfl⟩ := List.length_eq_four.mp h
  exact holds_pure trivial

theorem holds_be16At {b : List UInt8} {i : Nat} (h : i + 2 ≤ b.length) :
    (be16At b i : Prog σ Nat).Holds I (fun _ => True) 0 :=
  (holds_slice (Nat.le_add_right i 2) h).bind fun two htwo => holds_be16Of (by omega)

/-! ### The handshake -/

theorem holds_readReason : (readReason : Prog σ String).Holds I (fun _ => True) 0 := by
  refine (holds_bytes 4).bind fun b hb => (holds_be32Of hb).bind fun n _ => ?_
  split
  · trivial
  · exact (holds_bytes n).bind fun text _ => holds_pure trivial

/-- A refusal for a reason that the server gives. -/
theorem holds_refusal {α : Type} {Q : α → Prop} (text : String → String) :
    (readReason >>= fun reason => .fail (text reason) : Prog σ α).Holds I Q 0 :=
  holds_readReason.bind fun _ _ => trivial

theorem holds_security (minor : Nat) :
    (security minor : Prog σ Unit).Holds I (fun _ => True) 0 := by
  rw [security]
  split
  · refine (holds_bytes 4).bind fun b hb => (holds_be32Of hb).bind fun t _ => ?_
    split
    · exact holds_refusal fun reason => s!"server refused the connection: {reason}"
    · split
      · trivial
      · trivial
  · refine (holds_bytes 1).bind fun b hb => (holds_index (by omega)).bind fun n _ => ?_
    split
    · exact holds_refusal fun reason => s!"server refused the connection: {reason}"
    · refine (holds_bytes n.toNat).bind fun types _ => ?_
      split
      · exact holds_write [1]
      · trivial

theorem holds_securityResult (minor : Nat) :
    (securityResult minor : Prog σ Unit).Holds I (fun _ => True) 0 := by
  rw [securityResult]
  split
  · refine (holds_bytes 4).bind fun b hb => (holds_be32Of hb).bind fun r _ => ?_
    split
    · trivial
    · exact holds_refusal fun reason => s!"security handshake failed: {reason}"
  · trivial

theorem holds_serverInit : (serverInit : Prog σ (Nat × Nat)).Holds I (fun _ => True) 0 := by
  refine (holds_write [1]).bind fun _ _ => (holds_bytes 24).bind fun init hinit => ?_
  refine (holds_be16At (by omega)).bind fun w _ => (holds_be16At (by omega)).bind fun h _ => ?_
  refine (holds_slice (by omega) (by omega)).bind fun four hfour =>
    (holds_be32Of hfour).bind fun n _ => ?_
  split
  · trivial
  · exact (holds_bytes n).bind fun _ _ => holds_pure trivial

theorem holds_handshakeFrom (minor : Nat) :
    (handshakeFrom minor : Prog σ (Nat × Nat)).Holds I (fun _ => True) 0 :=
  (holds_write _).bind fun _ _ => (holds_security _).bind fun _ _ =>
    (holds_securityResult _).bind fun _ _ => holds_serverInit

/-! ### The framebuffer -/

theorem Fb.holds_new (w h : Nat) : (Fb.new w h : Prog σ Fb).Holds I Fb.Sane 0 := by
  rw [Fb.new]
  split
  · trivial
  · next hok =>
      have hw : 0 < w := by omega
      have hh : 0 < h := by omega
      exact ⟨List.length_replicate, Nat.mul_pos hw hh, Nat.le_of_not_lt fun hlt => hok (by simp [hlt])⟩

theorem Fb.length_swap (px out : List UInt8) : (Fb.swap px out).length = out.length := by
  fun_induction Fb.swap px out with
  | case1 b g r _ px _ _ _ out ih => simp only [List.length_cons, ih]
  | case2 => rfl

/-- A row of a rectangle within the bounds is within the buffer. -/
theorem Fb.row_le {fb : Fb} {x y w h row : Nat} (hin : fb.inBounds x y w h = true) (hrow : row < h) :
    ((y + row) * fb.w + x) * 3 + w * 3 ≤ fb.w * fb.h * 3 := by
  rw [Fb.inBounds, Bool.and_eq_true, decide_eq_true_eq, decide_eq_true_eq] at hin
  have hlines : (y + row + 1) * fb.w ≤ fb.h * fb.w := Nat.mul_le_mul_right fb.w (by omega)
  rw [Nat.succ_mul, Nat.mul_comm fb.h] at hlines
  omega

theorem Fb.holds_blitRow {fb : Fb} {x y w h row : Nat} {src rgb : List UInt8}
    (hin : fb.inBounds x y w h = true) (hsrc : src.length = w * h * 4) (hrow : row < h)
    (hrgb : rgb.length = fb.w * fb.h * 3) :
    (fb.blitRow x y w src rgb row : Prog σ (List UInt8)).Holds I
      (fun rgb => rgb.length = fb.w * fb.h * 3) 0 := by
  have hd := Fb.row_le hin hrow
  have hs : row * w * 4 + w * 4 ≤ src.length := by
    have hlines : (row + 1) * w ≤ h * w := Nat.mul_le_mul_right w hrow
    rw [Nat.succ_mul, Nat.mul_comm h] at hlines
    omega
  refine (holds_slice (Nat.le_add_right _ _) hs).bind fun px _ => ?_
  refine (holds_slice (Nat.le_add_right _ _) (by omega)).bind fun out hout => ?_
  have hcopy : (copyFromSlice rgb (((y + row) * fb.w + x) * 3) (w * 3) (Fb.swap px out) :
      Prog σ (List UInt8)).Holds I (fun l => l.length = rgb.length) 0 :=
    holds_copyFromSlice (by omega) (by rw [Fb.length_swap]; omega)
  rwa [hrgb] at hcopy

theorem Fb.holds_blitRaw {fb : Fb} {x y w h : Nat} {src : List UInt8} (hfb : fb.Sane)
    (hsrc : src.length = w * h * 4) :
    (fb.blitRaw x y w h src : Prog σ Fb).Holds I Fb.Sane 0 := by
  rw [Fb.blitRaw]
  split
  · trivial
  · next hin =>
      rw [Bool.not_eq_false] at hin
      refine (holds_foldlM_range (P := fun _ rgb => rgb.length = fb.w * fb.h * 3)
        (fun row hrow rgb hrgb => ?_) hfb.length).bind fun rgb hrgb => ?_
      · exact Fb.holds_blitRow hin hsrc hrow hrgb
      · exact ⟨hrgb, hfb.pos, hfb.le⟩

theorem Fb.holds_readRow {fb : Fb} {sx sy w h row : Nat} {tmp : List UInt8} (hfb : fb.Sane)
    (hin : fb.inBounds sx sy w h = true) (hrow : row < h) (htmp : tmp.length = row * w * 3) :
    (fb.readRow sx sy w tmp row : Prog σ (List UInt8)).Holds I
      (fun tmp => tmp.length = (row + 1) * w * 3) 0 := by
  have hs := Fb.row_le hin hrow
  have hlen := hfb.length
  refine (holds_slice (Nat.le_add_right _ _) (by omega)).bind fun line hline => ?_
  apply holds_pure
  rw [List.length_append, htmp, hline, Nat.succ_mul, Nat.add_mul]
  omega

theorem Fb.holds_writeRow {fb : Fb} {x y w h row : Nat} {tmp rgb : List UInt8}
    (hin : fb.inBounds x y w h = true) (hrow : row < h) (htmp : tmp.length = h * w * 3)
    (hrgb : rgb.length = fb.w * fb.h * 3) :
    (fb.writeRow x y w tmp rgb row : Prog σ (List UInt8)).Holds I
      (fun rgb => rgb.length = fb.w * fb.h * 3) 0 := by
  have hd := Fb.row_le hin hrow
  have hlines : (row + 1) * w * 3 ≤ h * w * 3 :=
    Nat.mul_le_mul_right 3 (Nat.mul_le_mul_right w hrow)
  have hone : (row + 1) * w * 3 = row * w * 3 + w * 3 := by rw [Nat.succ_mul, Nat.add_mul]
  refine (holds_slice (by omega) (by omega)).bind fun line hline => ?_
  have hcopy : (copyFromSlice rgb (((y + row) * fb.w + x) * 3) (w * 3) line :
      Prog σ (List UInt8)).Holds I (fun l => l.length = rgb.length) 0 :=
    holds_copyFromSlice (by omega) (by omega)
  rwa [hrgb] at hcopy

theorem Fb.holds_copyRect {fb : Fb} {x y w h sx sy : Nat} (hfb : fb.Sane) :
    (fb.copyRect x y w h sx sy : Prog σ Fb).Holds I Fb.Sane 0 := by
  rw [Fb.copyRect]
  split
  · trivial
  · next hin =>
      rw [Bool.not_eq_false, Bool.and_eq_true] at hin
      obtain ⟨hdst, hsrc⟩ := hin
      refine (holds_foldlM_range (P := fun row tmp => tmp.length = row * w * 3)
        (fun row hrow tmp htmp => Fb.holds_readRow hfb hsrc hrow htmp) (by simp)).bind
        fun tmp htmp => ?_
      refine (holds_foldlM_range (P := fun _ rgb => rgb.length = fb.w * fb.h * 3)
        (fun row hrow rgb hrgb => Fb.holds_writeRow hdst hrow htmp hrgb) hfb.length).bind
        fun rgb hrgb => ?_
      exact ⟨hrgb, hfb.pos, hfb.le⟩

end

/-! ### Messages -/

theorem holds_publish : publish.Holds World.Sane (fun _ => True) 0 :=
  holds_state.bind fun _ hs => holds_put ⟨hs.fb, fun _ hf => Option.some.inj hf ▸ hs.fb⟩

/-- A program for a framebuffer, and the framebuffer put in place. -/
theorem holds_setFb {s : World} {r : Prog World Fb} (hs : s.Sane)
    (hr : r.Holds World.Sane Fb.Sane 0) :
    (r >>= fun fb => put { s with fb := fb }).Holds World.Sane (fun _ => True) 0 :=
  hr.bind fun _ hfb => holds_put (hs.setFb hfb)

theorem holds_readRect : readRect.Holds World.Sane (fun _ => True) 0 := by
  refine (holds_bytes 12).bind fun r hr => ?_
  refine (holds_be16At (by omega)).bind fun x _ => (holds_be16At (by omega)).bind fun y _ => ?_
  refine (holds_be16At (by omega)).bind fun w _ => (holds_be16At (by omega)).bind fun h _ => ?_
  refine (holds_slice (by omega) (by omega)).bind fun four hfour =>
    (holds_beI32Of hfour).bind fun enc _ => holds_state.bind fun s hs => ?_
  split
  · dsimp only
    split
    · trivial
    · split
      · trivial
      · exact (holds_bytes _).bind fun data hdata =>
          holds_setFb hs (Fb.holds_blitRaw hs.fb hdata)
  · split
    · exact (holds_bytes 4).bind fun src hsrc => (holds_be16At (by omega)).bind fun sx _ =>
        (holds_be16At (by omega)).bind fun sy _ => holds_setFb hs (Fb.holds_copyRect hs.fb)
    · split
      · exact holds_setFb hs (Fb.holds_new w h)
      · trivial

theorem holds_readRects (n : Nat) :
    ∀ changed, (readRects n changed).Holds World.Sane (fun _ => True) 0 := by
  induction n with
  | zero => exact fun _ => holds_pure trivial
  | succ n ih => exact fun _ => holds_readRect.bind fun _ _ => ih true

theorem holds_readUpdate : readUpdate.Holds World.Sane (fun _ => True) 0 :=
  (holds_bytes 4).bind fun _ hhead => (holds_index (by omega)).bind fun _ _ =>
    (holds_index (by omega)).bind fun _ _ => holds_readRects _ false

/-- A message is handled when its first byte has come. -/
theorem holds_message (t : UInt8) : (message t).Holds World.Sane (fun _ => True) 1 := by
  rw [message]
  split
  · refine (holds_readUpdate.bind fun changed _ => ?_).mono (Nat.zero_le 1)
    have hlast : (state >>= fun s => write (updateRequest true s.fb.w s.fb.h) :
        Prog World Unit).Holds World.Sane (fun _ => True) 0 :=
      holds_state.bind fun s _ => holds_write _
    split
    · exact holds_publish.bind fun _ _ => hlast
    · exact hlast
  · split
    · trivial
    · split
      · exact ⟨Nat.le_refl 1, trivial⟩
      · split
        · refine Holds.mono ?_ (Nat.zero_le 1)
          refine (holds_bytes 8).bind fun head hhead => ?_
          refine (holds_slice (by omega) (by omega)).bind fun four hfour =>
            (holds_be32Of hfour).bind fun n _ => ?_
          split
          · trivial
          · exact (holds_bytes n).bind fun _ _ => holds_pure trivial
        · trivial

/-- A message takes its first byte at least. -/
theorem eats_message (t : UInt8) : (message t).Eats 1 := by
  rw [message]
  split
  · exact fun _ _ => Reader.eats_zero _
  · split
    · trivial
    · split
      · exact Reader.eats_zero _
      · split
        · exact fun _ _ => Reader.eats_zero _
        · trivial

/-! ### The greeting -/

/-- The greeting of a stream, when it is one of an RFB server, has no character across its
eighth byte. -/
def GreetingOk (stream : List UInt8) : Prop :=
  12 ≤ stream.length → isGreeting (verOf (stream.take 12)) = true →
    ∀ b, stream[8]? = some b → Utf8.isContinuation b = false

/-- What follows the handshake before the first message. -/
def openWith (size : Nat × Nat) : Prog Unit Fb := do
  let fb ← Fb.new size.1 size.2
  write setupMessages
  write (updateRequest false size.1 size.2)
  pure fb

theorem opening_eq :
    opening = .take 12 fun v => greeting v >>= handshakeFrom >>= openWith := rfl

theorem verOf_of_isGreeting {v : List UInt8} (h : isGreeting (verOf v) = true) : verOf v = v := by
  rw [verOf] at h ⊢
  split
  · rfl
  · next hbad =>
      rw [if_neg hbad] at h
      cases h

theorem getElem?_of_isGreeting {v : List UInt8} (hlen : v.length = 12)
    (h : isGreeting v = true) : v[11]? = some 10 := by
  rw [isGreeting, Bool.and_eq_true, beq_iff_eq, List.getLast?_eq_getElem?, hlen] at h
  exact h.2

/-- The slice of the greeting panics exactly when it cuts a character. -/
theorem strSlice_greeting {σ : Type} {v : List UInt8} (hlen : v.length = 12)
    (h : isGreeting v = true) {b : UInt8} (hb : v[8]? = some b) :
    (strSlice v 8 11 : Prog σ (List UInt8)) =
      if Utf8.isContinuation b = true then .panic else slice v 8 11 := by
  have hlast := getElem?_of_isGreeting hlen h
  have h11 : isCharBoundary v 11 = true := by
    rw [isCharBoundary, hlast, hlen]
    rfl
  have h8 : isCharBoundary v 8 = !Utf8.isContinuation b := by
    rw [isCharBoundary, hb, hlen]
    rfl
  rw [strSlice, h8, h11]
  cases Utf8.isContinuation b with
  | false => rfl
  | true => rfl

theorem holds_greeting {σ : Type} {I : σ → Prop} {v : List UInt8} (hlen : v.length = 12)
    (h : isGreeting (verOf v) = true → ∀ b, v[8]? = some b → Utf8.isContinuation b = false) :
    (greeting v : Prog σ Nat).Holds I (fun _ => True) 0 := by
  rw [greeting]
  split
  · trivial
  · next hgreeting =>
      rw [Bool.not_eq_false] at hgreeting
      have hver := verOf_of_isGreeting hgreeting
      obtain ⟨b, hb⟩ : ∃ b, v[8]? = some b := ⟨v[8], List.getElem?_eq_getElem (by omega)⟩
      have hchar := h hgreeting b hb
      rw [hver] at hgreeting ⊢
      rw [strSlice_greeting hlen hgreeting hb, hchar]
      exact (holds_slice (by omega) (by omega)).bind fun _ _ => holds_pure trivial

theorem greeting_eq_panic {σ : Type} {v : List UInt8} (hlen : v.length = 12)
    (h : isGreeting (verOf v) = true) {b : UInt8} (hb : v[8]? = some b)
    (hcut : Utf8.isContinuation b = true) : (greeting v : Prog σ Nat) = .panic := by
  have hver := verOf_of_isGreeting h
  rw [greeting, hver, strSlice_greeting hlen (hver ▸ h) hb, hcut]
  rw [hver] at h
  simp only [h]
  rfl

theorem holds_afterGreeting {v : List UInt8} (hlen : v.length = 12)
    (h : isGreeting (verOf v) = true → ∀ b, v[8]? = some b → Utf8.isContinuation b = false) :
    (greeting v >>= handshakeFrom >>= openWith).Holds (fun _ => True) Fb.Sane 0 :=
  ((holds_greeting hlen h).bind fun minor _ => holds_handshakeFrom minor).bind fun size _ =>
    (Fb.holds_new size.1 size.2).bind fun _ hfb => (holds_write _).bind fun _ _ =>
      (holds_write _).bind fun _ _ => holds_pure hfb

end Session

end Rfb

end Hdmicap

end Paniolo
