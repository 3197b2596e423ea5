import Mathlib.Data.List.Basic

/-!
# Programs that read a byte stream

A program takes bytes from the front of a buffer, writes, and keeps a state of
its own. It stops where the buffer holds too few bytes and is resumed when more
have come; how the stream was cut into pieces is not visible to it. Slices and
indices are checked, and one that is out of range panics.

`Holds` is the rule for all its runs: nothing panics, the state keeps an
invariant, and the result satisfies a postcondition.
-/

namespace Paniolo

/-- A program over a state `σ` that fails with an error `ε` or returns an `α`. -/
inductive Reader (σ ε α : Type) where
  | done (a : α)
  | fail (e : ε)
  | panic
  | take (n : Nat) (k : List UInt8 → Reader σ ε α)
  | advance (n : Nat) (k : Reader σ ε α)
  | send (bytes : List UInt8) (k : Reader σ ε α)
  | get (k : σ → Reader σ ε α)
  | set (s : σ) (k : Reader σ ε α)

namespace Reader

variable {σ ε α β : Type}

def bind : Reader σ ε α → (α → Reader σ ε β) → Reader σ ε β
  | .done a, f => f a
  | .fail e, _ => .fail e
  | .panic, _ => .panic
  | .take n k, f => .take n fun bytes => (k bytes).bind f
  | .advance n k, f => .advance n (k.bind f)
  | .send bytes k, f => .send bytes (k.bind f)
  | .get k, f => .get fun s => (k s).bind f
  | .set s k, f => .set s (k.bind f)

instance : Monad (Reader σ ε) where
  pure := .done
  bind := bind

/-- Wait for `n` bytes and split them off. -/
def bytes (n : Nat) : Reader σ ε (List UInt8) := .take n .done

def write (bytes : List UInt8) : Reader σ ε Unit := .send bytes (.done ())

def state : Reader σ ε σ := .get .done

def put (s : σ) : Reader σ ε Unit := .set s (.done ())

/-- `l[a..b]`. -/
def slice {γ : Type} (l : List γ) (a b : Nat) : Reader σ ε (List γ) :=
  if a ≤ b ∧ b ≤ l.length then .done ((l.take b).drop a) else .panic

/-- `l[i]`. -/
def index {γ : Type} (l : List γ) (i : Nat) : Reader σ ε γ :=
  match l[i]? with
  | some a => .done a
  | none => .panic

/-- `l[d..d + n].copy_from_slice(src)`. -/
def copyFromSlice {γ : Type} (l : List γ) (d n : Nat) (src : List γ) : Reader σ ε (List γ) := do
  let old ← slice l d (d + n)
  if old.length = src.length then .done (l.take d ++ src ++ l.drop (d + n)) else .panic

/-! ### Running -/

/-- What a program runs on: its state, the bytes it has not taken, and what it has written. -/
structure Conn (σ : Type) where
  state : σ
  buf : List UInt8
  sent : List (List UInt8)

/-- Run as far as the buffer reaches; the write that `writes` has an error for fails. -/
def resume (writes : Nat → Option ε) : Reader σ ε α → Conn σ → Reader σ ε α × Conn σ
  | .take n k, c =>
      if c.buf.length < n then (.take n k, c)
      else (k (c.buf.take n)).resume writes { c with buf := c.buf.drop n }
  | .advance n k, c =>
      if c.buf.length < n then (.panic, c) else k.resume writes { c with buf := c.buf.drop n }
  | .send bytes k, c =>
      match writes c.sent.length with
      | none => k.resume writes { c with sent := c.sent ++ [bytes] }
      | some e => (.fail e, c)
  | .get k, c => (k c.state).resume writes c
  | .set s k, c => k.resume writes { c with state := s }
  | .done a, c => (.done a, c)
  | .fail e, c => (.fail e, c)
  | .panic, c => (.panic, c)

/-- A program that goes through is followed by the next. -/
theorem resume_bind {writes : Nat → Option ε} {r : Reader σ ε α} {f : α → Reader σ ε β}
    {c c' : Conn σ} {a : α} (h : r.resume writes c = (.done a, c')) :
    (r >>= f).resume writes c = (f a).resume writes c' := by
  change (r.bind f).resume writes c = _
  induction r generalizing c with
  | done b =>
      cases h
      rfl
  | fail e => cases h
  | panic => cases h
  | take n k ih =>
      rw [resume] at h
      split at h
      · cases h
      · next hlong =>
          rw [bind, resume, if_neg hlong]
          exact ih _ h
  | advance n k ih =>
      rw [resume] at h
      split at h
      · cases h
      · next hlong =>
          rw [bind, resume, if_neg hlong]
          exact ih h
  | send bytes k ih =>
      rw [bind, resume]
      rw [resume] at h
      split at h
      · exact ih h
      · cases h
  | get k ih => exact ih c.state h
  | set s k ih => exact ih h

/-! ### The rule -/

/-- No run from a state that satisfies `I` with at least `m` bytes in the buffer panics, the state
satisfies `I` all along, and the result satisfies `Q`. -/
def Holds (I : σ → Prop) (Q : α → Prop) : Nat → Reader σ ε α → Prop
  | _, .done a => Q a
  | _, .fail _ => True
  | _, .panic => False
  | m, .take n k => ∀ bytes, bytes.length = n → Holds I Q (m - n) (k bytes)
  | m, .advance n k => n ≤ m ∧ Holds I Q (m - n) k
  | m, .send _ k => Holds I Q m k
  | m, .get k => ∀ s, I s → Holds I Q m (k s)
  | m, .set s k => I s ∧ Holds I Q m k

section

variable {I : σ → Prop} {P : α → Prop} {Q : β → Prop}

theorem Holds.mono {r : Reader σ ε α} {m n : Nat} (h : r.Holds I P m) (hmn : m ≤ n) :
    r.Holds I P n := by
  induction r generalizing m n with
  | done a => exact h
  | fail e => trivial
  | panic => exact h
  | take j k ih => exact fun bytes hlen => ih bytes (h bytes hlen) (Nat.sub_le_sub_right hmn j)
  | advance j k ih => exact ⟨Nat.le_trans h.1 hmn, ih h.2 (Nat.sub_le_sub_right hmn j)⟩
  | send bytes k ih => exact ih h hmn
  | get k ih => exact fun s hs => ih s (h s hs) hmn
  | set s k ih => exact ⟨h.1, ih h.2 hmn⟩

/-- One program after another. -/
theorem Holds.bind {r : Reader σ ε α} {f : α → Reader σ ε β} {m : Nat} (h : r.Holds I P m)
    (hf : ∀ a, P a → (f a).Holds I Q 0) : (r >>= f).Holds I Q m := by
  change (Reader.bind r f).Holds I Q m
  induction r generalizing m with
  | done a => exact (hf a h).mono (Nat.zero_le m)
  | fail e => trivial
  | panic => exact h
  | take j k ih => exact fun bytes hlen => ih bytes (h bytes hlen)
  | advance j k ih => exact ⟨h.1, ih h.2⟩
  | send bytes k ih => exact ih h
  | get k ih => exact fun s hs => ih s (h s hs)
  | set s k ih => exact ⟨h.1, ih h.2⟩

theorem holds_pure {a : α} (h : P a) : (pure a : Reader σ ε α).Holds I P 0 := h

theorem holds_bytes (n : Nat) :
    (bytes n : Reader σ ε (List UInt8)).Holds I (fun b => b.length = n) 0 := fun _ hlen => hlen

theorem holds_write (b : List UInt8) : (write b : Reader σ ε Unit).Holds I (fun _ => True) 0 :=
  trivial

theorem holds_state : (state : Reader σ ε σ).Holds I I 0 := fun _ hs => hs

theorem holds_put {s : σ} (hs : I s) : (put s : Reader σ ε Unit).Holds I (fun _ => True) 0 :=
  ⟨hs, trivial⟩

theorem holds_slice {γ : Type} {l : List γ} {a b : Nat} (hab : a ≤ b) (hb : b ≤ l.length) :
    (slice l a b : Reader σ ε (List γ)).Holds I (fun s => s.length = b - a) 0 := by
  rw [slice, if_pos ⟨hab, hb⟩]
  change ((l.take b).drop a).length = b - a
  rw [List.length_drop, List.length_take, Nat.min_eq_left hb]

theorem holds_index {γ : Type} {l : List γ} {i : Nat} (hi : i < l.length) :
    (index l i : Reader σ ε γ).Holds I (fun _ => True) 0 := by
  rw [index, List.getElem?_eq_getElem hi]
  trivial

theorem holds_copyFromSlice {γ : Type} {l src : List γ} {d n : Nat} (hd : d + n ≤ l.length)
    (hsrc : src.length = n) :
    (copyFromSlice l d n src : Reader σ ε (List γ)).Holds I (fun s => s.length = l.length) 0 := by
  refine (holds_slice (Nat.le_add_right d n) hd).bind fun old hold => ?_
  rw [if_pos (by omega)]
  change (l.take d ++ src ++ l.drop (d + n)).length = l.length
  simp only [List.length_append, List.length_take, List.length_drop]
  omega

/-- A loop over numbers keeps what depends on how far it is. -/
theorem holds_foldlM_range' {P : Nat → α → Prop} {f : α → Nat → Reader σ ε α} (n : Nat) :
    ∀ {i : Nat} {a : α}, (∀ j < i + n, ∀ a, P j a → (f a j).Holds I (P (j + 1)) 0) → P i a →
      ((List.range' i n).foldlM f a).Holds I (P (i + n)) 0 := by
  induction n with
  | zero => exact fun _ ha => holds_pure ha
  | succ n ih =>
      intro i a hf ha
      rw [List.range'_succ, List.foldlM_cons]
      refine (hf i (by omega) a ha).bind fun b hb => ?_
      have hrest := ih (i := i + 1) (fun j hj => hf j (by omega)) hb
      rwa [Nat.add_right_comm] at hrest

theorem holds_foldlM_range {P : Nat → α → Prop} {f : α → Nat → Reader σ ε α} {n : Nat} {a : α}
    (hf : ∀ i < n, ∀ a, P i a → (f a i).Holds I (P (i + 1)) 0) (ha : P 0 a) :
    ((List.range n).foldlM f a).Holds I (P n) 0 := by
  have h := holds_foldlM_range' (i := 0) n (fun i hi => hf i (by omega)) ha
  rwa [Nat.zero_add, ← List.range_eq_range'] at h

/-- Where a run stops: at its end, at an error, or where the buffer holds too few bytes. -/
def Stopped (I : σ → Prop) (P : α → Prop) : Reader σ ε α → Conn σ → Prop
  | .done a, c => P a ∧ I c.state
  | .fail _, c => I c.state
  | .take n k, c => c.buf.length < n ∧ I c.state ∧ (Reader.take n k).Holds I P 0
  | _, _ => False

theorem Holds.resume (writes : Nat → Option ε) {r : Reader σ ε α} {c : Conn σ} {m : Nat}
    (h : r.Holds I P m) (hc : I c.state) (hm : m ≤ c.buf.length) :
    Stopped I P (r.resume writes c).1 (r.resume writes c).2 := by
  induction r generalizing c m with
  | done a => exact ⟨h, hc⟩
  | fail e => exact hc
  | panic => exact h.elim
  | take n k ih =>
      rw [Reader.resume]
      split
      · next hshort =>
          refine ⟨hshort, hc, fun bytes hlen => ?_⟩
          have hk := h bytes hlen
          rwa [show m - n = 0 - n by omega] at hk
      · next hlong =>
          refine ih _ (h (c.buf.take n) ?_) hc ?_
          · rw [List.length_take, Nat.min_eq_left (Nat.le_of_not_lt hlong)]
          · rw [List.length_drop]
            exact Nat.sub_le_sub_right hm n
  | advance n k ih =>
      rw [Reader.resume, if_neg (Nat.not_lt.mpr (Nat.le_trans h.1 hm))]
      refine ih h.2 hc ?_
      rw [List.length_drop]
      exact Nat.sub_le_sub_right hm n
  | send bytes k ih =>
      rw [Reader.resume]
      split
      · exact ih h hc hm
      · exact hc
  | get k ih => exact ih c.state (h c.state hc) hc hm
  | set s k ih => exact ih h.2 h.1 hm

end

/-! ### What a run takes -/

/-- At least `j` bytes have been taken when the program ends. -/
def Eats : Nat → Reader σ ε α → Prop
  | j, .done _ => j = 0
  | _, .fail _ => True
  | _, .panic => True
  | j, .take n k => ∀ bytes, bytes.length = n → Eats (j - n) (k bytes)
  | j, .advance n k => Eats (j - n) k
  | j, .send _ k => Eats j k
  | j, .get k => ∀ s, Eats j (k s)
  | j, .set _ k => Eats j k

theorem eats_zero (r : Reader σ ε α) : r.Eats 0 := by
  induction r with
  | done a => rfl
  | fail e => trivial
  | panic => trivial
  | take n k ih => exact fun bytes _ => by rw [Nat.zero_sub]; exact ih bytes
  | advance n k ih => rw [Eats, Nat.zero_sub]; exact ih
  | send bytes k ih => exact ih
  | get k ih => exact fun s => ih s
  | set s k ih => exact ih

theorem eats_take (n : Nat) (k : List UInt8 → Reader σ ε α) : (Reader.take n k).Eats n := by
  intro bytes _
  rw [Nat.sub_self]
  exact eats_zero (k bytes)

theorem length_resume_le (writes : Nat → Option ε) (r : Reader σ ε α) (c : Conn σ) :
    (r.resume writes c).2.buf.length ≤ c.buf.length := by
  induction r generalizing c with
  | done a => exact Nat.le_refl _
  | fail e => exact Nat.le_refl _
  | panic => exact Nat.le_refl _
  | take n k ih =>
      rw [resume]
      split
      · exact Nat.le_refl _
      · refine Nat.le_trans (ih _ _) ?_
        rw [List.length_drop]
        exact Nat.sub_le _ n
  | advance n k ih =>
      rw [resume]
      split
      · exact Nat.le_refl _
      · refine Nat.le_trans (ih _) ?_
        rw [List.length_drop]
        exact Nat.sub_le _ n
  | send bytes k ih =>
      rw [resume]
      split
      · exact ih _
      · exact Nat.le_refl _
  | get k ih => exact ih c.state c
  | set s k ih => exact ih _

theorem Eats.resume (writes : Nat → Option ε) {r : Reader σ ε α} {c : Conn σ} {j : Nat}
    (h : r.Eats j) {a : α} (hdone : (r.resume writes c).1 = .done a) :
    (r.resume writes c).2.buf.length + j ≤ c.buf.length := by
  induction r generalizing c j with
  | done b =>
      rw [show j = 0 from h]
      exact Nat.le_refl _
  | fail e => cases hdone
  | panic => cases hdone
  | take n k ih =>
      rw [Reader.resume] at hdone ⊢
      split at hdone
      · cases hdone
      · next hlong =>
          rw [if_neg hlong]
          have hlen : (c.buf.take n).length = n := by
            rw [List.length_take, Nat.min_eq_left (Nat.le_of_not_lt hlong)]
          have hrest := ih _ (h _ hlen) hdone
          simp only [List.length_drop] at hrest
          omega
  | advance n k ih =>
      rw [Reader.resume] at hdone ⊢
      split at hdone
      · cases hdone
      · next hlong =>
          rw [if_neg hlong]
          have hrest := ih h hdone
          simp only [List.length_drop] at hrest
          omega
  | send bytes k ih =>
      rw [Reader.resume] at hdone ⊢
      split at hdone
      · exact ih h hdone
      · cases hdone
  | get k ih => exact ih c.state (h c.state) hdone
  | set s k ih => exact ih h hdone

end Reader

end Paniolo
