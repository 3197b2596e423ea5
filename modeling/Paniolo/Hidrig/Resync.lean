import Paniolo.Hidrig.Dispatch
import Paniolo.Hidrig.Uart

/-!
# Opening the port after a frame was cut

`hidrig/src/proto.rs`: whoever opens the port first writes as many zeros as complete
any frame that its last owner may have left half written. No zero begins a frame, so
they do nothing else. The frame that they complete ends in zeros, but begins with what
was written of it: a report cut after its modifiers, its first key or its buttons is
completed with those pressed.
-/

namespace Paniolo

namespace Hidrig

section Preamble

/-- `RESYNC_PREAMBLE`. -/
def resyncPreamble : List UInt8 := List.replicate (3 + maxPayload) 0

/-- The types of the frames that the board takes. -/
def downstream (ftype : UInt8) : Bool := ftype == fHid || upstream ftype

/-- The frame that zeros make of the beginning of one. -/
def completion : List UInt8 → List WireFrame
  | [] => []
  | [ftype] => [⟨ftype, 0, []⟩]
  | [ftype, b1] => [⟨ftype, b1, []⟩]
  | ftype :: b1 :: len :: part =>
      [⟨ftype, b1, part ++ List.replicate (len.toNat - part.length) 0⟩]

variable {f : WireFrame} {cut : List UInt8}

theorem length_completion_le (cut : List UInt8) : (completion cut).length ≤ 1 := by
  rw [completion.eq_def]
  split
  · exact Nat.zero_le 1
  · exact Nat.le_refl 1
  · exact Nat.le_refl 1
  · exact Nat.le_refl 1

/-- What was written of a frame is nothing, its type, two bytes of its header, or all of the
header and a part of the payload. -/
theorem cut_cases (hcut : cut <+: f.bytes) (hne : cut ≠ f.bytes) :
    cut = [] ∨ cut = [f.ftype] ∨ cut = [f.ftype, f.b1] ∨
      ∃ n < f.payload.length, cut = f.ftype :: f.b1 :: UInt8.ofNat f.payload.length ::
        f.payload.take n := by
  obtain ⟨rest, hrest⟩ := hcut
  rcases cut with _ | ⟨a, _ | ⟨b, _ | ⟨l, part⟩⟩⟩
  · exact .inl rfl
  · simp only [WireFrame.bytes, frame, List.cons_append, List.nil_append, List.cons.injEq] at hrest
    obtain ⟨rfl, -⟩ := hrest
    exact .inr (.inl rfl)
  · simp only [WireFrame.bytes, frame, List.cons_append, List.nil_append, List.cons.injEq] at hrest
    obtain ⟨rfl, rfl, -⟩ := hrest
    exact .inr (.inr (.inl rfl))
  · simp only [WireFrame.bytes, frame, List.cons_append, List.nil_append, List.cons.injEq] at hrest
    obtain ⟨rfl, rfl, rfl, hpayload⟩ := hrest
    have hmore : rest ≠ [] := by
      rintro rfl
      rw [List.append_nil] at hpayload
      rw [WireFrame.bytes, ← hpayload] at hne
      exact hne rfl
    refine .inr (.inr (.inr ⟨part.length, ?_, ?_⟩))
    · rw [← hpayload, List.length_append]
      exact Nat.lt_add_of_pos_right (List.length_pos_iff.mpr hmore)
    · rw [← hpayload, List.take_left]

/-- Zeros complete a frame, and what is left of them belongs to none. -/
theorem cut_append_preamble (hlen : f.payload.length ≤ maxPayload) (hcut : cut <+: f.bytes)
    (hne : cut ≠ f.bytes) :
    ∃ k, cut ++ resyncPreamble =
      ((completion cut).map WireFrame.bytes).flatten ++ List.replicate k 0 := by
  rcases cut_cases hcut hne with rfl | rfl | rfl | ⟨n, hn, rfl⟩
  · exact ⟨3 + maxPayload, rfl⟩
  · exact ⟨1 + maxPayload, rfl⟩
  · exact ⟨2 + maxPayload, rfl⟩
  · refine ⟨3 + maxPayload - (f.payload.length - n), ?_⟩
    have hpart : (f.payload.take n).length = n := List.length_take_of_le (Nat.le_of_lt hn)
    have hwhole : (f.payload.take n ++ List.replicate (f.payload.length - n) 0).length =
        f.payload.length := by
      rw [List.length_append, List.length_replicate, hpart]
      exact Nat.add_sub_of_le (Nat.le_of_lt hn)
    have hzeros : (List.replicate (f.payload.length - n) 0 : List UInt8) ++
        List.replicate (3 + maxPayload - (f.payload.length - n)) 0 = resyncPreamble := by
      rw [List.replicate_append_replicate, Nat.add_sub_of_le (by omega), resyncPreamble]
    rw [completion, toNat_ofNat_length hlen, hpart, List.map_singleton, List.flatten_singleton,
      WireFrame.bytes, frame, hwhole, List.append_assoc, List.append_assoc, hzeros]
    rfl

theorem mem_completion (hlen : f.payload.length ≤ maxPayload) (hcut : cut <+: f.bytes)
    (hne : cut ≠ f.bytes) :
    ∀ g ∈ completion cut, g.ftype = f.ftype ∧ g.payload.length ≤ maxPayload := by
  intro g hg
  rcases cut_cases hcut hne with rfl | rfl | rfl | ⟨n, hn, rfl⟩
  · exact absurd hg List.not_mem_nil
  · rw [List.mem_singleton.mp hg]
    exact ⟨rfl, Nat.zero_le _⟩
  · rw [List.mem_singleton.mp hg]
    exact ⟨rfl, Nat.zero_le _⟩
  · rw [List.mem_singleton.mp hg]
    refine ⟨rfl, ?_⟩
    rw [toNat_ofNat_length hlen, List.length_append, List.length_replicate,
      List.length_take_of_le (Nat.le_of_lt hn), Nat.add_sub_of_le (Nat.le_of_lt hn)]
    exact hlen

/-- Zeros that begin no frame. -/
theorem exists_zeros (k : Nat) :
    ∃ items : List (Item downstream), stream items = List.replicate k 0 ∧ framesOf items = [] := by
  induction k with
  | zero => exact ⟨[], rfl, rfl⟩
  | succ k ih =>
      obtain ⟨items, hstream, hframes⟩ := ih
      refine ⟨.stray 0 rfl :: items, ?_, hframes⟩
      exact congrArg (0 :: ·) hstream

/-- Before and after the frame that was cut nothing is lost, and there is at most one between. -/
theorem split_resync (hknown : downstream f.ftype = true) (hlen : f.payload.length ≤ maxPayload)
    (hcut : cut <+: f.bytes) (hne : cut ≠ f.bytes) (before after : List (Item downstream)) :
    split downstream (stream before ++ cut ++ resyncPreamble ++ stream after) =
      (framesOf before ++ completion cut ++ framesOf after,
        (stream before ++ cut ++ resyncPreamble ++ stream after).length) := by
  obtain ⟨k, hk⟩ := cut_append_preamble hlen hcut hne
  have hcomplete : ∀ g ∈ completion cut,
      downstream g.ftype = true ∧ g.payload.length ≤ maxPayload := by
    intro g hg
    obtain ⟨hftype, hshort⟩ := mem_completion hlen hcut hne g hg
    exact ⟨hftype ▸ hknown, hshort⟩
  obtain ⟨mid, hmid, hframes⟩ := exists_items hcomplete
  obtain ⟨zeros, hzeros, hnone⟩ := exists_zeros k
  have hstream : stream before ++ cut ++ resyncPreamble ++ stream after =
      stream (before ++ mid ++ zeros ++ after) := by
    rw [List.append_assoc (stream before), hk, ← hmid, ← hzeros, stream_append, stream_append,
      stream_append, List.append_assoc (stream before) (stream mid)]
  rw [hstream, split_stream, framesOf_append, framesOf_append, framesOf_append, hframes, hnone,
    List.append_nil]

end Preamble
section Pressing

/-- A keyboard report with a modifier or a key pressed, or a pointer report with a button. -/
def WireFrame.Presses (f : WireFrame) : Prop :=
  f.ftype = fHid ∧
    (f.b1 = ridKbd ∧ (f.payload.getD 0 0 ≠ 0 ∨ ∃ u ∈ f.payload.drop 2, u ≠ 0) ∨
      f.b1 = ridMouse ∧ f.payload.getD 0 0 ≠ 0)

/-- A byte of the frame was not written, or it is zero. -/
def Unsent (f cut : Frame) (i : Nat) : Prop := i < cut.length → f.getD i 0 = 0

/-- The frame is no report, or it was cut before what it presses: before its modifiers or its
buttons, and before its first key. -/
def CutHarmless (f cut : Frame) : Prop :=
  f.getD 0 0 = fHid → Unsent f cut 3 ∧ (f.getD 1 0 = ridKbd → Unsent f cut 5)

/-- The keyboard reports of the composer: the keys stand in the first slots. -/
def KeyReport (payload : List UInt8) : Prop :=
  ∃ mods keys, (∀ u ∈ keys, u ≠ 0) ∧
    payload = [mods, 0] ++ keys ++ List.replicate (keySlots - keys.length) 0

variable {f : WireFrame} {cut : List UInt8}

/-- The payload of a frame that was cut after `n` bytes of it. -/
def cutPayload (payload : List UInt8) (n : Nat) : List UInt8 :=
  payload.take n ++ List.replicate (payload.length - n) 0

theorem getD_cutPayload {payload : List UInt8} {n : Nat} (hn : n < payload.length) :
    (cutPayload payload n).getD 0 0 ≠ 0 ↔ 0 < n ∧ payload.getD 0 0 ≠ 0 := by
  cases payload with
  | nil => exact absurd hn (Nat.not_lt_zero n)
  | cons m rest =>
      cases n with
      | zero => exact iff_of_false (fun h => h rfl) fun h => absurd h.1 (Nat.lt_irrefl 0)
      | succ n => exact ⟨fun h => ⟨Nat.succ_pos n, h⟩, fun h => h.2⟩

theorem drop_cutPayload {payload : List UInt8} (h : KeyReport payload) {n : Nat}
    (hn : n < payload.length) :
    (∃ u ∈ (cutPayload payload n).drop 2, u ≠ 0) ↔ 2 < n ∧ payload.getD 2 0 ≠ 0 := by
  obtain ⟨mods, keys, hkeys, rfl⟩ := h
  have hzeros : ∀ k (u : UInt8), u ∈ List.replicate k 0 → ¬u ≠ 0 := fun k u hu hne =>
    hne (List.eq_of_mem_replicate hu)
  rcases n with _ | _ | n
  · refine iff_of_false ?_ fun h => absurd h.1 (by decide)
    rintro ⟨u, hu, hne⟩
    exact hzeros _ u (List.mem_of_mem_drop hu) hne
  · refine iff_of_false ?_ fun h => absurd h.1 (by decide)
    rintro ⟨u, hu, hne⟩
    exact hzeros _ u (List.mem_of_mem_drop hu) hne
  · cases keys with
    | nil =>
        refine iff_of_false ?_ fun h => h.2 rfl
        rintro ⟨u, hu, hne⟩
        rcases List.mem_append.mp hu with hu | hu
        · exact hzeros _ u (List.mem_of_mem_take hu) hne
        · exact hzeros _ u hu hne
    | cons k keys =>
        have hk : k ≠ 0 := hkeys k List.mem_cons_self
        cases n with
        | zero =>
            refine iff_of_false ?_ fun h => absurd h.1 (by decide)
            rintro ⟨u, hu, hne⟩
            exact hzeros _ u hu hne
        | succ n => exact iff_of_true ⟨k, List.mem_cons_self, hk⟩ ⟨by omega, hk⟩

theorem not_presses_of_empty {ftype b1 : UInt8} : ¬(WireFrame.mk ftype b1 []).Presses := by
  rintro ⟨-, ⟨-, hhead | ⟨u, hu, -⟩⟩ | ⟨-, hhead⟩⟩
  · exact hhead rfl
  · exact absurd hu List.not_mem_nil
  · exact hhead rfl

/-- What is completed with zeros presses what was written of it. -/
theorem presses_completion (hlen : f.payload.length ≤ maxPayload) (hcut : cut <+: f.bytes)
    (hne : cut ≠ f.bytes)
    (hhid : f.ftype = fHid → f.b1 = ridKbd ∧ KeyReport f.payload ∨ f.b1 = ridMouse) :
    (∀ g ∈ completion cut, ¬g.Presses) ↔ CutHarmless f.bytes cut := by
  have hshort : cut.length ≤ 3 → CutHarmless f.bytes cut := by
    intro hle _
    exact ⟨fun h => absurd h (by omega), fun _ h => absurd h (by omega)⟩
  rcases cut_cases hcut hne with rfl | rfl | rfl | ⟨n, hn, rfl⟩
  · exact iff_of_true (fun g hg => absurd hg List.not_mem_nil) (hshort (Nat.zero_le 3))
  · refine iff_of_true (fun g hg => ?_) (hshort (Nat.le_add_left 1 2))
    rw [List.mem_singleton.mp hg]
    exact not_presses_of_empty
  · refine iff_of_true (fun g hg => ?_) (hshort (Nat.le_add_left 2 1))
    rw [List.mem_singleton.mp hg]
    exact not_presses_of_empty
  · have hcomplete : completion (f.ftype :: f.b1 :: UInt8.ofNat f.payload.length ::
        f.payload.take n) = [⟨f.ftype, f.b1, cutPayload f.payload n⟩] := by
      rw [completion, toNat_ofNat_length hlen, List.length_take_of_le (Nat.le_of_lt hn), cutPayload]
    have hlength : (f.ftype :: f.b1 :: UInt8.ofNat f.payload.length ::
        f.payload.take n).length = 3 + n := by
      rw [List.length_cons, List.length_cons, List.length_cons,
        List.length_take_of_le (Nat.le_of_lt hn), Nat.add_comm 3]
    have hftype : f.bytes.getD 0 0 = f.ftype := rfl
    have hb1 : f.bytes.getD 1 0 = f.b1 := rfl
    have hfirst : f.bytes.getD 3 0 = f.payload.getD 0 0 := rfl
    have hthird : f.bytes.getD 5 0 = f.payload.getD 2 0 := rfl
    rw [hcomplete, List.forall_mem_singleton, CutHarmless, Unsent, Unsent, hlength, hftype, hb1,
      hfirst, hthird, WireFrame.Presses]
    by_cases hf : f.ftype = fHid
    · rcases hhid hf with ⟨hb, hreport⟩ | hb
      · have hmouse : f.b1 ≠ ridMouse := by
          rw [hb]
          decide
        rw [getD_cutPayload hn, drop_cutPayload hreport hn]
        grind
      · have hkbd : f.b1 ≠ ridKbd := by
          rw [hb]
          decide
        rw [getD_cutPayload hn]
        grind
    · exact iff_of_true (fun h => hf h.1) fun h => absurd h hf

end Pressing

section Sending

/-- The states of a composer. -/
inductive Reachable : Composer → Prop
  | new : Reachable .new
  | dispatch {c c' line frames} (hc : Reachable c) (h : c.dispatch line = .ok (c', frames)) :
      Reachable c'
  | releaseEverything {c} (hc : Reachable c) : Reachable c.releaseEverything.1

/-- The frames that are written to the port. -/
inductive Written : Frame → Prop
  | dispatch {c c' line frames f} (hc : Reachable c) (h : c.dispatch line = .ok (c', frames))
      (hf : f ∈ frames) : Written f
  | releaseEverything {c f} (hc : Reachable c) (hf : f ∈ c.releaseEverything.2) : Written f
  | console {reads f} (hf : f ∈ pumpConsole reads) : Written f

/-- Nothing held is the empty slot. -/
def Occupied (c : Composer) : Prop := ∀ u ∈ c.heldKeys, u ≠ 0

/-- A frame of the composer: a keyboard report of keys, or one that is not for the keyboard. -/
def Composed (f : Frame) : Prop :=
  (∃ c mods keys, Occupied c ∧ (∀ u ∈ keys, u ≠ 0) ∧ f = Composer.kbd c mods keys) ∨ OffKeyboard f

variable {c c' : Composer} {line text : List Char} {frames : List Frame} {f : Frame}

theorem length_kbdReport (c : Composer) (mods : UInt8) (keys : List UInt8) :
    (c.kbdReport mods keys).length = 8 := by
  have htake : ((c.heldKeys ++ keys).take keySlots).length ≤ keySlots := List.length_take_le _ _
  rw [Composer.kbdReport, List.length_append, List.length_append, List.length_replicate,
    Nat.add_assoc, Nat.add_sub_of_le htake]
  rfl

theorem composed_kbd (h : Occupied c) {mods : UInt8} {keys : List UInt8}
    (hkeys : ∀ u ∈ keys, u ≠ 0) : Composed (c.kbd mods keys) :=
  .inl ⟨c, mods, keys, h, hkeys, rfl⟩

theorem composed_rest (h : Occupied c) (mods : UInt8) : Composed (c.kbd mods []) :=
  composed_kbd h fun _ hu => absurd hu List.not_mem_nil

/-- A press on top of what is held, and the report of that. -/
theorem composed_tap (h : Occupied c) {mods : UInt8} {keys : List UInt8}
    (hkeys : ∀ u ∈ keys, u ≠ 0) : ∀ f ∈ [c.kbd mods keys, c.kbd 0 []], Composed f := by
  intro f hf
  rcases List.mem_cons.mp hf with rfl | hf
  · exact composed_kbd h hkeys
  · rw [List.mem_singleton.mp hf]
    exact composed_rest h 0

theorem ne_zero_of_mem_singleton {u : UInt8} (h : u ≠ 0) : ∀ v ∈ [u], v ≠ 0 := by
  intro v hv
  rw [List.mem_singleton.mp hv]
  exact h

theorem composed_typeChars (h : Occupied c) (htext : c.typeChars text = .ok frames) :
    ∀ f ∈ frames, Composed f := by
  induction text generalizing frames with
  | nil =>
      cases htext
      exact fun f hf => absurd hf List.not_mem_nil
  | cons ch text ih =>
      rw [Composer.typeChars] at htext
      split at htext
      · cases htext
      · next u shift hch =>
          obtain ⟨out, hout, heq⟩ := bind_eq_ok.mp htext
          rw [← Except.ok.inj heq]
          intro f hf
          rcases List.mem_cons.mp hf with rfl | hf
          · exact composed_kbd h (ne_zero_of_mem_singleton (charToKey_ne_zero hch))
          · rcases List.mem_cons.mp hf with rfl | hf
            · exact composed_rest h 0
            · exact ih hout f hf

/-- Whatever line is accepted, every frame is a report of keys or not for the keyboard. -/
theorem composed_of_dispatched (h : Occupied c) (hline : Dispatched c line c' frames) :
    Occupied c' ∧ ∀ f ∈ frames, Composed f := by
  cases hline with
  | type hv htext =>
      rw [Composer.typeText] at htext
      split at htext
      · cases htext
      · exact ⟨h, composed_typeChars h htext⟩
  | key hv hkey =>
      obtain ⟨k, hk, hframes⟩ := bind_eq_ok.mp hkey
      refine ⟨h, ?_⟩
      cases k with
      | modifier bit =>
          rw [← Except.ok.inj hframes]
          exact composed_tap h fun _ hu => absurd hu List.not_mem_nil
      | key u =>
          rw [← Except.ok.inj hframes]
          exact composed_tap h (ne_zero_of_mem_singleton (keyKind_ne_zero hk))
  | combo hv hcombo =>
      obtain ⟨kinds, hkinds, -, -, rfl⟩ := exists_kinds_of_combo hcombo
      exact ⟨h, composed_tap h (ne_zero_of_kinds hkinds)⟩
  | down hv hdown =>
      obtain ⟨k, hk, hframes⟩ := bind_eq_ok.mp hdown
      obtain ⟨hc', hf⟩ := Prod.mk.inj (Except.ok.inj hframes)
      have hheld : Occupied c' := by
        rw [← hc']
        cases k with
        | modifier bit => exact h
        | key u =>
            simp only
            split
            · intro v hv
              rcases List.mem_append.mp hv with hv | hv
              · exact h v hv
              · exact ne_zero_of_mem_singleton (keyKind_ne_zero hk) v hv
            · exact h
      rw [hc'] at hf
      refine ⟨hheld, fun f hmem => ?_⟩
      rw [← hf] at hmem
      rw [List.mem_singleton.mp hmem]
      exact composed_rest hheld 0
  | up hv hup =>
      obtain ⟨k, hk, hframes⟩ := bind_eq_ok.mp hup
      obtain ⟨hc', hf⟩ := Prod.mk.inj (Except.ok.inj hframes)
      have hheld : Occupied c' := by
        rw [← hc']
        cases k with
        | modifier bit => exact h
        | key u => exact fun v hv => h v (List.mem_filter.mp hv).1
      rw [hc'] at hf
      refine ⟨hheld, fun f hmem => ?_⟩
      rw [← hf] at hmem
      rw [List.mem_singleton.mp hmem]
      exact composed_rest hheld 0
  | releaseall hv =>
      have hheld : Occupied c.releaseall.1 := fun u hu => absurd hu List.not_mem_nil
      refine ⟨hheld, fun f hmem => ?_⟩
      rw [List.mem_singleton.mp hmem]
      exact composed_rest hheld 0
  | other hv hmods hkeys hframes =>
      refine ⟨?_, fun f hf => .inr (hframes f hf)⟩
      rw [Occupied, hkeys]
      exact h

theorem Reachable.occupied (h : Reachable c) : Occupied c := by
  induction h with
  | new => exact fun u hu => absurd hu List.not_mem_nil
  | dispatch hc hline ih => exact (composed_of_dispatched ih (dispatched hline)).1
  | releaseEverything hc ih => exact fun u hu => absurd hu List.not_mem_nil

/-- The frames of the composer and of the console as the board reads them. -/
theorem Written.frame (h : Written f) :
    ∃ w : WireFrame, w.bytes = f ∧ downstream w.ftype = true ∧ w.payload.length ≤ maxPayload ∧
      (w.ftype = fHid → w.b1 = ridKbd ∧ KeyReport w.payload ∨ w.b1 = ridMouse) := by
  have hcomposed : ∀ {f}, Composed f → ∃ w : WireFrame, w.bytes = f ∧
      downstream w.ftype = true ∧ w.payload.length ≤ maxPayload ∧
      (w.ftype = fHid → w.b1 = ridKbd ∧ KeyReport w.payload ∨ w.b1 = ridMouse) := by
    rintro f (⟨c, mods, keys, hheld, hkeys, rfl⟩ | ⟨c, wheel, rfl⟩ | ⟨cmd, args, hargs, rfl⟩)
    · have hnonzero : ∀ u ∈ (c.heldKeys ++ keys).take keySlots, u ≠ 0 := by
        intro u hu
        rcases List.mem_append.mp (List.mem_of_mem_take hu) with hu | hu
        · exact hheld u hu
        · exact hkeys u hu
      refine ⟨⟨fHid, ridKbd, c.kbdReport mods keys⟩, rfl, rfl, ?_, fun _ => .inl ⟨rfl, ?_⟩⟩
      · rw [length_kbdReport]
        decide
      · exact ⟨_, _, hnonzero, rfl⟩
    · exact ⟨⟨fHid, ridMouse, _⟩, rfl, rfl, (by decide : 6 ≤ maxPayload), fun _ => .inr rfl⟩
    · have hctrl : fCtrl ≠ fHid := by decide
      exact ⟨⟨fCtrl, cmd, args⟩, rfl, rfl, Nat.le_trans hargs (by decide),
        fun h => absurd h hctrl⟩
  cases h with
  | dispatch hc hline hf =>
      exact hcomposed ((composed_of_dispatched hc.occupied (dispatched hline)).2 f hf)
  | @releaseEverything c f hc hf =>
      have hnone : Occupied c.releaseEverything.1 := fun u hu => absurd hu List.not_mem_nil
      rcases List.mem_cons.mp hf with rfl | hf
      · exact hcomposed (composed_rest hnone 0)
      · rw [List.mem_singleton.mp hf]
        exact hcomposed (.inr (offKeyboard_mouse _ 0))
  | @console reads f hf =>
      obtain ⟨cs, hlen, hframes, -⟩ := pumpConsole_eq reads
      rw [hframes] at hf
      obtain ⟨chunk, hchunk, rfl⟩ := List.mem_map.mp hf
      have hconsole : fConsole ≠ fHid := by decide
      exact ⟨⟨fConsole, consolePort, chunk⟩, rfl, rfl, hlen chunk hchunk,
        fun h => absurd h hconsole⟩

end Sending

section Resync

/-- What is said of a frame that was cut, in front of whatever frames came before and come after:
none of those is lost, and at most one comes between, which presses nothing. -/
def Resyncs (cut : Frame) : Prop :=
  ∀ before after : List (Item downstream), ∃ mid : List WireFrame, mid.length ≤ 1 ∧
    split downstream (stream before ++ cut ++ resyncPreamble ++ stream after) =
      (framesOf before ++ mid ++ framesOf after,
        (stream before ++ cut ++ resyncPreamble ++ stream after).length) ∧
    ∀ g ∈ mid, ¬g.Presses

variable {f cut : Frame}

/-- The port is in step again, with nothing pressed, exactly if the frame was cut before what it
presses. -/
theorem resyncs_iff (h : Written f) (hcut : cut <+: f) (hne : cut ≠ f) :
    Resyncs cut ↔ CutHarmless f cut := by
  obtain ⟨w, rfl, hknown, hlen, hhid⟩ := h.frame
  rw [← presses_completion hlen hcut hne hhid]
  constructor
  · intro hall
    obtain ⟨mid, -, hsplit, hquiet⟩ := hall [] []
    rw [split_resync hknown hlen hcut hne] at hsplit
    have hmid : completion cut = mid :=
      List.append_cancel_left (List.append_cancel_right (Prod.mk.inj hsplit).1)
    rw [hmid]
    exact hquiet
  · intro hquiet before after
    exact ⟨completion cut, length_completion_le cut,
      split_resync hknown hlen hcut hne before after, hquiet⟩

theorem written_tap : Written (Composer.new.kbd 0x01 []) := by
  have hline : Composer.new.dispatch "key CTRL".toList =
      .ok (.new, [Composer.new.kbd 0x01 [], Composer.new.kbd 0 []]) := rfl
  exact .dispatch .new hline List.mem_cons_self

/-- The tap of a modifier, cut in its header. -/
theorem resyncs_iff_header :
    Resyncs [fHid, ridKbd] ↔ CutHarmless (Composer.new.kbd 0x01 []) [fHid, ridKbd] :=
  resyncs_iff written_tap ⟨_, rfl⟩ (by decide)

/-- The tap of a modifier, cut after the modifier: the modifier stays pressed. -/
theorem not_resyncs_modifier :
    Written (Composer.new.kbd 0x01 []) ∧
      [fHid, ridKbd, 8, 0x01] <+: Composer.new.kbd 0x01 [] ∧ ¬Resyncs [fHid, ridKbd, 8, 0x01] := by
  refine ⟨written_tap, ⟨_, rfl⟩, fun hall => ?_⟩
  let none : List (Item downstream) := []
  obtain ⟨mid, -, hsplit, hquiet⟩ := hall none none
  have hcompleted : (split downstream (stream none ++ [fHid, ridKbd, 8, 0x01] ++ resyncPreamble ++
      stream none)).1 = [⟨fHid, ridKbd, [0x01, 0, 0, 0, 0, 0, 0, 0]⟩] := by
    decide +kernel
  rw [hsplit] at hcompleted
  have hmid : mid = [⟨fHid, ridKbd, [0x01, 0, 0, 0, 0, 0, 0, 0]⟩] :=
    (List.append_nil mid).symm.trans hcompleted
  refine hquiet ⟨fHid, ridKbd, [0x01, 0, 0, 0, 0, 0, 0, 0]⟩ ?_ ⟨rfl, .inl ⟨rfl, .inl ?_⟩⟩
  · rw [hmid]
    exact List.mem_cons_self
  · decide

end Resync


end Hidrig

end Paniolo
