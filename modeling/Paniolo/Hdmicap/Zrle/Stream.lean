import Paniolo.Hdmicap.Zrle.Decode

/-!
# The zlib stream

One connection has one zlib stream, flushed after every rectangle and never
reset. The compressor itself is a library and a parameter here: `Zlib` holds
what `ZrleEncoder` calls and what a client has on its side, and `Lossless` says
what the library promises of them. `deflate` is the repository's loop around
the compressor, and `inflate_deflate` says that it ends and that the client
gets exactly the bytes that went in.
-/

namespace Paniolo

namespace Hdmicap

namespace Zrle

/-- A compressor with sync flush, the decompressor of the other side, and the buffer's allocator. -/
structure Zlib where
  Enc : Type
  Dec : Type
  enc : Enc
  dec : Dec
  /-- `compress_vec(input, out, Sync)` with `room` bytes of spare capacity: the new state, how
  much of the input was consumed, and what was written. -/
  compress : Enc → List UInt8 → Nat → Enc × Nat × List UInt8
  /-- Everything a decompressor can produce from these further bytes of the stream. -/
  inflate : Dec → List UInt8 → Option (Dec × List UInt8)
  /-- Capacity after `Vec::with_capacity(n)`. -/
  withCapacity : Nat → Nat
  /-- Capacity after `reserve(additional)` on a buffer of this length and capacity. -/
  reserve : Nat → Nat → Nat → Nat

namespace Zlib

variable (z : Zlib)

/-- The loop of `deflate`: `input` is what is not consumed yet, `out` what was written so far. -/
def deflateLoop : Nat → z.Enc → List UInt8 → List UInt8 → Nat → Option (z.Enc × List UInt8)
  | 0, _, _, _, _ => none
  | fuel + 1, e, input, out, cap =>
      let s := z.compress e input (cap - out.length)
      let input := input.drop s.2.1
      let out := out ++ s.2.2
      -- everything in, and the flush finished (it did not run out of room): done
      if input.length = 0 ∧ out.length < cap then some (s.1, out)
      else deflateLoop fuel s.1 input out (z.reserve out.length cap (max cap 256))

def deflate (e : z.Enc) (input : List UInt8) : Option (z.Enc × List UInt8) :=
  z.deflateLoop (2 * input.length + 5000) e input [] (z.withCapacity (input.length / 4 + 64))

/-- What zlib promises. `R e d back` relates a compressor to a decompressor that has read all
of its output so far; `back` is input that was consumed and not yet written out. `owed` bounds
the output that is still to come for an input. -/
structure Lossless (R : z.Enc → z.Dec → List UInt8 → Prop) (owed : z.Enc → List UInt8 → Nat) :
    Prop where
  start : R z.enc z.dec []
  inflate_append : ∀ d a b, z.inflate d (a ++ b) =
    (z.inflate d a).bind fun s => (z.inflate s.1 b).map fun t => (t.1, s.2 ++ t.2)
  /-- The output decodes to what was consumed, less what is held back; nothing is held back when
  the flush did not run out of room, and the compressor stops only for lack of input or room. -/
  compress_inflate : ∀ e d back input room, 6 < room → R e d back →
    ∃ d' got back', z.inflate d (z.compress e input room).2.2 = some (d', got) ∧
      back ++ input.take (z.compress e input room).2.1 = got ++ back' ∧
      R (z.compress e input room).1 d' back' ∧
      ((z.compress e input room).2.2.length < room →
        (z.compress e input room).2.1 = input.length ∧ back' = [])
  compress_owed : ∀ e d back input room, 6 < room → R e d back →
    (z.compress e input room).2.2.length +
      owed (z.compress e input room).1 (input.drop (z.compress e input room).2.1) ≤ owed e input
  owed_le : ∀ e d input, R e d [] → owed e input ≤ 2 * input.length + 4096
  le_withCapacity : ∀ n, n ≤ z.withCapacity n
  le_reserve : ∀ len cap n, len + n ≤ z.reserve len cap n

variable {z} {R : z.Enc → z.Dec → List UInt8 → Prop} {owed : z.Enc → List UInt8 → Nat}

/-- The loop ends once the room exceeds what is owed, and the room grows with every round. -/
theorem deflateLoop_spec (law : z.Lossless R owed) :
    ∀ (fuel : Nat) (e : z.Enc) (d : z.Dec) (back input out : List UInt8) (cap : Nat),
      R e d back → out.length + 6 < cap → out.length + owed e input < cap + fuel →
      ∃ e' d' more, z.deflateLoop (fuel + 1) e input out cap = some (e', out ++ more) ∧
        z.inflate d more = some (d', back ++ input) ∧ R e' d' [] ∧
        more.length ≤ owed e input := by
  intro fuel
  induction fuel with
  | zero =>
      intro e d back input out cap hR hcap howed
      obtain ⟨d', got, back', hinf, hsplit, hR', hdone⟩ :=
        law.compress_inflate e d back input (cap - out.length) (by omega) hR
      have hle := law.compress_owed e d back input (cap - out.length) (by omega) hR
      obtain ⟨hused, rfl⟩ := hdone (by omega)
      rw [hused, List.take_length, List.append_nil] at hsplit
      have hdrop : (input.drop (z.compress e input (cap - out.length)).2.1).length = 0 := by
        rw [hused, List.length_drop, Nat.sub_self]
      refine ⟨_, d', (z.compress e input (cap - out.length)).2.2, ?_, ?_, hR', by omega⟩
      · rw [deflateLoop]
        simp only [hdrop, List.length_append, true_and]
        rw [if_pos (by omega)]
      · rw [hinf, hsplit]
  | succ fuel ih =>
      intro e d back input out cap hR hcap howed
      obtain ⟨d', got, back', hinf, hsplit, hR', hdone⟩ :=
        law.compress_inflate e d back input (cap - out.length) (by omega) hR
      have hle := law.compress_owed e d back input (cap - out.length) (by omega) hR
      rw [deflateLoop]
      generalize hs : z.compress e input (cap - out.length) = s at *
      by_cases hfin : (input.drop s.2.1).length = 0 ∧ (out ++ s.2.2).length < cap
      · rw [List.length_append] at hfin
        obtain ⟨hused, rfl⟩ := hdone (by omega)
        rw [hused, List.take_length, List.append_nil] at hsplit
        refine ⟨s.1, d', s.2.2, ?_, by rw [hinf, hsplit], hR', by omega⟩
        rw [if_pos (by rw [List.length_append]; exact hfin)]
      · rw [if_neg hfin]
        have hfull : cap ≤ out.length + s.2.2.length := by
          by_contra hlt
          obtain ⟨hused, -⟩ := hdone (by omega)
          apply hfin
          rw [hused, List.length_drop, Nat.sub_self, List.length_append]
          omega
        have hgrow := law.le_reserve (out ++ s.2.2).length cap (max cap 256)
        rw [List.length_append] at hgrow
        obtain ⟨e'', d'', more, hloop, hinf', hR'', hmore⟩ :=
          ih s.1 d' back' (input.drop s.2.1) (out ++ s.2.2)
            (z.reserve (out ++ s.2.2).length cap (max cap 256)) hR'
            (by rw [List.length_append]; omega) (by rw [List.length_append]; omega)
        refine ⟨e'', d'', s.2.2 ++ more, ?_, ?_, hR'', ?_⟩
        · rw [hloop, List.append_assoc]
        · rw [law.inflate_append, hinf, Option.bind_some, hinf', Option.map_some]
          congr 2
          rw [← List.append_assoc, ← hsplit, List.append_assoc, List.take_append_drop]
        · rw [List.length_append]
          omega

/-- `deflate` ends, the client inflates what went in, and the stream goes on from there. -/
theorem inflate_deflate (law : z.Lossless R owed) {e : z.Enc} {d : z.Dec} (hR : R e d [])
    (input : List UInt8) :
    ∃ e' d' out, z.deflate e input = some (e', out) ∧ z.inflate d out = some (d', input) ∧
      R e' d' [] ∧ out.length ≤ 2 * input.length + 4096 := by
  have howed := law.owed_le e d input hR
  have hcap := law.le_withCapacity (input.length / 4 + 64)
  obtain ⟨e', d', more, hloop, hinf, hR', hlen⟩ :=
    deflateLoop_spec law (2 * input.length + 4999) e d [] input []
      (z.withCapacity (input.length / 4 + 64)) hR (by rw [List.length_nil]; omega)
      (by rw [List.length_nil]; omega)
  exact ⟨e', d', more, hloop, hinf, hR', by omega⟩

/-- A stream that is not compressed at all: every byte goes out as it came in. -/
def passthrough : Zlib where
  Enc := Unit
  Dec := Unit
  enc := ()
  dec := ()
  compress _ input room := ((), min input.length room, input.take room)
  inflate _ bytes := some ((), bytes)
  withCapacity n := n
  reserve len _ n := len + n

theorem lossless_passthrough :
    passthrough.Lossless (fun _ _ back => back = []) (fun _ input => input.length) where
  start := rfl
  inflate_append _ _ _ := rfl
  compress_inflate e d back input room hroom hR := by
    subst hR
    refine ⟨(), input.take room, [], rfl, ?_, rfl, ?_⟩
    · change [] ++ input.take (min input.length room) = input.take room ++ []
      rw [List.nil_append, List.append_nil, ← List.take_take,
        List.take_of_length_le (List.length_take_le' _ _)]
    · intro hlt
      have hlen : (input.take room).length < room := hlt
      have hused : min input.length room = input.length := by
        rw [List.length_take] at hlen
        omega
      exact ⟨hused, rfl⟩
  compress_owed e d back input room hroom hR := by
    simp only [passthrough, List.length_take, List.length_drop]
    omega
  owed_le e d input hR := by omega
  le_withCapacity n := Nat.le_refl n
  le_reserve len cap n := Nat.le_refl _

end Zlib

end Zrle

end Hdmicap

end Paniolo
