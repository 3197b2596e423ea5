import Paniolo.Library.Chunks
import Paniolo.Library.Framing
import Paniolo.Hidrig.Compose

/-!
# The stream of the control board

`hidrig/src/uart.rs`: replies and console output come back on one stream of frames,
with bytes between them that belong to none. `split_frames` takes the complete
frames off the front of what has been read, and the rest waits for more. What is
typed at the console goes the other way in frames of the same kind.
-/

namespace Paniolo

namespace Hidrig

open Framing

def fConsole : UInt8 := 0x03
def consolePort : UInt8 := 0x00
def maxPayload : Nat := 255

/-- A frame on the wire. -/
structure WireFrame where
  ftype : UInt8
  b1 : UInt8
  payload : List UInt8
deriving DecidableEq, Repr

def WireFrame.bytes (f : WireFrame) : List UInt8 := frame f.ftype f.b1 f.payload

/-- The types of the frames that the board sends. -/
def upstream (ftype : UInt8) : Bool := ftype == fCtrl || ftype == fConsole

/-- The rest of a frame of the given type and what follows it, if it is all there. -/
def takeFrame (ftype : UInt8) : List UInt8 → Option (WireFrame × List UInt8)
  | b1 :: len :: body =>
      if body.length < len.toNat then none
      else some (⟨ftype, b1, body.take len.toNat⟩, body.drop len.toNat)
  | _ => none

/-- The loop of `split_frames`, from the byte it has come to: the frames, and how many bytes it
takes. A byte that is not one of the `known` types is passed over. -/
def splitLoop (known : UInt8 → Bool) : Nat → List UInt8 → List WireFrame × Nat
  | 0, _ => ([], 0)
  | _ + 1, [] => ([], 0)
  | fuel + 1, ftype :: tail =>
      if known ftype then
        match takeFrame ftype tail with
        | none => ([], 0)
        | some (f, rest) =>
            let next := splitLoop known fuel rest
            (f :: next.1, 3 + f.payload.length + next.2)
      else
        let next := splitLoop known fuel tail
        (next.1, 1 + next.2)

/-- The loop with rounds enough: each takes at least one byte. -/
def split (known : UInt8 → Bool) (buf : List UInt8) : List WireFrame × Nat :=
  splitLoop known buf.length buf

/-- `split_frames`: the type and the payload of each frame. -/
def splitFrames (buf : List UInt8) : List (UInt8 × List UInt8) × Nat :=
  let out := split upstream buf
  (out.1.map fun f => (f.ftype, f.payload), out.2)

/-- The buffer of `read_inbound` and `demux`: each read is appended, the complete frames are
taken, and what they took up is drained. -/
def readLoop (inbuf : List UInt8) : List (List UInt8) → List (UInt8 × List UInt8) × List UInt8
  | [] => ([], inbuf)
  | chunk :: reads =>
      let buf := inbuf ++ chunk
      let taken := splitFrames buf
      let later := readLoop (buf.drop taken.2) reads
      (taken.1 ++ later.1, later.2)

/-- What comes of a read at the console's pseudo terminal. -/
inductive PtyRead where
  | ok (bytes : List UInt8)
  | wouldBlock
  | interrupted
  | failed

/-- `pump_console`: the frames it writes. -/
def pumpConsole : List PtyRead → List Frame
  | [] => []
  | .ok bytes :: reads =>
      if bytes.isEmpty then []
      else (chunks maxPayload bytes).map (frame fConsole consolePort) ++ pumpConsole reads
  | .interrupted :: reads => pumpConsole reads
  | .wouldBlock :: _ => []
  | .failed :: _ => []

/-- What it read. -/
def pumped : List PtyRead → List UInt8
  | [] => []
  | .ok bytes :: reads => if bytes.isEmpty then [] else bytes ++ pumped reads
  | .interrupted :: reads => pumped reads
  | .wouldBlock :: _ => []
  | .failed :: _ => []
section Splitting

variable {known : UInt8 → Bool}

/-- One round of the loop: a frame, or a byte that begins none. -/
def nextItem (known : UInt8 → Bool) :
    List UInt8 → Except Empty (Option (Option WireFrame × List UInt8))
  | [] => .ok none
  | ftype :: tail =>
      if known ftype then .ok ((takeFrame ftype tail).map fun (f, rest) => (some f, rest))
      else .ok (some (none, tail))

theorem piece_stray {b : UInt8} (h : known b = false) : Piece (nextItem known) [b] none := by
  refine ⟨List.cons_ne_nil _ _, fun more => ?_⟩
  rw [List.singleton_append, nextItem, h]
  rfl

theorem toNat_ofNat_length {l : List UInt8} (h : l.length ≤ maxPayload) :
    (UInt8.ofNat l.length).toNat = l.length := by
  rw [UInt8.toNat_ofNat', Nat.mod_eq_of_lt]
  exact Nat.lt_succ_of_le h

theorem takeFrame_append (ftype b1 : UInt8) {payload : List UInt8}
    (h : payload.length ≤ maxPayload) (more : List UInt8) :
    takeFrame ftype (b1 :: UInt8.ofNat payload.length :: (payload ++ more)) =
      some (⟨ftype, b1, payload⟩, more) := by
  have hshort : ¬(payload ++ more).length < payload.length := by
    rw [List.length_append]
    omega
  rw [takeFrame, toNat_ofNat_length h, if_neg hshort, List.take_left, List.drop_left]

theorem takeFrame_eq_some {ftype : UInt8} {tail rest : List UInt8} {f : WireFrame}
    (h : takeFrame ftype tail = some (f, rest)) :
    f.ftype = ftype ∧ f.payload.length ≤ maxPayload ∧ ftype :: tail = f.bytes ++ rest := by
  rw [takeFrame.eq_def] at h
  split at h
  · next b1 len body =>
      split at h
      · cases h
      · next hlen =>
          obtain ⟨rfl, rfl⟩ := Prod.mk.inj (Option.some.inj h)
          have htake : (body.take len.toNat).length = len.toNat :=
            List.length_take_of_le (Nat.le_of_not_lt hlen)
          refine ⟨rfl, ?_, ?_⟩
          · rw [htake]
            exact Nat.le_of_lt_succ len.toNat_lt
          · rw [WireFrame.bytes, frame, htake, UInt8.ofNat_toNat, List.append_assoc,
              List.take_append_drop]
            rfl
  · cases h

theorem length_bytes (f : WireFrame) : f.bytes.length = 3 + f.payload.length :=
  (List.length_append).trans rfl

theorem piece_frame {f : WireFrame} (h : known f.ftype = true)
    (hlen : f.payload.length ≤ maxPayload) : Piece (nextItem known) f.bytes (some f) := by
  refine ⟨List.cons_ne_nil _ _, fun more => ?_⟩
  have htake := takeFrame_append f.ftype f.b1 hlen more
  rw [WireFrame.bytes, frame, List.append_assoc]
  simp only [List.cons_append, List.nil_append, nextItem, h, if_true, htake]
  rfl

theorem stable_nextItem (known : UInt8 → Bool) : Stable (nextItem known) where
  nil := rfl
  message := by
    intro buf m rest hnext
    cases buf with
    | nil => cases hnext
    | cons ftype tail =>
        rw [nextItem] at hnext
        split at hnext
        · next hknown =>
            obtain ⟨⟨f, left⟩, htake, heq⟩ := Option.map_eq_some_iff.mp (Except.ok.inj hnext)
            obtain ⟨rfl, rfl⟩ := Prod.mk.inj heq
            obtain ⟨hftype, hlen, hbytes⟩ := takeFrame_eq_some htake
            exact ⟨f.bytes, hbytes, piece_frame (hftype ▸ hknown) hlen⟩
        · next hknown =>
            obtain ⟨rfl, rfl⟩ := Prod.mk.inj (Option.some.inj (Except.ok.inj hnext))
            exact ⟨[ftype], rfl, piece_stray (Bool.eq_false_iff.mpr hknown)⟩
  error := by
    intro buf e
    exact e.elim

/-- The loop reads item by item, and leaves what is no item yet. -/
theorem splitLoop_spec (known : UInt8 → Bool) {fuel : Nat} {buf : List UInt8}
    (h : buf.length ≤ fuel) :
    ∃ ms, exhaust (nextItem known) buf = (ms, .ok (buf.drop (splitLoop known fuel buf).2)) ∧
      (splitLoop known fuel buf).1 = ms.filterMap id ∧
      (splitLoop known fuel buf).2 ≤ buf.length := by
  have hs := stable_nextItem known
  induction fuel generalizing buf with
  | zero =>
      obtain rfl := List.length_eq_zero_iff.mp (Nat.le_zero.mp h)
      exact ⟨[], exhaust_none rfl, rfl, Nat.zero_le _⟩
  | succ fuel ih =>
      cases buf with
      | nil => exact ⟨[], exhaust_none rfl, rfl, Nat.zero_le _⟩
      | cons ftype tail =>
          rw [List.length_cons, Nat.add_le_add_iff_right] at h
          rw [splitLoop]
          by_cases hknown : known ftype = true
          · rw [if_pos hknown]
            cases htake : takeFrame ftype tail with
            | none =>
                refine ⟨[], exhaust_none ?_, rfl, Nat.zero_le _⟩
                rw [nextItem, if_pos hknown, htake]
                rfl
            | some res =>
                obtain ⟨f, rest⟩ := res
                obtain ⟨hftype, hlen, hbytes⟩ := takeFrame_eq_some htake
                have hlength : tail.length + 1 = 3 + f.payload.length + rest.length := by
                  rw [← List.length_cons, hbytes, List.length_append, length_bytes]
                obtain ⟨ms, hms, hout, hle⟩ := ih (by omega : rest.length ≤ fuel)
                refine ⟨some f :: ms, ?_, ?_, ?_⟩
                · have hdrop : (f.bytes ++ rest).drop
                      (3 + f.payload.length + (splitLoop known fuel rest).2) =
                      rest.drop (splitLoop known fuel rest).2 := by
                    rw [← length_bytes, List.drop_length_add_append]
                  rw [hbytes, hs.exhaust_message (piece_frame (hftype ▸ hknown) hlen), hms]
                  exact congrArg (fun left => (some f :: ms, Except.ok left)) hdrop.symm
                · exact congrArg (f :: ·) hout
                · rw [List.length_cons, hlength]
                  exact Nat.add_le_add_left hle _
          · rw [if_neg hknown]
            obtain ⟨ms, hms, hout, hle⟩ := ih h
            have hitem := hs.exhaust_message (piece_stray (Bool.eq_false_iff.mpr hknown)) tail
            refine ⟨none :: ms, ?_, ?_, ?_⟩
            · have hdrop : (ftype :: tail).drop (1 + (splitLoop known fuel tail).2) =
                  tail.drop (splitLoop known fuel tail).2 := by
                rw [Nat.add_comm, List.drop_succ_cons]
              rw [List.singleton_append] at hitem
              rw [hitem, hms]
              exact congrArg (fun left => (none :: ms, Except.ok left)) hdrop.symm
            · rw [List.filterMap_cons_none rfl]
              exact hout
            · rw [List.length_cons, Nat.add_comm tail.length]
              exact Nat.add_le_add_left hle _

end Splitting

section Items

/-- What a stream is made of: frames of known types, and bytes that begin none. -/
inductive Item (known : UInt8 → Bool) where
  | stray (b : UInt8) (h : known b = false)
  | frame (f : WireFrame) (h : known f.ftype = true) (hlen : f.payload.length ≤ maxPayload)

variable {known : UInt8 → Bool}

def Item.bytes : Item known → List UInt8
  | .stray b _ => [b]
  | .frame f _ _ => f.bytes

def Item.frame? : Item known → Option WireFrame
  | .stray _ _ => none
  | .frame f _ _ => some f

def stream (items : List (Item known)) : List UInt8 := (items.map Item.bytes).flatten

/-- The frames of a stream. -/
def framesOf (items : List (Item known)) : List WireFrame := items.filterMap Item.frame?

theorem stream_append (items items' : List (Item known)) :
    stream (items ++ items') = stream items ++ stream items' := by
  rw [stream, List.map_append, List.flatten_append, stream, stream]

theorem framesOf_append (items items' : List (Item known)) :
    framesOf (items ++ items') = framesOf items ++ framesOf items' := List.filterMap_append

theorem exhaust_stream (items : List (Item known)) :
    exhaust (nextItem known) (stream items) = (items.map Item.frame?, .ok []) := by
  have hpieces : List.Forall₂ (Piece (nextItem known)) (items.map Item.bytes)
      (items.map Item.frame?) := by
    rw [List.forall₂_map_left_iff, List.forall₂_map_right_iff, List.forall₂_same]
    intro item _
    cases item with
    | stray b h => exact piece_stray h
    | frame f h hlen => exact piece_frame h hlen
  have hall := (stable_nextItem known).exhaust_pieces hpieces []
  rw [List.append_nil] at hall
  rw [stream, hall, exhaust_none (stable_nextItem known).nil, List.append_nil]

/-- Frames alone are a stream. -/
theorem exists_items {fs : List WireFrame}
    (h : ∀ f ∈ fs, known f.ftype = true ∧ f.payload.length ≤ maxPayload) :
    ∃ items : List (Item known), stream items = (fs.map WireFrame.bytes).flatten ∧
      framesOf items = fs := by
  induction fs with
  | nil => exact ⟨[], rfl, rfl⟩
  | cons f fs ih =>
      obtain ⟨items, hstream, hframes⟩ := ih fun g hg => h g (List.mem_cons_of_mem _ hg)
      obtain ⟨hknown, hlen⟩ := h f List.mem_cons_self
      refine ⟨.frame f hknown hlen :: items, ?_, ?_⟩
      · rw [stream, List.map_cons, List.flatten_cons, List.map_cons, List.flatten_cons, ← hstream]
        rfl
      · exact congrArg (f :: ·) hframes

/-- A stream is split into its frames, and all of it is used. -/
theorem split_stream (items : List (Item known)) :
    split known (stream items) = (framesOf items, (stream items).length) := by
  obtain ⟨ms, hms, hout, hle⟩ := splitLoop_spec known (Nat.le_refl (stream items).length)
  rw [exhaust_stream] at hms
  obtain ⟨rfl, hleft⟩ := Prod.mk.inj hms
  have hall : (stream items).length ≤ (split known (stream items)).2 :=
    List.drop_eq_nil_iff.mp (Except.ok.inj hleft).symm
  rw [List.filterMap_map] at hout
  exact Prod.ext hout (Nat.le_antisymm hle hall)

/-- Reading piece by piece takes the frames of the whole. -/
theorem readLoop_eq {inbuf : List UInt8} (h : nextItem upstream inbuf = .ok none)
    (reads : List (List UInt8)) :
    ∃ ms left, exhaust (nextItem upstream) (inbuf ++ reads.flatten) = (ms, .ok left) ∧
      readLoop inbuf reads =
        ((ms.filterMap id).map fun f => (f.ftype, f.payload), left) := by
  have hs := stable_nextItem upstream
  rw [← hs.feed_eq h]
  induction reads generalizing inbuf with
  | nil => exact ⟨[], inbuf, rfl, rfl⟩
  | cons chunk reads ih =>
      obtain ⟨ms, hms, hout, -⟩ := splitLoop_spec upstream (Nat.le_refl (inbuf ++ chunk).length)
      obtain ⟨ms', left, hfeed, hloop⟩ := ih (hs.exhaust_left (congrArg Prod.snd hms))
      refine ⟨ms ++ ms', left, ?_, ?_⟩
      · simp only [feed, hms, hfeed]
      · have hsplit : splitFrames (inbuf ++ chunk) =
            ((ms.filterMap id).map fun f => (f.ftype, f.payload),
              (splitLoop upstream (inbuf ++ chunk).length (inbuf ++ chunk)).2) := by
          rw [← hout]
          rfl
        simp only [readLoop, hsplit, hloop, List.filterMap_append, List.map_append]

/-- However a stream is cut into reads, its frames come out in order, and nothing is left. -/
theorem readLoop_stream {items : List (Item upstream)} {reads : List (List UInt8)}
    (h : reads.flatten = stream items) :
    readLoop [] reads = ((framesOf items).map fun f => (f.ftype, f.payload), []) := by
  have hnone : nextItem upstream [] = .ok none := rfl
  obtain ⟨ms, left, hms, hloop⟩ := readLoop_eq hnone reads
  rw [List.nil_append, h, exhaust_stream] at hms
  obtain ⟨rfl, hleft⟩ := Prod.mk.inj hms
  rw [hloop, List.filterMap_map, ← Except.ok.inj hleft]
  rfl

end Items

section Console

theorem pumpConsole_eq (reads : List PtyRead) :
    ∃ chunks : List (List UInt8), (∀ c ∈ chunks, c.length ≤ maxPayload) ∧
      pumpConsole reads = chunks.map (frame fConsole consolePort) ∧
      chunks.flatten = pumped reads := by
  induction reads with
  | nil => exact ⟨[], nofun, rfl, rfl⟩
  | cons read reads ih =>
      obtain ⟨cs, hlen, hframes, hbytes⟩ := ih
      cases read with
      | ok bytes =>
          rw [pumpConsole, pumped]
          split
          · exact ⟨[], nofun, rfl, rfl⟩
          · refine ⟨chunks maxPayload bytes ++ cs, ?_, ?_, ?_⟩
            · intro c hc
              rcases List.mem_append.mp hc with hc | hc
              · exact length_le_of_mem_chunks hc
              · exact hlen c hc
            · rw [hframes, List.map_append]
            · rw [List.flatten_append, flatten_chunks (by decide), hbytes]
      | interrupted => exact ⟨cs, hlen, hframes, hbytes⟩
      | wouldBlock | failed => exact ⟨[], nofun, rfl, rfl⟩

/-- What is pumped comes back out of the frames it is written in. -/
theorem splitFrames_pumpConsole (reads : List PtyRead) :
    (splitFrames (pumpConsole reads).flatten).2 = (pumpConsole reads).flatten.length ∧
      (∀ f ∈ (splitFrames (pumpConsole reads).flatten).1, f.1 = fConsole) ∧
      ((splitFrames (pumpConsole reads).flatten).1.map (·.2)).flatten = pumped reads := by
  obtain ⟨cs, hlen, hframes, hbytes⟩ := pumpConsole_eq reads
  have hcomplete : ∀ f ∈ cs.map fun c => WireFrame.mk fConsole consolePort c,
      upstream f.ftype = true ∧ f.payload.length ≤ maxPayload := by
    intro f hf
    obtain ⟨c, hc, rfl⟩ := List.mem_map.mp hf
    exact ⟨rfl, hlen c hc⟩
  obtain ⟨items, hstream, hitems⟩ := exists_items hcomplete
  have hall : (pumpConsole reads).flatten = stream items := by
    rw [hframes, hstream, List.map_map]
    rfl
  have hsplit : splitFrames (stream items) =
      (cs.map fun c => (fConsole, c), (stream items).length) := by
    rw [splitFrames, split_stream, hitems]
    simp only [List.map_map]
    rfl
  rw [hall, hsplit, ← hbytes]
  refine ⟨rfl, fun f hf => ?_, ?_⟩
  · obtain ⟨c, -, rfl⟩ := List.mem_map.mp hf
    rfl
  · rw [List.map_map]
    exact congrArg List.flatten (List.map_id _)

/-- Frames and stray bytes, cut into reads in whatever way, come out as those frames; and what is
pumped from the console comes back out of the frames written for it. -/
theorem demultiplexes :
    (∀ (items : List (Item upstream)) (reads : List (List UInt8)),
      reads.flatten = stream items →
        readLoop [] reads = ((framesOf items).map fun f => (f.ftype, f.payload), [])) ∧
      ∀ reads : List PtyRead,
        (splitFrames (pumpConsole reads).flatten).2 = (pumpConsole reads).flatten.length ∧
          (∀ f ∈ (splitFrames (pumpConsole reads).flatten).1, f.1 = fConsole) ∧
          ((splitFrames (pumpConsole reads).flatten).1.map (·.2)).flatten = pumped reads :=
  ⟨fun _ _ h => readLoop_stream h, splitFrames_pumpConsole⟩

/-- A stray byte and a frame whose payload looks like a header, cut within the header. -/
theorem demultiplexes_cutHeader :
    readLoop [] [[0x99, 0x03], [0x00, 0x02, 0x02], [0x03]] = ([(fConsole, [0x02, 0x03])], []) :=
  demultiplexes.1 [.stray 0x99 rfl, .frame ⟨fConsole, consolePort, [0x02, 0x03]⟩ rfl (by decide)]
    [[0x99, 0x03], [0x00, 0x02, 0x02], [0x03]] rfl

end Console


end Hidrig

end Paniolo
