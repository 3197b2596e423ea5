import Paniolo.Hdmicap.RfbServe.Messages
import Paniolo.Library.Framing
import Paniolo.Library.Slice

/-!
# The stream of client messages

The session appends what it receives to a buffer and calls `parse` until it has
no complete message. How a message is cut off the buffer depends on its first
bytes only, so the messages and the error are those of the stream, whatever
pieces it came in. `parseChecked` is `parse` with its indexing checked.
-/

namespace Paniolo

namespace Hdmicap

namespace RfbServe

open Framing (Piece Stable Stops exhaust feed)

/-! ### Indexing -/

/-- The length of the next message; see `messageLen`. -/
def lengthChecked (ty : UInt8) (buf : List UInt8) : Option (Except Close (Option Nat)) :=
  match ty.toNat with
  | 0 => some (.ok (some 20))
  | 2 =>
      if buf.length < 4 then some (.ok none)
      else
        ((slice? buf 2 4).bind fun b => be16At? b 0).map fun n =>
          if n > 1024 then .error (Close.protocol "too many encodings")
          else .ok (some (4 + 4 * n))
  | 3 => some (.ok (some 10))
  | 4 => some (.ok (some 8))
  | 5 => some (.ok (some 6))
  | 6 =>
      if buf.length < 8 then some (.ok none)
      else
        (be32At? buf 4).map fun n =>
          if n > 1048576 then .error (Close.protocol "client cut text too long")
          else .ok (some (8 + n))
  | other => some (.error (Close.protocol s!"unknown client message {other}"))

/-- The message in `m`; see `readMessage`. -/
def readChecked (ty : UInt8) (m : List UInt8) : Option (Except Close Msg) :=
  let at16 := fun i => (slice? m i (i + 2)).bind fun b => be16At? b 0
  match ty.toNat with
  | 0 =>
      (slice? m 4 20).bind fun pf =>
        if pf.length = 16 then
          match PixelFormat.parse pf with
          | .ok f => some (.ok (.setPixelFormat f))
          | .error e => some (.error (Close.unsupported e))
        else none
  | 2 =>
      (at16 2).bind fun n =>
        ((List.range n).mapM fun i => beI32At? m (4 + 4 * i)).map fun es => .ok (.setEncodings es)
  | 3 =>
      (m[1]?).bind fun incremental => (at16 2).bind fun x => (at16 4).bind fun y =>
        (at16 6).bind fun w => (at16 8).map fun h => .ok (.request ⟨incremental != 0, x, y, w, h⟩)
  | 4 =>
      (m[1]?).bind fun down => (be32At? m 4).map fun sym => .ok (.key (down != 0) sym)
  | 5 =>
      (m[1]?).bind fun mask => (at16 2).bind fun x => (at16 4).map fun y =>
        .ok (.pointer mask x y)
  | _ => some (.ok .cutText)

/-- `parse` with every index, slice and split checked; `none` is a panic. -/
def parseChecked (buf : List UInt8) : Option (Except Close (Option (Msg × List UInt8))) :=
  match buf.head? with
  | none => some (.ok none)
  | some ty =>
      (lengthChecked ty buf).bind fun
        | .error e => some (.error e)
        | .ok none => some (.ok none)
        | .ok (some need) =>
            if buf.length < need then some (.ok none)
            else
              (slice? buf 0 need).bind fun m =>
                (readChecked ty m).map fun
                  | .error e => .error e
                  | .ok msg => .ok (some (msg, buf.drop need))

theorem lengthChecked_eq (buf : List UInt8) :
    lengthChecked (buf.getD 0 0) buf = some (messageLen buf) := by
  rw [lengthChecked, messageLen]
  match (buf.getD 0 0).toNat with
  | 0 | 1 | 3 | 4 | 5 | _ + 7 => rfl
  | 2 =>
      simp only
      split
      · rfl
      · rw [slice?_be16At? (i := 2) (by omega), Option.map_some]
  | 6 =>
      simp only
      split
      · rfl
      · rw [be32At?_eq (i := 4) (by omega), Option.map_some]

/-! ### Where the length stands -/

/-- The bytes that tell how long a message is. -/
def headerLen (ty : Nat) : Nat := if ty = 2 then 4 else if ty = 6 then 8 else 1

theorem messageLen_eq_none_iff {buf : List UInt8} (hbuf : buf ≠ []) :
    messageLen buf = .ok none ↔ buf.length < headerLen (buf.getD 0 0).toNat := by
  have hpos : 0 < buf.length := List.length_pos_iff.mpr hbuf
  rw [messageLen]
  match (buf.getD 0 0).toNat with
  | 0 | 1 | 3 | 4 | 5 | _ + 7 =>
      simp [headerLen]
      omega
  | 2 =>
      simp only [headerLen, if_true]
      split
      · next h => exact iff_of_true rfl h
      · next h => exact iff_of_false (by split <;> exact nofun) h
  | 6 =>
      simp only [headerLen, if_true]
      split
      · next h => exact iff_of_true rfl h
      · next h => exact iff_of_false (by split <;> exact nofun) h

theorem headerLen_le_of_messageLen {buf : List UInt8} {n : Nat}
    (h : messageLen buf = .ok (some n)) : headerLen (buf.getD 0 0).toNat ≤ n := by
  rw [messageLen] at h
  revert h
  match (buf.getD 0 0).toNat with
  | 0 | 3 | 4 | 5 =>
      intro h
      cases h
      decide
  | 1 | _ + 7 => exact nofun
  | 2 =>
      simp only [headerLen, if_true]
      split
      · exact nofun
      · split
        · exact nofun
        · intro h
          cases h
          exact Nat.le_add_right 4 _
  | 6 =>
      simp only [headerLen, if_true]
      split
      · exact nofun
      · split
        · exact nofun
        · intro h
          cases h
          exact Nat.le_add_right 8 _

theorem getD_append_left {l more : List UInt8} {i : Nat} (h : i < l.length) :
    (l ++ more).getD i 0 = l.getD i 0 := by
  rw [List.getD_eq_getElem?_getD, List.getElem?_append_left h, ← List.getD_eq_getElem?_getD]

/-- Once the header is there the rest does not matter. -/
theorem messageLen_append {buf : List UInt8} (hbuf : buf ≠ [])
    (h : headerLen (buf.getD 0 0).toNat ≤ buf.length) (more : List UInt8) :
    messageLen (buf ++ more) = messageLen buf := by
  have hpos : 0 < buf.length := List.length_pos_iff.mpr hbuf
  have hlen : buf.length ≤ (buf ++ more).length := by
    rw [List.length_append]
    exact Nat.le_add_right _ _
  rw [messageLen, messageLen, getD_append_left hpos]
  revert h
  match (buf.getD 0 0).toNat with
  | 0 | 1 | 3 | 4 | 5 | _ + 7 =>
      intro _
      simp only
  | 2 =>
      intro h
      have h4 : 4 ≤ buf.length := h
      simp only
      rw [if_neg (not_lt_of_ge (Nat.le_trans h4 hlen)), if_neg (not_lt_of_ge h4),
        getD_append_left (by omega), getD_append_left (by omega)]
  | 6 =>
      intro h
      have h8 : 8 ≤ buf.length := h
      simp only
      rw [if_neg (not_lt_of_ge (Nat.le_trans h8 hlen)), if_neg (not_lt_of_ge h8),
        getD_append_left (by omega), getD_append_left (by omega), getD_append_left (by omega),
        getD_append_left (by omega)]

/-! ### The front of the buffer -/

/-- The bytes of one message, as far as its length goes. -/
def Framed (m : List UInt8) : Prop := m ≠ [] ∧ messageLen m = .ok (some m.length)

theorem getD_take {l : List UInt8} {n i : Nat} (h : i < n) : (l.take n).getD i 0 = l.getD i 0 := by
  rw [List.getD_eq_getElem?_getD, List.getElem?_take_of_lt h, ← List.getD_eq_getElem?_getD]

theorem Framed.messageLen_append {m : List UInt8} (hm : Framed m) (more : List UInt8) :
    messageLen (m ++ more) = .ok (some m.length) := by
  rw [RfbServe.messageLen_append hm.1 (headerLen_le_of_messageLen hm.2), hm.2]

/-- A message that is all there is one by itself. -/
theorem framed_take {buf : List UInt8} {n : Nat} (hlen : messageLen buf = .ok (some n))
    (hn : n ≤ buf.length) : Framed (buf.take n) := by
  have hheader : headerLen (buf.getD 0 0).toNat ≤ n := headerLen_le_of_messageLen hlen
  have hpos : 0 < headerLen (buf.getD 0 0).toNat := by
    unfold headerLen
    split
    · decide
    · split <;> decide
  have htake : (buf.take n).length = n := List.length_take_of_le hn
  have hne : buf.take n ≠ [] := by
    rw [← List.length_pos_iff, htake]
    omega
  have htakeHeader : headerLen ((buf.take n).getD 0 0).toNat ≤ (buf.take n).length := by
    rw [getD_take (by omega), htake]
    exact hheader
  have happend := messageLen_append hne htakeHeader (buf.drop n)
  rw [List.take_append_drop, hlen] at happend
  exact ⟨hne, by rw [htake, ← happend]⟩

theorem Framed.parse_eq {m : List UInt8} (hm : Framed m) (more : List UInt8) :
    parse (m ++ more) = (readMessage m).map fun msg => some (msg, more) := by
  have hlen : ¬(m ++ more).length < m.length := by
    rw [List.length_append]
    omega
  rw [parse, if_neg (List.append_ne_nil_of_left_ne_nil hm.1 more), hm.messageLen_append]
  simp only
  rw [if_neg hlen, List.take_left, List.drop_left]
  cases readMessage m <;> rfl

/-- What `parse` finds at the front. -/
inductive Front (buf : List UInt8) : Prop where
  | incomplete (h : parse buf = .ok none)
  | malformed (e : Close) (hbuf : buf ≠ []) (h : messageLen buf = .error e)
  | framed (m rest : List UInt8) (hm : Framed m) (h : buf = m ++ rest)

theorem front (buf : List UInt8) : Front buf := by
  by_cases hbuf : buf = []
  · exact .incomplete (by rw [parse, if_pos hbuf])
  · cases hlen : messageLen buf with
    | error e => exact .malformed e hbuf hlen
    | ok n =>
        cases n with
        | none => exact .incomplete (by rw [parse, if_neg hbuf, hlen])
        | some n =>
            by_cases hn : buf.length < n
            · exact .incomplete (by rw [parse, if_neg hbuf, hlen]; exact if_pos hn)
            · exact .framed (buf.take n) (buf.drop n) (framed_take hlen (Nat.le_of_not_lt hn))
                (List.take_append_drop n buf).symm

theorem Framed.piece {m : List UInt8} (hm : Framed m) {msg : Msg} (h : readMessage m = .ok msg) :
    Piece parse m msg :=
  ⟨hm.1, fun more => by rw [hm.parse_eq, h]; rfl⟩

theorem stable_parse : Stable parse where
  nil := rfl
  message {buf msg rest} h := by
    cases front buf with
    | incomplete hnone =>
        rw [hnone] at h
        cases h
    | malformed e hbuf hlen =>
        rw [parse, if_neg hbuf, hlen] at h
        cases h
    | framed m tail hm hbuf =>
        subst hbuf
        rw [hm.parse_eq] at h
        cases hread : readMessage m with
        | error e =>
            rw [hread] at h
            cases h
        | ok msg' =>
            rw [hread] at h
            cases h
            exact ⟨m, rfl, hm.piece hread⟩
  error {buf e} h more := by
    cases front buf with
    | incomplete hnone =>
        rw [hnone] at h
        cases h
    | malformed e' hbuf hlen =>
        have hheader : headerLen (buf.getD 0 0).toNat ≤ buf.length := by
          refine Nat.le_of_not_lt fun hlt => ?_
          rw [(messageLen_eq_none_iff hbuf).mpr hlt] at hlen
          cases hlen
        rw [parse, if_neg hbuf, hlen] at h
        rw [parse, if_neg (List.append_ne_nil_of_left_ne_nil hbuf more),
          messageLen_append hbuf hheader, hlen]
        exact h
    | framed m tail hm hbuf =>
        subst hbuf
        rw [List.append_assoc, hm.parse_eq]
        rw [hm.parse_eq] at h
        cases hread : readMessage m with
        | error e' =>
            rw [hread] at h
            exact h
        | ok msg =>
            rw [hread] at h
            cases h

theorem handleAll_eq (s : Settings) {fuel : Nat} {buf : List UInt8} (hfuel : buf.length ≤ fuel) :
    handleAll fuel s buf =
      (exhaust parse buf).2.map fun rest => ((exhaust parse buf).1.foldl Settings.handle s, rest) := by
  induction buf using stable_parse.induct generalizing s fuel with
  | none buf h =>
      rw [Framing.exhaust_none h]
      cases fuel with
      | zero => rfl
      | succ fuel =>
          rw [handleAll, h]
          rfl
  | error buf e h =>
      rw [Framing.exhaust_error h]
      cases fuel with
      | zero =>
          rw [List.length_eq_zero_iff.mp (Nat.le_zero.mp hfuel), stable_parse.nil] at h
          cases h
      | succ fuel =>
          rw [handleAll, h]
          rfl
  | message p m rest hp ih =>
      have hpos : 0 < p.length := List.length_pos_iff.mpr hp.1
      rw [List.length_append] at hfuel
      cases fuel with
      | zero => omega
      | succ fuel =>
          rw [handleAll, hp.2, stable_parse.exhaust_message hp]
          exact ih (s.handle m) (by omega)

/-- The settings after the messages of the buffer. -/
theorem receive_eq (s : Settings) (buf : List UInt8) :
    s.receive buf =
      (exhaust parse buf).2.map fun rest => ((exhaust parse buf).1.foldl Settings.handle s, rest) :=
  handleAll_eq s (Nat.le_refl buf.length)

/-! ### No index is out of range -/

theorem readChecked_eq {m : List UInt8} (hm : Framed m) :
    readChecked (m.getD 0 0) m = some (readMessage m) := by
  have hlen := hm.2
  rw [messageLen] at hlen
  rw [readChecked, readMessage]
  revert hlen
  match (m.getD 0 0).toNat with
  | 0 =>
      intro hlen
      have h20 : 20 = m.length := Option.some.inj (Except.ok.inj hlen)
      have hpf : ((m.drop 4).take 16).length = 16 := by
        rw [List.length_take, List.length_drop, ← h20]
        rfl
      simp only
      rw [slice?_eq (by decide) (Nat.le_of_eq h20), Option.bind_some, if_pos hpf]
      cases PixelFormat.parse ((m.drop 4).take 16) <;> rfl
  | 2 =>
      intro hlen
      simp only at hlen
      split at hlen
      · cases hlen
      · split at hlen
        · cases hlen
        · have hm4 : 4 + 4 * ofBe16 (m.getD 2 0) (m.getD 3 0) = m.length :=
            Option.some.inj (Except.ok.inj hlen)
          simp only
          rw [slice?_be16At? (i := 2) (by omega), Option.bind_some,
            mapM_eq_some_map fun i hi => beI32At?_eq (i := 4 + 4 * i) (by
              have hi' := List.mem_range.mp hi
              simp only [Nat.reduceAdd] at hi'
              omega)]
          rfl
  | 3 =>
      intro hlen
      have h10 : 10 = m.length := Option.some.inj (Except.ok.inj hlen)
      simp only
      rw [getElem?_eq_getD (i := 1) (by omega) 0, slice?_be16At? (i := 2) (by omega),
        slice?_be16At? (i := 4) (by omega), slice?_be16At? (i := 6) (by omega),
        slice?_be16At? (i := 8) (by omega)]
      rfl
  | 4 =>
      intro hlen
      have h8 : 8 = m.length := Option.some.inj (Except.ok.inj hlen)
      simp only
      rw [getElem?_eq_getD (i := 1) (by omega) 0, be32At?_eq (i := 4) (by omega)]
      rfl
  | 5 =>
      intro hlen
      have h6 : 6 = m.length := Option.some.inj (Except.ok.inj hlen)
      simp only
      rw [getElem?_eq_getD (i := 1) (by omega) 0, slice?_be16At? (i := 2) (by omega),
        slice?_be16At? (i := 4) (by omega)]
      rfl
  | 1 | 6 | _ + 7 => exact fun _ => rfl

/-- `parse` indexes nothing that is not there. -/
theorem parseChecked_eq (buf : List UInt8) : parseChecked buf = some (parse buf) := by
  cases buf with
  | nil => rfl
  | cons ty rest =>
      have hlength := lengthChecked_eq (ty :: rest)
      rw [List.getD_cons_zero] at hlength
      rw [parseChecked, parse, if_neg (List.cons_ne_nil ty rest), List.head?_cons]
      simp only
      rw [hlength, Option.bind_some]
      cases hlen : messageLen (ty :: rest) with
      | error e => rfl
      | ok n =>
          cases n with
          | none => rfl
          | some n =>
              simp only
              split
              · rfl
              · next hn =>
                  have hm := framed_take hlen (Nat.le_of_not_lt hn)
                  have hpos : 0 < n := by
                    have h := List.length_pos_iff.mpr hm.1
                    rw [List.length_take] at h
                    omega
                  have hread := readChecked_eq hm
                  rw [getD_take hpos, List.getD_cons_zero] at hread
                  have hslice := slice?_eq (Nat.zero_le n) (Nat.le_of_not_lt hn)
                  rw [List.drop_zero, Nat.sub_zero] at hslice
                  cases hmsg : readMessage ((ty :: rest).take n) with
                  | error e =>
                      simp only [hslice, hread, hmsg, Option.bind_some, Option.map_some]
                  | ok m =>
                      simp only [hslice, hread, hmsg, Option.bind_some, Option.map_some]

/-- However the stream is cut, the messages and the error are those of the whole stream: its
messages one after the other, up to an error or to where no complete message begins. No call
indexes what is not there. -/
theorem feed_parse_eq (chunks : List (List UInt8)) :
    feed parse [] chunks = exhaust parse chunks.flatten ∧
      (∃ pieces rest, chunks.flatten = pieces.flatten ++ rest ∧
        List.Forall₂ (Piece parse) pieces (feed parse [] chunks).1 ∧
        Stops parse rest (feed parse [] chunks).2) ∧
      ∀ buf, parseChecked buf = some (parse buf) := by
  have hfeed := stable_parse.feed_eq stable_parse.nil chunks
  refine ⟨hfeed, ?_, parseChecked_eq⟩
  rw [hfeed]
  exact stable_parse.exhaust_spec chunks.flatten

end RfbServe

end Hdmicap

end Paniolo
