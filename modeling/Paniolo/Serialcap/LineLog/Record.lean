import Paniolo.Library.Utf8Cut
import Paniolo.Serialcap.Journal.Json

/-!
# Lines of the capture log

A captured line and the record that it is kept as. The JSON library is a parameter:
`LineCodec.Lawful` says what the log relies on, and `lineCodec` writes records in the layout that
they have.
-/

namespace Paniolo

namespace Serialcap

namespace LineLog

open Utf8

open Journal (newline)

/-- One line of captured serial output; `inFlight` is the field `partial`. -/
structure Line where
  seq : UInt64
  tsMs : UInt64
  text : String
  inFlight : Bool
deriving DecidableEq, Repr

/-- `serde_json` on lines. -/
structure LineCodec where
  encode : Line → List UInt8
  decode : List UInt8 → Option Line

def carriageReturn : UInt8 := 13

/-- The line that a record is appended as. -/
def LineCodec.record (c : LineCodec) (l : Line) : List UInt8 := c.encode l ++ [newline]

/-- What the log relies on: a record is text on one line, it is read back, and no shorter beginning
of it is a record. -/
structure LineCodec.Lawful (c : LineCodec) : Prop where
  decode_encode : ∀ l, c.decode (c.encode l) = some l
  wellFormed : ∀ l, utf8Error (c.encode l) = none
  newline_notMem : ∀ l, newline ∉ c.encode l
  getLast?_encode : ∀ l, (c.encode l).getLast? ≠ some carriageReturn
  decode_prefix : ∀ l p, p <+: c.encode l → p ≠ c.encode l → utf8Error p = none →
    c.decode p = none

/-! ### The layout of the records -/

namespace Json

open JsonText Journal.Json

def seqKey : List Char := "\"seq\":".toList

def tsMsKey : List Char := ",\"ts_ms\":".toList

def textKey : List Char := ",\"text\":".toList

def inFlightField : List Char := ",\"partial\":true".toList

/-- The text between the braces. -/
def lineBody (l : Line) : List Char :=
  seqKey ++ showNat l.seq.toNat ++
  tsMsKey ++ showNat l.tsMs.toNat ++
  textKey ++ quote l.text.toList ++
  if l.inFlight then inFlightField else []

def lineText (l : Line) : List Char := '\x7b' :: (lineBody l ++ ['\x7d'])

def parseLine (s : List Char) : Option Line := do
  let s ← expect ['\x7b'] s
  let s ← expect seqKey s
  let (seq, s) ← readNat s
  let s ← expect tsMsKey s
  let (tsMs, s) ← readNat s
  let s ← expect textKey s
  let (text, s) ← readQuoted s
  some ⟨UInt64.ofNat seq, UInt64.ofNat tsMs, String.ofList text, (expect inFlightField s).isSome⟩

def encodeLine (l : Line) : List UInt8 := (lineText l).map toByte

/-- Only the text of a line is one. -/
def decodeLine (p : List UInt8) : Option Line :=
  (parseLine (p.map toChar)).filter fun l => encodeLine l == p

end Json

def lineCodec : LineCodec where
  encode := Json.encodeLine
  decode := Json.decodeLine

namespace Json

open JsonText Journal.Json

theorem parse_lineText (l : Line) : parseLine (lineText l) = some l := by
  have hnat : ∀ (n : Nat) (k s : List Char), k.head? = some ',' →
      readNat (showNat n ++ (k ++ s)) = some (n, k ++ s) := by
    intro n k s hk
    refine readNat_showNat n fun ch hch => ?_
    rw [List.head?_append, hk] at hch
    cases hch
    rfl
  have hsplit : lineText l = ['\x7b'] ++ (seqKey ++ (showNat l.seq.toNat ++ (tsMsKey ++
      (showNat l.tsMs.toNat ++ (textKey ++ (quote l.text.toList ++
        ((if l.inFlight then inFlightField else []) ++ ['\x7d']))))))) := by
    simp only [lineText, lineBody, List.append_assoc, List.cons_append, List.nil_append]
  have hflag : (expect inFlightField
      ((if l.inFlight then inFlightField else []) ++ ['\x7d'])).isSome = l.inFlight := by
    cases l.inFlight
    · rfl
    · rfl
  rw [parseLine, hsplit]
  simp only [expect_append, Option.bind_eq_bind, Option.bind_some]
  rw [hnat _ tsMsKey _ rfl]
  simp only [expect_append, Option.bind_some]
  rw [hnat _ textKey _ rfl]
  simp only [expect_append, readQuoted_quote, Option.bind_some, hflag, UInt64.ofNat_toNat,
    String.ofList_toList]

theorem inner_of_mem_lineBody {l : Line} {ch : Char} (h : ch ∈ lineBody l) : inner ch = true := by
  have hkeys : ∀ k ∈ [seqKey, tsMsKey, textKey, inFlightField], k.all inner = true := by decide
  simp only [lineBody, List.mem_append] at h
  rcases h with (((((h | h) | h) | h) | h) | h) | h
  · exact List.all_eq_true.mp (hkeys _ (by simp)) ch h
  · exact inner_of_mem_showNat h
  · exact List.all_eq_true.mp (hkeys _ (by simp)) ch h
  · exact inner_of_mem_showNat h
  · exact List.all_eq_true.mp (hkeys _ (by simp)) ch h
  · exact inner_of_mem_quote h
  · split at h
    · exact List.all_eq_true.mp (hkeys _ (by simp)) ch h
    · cases h

theorem encodeLine_eq (l : Line) :
    encodeLine l = openBrace :: ((lineBody l).map toByte ++ [closeBrace]) := by
  simp only [encodeLine, lineText, List.map_cons, List.map_append, List.map_nil]
  rfl

theorem encodeLine_notMem (l : Line) : newline ∉ encodeLine l := by
  rw [encodeLine_eq, List.mem_cons, List.mem_append, List.mem_singleton]
  rintro (h | h | h)
  · exact absurd h (by decide)
  · exact notMem_map_toByte (fun _ => inner_of_mem_lineBody) (by simp) h
  · exact absurd h (by decide)

theorem lt_of_mem_lineText {l : Line} {ch : Char} (h : ch ∈ lineText l) : ch.toNat < 128 := by
  rw [lineText, List.mem_cons, List.mem_append, List.mem_singleton] at h
  rcases h with rfl | h | rfl
  · decide
  · exact lt_of_inner (inner_of_mem_lineBody h)
  · decide

theorem decodeLine_encodeLine (l : Line) : decodeLine (encodeLine l) = some l := by
  have hmap : (encodeLine l).map toChar = lineText l :=
    map_toChar_toByte fun _ => lt_of_mem_lineText
  rw [decodeLine, hmap, parse_lineText, Option.filter_some, if_pos (beq_self_eq_true _)]

/-- The closing brace is the last byte, so no shorter beginning has one. -/
theorem decodeLine_prefix {l : Line} {p : List UInt8} (hp : p <+: encodeLine l)
    (hne : p ≠ encodeLine l) : decodeLine p = none := by
  rw [decodeLine, Option.filter_eq_none_iff]
  intro m _ hm
  have hclose : closeBrace ∈ p := by
    rw [← beq_iff_eq.mp hm, encodeLine_eq]
    simp
  rw [encodeLine_eq, ← List.cons_append] at hp hne
  rcases List.prefix_concat_iff.mp hp with hp | hp
  · exact hne hp
  · rcases List.mem_cons.mp (hp.subset hclose) with h | h
    · exact absurd h (by decide)
    · exact notMem_map_toByte (fun _ => inner_of_mem_lineBody) (by simp) h

end Json

theorem lineCodec_lawful : lineCodec.Lawful where
  decode_encode := Json.decodeLine_encodeLine
  wellFormed l := by
    refine utf8Error_eq_none fun b hb => ?_
    obtain ⟨ch, hch, rfl⟩ := List.mem_map.mp hb
    have hlt := Json.lt_of_mem_lineText hch
    rw [UInt8.lt_iff_toNat_lt, Journal.Json.toByte, UInt8.toNat_ofNat', Nat.mod_eq_of_lt (by omega)]
    exact hlt
  newline_notMem := Json.encodeLine_notMem
  getLast?_encode l := by
    have hlast : (lineCodec.encode l).getLast? = some Journal.Json.closeBrace := by
      have hencode : lineCodec.encode l = _ := Json.encodeLine_eq l
      rw [hencode, ← List.cons_append, List.getLast?_concat]
    rw [hlast]
    decide
  decode_prefix _ _ hp hne _ := Json.decodeLine_prefix hp hne

end LineLog

end Serialcap

end Paniolo
