import Paniolo.Library.JsonText
import Paniolo.Serialcap.Journal.Record
import Mathlib.Data.String.Basic

/-!
# Records as JSON text

A codec with the layout that the journal's records have, and a proof that it
behaves as the journal relies on. Characters of the epoch other than printable
ASCII without quotes, backslashes and braces are written by number; epochs of
the daemon are digits and a hyphen.
-/

namespace Paniolo

namespace Serialcap

namespace Journal

open JsonText

namespace Json

def toByte (ch : Char) : UInt8 := UInt8.ofNat ch.toNat

def toChar (b : UInt8) : Char := Char.ofNat b.toNat

def epochKey : List Char := "\"epoch\":".toList

def rxSeqKey : List Char := ",\"rx_seq\":".toList

def connectionGenerationKey : List Char := ",\"connection_generation\":".toList

def rxAtMsKey : List Char := ",\"rx_at_ms\":".toList

def capturedAtMsKey : List Char := ",\"captured_at_ms\":".toList

def bytesKey : List Char := ",\"bytes\":".toList

/-- The text between the braces. -/
def body (r : ReceiveRecord) : List Char :=
  epochKey ++ quote r.epoch.toList ++
  rxSeqKey ++ showNat r.rxSeq ++
  connectionGenerationKey ++ showNat r.connectionGeneration ++
  rxAtMsKey ++ showNat r.rxAtMs ++
  capturedAtMsKey ++ showNat r.capturedAtMs ++
  bytesKey ++ showNats (r.bytes.map UInt8.toNat)

def text (r : ReceiveRecord) : List Char := '\x7b' :: (body r ++ ['\x7d'])

def parse (s : List Char) : Option (ReceiveRecord × List Char) := do
  let s ← expect ['\x7b'] s
  let s ← expect epochKey s
  let (epoch, s) ← readQuoted s
  let s ← expect rxSeqKey s
  let (rxSeq, s) ← readNat s
  let s ← expect connectionGenerationKey s
  let (connectionGeneration, s) ← readNat s
  let s ← expect rxAtMsKey s
  let (rxAtMs, s) ← readNat s
  let s ← expect capturedAtMsKey s
  let (capturedAtMs, s) ← readNat s
  let s ← expect bytesKey s
  let (bytes, s) ← readNats s
  let s ← expect ['\x7d'] s
  if h : ∀ n ∈ [rxSeq, connectionGeneration, rxAtMs, capturedAtMs], n ≤ U64_MAX then
    some (⟨String.ofList epoch, rxSeq, connectionGeneration, rxAtMs, capturedAtMs,
      bytes.map UInt8.ofNat, h⟩, s)
  else none

def encode (r : ReceiveRecord) : List UInt8 := (text r).map toByte

/-- Only the text of a record, with or without a newline behind it, is one. -/
def decode (p : List UInt8) : Except String ReceiveRecord :=
  match parse (p.map toChar) with
  | some (r, _) => if p = encode r ∨ p = encode r ++ [newline] then .ok r else .error "trailing characters"
  | none => .error "expected value"

end Json

def jsonCodec : RecordCodec where
  encode := Json.encode
  decode := Json.decode

namespace Json

theorem parse_text (r : ReceiveRecord) (rest : List Char) :
    parse (text r ++ rest) = some (r, rest) := by
  have hbytes : (r.bytes.map UInt8.toNat).map UInt8.ofNat = r.bytes := by
    rw [List.map_map]
    exact (List.map_congr_left fun b _ => UInt8.ofNat_toNat).trans (List.map_id _)
  have hnat : ∀ (n : Nat) (k : List Char) (s : List Char), k.head? = some ',' →
      readNat (showNat n ++ (k ++ s)) = some (n, k ++ s) := by
    intro n k s hk
    refine readNat_showNat n fun ch hch => ?_
    rw [List.head?_append, hk] at hch
    cases hch
    rfl
  have hsplit : text r ++ rest = ['\x7b'] ++ (epochKey ++ (quote r.epoch.toList ++
      (rxSeqKey ++ (showNat r.rxSeq ++
      (connectionGenerationKey ++ (showNat r.connectionGeneration ++
      (rxAtMsKey ++ (showNat r.rxAtMs ++
      (capturedAtMsKey ++ (showNat r.capturedAtMs ++
      (bytesKey ++ (showNats (r.bytes.map UInt8.toNat) ++ (['\x7d'] ++ rest))))))))))))) := by
    simp only [text, body, List.append_assoc, List.cons_append, List.nil_append]
  rw [parse, hsplit]
  simp only [expect_append, readQuoted_quote, Option.bind_eq_bind, Option.bind_some]
  rw [hnat _ connectionGenerationKey _ rfl]
  simp only [expect_append, Option.bind_some]
  rw [hnat _ rxAtMsKey _ rfl]
  simp only [expect_append, Option.bind_some]
  rw [hnat _ capturedAtMsKey _ rfl]
  simp only [expect_append, Option.bind_some]
  rw [hnat _ bytesKey _ rfl]
  simp only [expect_append, readNats_showNats, Option.bind_some]
  rw [dif_pos r.inRange]
  simp only [hbytes, String.ofList_toList]

theorem toChar_toByte {ch : Char} (h : ch.toNat < 128) : toChar (toByte ch) = ch := by
  rw [toChar, toByte, UInt8.toNat_ofNat_of_lt' (by simpa using Nat.lt_trans h (by decide)),
    Char.ofNat_toNat]

theorem map_toChar_toByte {s : List Char} (h : ∀ ch ∈ s, ch.toNat < 128) :
    (s.map toByte).map toChar = s := by
  rw [List.map_map]
  exact (List.map_congr_left fun ch hch => toChar_toByte (h ch hch)).trans (List.map_id s)

theorem inner_of_mem_body {r : ReceiveRecord} {ch : Char} (h : ch ∈ body r) : inner ch = true := by
  have hkeys : ∀ k ∈ [epochKey, rxSeqKey, connectionGenerationKey, rxAtMsKey, capturedAtMsKey,
      bytesKey], k.all inner = true := by decide
  simp only [body, List.mem_append] at h
  rcases h with ((((((((((h | h) | h) | h) | h) | h) | h) | h) | h) | h) | h) | h
  · exact List.all_eq_true.mp (hkeys _ (by simp)) ch h
  · exact inner_of_mem_quote h
  · exact List.all_eq_true.mp (hkeys _ (by simp)) ch h
  · exact inner_of_mem_showNat h
  · exact List.all_eq_true.mp (hkeys _ (by simp)) ch h
  · exact inner_of_mem_showNat h
  · exact List.all_eq_true.mp (hkeys _ (by simp)) ch h
  · exact inner_of_mem_showNat h
  · exact List.all_eq_true.mp (hkeys _ (by simp)) ch h
  · exact inner_of_mem_showNat h
  · exact List.all_eq_true.mp (hkeys _ (by simp)) ch h
  · exact inner_of_mem_showNats h

theorem lt_of_inner {ch : Char} (h : inner ch = true) : ch.toNat < 128 := by
  simp only [JsonText.inner, Bool.and_eq_true, decide_eq_true_eq] at h
  exact h.1.1.1

theorem lt_of_mem_text {r : ReceiveRecord} {ch : Char} (h : ch ∈ text r) : ch.toNat < 128 := by
  rw [text, List.mem_cons, List.mem_append, List.mem_singleton] at h
  rcases h with rfl | h | rfl
  · decide
  · exact lt_of_inner (inner_of_mem_body h)
  · decide

def openBrace : UInt8 := 123

def closeBrace : UInt8 := 125

theorem encode_eq (r : ReceiveRecord) :
    encode r = openBrace :: ((body r).map toByte ++ [closeBrace]) := by
  simp only [encode, text, List.map_cons, List.map_append, List.map_nil]
  rfl

/-- The characters inside a value are neither braces nor newlines, as bytes too. -/
theorem notMem_map_toByte {s : List Char} (hs : ∀ ch ∈ s, inner ch = true) {b : UInt8}
    (hb : b = openBrace ∨ b = closeBrace ∨ b = newline) : b ∉ s.map toByte := by
  intro h
  obtain ⟨ch, hch, rfl⟩ := List.mem_map.mp h
  have hin := hs ch hch
  have hch' := toChar_toByte (lt_of_inner hin)
  simp only [JsonText.inner, Bool.and_eq_true, bne_iff_ne] at hin
  rcases hb with hb | hb | hb
  · rw [hb] at hch'
    exact hin.1.1.2 (hch'.symm.trans (by decide))
  · rw [hb] at hch'
    exact hin.1.2 (hch'.symm.trans (by decide))
  · rw [hb] at hch'
    exact hin.2 (hch'.symm.trans (by decide))

/-- Between the braces there is neither a brace nor a newline. -/
theorem notMem_body (r : ReceiveRecord) {b : UInt8}
    (hb : b = openBrace ∨ b = closeBrace ∨ b = newline) : b ∉ (body r).map toByte :=
  notMem_map_toByte (fun _ => inner_of_mem_body) hb

theorem decode_eq_ok {p : List UInt8} {r : ReceiveRecord} (h : decode p = .ok r) :
    p = encode r ∨ p = encode r ++ [newline] := by
  rw [decode] at h
  split at h
  · split at h
    · rename_i hp
      cases h
      exact hp
    · cases h
  · cases h

theorem decode_encode_append (r : ReceiveRecord) (rest : List Char)
    (hrest : rest = [] ∨ rest = ['\n']) :
    decode (encode r ++ rest.map toByte) = .ok r := by
  have hascii : ∀ ch ∈ text r ++ rest, ch.toNat < 128 := by
    intro ch hch
    rcases List.mem_append.mp hch with hch | hch
    · exact lt_of_mem_text hch
    · rcases hrest with rfl | rfl
      · cases hch
      · rw [List.mem_singleton.mp hch]
        decide
  have hmap : (encode r ++ rest.map toByte).map toChar = text r ++ rest := by
    rw [encode, ← List.map_append]
    exact map_toChar_toByte hascii
  rw [decode, hmap, parse_text]
  dsimp only
  rw [if_pos]
  rcases hrest with rfl | rfl
  · exact Or.inl (List.append_nil _)
  · exact Or.inr rfl

theorem decode_line (r : ReceiveRecord) : decode (encode r ++ [newline]) = .ok r := by
  have hnl : ['\n'].map toByte = [newline] := by decide
  rw [← hnl]
  exact decode_encode_append r ['\n'] (Or.inr rfl)

theorem decode_encode (r : ReceiveRecord) : decode (encode r) = .ok r := by
  have h := decode_encode_append r [] (Or.inl rfl)
  rwa [List.map_nil, List.append_nil] at h

theorem length_le_utf8ByteSize (s : String) : s.toList.length ≤ s.utf8ByteSize := by
  rw [← String.utf8Len_toList]
  induction s.toList with
  | nil => exact Nat.le_refl 0
  | cons ch cs ih =>
      have hpos := ch.utf8Size_pos
      rw [String.utf8Len_cons, List.length_cons]
      omega

theorem length_body_le {r : ReceiveRecord} (hr : r.valid = true) : (body r).length ≤ 299990 := by
  simp only [ReceiveRecord.valid, Bool.and_eq_true, decide_eq_true_eq] at hr
  have hepoch : r.epoch.toList.length ≤ 128 :=
    Nat.le_trans (length_le_utf8ByteSize r.epoch) hr.2
  have hquote := length_quote_le r.epoch.toList
  have hnat : ∀ n ∈ [r.rxSeq, r.connectionGeneration, r.rxAtMs, r.capturedAtMs],
      (showNat n).length ≤ 20 := by
    intro n hn
    exact length_showNat_le (by decide) (Nat.lt_of_le_of_lt (r.inRange n hn) (by decide))
  have hbytes : (showNats (r.bytes.map UInt8.toNat)).length ≤ (3 + 1) * r.bytes.length + 2 := by
    have hsmall : ∀ n ∈ r.bytes.map UInt8.toNat, n < 10 ^ 3 := by
      intro n hn
      obtain ⟨b, -, rfl⟩ := List.mem_map.mp hn
      exact Nat.lt_trans b.toNat_lt (by decide)
    have hlen := length_showNats_le (by decide) hsmall
    rwa [List.length_map] at hlen
  have hkeys : epochKey.length + rxSeqKey.length + connectionGenerationKey.length +
      rxAtMsKey.length + capturedAtMsKey.length + bytesKey.length ≤ 90 := by decide
  have h1 := hnat r.rxSeq (by simp)
  have h2 := hnat r.connectionGeneration (by simp)
  have h3 := hnat r.rxAtMs (by simp)
  have h4 := hnat r.capturedAtMs (by simp)
  simp only [body, List.length_append]
  omega

theorem newline_notMem_encode (r : ReceiveRecord) : newline ∉ encode r := by
  intro h
  rw [encode_eq, List.mem_cons, List.mem_append, List.mem_singleton] at h
  rcases h with h | h | h
  · exact absurd h (by decide)
  · exact notMem_body r (by simp) h
  · exact absurd h (by decide)

/-- The closing brace is the last byte, so no shorter beginning has one. -/
theorem decode_prefix {r q : ReceiveRecord} {p : List UInt8} (hp : p <+: encode r)
    (hne : p ≠ encode r) : decode p ≠ .ok q := by
  intro hq
  have hmem : closeBrace ∈ p := by
    rcases decode_eq_ok hq with rfl | rfl
    · simp [encode_eq]
    · simp [encode_eq]
  rw [encode_eq, ← List.cons_append] at hp hne
  rcases List.prefix_concat_iff.mp hp with hp | hp
  · exact hne hp
  · rcases List.mem_cons.mp (hp.subset hmem) with h | h
    · exact absurd h (by decide)
    · exact notMem_body r (by simp) h

/-- The opening brace is the first byte, so a record has no second one. -/
theorem decode_torn {q : ReceiveRecord} {p b : List UInt8} (hp : p ≠ []) (hb : b <+: encode q)
    (hbne : b ≠ []) (x : List UInt8) (o : ReceiveRecord) : decode (p ++ b ++ x) ≠ .ok o := by
  intro ho
  obtain ⟨a, p, rfl⟩ := List.exists_cons_of_ne_nil hp
  obtain ⟨d, b, rfl⟩ := List.exists_cons_of_ne_nil hbne
  obtain ⟨y, hy⟩ := hb
  rw [encode_eq, List.cons_append] at hy
  have hd : d = openBrace := (List.cons.inj hy).1
  have hmem : openBrace ∈ p ++ d :: b ++ x := by simp [hd]
  have htail : p ++ d :: b ++ x = (body o).map toByte ++ [closeBrace] ∨
      p ++ d :: b ++ x = (body o).map toByte ++ [closeBrace] ++ [newline] := by
    refine (decode_eq_ok ho).imp (fun h => ?_) fun h => ?_
    · rw [encode_eq] at h
      exact (List.cons.inj h).2
    · rw [encode_eq] at h
      exact (List.cons.inj h).2
  have hnot : openBrace ∉ (body o).map toByte ++ [closeBrace] ++ [newline] := by
    rw [List.mem_append, List.mem_append, List.mem_singleton, List.mem_singleton]
    rintro ((h | h) | h)
    · exact notMem_body o (by simp) h
    · exact absurd h (by decide)
    · exact absurd h (by decide)
  rcases htail with h | h
  · rw [h] at hmem
    exact hnot (List.mem_append_left _ hmem)
  · rw [h] at hmem
    exact hnot hmem

theorem length_encode_le {r : ReceiveRecord} (hr : r.valid = true) :
    (encode r).length ≤ 299992 := by
  have hlen := length_body_le hr
  simp only [encode_eq, List.length_append, List.length_cons, List.length_map, List.length_nil]
  omega

end Json

theorem jsonCodec_encode : jsonCodec.encode = Json.encode := rfl

theorem jsonCodec_decode : jsonCodec.decode = Json.decode := rfl

theorem jsonCodec_lawful : jsonCodec.Lawful where
  decode_line := by
    intro r _
    rw [RecordCodec.line, jsonCodec_encode, jsonCodec_decode]
    exact Json.decode_line r
  decode_encode := by
    intro r _
    rw [jsonCodec_encode, jsonCodec_decode]
    exact Json.decode_encode r
  newline_notMem := Json.newline_notMem_encode
  decode_prefix := fun _ _ _ hp hne => Json.decode_prefix hp hne
  decode_torn := fun _ _ _ hpne _ _ hb hbne x o => Json.decode_torn hpne hb hbne x o
  length_line := by
    intro r hr
    have hlen : (jsonCodec.encode r).length ≤ 299992 := Json.length_encode_le hr
    rw [RecordCodec.line, List.length_append, List.length_singleton]
    omega

/-- The `n`th chunk of an epoch, as a small example of a record. -/
def chunk (epoch : String) (n : UInt8) (bytes : List UInt8) : ReceiveRecord where
  epoch := epoch
  rxSeq := n.toNat
  connectionGeneration := 1
  rxAtMs := 0
  capturedAtMs := 0
  bytes := bytes
  inRange := by
    intro m hm
    have hn : n.toNat < 256 := n.toNat_lt
    have hmax : 256 ≤ U64_MAX := by decide
    simp only [List.mem_cons, List.not_mem_nil, or_false] at hm
    omega

end Journal

end Serialcap

end Paniolo
