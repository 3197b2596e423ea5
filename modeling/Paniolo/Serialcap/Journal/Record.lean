import Mathlib.Algebra.GroupWithZero.Nat
import Mathlib.Data.List.Infix

/-!
# Receive records

The chunks the receive journal holds and the checkpoint its writer publishes.
Records are kept as JSON, one to a line; the JSON library is a parameter, and
`RecordCodec.Lawful` says what the journal relies on.
-/

namespace Paniolo

namespace Serialcap

namespace Journal

def U64_MAX : Nat := 18446744073709551615

/-- `u64::saturating_add(1)`. -/
def saturatingSucc (n : Nat) : Nat := min (n + 1) U64_MAX

def newline : UInt8 := 10

structure Cursor where
  epoch : String
  rxSeq : Nat
deriving DecidableEq, Repr

structure ReceiveRecord where
  epoch : String
  rxSeq : Nat
  connectionGeneration : Nat
  rxAtMs : Nat
  capturedAtMs : Nat
  bytes : List UInt8
  inRange : ∀ n ∈ [rxSeq, connectionGeneration, rxAtMs, capturedAtMs], n ≤ U64_MAX
deriving DecidableEq, Repr

namespace ReceiveRecord

def valid (r : ReceiveRecord) : Bool :=
  r.rxSeq > 0 && !r.bytes.isEmpty && r.bytes.length ≤ 65536 && !r.epoch.isEmpty &&
    r.epoch.utf8ByteSize ≤ 128

def cursor (r : ReceiveRecord) : Cursor := ⟨r.epoch, r.rxSeq⟩

theorem rxSeq_le (r : ReceiveRecord) : r.rxSeq ≤ U64_MAX := r.inRange _ (by simp)

end ReceiveRecord

structure WriterState where
  lastReceived : Option Cursor := none
  persisted : Option Cursor := none
  error : Option String := none
  failedReceive : Option ReceiveRecord := none
  failedChunks : Nat := 0
  failedBytes : Nat := 0
deriving DecidableEq, Repr

def WriterState.valid (s : WriterState) : Bool :=
  (s.lastReceived.toList ++ s.persisted.toList).all
      (fun c => !c.epoch.isEmpty && c.epoch.utf8ByteSize ≤ 128) &&
    s.failedReceive.all ReceiveRecord.valid

/-- `serde_json` on receive records. -/
structure RecordCodec where
  encode : ReceiveRecord → List UInt8
  decode : List UInt8 → Except String ReceiveRecord

/-- The line a record is appended as. -/
def RecordCodec.line (c : RecordCodec) (r : ReceiveRecord) : List UInt8 := c.encode r ++ [newline]

/-- What the journal relies on: a record is read back from its line, whatever whitespace ends it;
its text has no newline; no shorter beginning of it is a record, and neither is a text in which
one record begins after the beginning of another. The length is what the scan limit of the reader
is made for. -/
structure RecordCodec.Lawful (c : RecordCodec) : Prop where
  decode_line : ∀ r, r.valid = true → c.decode (c.line r) = .ok r
  decode_encode : ∀ r, r.valid = true → c.decode (c.encode r) = .ok r
  newline_notMem : ∀ r, newline ∉ c.encode r
  decode_prefix : ∀ r p q, p <+: c.encode r → p ≠ c.encode r → c.decode p ≠ .ok q
  decode_torn : ∀ r p, p <+: c.encode r → p ≠ [] → ∀ q b, b <+: c.encode q → b ≠ [] →
    ∀ x o, c.decode (p ++ b ++ x) ≠ .ok o
  length_line : ∀ r, r.valid = true → (c.line r).length ≤ 300000

end Journal

end Serialcap

end Paniolo
