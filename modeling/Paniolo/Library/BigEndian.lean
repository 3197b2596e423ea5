import Mathlib.Data.List.Basic

/-!
# Big-endian integers

The network formats of the repository write `u16` and `u32` values most
significant byte first. A value is a natural number here and is reduced to its
width when it is written, which is what a narrowing cast followed by
`to_be_bytes` does.
-/

namespace Paniolo

/-- `(n as u16).to_be_bytes()`. -/
def be16 (n : Nat) : List UInt8 :=
  [UInt8.ofNat (n / 256), UInt8.ofNat n]

/-- `u16::from_be_bytes`. -/
def ofBe16 (a b : UInt8) : Nat :=
  a.toNat * 256 + b.toNat

/-- `(n as u32).to_be_bytes()`. -/
def be32 (n : Nat) : List UInt8 :=
  [UInt8.ofNat (n / 16777216), UInt8.ofNat (n / 65536), UInt8.ofNat (n / 256),
    UInt8.ofNat n]

/-- `u32::from_be_bytes`. -/
def ofBe32 (a b c d : UInt8) : Nat :=
  a.toNat * 16777216 + b.toNat * 65536 + c.toNat * 256 + d.toNat

/-- `i32::to_be_bytes`. -/
def beI32 (e : Int) : List UInt8 :=
  be32 (e % 4294967296).toNat

/-- `i32::from_be_bytes`. -/
def ofBeI32 (a b c d : UInt8) : Int :=
  let n := ofBe32 a b c d
  if n < 2147483648 then n else n - 4294967296

@[simp] theorem be16_length (n : Nat) : (be16 n).length = 2 := rfl

@[simp] theorem be32_length (n : Nat) : (be32 n).length = 4 := rfl

theorem ofBe16_lt (a b : UInt8) : ofBe16 a b < 65536 := by
  have ha := a.toNat_lt
  have hb := b.toNat_lt
  unfold ofBe16
  omega

theorem ofBe16_ofNat (n : Nat) :
    ofBe16 (UInt8.ofNat (n / 256)) (UInt8.ofNat n) = n % 65536 := by
  simp only [ofBe16, UInt8.toNat_ofNat']
  omega

theorem ofBe32_ofNat (n : Nat) :
    ofBe32 (UInt8.ofNat (n / 16777216)) (UInt8.ofNat (n / 65536))
      (UInt8.ofNat (n / 256)) (UInt8.ofNat n) = n % 4294967296 := by
  simp only [ofBe32, UInt8.toNat_ofNat']
  omega

end Paniolo
