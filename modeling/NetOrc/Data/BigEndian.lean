import Mathlib.Data.List.Basic

/-!
This module contains fixed width unsigned integers in network byte order.
-/

namespace BigEndian

def u16 (b0 b1 : UInt8) : UInt16 :=
  .ofNat (b0.toNat * 256 + b1.toNat)

def u32 (b0 b1 b2 b3 : UInt8) : UInt32 :=
  .ofNat (((b0.toNat * 256 + b1.toNat) * 256 + b2.toNat) * 256 + b3.toNat)

def bytes16 (n : UInt16) : List UInt8 :=
  [.ofNat (n.toNat / 256), .ofNat n.toNat]

def bytes32 (n : UInt32) : List UInt8 :=
  [.ofNat (n.toNat / 16777216), .ofNat (n.toNat / 65536), .ofNat (n.toNat / 256), .ofNat n.toNat]

@[simp]
theorem length_bytes16 (n : UInt16) : (bytes16 n).length = 2 := rfl

@[simp]
theorem length_bytes32 (n : UInt32) : (bytes32 n).length = 4 := rfl

@[simp]
theorem toNat_u16 (b0 b1 : UInt8) : (u16 b0 b1).toNat = b0.toNat * 256 + b1.toNat := by
  have h0 := b0.toNat_lt
  have h1 := b1.toNat_lt
  simp only [u16, UInt16.toNat_ofNat']
  omega

@[simp]
theorem toNat_u32 (b0 b1 b2 b3 : UInt8) :
    (u32 b0 b1 b2 b3).toNat
      =
    ((b0.toNat * 256 + b1.toNat) * 256 + b2.toNat) * 256 + b3.toNat := by
  have h0 := b0.toNat_lt
  have h1 := b1.toNat_lt
  have h2 := b2.toNat_lt
  have h3 := b3.toNat_lt
  simp only [u32, UInt32.toNat_ofNat']
  omega

theorem u16_bytes16 (n : UInt16) : u16 (.ofNat (n.toNat / 256)) (.ofNat n.toNat) = n := by
  have hn := n.toNat_lt
  apply UInt16.toNat_inj.mp
  simp only [toNat_u16, UInt8.toNat_ofNat']
  omega

theorem bytes16_u16 (b0 b1 : UInt8) : bytes16 (u16 b0 b1) = [b0, b1] := by
  have h0 := b0.toNat_lt
  have h1 := b1.toNat_lt
  simp only [bytes16, toNat_u16, List.cons.injEq, and_true, ← UInt8.toNat_inj, UInt8.toNat_ofNat']
  omega

theorem u32_bytes32 (n : UInt32) :
    u32 (.ofNat (n.toNat / 16777216)) (.ofNat (n.toNat / 65536)) (.ofNat (n.toNat / 256))
      (.ofNat n.toNat)
      =
    n := by
  have hn := n.toNat_lt
  apply UInt32.toNat_inj.mp
  simp only [toNat_u32, UInt8.toNat_ofNat']
  omega

theorem bytes32_u32 (b0 b1 b2 b3 : UInt8) : bytes32 (u32 b0 b1 b2 b3) = [b0, b1, b2, b3] := by
  have h0 := b0.toNat_lt
  have h1 := b1.toNat_lt
  have h2 := b2.toNat_lt
  have h3 := b3.toNat_lt
  simp only [bytes32, toNat_u32, List.cons.injEq, and_true, ← UInt8.toNat_inj, UInt8.toNat_ofNat']
  omega

end BigEndian
