import Mathlib.Logic.Function.Basic

/-!
# Bytes of big integers

`to_signed_bytes_be` of `num_bigint`: the shortest two's complement of an integer, the highest byte
first, and one zero byte for zero.
-/

namespace Rust

/-- The shortest two's complement, the lowest byte first. -/
def toSignedBytesLe (v : Int) : List UInt8 :=
  if -128 ≤ v ∧ v < 128 then [UInt8.ofNat (v % 256).toNat]
  else UInt8.ofNat (v % 256).toNat :: toSignedBytesLe (v / 256)
termination_by v.natAbs
decreasing_by omega

def toSignedBytesBe (v : Int) : List UInt8 := (toSignedBytesLe v).reverse

/-- The integer that a two's complement stands for. -/
def fromSignedBytesLe : List UInt8 → Int
  | [] => 0
  | [b] => if b.toNat < 128 then b.toNat else b.toNat - 256
  | b :: b' :: rest => b.toNat + 256 * fromSignedBytesLe (b' :: rest)

theorem toSignedBytesLe_ne_nil (v : Int) : toSignedBytesLe v ≠ [] := by
  rw [toSignedBytesLe]
  split <;> simp

theorem toNat_lowByte (v : Int) : ((UInt8.ofNat (v % 256).toNat).toNat : Int) = v % 256 := by
  rw [UInt8.toNat_ofNat']
  omega

theorem fromSignedBytesLe_cons (b : UInt8) {rest : List UInt8} (h : rest ≠ []) :
    fromSignedBytesLe (b :: rest) = b.toNat + 256 * fromSignedBytesLe rest := by
  cases rest with
  | nil => exact absurd rfl h
  | cons b' rest => rfl

theorem fromSignedBytesLe_toSignedBytesLe (v : Int) :
    fromSignedBytesLe (toSignedBytesLe v) = v := by
  induction v using toSignedBytesLe.induct with
  | case1 v h =>
    have hbyte := toNat_lowByte v
    rw [toSignedBytesLe, if_pos h, fromSignedBytesLe]
    split <;> omega
  | case2 v h ih =>
    have hbyte := toNat_lowByte v
    rw [toSignedBytesLe, if_neg h, fromSignedBytesLe_cons _ (toSignedBytesLe_ne_nil _), ih]
    omega

theorem toSignedBytesBe_injective : Function.Injective toSignedBytesBe := by
  intro v w h
  have hle : toSignedBytesLe v = toSignedBytesLe w := List.reverse_inj.mp h
  rw [← fromSignedBytesLe_toSignedBytesLe v, hle, fromSignedBytesLe_toSignedBytesLe]

end Rust
