import Mathlib.Algebra.Order.Ring.Int
import RustStainless.Extraction.Expr

/-!
# Integer literals

rustc gives the bits of a constant zero-extended, whatever its sign. The extractor casts them to
`i128`, so it finds the sign of a value only where the type has 128 bits itself.
-/

namespace Stainless

open Rustc St

/-! ## Machine integers -/

/-- The signedness and the width of an integer type that is supported. -/
def machineTy : Ty → Option (Bool × Nat)
  | .int t => t.bitWidth.map fun w => (true, w)
  | .uint t => t.bitWidth.map fun w => (false, w)
  | _ => none

/-- The values of a machine integer type. -/
def InRange (signed : Bool) (w : Nat) (v : Int) : Prop :=
  if signed then -2 ^ (w - 1) ≤ v ∧ v < 2 ^ (w - 1) else 0 ≤ v ∧ v < 2 ^ w

/-- The two's-complement pattern of a value with `w` bits, zero-extended. -/
def zeroExtendedBits (w : Nat) (v : Int) : Nat := (v % 2 ^ w).toNat

/-- The constant that rustc has for a value of type `ty`. -/
def intConst (ty : Ty) (w : Nat) (v : Int) : Const :=
  { ty := ty, val := .bits (zeroExtendedBits w v) }

/-- `Int32Literal`. -/
def int32Literal (value : Int) : Literal := .bv true value 32

theorem machineTy_width {ty : Ty} {signed : Bool} {w : Nat} (h : machineTy ty = some (signed, w)) :
    w = 8 ∨ w = 16 ∨ w = 32 ∨ w = 64 ∨ w = 128 := by
  cases ty with
  | int t => cases t <;> simp_all [machineTy, IntTy.bitWidth]
  | uint t => cases t <;> simp_all [machineTy, UintTy.bitWidth]
  | _ => simp [machineTy] at h

/-! ## The value of a literal -/

/-- What the extractor makes of the bits. -/
theorem literalTryFrom_int {ty : Ty} {signed : Bool} {w : Nat}
    (h : machineTy ty = some (signed, w)) (bits : Nat) :
    literalTryFrom { ty := ty, val := .bits bits } =
      .ok (some (.bv signed (if signed then asI128 bits else bits) w)) := by
  cases ty with
  | int t =>
    obtain ⟨w', hw, heq⟩ := Option.map_eq_some_iff.mp h
    obtain ⟨rfl, rfl⟩ := Prod.mk.inj heq
    simp [literalTryFrom, Ty.isUnit, hw, ConstVal.tryToBits]
  | uint t =>
    obtain ⟨w', hw, heq⟩ := Option.map_eq_some_iff.mp h
    obtain ⟨rfl, rfl⟩ := Prod.mk.inj heq
    simp [literalTryFrom, Ty.isUnit, hw, ConstVal.tryToBits]
  | _ => simp [machineTy] at h

theorem asI128_eq (n : Nat) :
    asI128 n = if n < 2 ^ 127 then (n : Int) else (n : Int) - 2 ^ 128 := by
  simp [asI128]

/-- A value that is not negative is its own pattern. -/
theorem zeroExtendedBits_nonneg {w : Nat} {v : Int} (h0 : 0 ≤ v) (hlt : v < 2 ^ w) :
    (zeroExtendedBits w v : Int) = v := by
  rw [zeroExtendedBits, Int.emod_eq_of_lt h0 hlt, Int.toNat_of_nonneg h0]

/-- The pattern of a negative value is above all values that are not negative. -/
theorem zeroExtendedBits_neg {w : Nat} {v : Int} (h0 : v < 0) (hle : -2 ^ w ≤ v) :
    (zeroExtendedBits w v : Int) = v + 2 ^ w := by
  have hmod : v % 2 ^ w = v + 2 ^ w := by
    rw [← Int.add_emod_right, Int.emod_eq_of_lt (by omega) (by omega)]
  rw [zeroExtendedBits, hmod, Int.toNat_of_nonneg (by omega)]

/-- **The cast finds the value again iff it is not negative, or has 128 bits.** -/
theorem asI128_bits_iff {w : Nat} (hw : w = 8 ∨ w = 16 ∨ w = 32 ∨ w = 64 ∨ w = 128) {v : Int}
    (hv : InRange true w v) : asI128 (zeroExtendedBits w v) = v ↔ 0 ≤ v ∨ w = 128 := by
  obtain ⟨hlo, hhi⟩ : -2 ^ (w - 1) ≤ v ∧ v < 2 ^ (w - 1) := by simpa [InRange] using hv
  rw [asI128_eq]
  by_cases h0 : 0 ≤ v
  · have hlt : v < 2 ^ w := by
      rcases hw with rfl | rfl | rfl | rfl | rfl <;> omega
    have hbits := zeroExtendedBits_nonneg h0 hlt
    have hsmall : zeroExtendedBits w v < 2 ^ 127 := by
      rcases hw with rfl | rfl | rfl | rfl | rfl <;> omega
    rw [if_pos hsmall, hbits]
    simp [h0]
  · have hle : -2 ^ w ≤ v := by
      rcases hw with rfl | rfl | rfl | rfl | rfl <;> omega
    have hbits := zeroExtendedBits_neg (by omega) hle
    -- Below 128 bits the pattern is below `2 ^ 127`, so it is read as a positive value.
    rcases hw with rfl | rfl | rfl | rfl | rfl
    case inr.inr.inr.inr =>
      rw [if_neg (by omega), hbits]
      simp
    all_goals
      rw [if_pos (by omega), hbits]
      omega

/-- The literal of a value in an expression and in a pattern, and the one that the library makes of
an `i32`. -/
structure DenotesValue (tcx : Tcx) (ty : Ty) (signed : Bool) (w : Nat) (v : Int) : Prop where
  expr : ∀ ctx ty', extractExpr tcx ctx (.literal ty' (intConst ty w v)) =
    pure (.literal (.bv signed v w))
  pattern : ∀ ctx ty' binder,
    extractPattern (xtorOps tcx ctx) (.constant ty' (intConst ty w v)) binder =
      pure (.literal binder (.bv signed v w))
  int32 : ty = .int .i32 → literalTryFrom (intConst ty w v) = .ok (some (int32Literal v))

/--
**The literal of an integer denotes its value iff the value is not negative or its type has 128
bits.**
-/
theorem denotesValue_iff (tcx : Tcx) {ty : Ty} {signed : Bool} {w : Nat}
    (hty : machineTy ty = some (signed, w)) {v : Int} (hv : InRange signed w v) :
    DenotesValue tcx ty signed w v ↔ 0 ≤ v ∨ w = 128 := by
  have hlit := literalTryFrom_int hty (zeroExtendedBits w v)
  have hval : ((if signed then asI128 (zeroExtendedBits w v) else zeroExtendedBits w v) = v) ↔
      0 ≤ v ∨ w = 128 := by
    cases signed with
    | true => simpa using asI128_bits_iff (machineTy_width hty) hv
    | false =>
      obtain ⟨h0, hlt⟩ : 0 ≤ v ∧ v < 2 ^ w := by simpa [InRange] using hv
      simpa [h0] using zeroExtendedBits_nonneg h0 hlt
  rw [← hval]
  constructor
  · intro h
    have hrun := congrFun (h.expr { txtcx := { defId := ⟨0, 0⟩, indexToTparam := [] }, vars := [] }
      .bool) .new
    simp only [extractExpr, extractExprWith, extractLiteral, intConst, hlit] at hrun
    simpa using hrun
  · intro h
    rw [h] at hlit
    refine ⟨fun ctx ty' => ?_, fun ctx ty' binder => ?_, fun h32 => ?_⟩
    · simp only [extractExpr, extractExprWith, extractLiteral, intConst, hlit]
    · simp only [extractPattern, intConst, hlit]
    · subst h32
      obtain ⟨rfl, rfl⟩ : true = signed ∧ 32 = w := by
        simpa [machineTy, IntTy.bitWidth] using hty
      exact hlit

/-- `-1i8` becomes the literal 255 of a signed type with 8 bits. -/
theorem not_denotesValue_minusOne : ¬ DenotesValue .empty (.int .i8) true 8 (-1) := by
  intro h
  have hrun := congrFun (h.expr { txtcx := { defId := ⟨0, 0⟩, indexToTparam := [] }, vars := [] }
    .bool) .new
  have hval : (Except.ok (St.Expr.literal (.bv true 255 8), Extraction.new) :
      Except Panic (St.Expr × Extraction)) = .ok (.literal (.bv true (-1) 8), .new) := hrun
  simp at hval

/-- `7i32` and the literal that the library makes of 7. -/
theorem denotesValue_seven : DenotesValue .empty (.int .i32) true 32 7 :=
  (denotesValue_iff .empty rfl (by simp [InRange])).mpr (.inl (by decide))

end Stainless
