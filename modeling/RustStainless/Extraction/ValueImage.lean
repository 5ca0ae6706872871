import RustStainless.Data.Eval
import RustStainless.Extraction.Extracts
import RustStainless.Extraction.Literals
import RustStainless.Rustc.Eval

/-!
# Values of Rust and of Stainless

What a Rust value is in Stainless: references and boxes are gone, and a value of an ADT has the id
of its constructor. The operators that the extraction chooses compute the images of what Rust
computes.
-/

namespace Stainless

open Rustc St Lib

/-! ## The image of a value -/

section

variable (tcx : Tcx) (ids : Ids)

/-- The global id of the constructor of a variant. -/
def constructorGlobalId (did : DefId) (variantIndex : Nat) : Option Int := do
  let sort ← adtIds tcx ids did
  let constructor ← sort[variantIndex]?
  pure constructor.id.globalId

/-- The empty tuple is the unit value. -/
def tupleValue : List St.Value → St.Value
  | [] => .unit
  | vs => .tuple vs

mutual

def valueImage : Hair.Value → Option St.Value
  | .bool b => some (.boolean b)
  | .int signed size v => some (.bv signed v size)
  | .tuple values => (valueImages values).map tupleValue
  | .adt did variantIndex fields =>
    (constructorGlobalId tcx ids did variantIndex).bind fun c => (valueImages fields).map (.adt c)
  | .ref v | .box v => valueImage v

def valueImages : List Hair.Value → Option (List St.Value)
  | [] => some []
  | v :: vs => (valueImage v).bind fun w => (valueImages vs).map fun ws => w :: ws

end

end

variable {tcx : Tcx} {ids : Ids}

theorem valueImages_eq_some {vs : List Hair.Value} {ws : List St.Value} :
    valueImages tcx ids vs = some ws ↔
      List.Forall₂ (fun v w => valueImage tcx ids v = some w) vs ws := by
  induction vs generalizing ws with
  | nil =>
    rw [valueImages, Option.some_inj, List.forall₂_nil_left_iff]
    exact eq_comm
  | cons v vs ih =>
    rw [valueImages, Option.bind_eq_some_iff]
    constructor
    · rintro ⟨w, hw, h⟩
      obtain ⟨ws', hws, rfl⟩ := Option.map_eq_some_iff.mp h
      exact .cons hw (ih.mp hws)
    · rintro (_ | ⟨hw, hws⟩)
      exact ⟨_, hw, by rw [ih.mpr hws]; rfl⟩

/-! ## Machine integers -/

theorem wrap_eq_readBits (signed : Bool) (size : Nat) (v : Int) :
    wrap signed size v = Hair.readBits signed (BitVec.ofInt size v) := by
  cases signed with
  | true => simp [wrap, Hair.readBits, BitVec.toInt_ofInt]
  | false =>
    have hnonneg : 0 ≤ v % 2 ^ size := Int.emod_nonneg v (pow_ne_zero _ (by decide))
    simp [wrap, Hair.readBits, BitVec.toNat_ofInt, Int.toNat_of_nonneg hnonneg]

theorem bitsOf_eq_toNat (size : Nat) (v : Int) : bitsOf size v = (BitVec.ofInt size v).toNat := by
  simp [bitsOf, BitVec.toNat_ofInt]

theorem wrap_representable {signed : Bool} {size : Nat} {v : Int}
    (h : Hair.Representable signed size v) : wrap signed size v = v := by
  rw [wrap_eq_readBits]
  exact h

/-- Bits that are read are those of the number. -/
theorem ofInt_readBits (signed : Bool) {size : Nat} (b : BitVec size) :
    BitVec.ofInt size (Hair.readBits signed b) = b := by
  cases signed with
  | true => simp [Hair.readBits]
  | false => simp [Hair.readBits]

theorem representable_readBits (signed : Bool) {size : Nat} (b : BitVec size) :
    Hair.Representable signed size (Hair.readBits signed b) := by
  rw [Hair.Representable, ofInt_readBits]

/-- An operator on the patterns of bits, as numbers. -/
theorem wrap_natCast (signed : Bool) {size : Nat} (b : BitVec size) :
    wrap signed size (b.toNat : Int) = Hair.readBits signed b := by
  rw [wrap_eq_readBits, BitVec.ofInt_natCast, BitVec.ofNat_toNat, BitVec.setWidth_eq]

/-! ## Types -/

/-- A value that is an integer is in the range of its type. -/
theorem Hair.Value.fits_int {signed : Bool} {size : Nat} {v : Int} {ty : Ty}
    (h : (Hair.Value.int signed size v).fits tcx ty = true) : Hair.Representable signed size v := by
  cases ty <;> simp_all [Hair.Value.fits]

theorem Hair.Value.fits_bv {v : Hair.Value} {ty : Ty} (hty : isBvType ty)
    (h : v.fits tcx ty = true) :
    ∃ signed size n, v = .int signed size n ∧ Hair.intType ty = some (signed, size) ∧
      Hair.Representable signed size n := by
  cases v with
  | int signed size n =>
    refine ⟨signed, size, n, rfl, ?_, fits_int h⟩
    cases ty <;> simp_all [isBvType, Hair.Value.fits]
  | _ => cases ty <;> simp_all [isBvType, Hair.Value.fits]

theorem Hair.Value.fits_bool {v : Hair.Value} {ty : Ty} (hty : ty.isBool)
    (h : v.fits tcx ty = true) : ∃ b, v = .bool b := by
  cases v with
  | bool b => exact ⟨b, rfl⟩
  | int signed size n => cases ty <;> simp_all [Ty.isBool, Hair.Value.fits, Hair.intType]
  | _ => cases ty <;> simp_all [Ty.isBool, Hair.Value.fits]

theorem intType_width {ty : Ty} {signed : Bool} {size : Nat}
    (h : Hair.intType ty = some (signed, size)) :
    size = 8 ∨ size = 16 ∨ size = 32 ∨ size = 64 ∨ size = 128 := by
  have hty : Hair.intType ty = machineTy ty := by cases ty <;> rfl
  exact machineTy_width (hty ▸ h)

/-! ## Literals -/

/-- The constant is no negative integer of fewer than 128 bits. -/
def constFaithful (konst : Const) : Bool :=
  match Hair.constValue konst with
  | some (.int true size v) => 128 ≤ size || 0 ≤ v
  | _ => true

theorem asI128_toInt {size : Nat} (hsize : size ≤ 128) {data : Nat} (hdata : data < 2 ^ size)
    (h : size < 128 → 0 ≤ (BitVec.ofNat size data).toInt) :
    asI128 data = (BitVec.ofNat size data).toInt := by
  have hmod : data % 2 ^ size = data := Nat.mod_eq_of_lt hdata
  rw [asI128_eq, BitVec.toInt_eq_toNat_cond, BitVec.toNat_ofNat, hmod]
  by_cases hlt : size < 128
  · have hpow : (2 : Nat) ^ size ≤ 2 ^ 127 := Nat.pow_le_pow_right (by decide) (by omega)
    have hnonneg := h hlt
    rw [BitVec.toInt_eq_toNat_cond, BitVec.toNat_ofNat, hmod] at hnonneg
    rw [if_pos (by omega), if_pos]
    by_contra hge
    rw [if_neg hge] at hnonneg
    omega
  · obtain rfl : size = 128 := by omega
    by_cases hsmall : data < 2 ^ 127
    · rw [if_pos hsmall, if_pos (by omega)]
    · rw [if_neg hsmall, if_neg (by omega)]
      rfl

/-- The bits are those of the constant, even if the number is not. -/
theorem ofInt_asI128 {size : Nat} (hsize : size ≤ 128) (data : Nat) :
    BitVec.ofInt size (asI128 data) = BitVec.ofNat size data := by
  rw [asI128_eq]
  by_cases hsmall : data < 2 ^ 127
  · rw [if_pos hsmall, BitVec.ofInt_natCast]
  · have hpow : BitVec.ofInt size ((2 : Int) ^ 128) = 0 := by
      refine BitVec.eq_of_toNat_eq ?_
      have hdvd : (2 : Nat) ^ size ∣ 2 ^ 128 := Nat.pow_dvd_pow 2 hsize
      rw [show (2 : Int) ^ 128 = ((2 ^ 128 : Nat) : Int) by simp, BitVec.ofInt_natCast,
        BitVec.toNat_ofNat, Nat.mod_eq_zero_of_dvd hdvd]
      rfl
    rw [if_neg hsmall, Int.sub_eq_add_neg, BitVec.ofInt_add, BitVec.ofInt_neg, hpow,
      BitVec.ofInt_natCast]
    simp

/-- Literals are units and booleans with the value of the constant, or integers with its bits. -/
theorem literalTryFrom_cases (tcx : Tcx) (ids : Ids) {konst : Const} {lit : Literal}
    {v : Hair.Value}
    (h : literalTryFrom konst = .ok (some lit)) (hv : Hair.constValue konst = some v) :
    (∃ w, valueImage tcx ids v = some w ∧ lit.value = some w) ∨
      ∃ signed size data, size ≤ 128 ∧ data < 2 ^ size ∧
        v = .int signed size (Hair.readBits signed (BitVec.ofNat size data)) ∧
        lit = .bv signed (if signed then asI128 data else data) size := by
  obtain ⟨ty, val⟩ := konst
  unfold Hair.constValue at hv
  by_cases hunit : ty.isUnit
  · simp only [literalTryFrom, hunit, if_true] at h hv
    obtain rfl := Option.some.inj (Except.ok.inj h)
    obtain rfl := Option.some.inj hv
    exact .inl ⟨.unit, by simp [valueImage, valueImages, tupleValue], rfl⟩
  simp only [hunit] at hv
  cases val with
  | slice text => simp at hv
  | other => simp at hv
  | bits data =>
    by_cases hbool : ty.isBool
    · cases ty <;> simp_all [Ty.isBool]
      simp only [literalTryFrom, Ty.isUnit, ConstVal.tryToBits] at h
      simp at h
      subst h hv
      exact .inl ⟨_, rfl, rfl⟩
    simp only [hbool] at hv
    obtain ⟨⟨signed, size⟩, hint, hv⟩ := Option.bind_eq_some_iff.mp hv
    have hmachine : machineTy ty = some (signed, size) := by
      rw [← hint]
      cases ty <;> rfl
    by_cases hdata : data < 2 ^ size
    swap
    · simp [hdata] at hv
    simp only [hdata, if_true] at hv
    rw [literalTryFrom_int hmachine] at h
    refine .inr ⟨signed, size, data, ?_, hdata, (Option.some.inj hv).symm,
      (Option.some.inj (Except.ok.inj h)).symm⟩
    rcases intType_width hint with h | h | h | h | h <;> omega

/-- A literal has the value of its constant, unless that is negative and has fewer than 128 bits. -/
theorem literalTryFrom_image (tcx : Tcx) (ids : Ids) {konst : Const} {lit : Literal}
    {v : Hair.Value}
    (h : literalTryFrom konst = .ok (some lit)) (hv : Hair.constValue konst = some v)
    (hgood : constFaithful konst = true) :
    ∃ w, valueImage tcx ids v = some w ∧ lit.value = some w := by
  rcases literalTryFrom_cases tcx ids h hv with
    himg | ⟨signed, size, data, hle, hdata, rfl, rfl⟩
  · exact himg
  have hvalue : (if signed then asI128 data else (data : Int)) =
      Hair.readBits signed (BitVec.ofNat size data) := by
    cases signed with
    | false => simp [Hair.readBits, Nat.mod_eq_of_lt hdata]
    | true =>
      refine asI128_toInt hle hdata fun hlt => ?_
      simpa [constFaithful, hv, Nat.not_le.mpr hlt, Hair.readBits] using hgood
  refine ⟨_, rfl, ?_⟩
  rw [hvalue, Literal.value, if_pos (wrap_representable (representable_readBits _ _))]

/-- If a literal has a value at all, it is that of its constant. -/
theorem literalTryFrom_value {konst : Const} {lit : Literal} {v : Hair.Value} {w : St.Value}
    (h : literalTryFrom konst = .ok (some lit)) (hv : Hair.constValue konst = some v)
    (hw : lit.value = some w) : valueImage tcx ids v = some w := by
  rcases literalTryFrom_cases tcx ids h hv with
    ⟨w', himg, hw'⟩ | ⟨signed, size, data, hle, hdata, rfl, rfl⟩
  · rw [himg, ← hw', hw]
  -- The literal has the bits of the constant.
  have hbits : BitVec.ofInt size (if signed then asI128 data else (data : Int)) =
      BitVec.ofNat size data := by
    cases signed with
    | false => simp
    | true => exact ofInt_asI128 hle data
  generalize (if signed then asI128 data else (data : Int)) = x at hw hbits
  rw [Literal.value, wrap_eq_readBits, hbits] at hw
  split_ifs at hw with hnumber
  rw [valueImage, hnumber]
  exact hw

/-! ## Operators -/

theorem ofInt_not (size : Nat) (x : Int) :
    BitVec.ofInt size (-x - 1) = ~~~BitVec.ofInt size x := by
  rw [BitVec.not_eq_neg_add, BitVec.sub_eq_add_neg, Int.sub_eq_add_neg, BitVec.ofInt_add,
    BitVec.ofInt_neg, BitVec.ofInt_neg]
  rfl

theorem ofInt_shiftLeft (size : Nat) (x : Int) (k : Nat) :
    BitVec.ofInt size (x * 2 ^ k) = BitVec.ofInt size x <<< k := by
  have hpow : BitVec.ofInt size (2 ^ k) = BitVec.twoPow size k := by
    refine BitVec.eq_of_toNat_eq ?_
    rw [BitVec.toNat_twoPow, show (2 : Int) ^ k = ((2 ^ k : Nat) : Int) by simp,
      BitVec.ofInt_natCast, BitVec.toNat_ofNat]
  rw [BitVec.ofInt_mul, BitVec.shiftLeft_eq_mul_twoPow, hpow]

theorem evalUnary_bvNot (tcx : Tcx) (ids : Ids) {signed : Bool} {size : Nat} {x : Int}
    {v : Hair.Value}
    (h : Hair.evalUnary .not (.int signed size x) = some v) :
    evalUnary .bvNot (.bv signed x size) = valueImage tcx ids v := by
  obtain rfl := Option.some.inj h
  rw [evalUnary, valueImage, wrap_eq_readBits, ofInt_not]

theorem evalUnary_uMinus (ids : Ids) {signed : Bool} {size : Nat} {x : Int} {v : Hair.Value}
    {ty : Ty}
    (h : Hair.evalUnary .neg (.int signed size x) = some v) (hfits : v.fits tcx ty = true) :
    evalUnary .uMinus (.bv signed x size) = valueImage tcx ids v := by
  obtain rfl := Option.some.inj h
  rw [evalUnary, valueImage, wrap_representable (Hair.Value.fits_int hfits)]

/-- The operator that is chosen computes the image, as the result has its type. -/
theorem bvBinary_image {op : Hair.BinOp} {operator : BinaryOperator}
    (hop : bvOperator op = some operator) {signed : Bool} {size : Nat} {x y : Int} {v : Hair.Value}
    (h : Hair.evalInts op signed size x y = some v) {ty : Ty} (hfits : v.fits tcx ty = true) :
    bvBinary operator signed size x y = valueImage tcx ids v := by
  have hnumber : ∀ n, v = .int signed size n → wrap signed size n = n := by
    rintro n rfl
    exact wrap_representable (Hair.Value.fits_int hfits)
  have hbits : ∀ b : BitVec size, wrap signed size (b.toNat : Int) = Hair.readBits signed b :=
    wrap_natCast signed
  cases op with
  | add | sub | mul =>
    obtain rfl := Option.some.inj hop
    obtain rfl := Option.some.inj h
    simp only [bvBinary, valueImage, hnumber _ rfl]
  | div =>
    obtain rfl := Option.some.inj hop
    by_cases hy : y = 0
    · simp [Hair.evalInts, hy] at h
    · simp only [Hair.evalInts, if_neg hy] at h
      obtain rfl := Option.some.inj h
      simp only [bvBinary, if_neg hy, valueImage, hnumber _ rfl]
  | rem =>
    obtain rfl := Option.some.inj hop
    by_cases hy : y = 0 ∨ ¬ Hair.Representable signed size (x.tdiv y)
    · simp [Hair.evalInts, hy] at h
    · simp only [Hair.evalInts, if_neg hy] at h
      obtain rfl := Option.some.inj h
      rw [not_or] at hy
      simp only [bvBinary, if_neg hy.1, valueImage, hnumber _ rfl]
  | bitXor =>
    obtain rfl := Option.some.inj hop
    obtain rfl := Option.some.inj h
    simp only [bvBinary, bitsOf_eq_toNat, valueImage]
    rw [← BitVec.toNat_xor, hbits]
  | bitAnd =>
    obtain rfl := Option.some.inj hop
    obtain rfl := Option.some.inj h
    simp only [bvBinary, bitsOf_eq_toNat, valueImage]
    rw [← BitVec.toNat_and, hbits]
  | bitOr =>
    obtain rfl := Option.some.inj hop
    obtain rfl := Option.some.inj h
    simp only [bvBinary, bitsOf_eq_toNat, valueImage]
    rw [← BitVec.toNat_or, hbits]
  | lt | le | ge | gt =>
    obtain rfl := Option.some.inj hop
    obtain rfl := Option.some.inj h
    rfl
  | eq | ne | shl | shr | offset => cases hop

/-- A number less than the width is its own pattern. -/
theorem bitsOf_shift {size : Nat} {y : Int} (h0 : 0 ≤ y) (hlt : y < size) :
    bitsOf size y = y.toNat := by
  have hpow : (size : Int) < 2 ^ size := by exact_mod_cast Nat.lt_two_pow_self
  rw [bitsOf, Int.emod_eq_of_lt h0 (by omega)]

theorem bvBinary_shift {isShl signed : Bool} {size : Nat} {x y : Int} {v : Hair.Value}
    (h : Hair.evalShift isShl signed size x y = some v)
    (hx : Hair.Representable signed size x) {ty : Ty} (hfits : v.fits tcx ty = true) :
    bvBinary (if isShl then .bvShiftLeft else if signed then .bvAShiftRight else .bvLShiftRight)
      signed size x y = valueImage tcx ids v := by
  unfold Hair.evalShift at h
  by_cases hy : 0 ≤ y ∧ y < size
  swap
  · simp [hy] at h
  rw [if_pos hy] at h
  obtain rfl := Option.some.inj h
  have hbits : bitsOf size y = y.toNat := bitsOf_shift hy.1 hy.2
  cases isShl with
  | true =>
    simp only [if_true, bvBinary, valueImage, hbits, wrap_eq_readBits, ofInt_shiftLeft]
  | false =>
    cases signed with
    | true =>
      have hx : (BitVec.ofInt size x).toInt = x := hx
      have hshift : Hair.readBits true ((BitVec.ofInt size x).sshiftRight y.toNat) =
          x / 2 ^ y.toNat := by
        rw [Hair.readBits, if_pos rfl, BitVec.toInt_sshiftRight, hx, Int.shiftRight_eq_div_pow]
        simp
      have hrep := Hair.Value.fits_int hfits
      simp only [Bool.false_eq_true, if_false, if_true] at hrep ⊢
      rw [hshift] at hrep
      simp only [bvBinary, valueImage, hbits, hshift, wrap_representable hrep]
    | false =>
      have hshift : Hair.readBits false (BitVec.ofInt size x >>> y.toNat) =
          ((BitVec.ofInt size x).toNat / 2 ^ y.toNat : Nat) := by
        rw [Hair.readBits, if_neg (by simp), BitVec.toNat_ushiftRight, Nat.shiftRight_eq_div_pow]
      have hrep := Hair.Value.fits_int hfits
      simp only [Bool.false_eq_true, if_false] at hrep ⊢
      rw [hshift] at hrep
      simp only [bvBinary, valueImage, hbits, hshift, bitsOf_eq_toNat, wrap_representable hrep]

/-- The right operand of a shift keeps its number. -/
theorem widenShiftArg_eval {P : Program} {ρ : St.Env} {ty1 ty2 : Ty} {arg2 arg2' : St.Expr}
    (h : widenShiftArg ty1 ty2 arg2 = .ok arg2') {s s' : Bool} {n n' : Nat} {y : Int}
    (h1 : Hair.intType ty1 = some (s, n)) (h2 : Hair.intType ty2 = some (s', n'))
    (heval : arg2.eval P ρ = some (.bv s' y n')) : arg2'.eval P ρ = some (.bv s y n) := by
  unfold widenShiftArg at h
  by_cases hty : ty1 = ty2
  · rw [if_pos hty] at h
    obtain rfl := Except.ok.inj h
    subst hty
    obtain ⟨rfl, rfl⟩ := Prod.mk.inj (Option.some.inj (h1.symm.trans h2))
    exact heval
  rw [if_neg hty] at h
  cases ty1 with
  | int t1 =>
    cases ty2 with
    | int t2 =>
      obtain ⟨w1, hw1, heq1⟩ := Option.map_eq_some_iff.mp h1
      obtain ⟨w2, hw2, heq2⟩ := Option.map_eq_some_iff.mp h2
      obtain ⟨rfl, rfl⟩ := Prod.mk.inj heq1
      obtain ⟨rfl, rfl⟩ := Prod.mk.inj heq2
      simp only [hw1, hw2] at h
      split_ifs at h with hlt
      obtain rfl := Except.ok.inj h
      rw [Expr.eval, heval, Option.bind_some, evalWiden, if_pos ⟨rfl, hlt⟩]
    | _ => cases h
  | uint t1 =>
    cases ty2 with
    | uint t2 =>
      obtain ⟨w1, hw1, heq1⟩ := Option.map_eq_some_iff.mp h1
      obtain ⟨w2, hw2, heq2⟩ := Option.map_eq_some_iff.mp h2
      obtain ⟨rfl, rfl⟩ := Prod.mk.inj heq1
      obtain ⟨rfl, rfl⟩ := Prod.mk.inj heq2
      simp only [hw1, hw2] at h
      split_ifs at h with hlt
      obtain rfl := Except.ok.inj h
      rw [Expr.eval, heval, Option.bind_some, evalWiden, if_pos ⟨rfl, hlt⟩]
    | _ => cases h
  | _ => cases h1

end Stainless
