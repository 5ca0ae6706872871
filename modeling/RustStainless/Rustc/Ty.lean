/-!
# Definitions and types of rustc

What the extractor reads of `rustc_middle::ty`: definition ids, types, constants, generics with
their predicates, and ADT definitions.

The arguments of a definition (`substs`) are kept as the list of its type arguments, which is what
`substs.types()` and `substs.type_at(i)` see; lifetimes are erased before extraction.
-/

namespace Rustc

/-! ## Definition ids -/

/-- A definition of some crate. Crate 0 is the local one. -/
structure DefId where
  krate : Nat
  index : Nat
deriving DecidableEq

def DefId.isLocal (d : DefId) : Bool := d.krate == 0

/-- A node of the HIR of the local crate: its owner and its number inside the owner. -/
structure HirId where
  owner : DefId
  localId : Nat
deriving DecidableEq

/-! ## Types -/

inductive Mutability where
  | mut
  | not
deriving DecidableEq

inductive IntTy where
  | isize
  | i8
  | i16
  | i32
  | i64
  | i128
deriving DecidableEq

inductive UintTy where
  | usize
  | u8
  | u16
  | u32
  | u64
  | u128
deriving DecidableEq

/-- `None` for `isize`. -/
def IntTy.bitWidth : IntTy → Option Nat
  | .isize => none
  | .i8 => some 8
  | .i16 => some 16
  | .i32 => some 32
  | .i64 => some 64
  | .i128 => some 128

/-- `None` for `usize`. -/
def UintTy.bitWidth : UintTy → Option Nat
  | .usize => none
  | .u8 => some 8
  | .u16 => some 16
  | .u32 => some 32
  | .u64 => some 64
  | .u128 => some 128

/--
`TyKind`.

The kinds that the extractor never looks into (raw pointers, arrays, slices, function pointers,
trait objects, projections and so on) are all `other`.
-/
inductive Ty where
  | bool
  | char
  | str
  | never
  | int (t : IntTy)
  | uint (t : UintTy)
  | adt (did : DefId) (substs : List Ty)
  | tuple (tys : List Ty)
  | ref (ty : Ty) (mutbl : Mutability)
  | param (index : Nat)
  | fnDef (did : DefId) (substs : List Ty)
  | closure (did : DefId) (substs : List Ty)
  | other (kind : String)

mutual

/-- Structural equality of types. -/
def Ty.beq : Ty → Ty → Bool
  | .bool, .bool => true
  | .char, .char => true
  | .str, .str => true
  | .never, .never => true
  | .int t, .int t' => t == t'
  | .uint t, .uint t' => t == t'
  | .adt d ts, .adt d' ts' => d == d' && Ty.beqList ts ts'
  | .tuple ts, .tuple ts' => Ty.beqList ts ts'
  | .ref t m, .ref t' m' => Ty.beq t t' && m == m'
  | .param i, .param i' => i == i'
  | .fnDef d ts, .fnDef d' ts' => d == d' && Ty.beqList ts ts'
  | .closure d ts, .closure d' ts' => d == d' && Ty.beqList ts ts'
  | .other k, .other k' => k == k'
  | _, _ => false

def Ty.beqList : List Ty → List Ty → Bool
  | [], [] => true
  | t :: ts, t' :: ts' => Ty.beq t t' && Ty.beqList ts ts'
  | _, _ => false

end

mutual

theorem Ty.beq_iff : ∀ (a b : Ty), Ty.beq a b = true ↔ a = b
  | .bool, b | .char, b | .str, b | .never, b | .int _, b | .uint _, b | .param _, b
  | .other _, b => by
    cases b <;> simp [Ty.beq]
  | .adt d ts, b => by
    cases b with
    | adt d' ts' => simp [Ty.beq, Ty.beqList_iff ts ts']
    | _ => simp [Ty.beq]
  | .tuple ts, b => by
    cases b with
    | tuple ts' => simp [Ty.beq, Ty.beqList_iff ts ts']
    | _ => simp [Ty.beq]
  | .ref t m, b => by
    cases b with
    | ref t' m' => simp [Ty.beq, Ty.beq_iff t t']
    | _ => simp [Ty.beq]
  | .fnDef d ts, b => by
    cases b with
    | fnDef d' ts' => simp [Ty.beq, Ty.beqList_iff ts ts']
    | _ => simp [Ty.beq]
  | .closure d ts, b => by
    cases b with
    | closure d' ts' => simp [Ty.beq, Ty.beqList_iff ts ts']
    | _ => simp [Ty.beq]

theorem Ty.beqList_iff : ∀ (as bs : List Ty), Ty.beqList as bs = true ↔ as = bs
  | [], [] => by simp [Ty.beqList]
  | [], b :: bs => by simp [Ty.beqList]
  | a :: as, [] => by simp [Ty.beqList]
  | a :: as, b :: bs => by simp [Ty.beqList, Ty.beq_iff a b, Ty.beqList_iff as bs]

end

instance : DecidableEq Ty := fun a b => decidable_of_iff _ (Ty.beq_iff a b)

/-- The unit type is the empty tuple. -/
abbrev Ty.unit : Ty := .tuple []

def Ty.isUnit : Ty → Bool
  | .tuple [] => true
  | _ => false

def Ty.isBool : Ty → Bool
  | .bool => true
  | _ => false

def Ty.isClosure : Ty → Bool
  | .closure _ _ => true
  | _ => false

/-! ## Constants -/

/-- The value of a constant: a scalar, zero-extended, or the text of a string slice. -/
inductive ConstVal where
  | bits (data : Nat)
  | slice (text : String)
  | other
deriving DecidableEq

/-- `try_to_bits`, at the size of the constant's type. -/
def ConstVal.tryToBits : ConstVal → Option Nat
  | .bits data => some data
  | _ => none

structure Const where
  ty : Ty
  val : ConstVal
deriving DecidableEq

/-! ## Generics -/

inductive GenericParamDefKind where
  | lifetime
  | type
  | const
deriving DecidableEq

structure GenericParamDef where
  index : Nat
  defId : DefId
  kind : GenericParamDefKind
deriving DecidableEq

/-- The generic parameters of a definition. Those of the parent come with it. -/
inductive Generics where
  | root (params : List GenericParamDef)
  | child (parent : DefId) (parentGenerics : Generics) (params : List GenericParamDef)

/-- The definition whose parameters are inherited. -/
def Generics.parent : Generics → Option DefId
  | .root _ => none
  | .child parent _ _ => some parent

/--
A bound of a generic definition.

`paramTys` are the fields of the tuple that is the second argument of the trait; only the `Fn`
traits have it.
-/
inductive Predicate where
  | trait (did : DefId) (selfTy : Ty) (paramTys : List Ty)
  | projection (did : DefId) (selfTy : Ty) (ty : Ty)
  | other
deriving DecidableEq

/-! ## ADTs and functions -/

structure FieldDef where
  did : DefId
  name : String
  ty : Ty
deriving DecidableEq

/-- A variant. The variant of a struct has the id of the struct. -/
structure VariantDef where
  defId : DefId
  fields : List FieldDef
deriving DecidableEq

structure AdtDef where
  did : DefId
  isBox : Bool
  variants : List VariantDef
deriving DecidableEq

structure FnSig where
  inputs : List Ty
  output : Ty
deriving DecidableEq

end Rustc
