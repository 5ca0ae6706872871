/-!
# The Stainless trees

The node kinds of `stainless_data::ast` that the extractor builds. Two groups of nodes of the same
shape are one constructor with an operator: the unary nodes (`Not`, `BVNot`, `UMinus`) and the
binary ones (`Plus`, `Equals`, `BVAnd`, `SetAdd` and so on). The four literal nodes are a type of
their own, because a `LiteralPattern` holds one too.
-/

namespace St

/-! ## Identifiers -/

structure Identifier where
  name : String
  globalId : Int
  id : Int
deriving DecidableEq

/-- Maps and definitions compare a `SymbolIdentifier` by its `globalId` alone. -/
structure SymbolIdentifier where
  id : Identifier
  symbolPath : List String
deriving DecidableEq

/-- The key under which a symbol is found in a map. -/
def SymbolIdentifier.globalId (i : SymbolIdentifier) : Int := i.id.globalId

/-! ## Types -/

/-- The annotations the extractor passes on. -/
inductive Flag where
  | external
  | isPure
  | isMutable
  | isVar
  | law
deriving DecidableEq

inductive Tpe where
  | booleanType
  | integerType
  | unitType
  | stringType
  | bvType (signed : Bool) (size : Nat)
  | tupleType (bases : List Tpe)
  | setType (base : Tpe)
  | adtType (id : SymbolIdentifier) (tps : List Tpe)
  | typeParameter (id : SymbolIdentifier) (flags : List Flag)
  | functionType (params : List Tpe) (result : Tpe)
  | untyped

mutual

/-- Structural equality of types. -/
def Tpe.beq : Tpe → Tpe → Bool
  | .booleanType, .booleanType => true
  | .integerType, .integerType => true
  | .unitType, .unitType => true
  | .stringType, .stringType => true
  | .bvType s n, .bvType s' n' => s == s' && n == n'
  | .tupleType ts, .tupleType ts' => Tpe.beqList ts ts'
  | .setType t, .setType t' => Tpe.beq t t'
  | .adtType i ts, .adtType i' ts' => i == i' && Tpe.beqList ts ts'
  | .typeParameter i fs, .typeParameter i' fs' => i == i' && fs == fs'
  | .functionType ts t, .functionType ts' t' => Tpe.beqList ts ts' && Tpe.beq t t'
  | .untyped, .untyped => true
  | _, _ => false

def Tpe.beqList : List Tpe → List Tpe → Bool
  | [], [] => true
  | t :: ts, t' :: ts' => Tpe.beq t t' && Tpe.beqList ts ts'
  | _, _ => false

end

mutual

theorem Tpe.beq_iff : ∀ (a b : Tpe), Tpe.beq a b = true ↔ a = b
  | .booleanType, b | .integerType, b | .unitType, b | .stringType, b | .untyped, b
  | .bvType _ _, b | .typeParameter _ _, b => by
    cases b <;> simp [Tpe.beq]
  | .tupleType ts, b => by
    cases b with
    | tupleType ts' => simpa [Tpe.beq] using Tpe.beqList_iff ts ts'
    | _ => simp [Tpe.beq]
  | .setType t, b => by
    cases b with
    | setType t' => simpa [Tpe.beq] using Tpe.beq_iff t t'
    | _ => simp [Tpe.beq]
  | .adtType i ts, b => by
    cases b with
    | adtType i' ts' => simp [Tpe.beq, Tpe.beqList_iff ts ts']
    | _ => simp [Tpe.beq]
  | .functionType ts t, b => by
    cases b with
    | functionType ts' t' => simp [Tpe.beq, Tpe.beqList_iff ts ts', Tpe.beq_iff t t']
    | _ => simp [Tpe.beq]

theorem Tpe.beqList_iff : ∀ (as bs : List Tpe), Tpe.beqList as bs = true ↔ as = bs
  | [], [] => by simp [Tpe.beqList]
  | [], b :: bs => by simp [Tpe.beqList]
  | a :: as, [] => by simp [Tpe.beqList]
  | a :: as, b :: bs => by simp [Tpe.beqList, Tpe.beq_iff a b, Tpe.beqList_iff as bs]

end

instance : DecidableEq Tpe := fun a b => decidable_of_iff _ (Tpe.beq_iff a b)

structure TypeParameter where
  id : SymbolIdentifier
  flags : List Flag
deriving DecidableEq

structure TypeParameterDef where
  tp : TypeParameter
deriving DecidableEq

structure Variable where
  id : SymbolIdentifier
  tpe : Tpe
  flags : List Flag
deriving DecidableEq

structure ValDef where
  v : Variable
deriving DecidableEq

/-! ## Expressions -/

inductive Literal where
  | unit
  | boolean (value : Bool)
  | bv (signed : Bool) (value : Int) (size : Nat)
  | string (value : String)
deriving DecidableEq

inductive UnaryOperator where
  | not
  | bvNot
  | uMinus
deriving DecidableEq

inductive BinaryOperator where
  | equals
  | plus
  | minus
  | times
  | division
  | remainder
  | lessThan
  | lessEquals
  | greaterEquals
  | greaterThan
  | bvXor
  | bvAnd
  | bvOr
  | bvShiftLeft
  | bvAShiftRight
  | bvLShiftRight
  | setAdd
  | setDifference
  | setIntersection
  | setUnion
  | subsetOf
deriving DecidableEq

inductive Pattern where
  | wildcard (binder : Option ValDef)
  | literal (binder : Option ValDef) (lit : Literal)
  | tuple (binder : Option ValDef) (subPatterns : List Pattern)
  | adt (binder : Option ValDef) (id : SymbolIdentifier) (tps : List Tpe)
      (subPatterns : List Pattern)

mutual

inductive Expr where
  | variable (v : Variable)
  | literal (lit : Literal)
  | unary (op : UnaryOperator) (arg : Expr)
  | binary (op : BinaryOperator) (lhs rhs : Expr)
  | bvWideningCast (expr : Expr) (newType : Tpe)
  | and (exprs : List Expr)
  | or (exprs : List Expr)
  | tuple (exprs : List Expr)
  | tupleSelect (expr : Expr) (index : Nat)
  | adtSelector (expr : Expr) (selector : SymbolIdentifier)
  | adt (id : SymbolIdentifier) (tps : List Tpe) (args : List Expr)
  | functionInvocation (id : SymbolIdentifier) (tps : List Tpe) (args : List Expr)
  | finiteSet (elements : List Expr) (base : Tpe)
  | letIn (vd : ValDef) (value body : Expr)
  | block (exprs : List Expr) (last : Expr)
  | ifExpr (cond thenn elze : Expr)
  | matchExpr (scrutinee : Expr) (cases : List MatchCase)
  | error (tpe : Tpe) (description : String)
  | noTree (tpe : Tpe)
  | decreases (measure body : Expr)
  | require (pred body : Expr)
  | ensuring (body : Expr) (params : List ValDef) (pred : Expr)

inductive MatchCase where
  | mk (pattern : Pattern) (optGuard : Option Expr) (rhs : Expr)

end

abbrev Expr.unitLiteral : Expr := .literal .unit

/-! ## Definitions -/

structure ADTConstructor where
  id : SymbolIdentifier
  sort : SymbolIdentifier
  fields : List ValDef
deriving DecidableEq

structure ADTSort where
  id : SymbolIdentifier
  tparams : List TypeParameterDef
  constructors : List ADTConstructor
  flags : List Flag
deriving DecidableEq

structure FunDef where
  id : SymbolIdentifier
  tparams : List TypeParameterDef
  params : List ValDef
  returnType : Tpe
  fullBody : Expr
  flags : List Flag

/-- Extract specs, if any, and wrap them around the body. -/
def makeAnd : List Expr → Expr
  | [] => .noTree .untyped
  | [expr] => expr
  | exprs => .and exprs

end St
