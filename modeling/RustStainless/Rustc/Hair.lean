import RustStainless.Rustc.Ty

/-!
# HAIR

The typed expression trees that the extractor traverses. Mirroring is done: an `ExprRef` is the
expression itself. Every expression and pattern carries its type.
-/

namespace Hair

open Rustc

inductive BorrowKind where
  | shared
  | shallow
  | unique
  | mut
deriving DecidableEq

inductive BindingMode where
  | byValue
  | byRef (kind : BorrowKind)
deriving DecidableEq

inductive UnOp where
  | not
  | neg
deriving DecidableEq

inductive BinOp where
  | add
  | sub
  | mul
  | div
  | rem
  | bitXor
  | bitAnd
  | bitOr
  | shl
  | shr
  | eq
  | lt
  | le
  | ne
  | ge
  | gt
  | offset
deriving DecidableEq

inductive LogicalOp where
  | and
  | or
deriving DecidableEq

/-- `other` stands for slice, array, range and or-patterns. -/
inductive Pat where
  | wild (ty : Ty)
  | binding (ty : Ty) (mutability : Mutability) (mode : BindingMode) (var : HirId)
      (subpattern : Option Pat)
  | variant (ty : Ty) (adtDef : DefId) (substs : List Ty) (variantIndex : Nat)
      (subpatterns : List (Nat × Pat))
  | leaf (ty : Ty) (subpatterns : List (Nat × Pat))
  | constant (ty : Ty) (value : Const)
  | deref (ty : Ty) (subpattern : Pat)
  | ascribeUserType (ty : Ty) (subpattern : Pat)
  | other (ty : Ty)

mutual

/--
The fields of a construction are the pairs of field index and initializer, in source order; `base`
tells whether there is a functional update base.

`other` stands for the kinds that are never extracted: closures, loops, assignments, casts, calls
of intrinsics and so on.
-/
inductive Expr where
  | literal (ty : Ty) (konst : Const)
  | unary (ty : Ty) (op : UnOp) (arg : Expr)
  | binary (ty : Ty) (op : BinOp) (lhs rhs : Expr)
  | logicalOp (ty : Ty) (op : LogicalOp) (lhs rhs : Expr)
  | tuple (ty : Ty) (fields : List Expr)
  | field (ty : Ty) (lhs : Expr) (name : Nat)
  | varRef (ty : Ty) (id : HirId)
  | call (ty : Ty) (funTy : Ty) (args : List Expr)
  | adt (ty : Ty) (adtDef : DefId) (variantIndex : Nat) (substs : List Ty)
      (fields : List (Nat × Expr)) (base : Bool)
  | block (ty : Ty) (safe : Bool) (stmts : List Stmt) (expr : Option Expr)
  | matchE (ty : Ty) (scrutinee : Expr) (arms : List Arm)
  | scope (ty : Ty) (value : Expr)
  | use (ty : Ty) (source : Expr)
  | neverToAny (ty : Ty) (source : Expr)
  | deref (ty : Ty) (arg : Expr)
  | borrow (ty : Ty) (kind : BorrowKind) (arg : Expr)
  | other (ty : Ty) (kind : String)

inductive Stmt where
  | expr (e : Expr)
  | letS (pattern : Pat) (initializer : Option Expr)

inductive Arm where
  | mk (pattern : Pat) (guard : Option Expr) (body : Expr)

end

/-- The type of an expression. -/
def Expr.ty : Expr → Ty
  | .literal ty _ | .unary ty _ _ | .binary ty _ _ _ | .logicalOp ty _ _ _ | .tuple ty _
  | .field ty _ _ | .varRef ty _ | .call ty _ _ | .adt ty _ _ _ _ _ | .block ty _ _ _
  | .matchE ty _ _ | .scope ty _ | .use ty _ | .neverToAny ty _ | .deref ty _ | .borrow ty _ _
  | .other ty _ => ty

/-- The type of the values a pattern is matched against. -/
def Pat.ty : Pat → Ty
  | .wild ty | .binding ty _ _ _ _ | .variant ty _ _ _ _ | .leaf ty _ | .constant ty _
  | .deref ty _ | .ascribeUserType ty _ | .other ty => ty

def Arm.pattern : Arm → Pat
  | .mk pattern _ _ => pattern

def Arm.guard : Arm → Option Expr
  | .mk _ guard _ => guard

def Arm.body : Arm → Expr
  | .mk _ _ body => body

/-! ## The variables of a tree -/

mutual

/-- The variables that a pattern binds. -/
def Pat.vars : Pat → List HirId
  | .wild _ | .constant _ _ | .other _ => []
  | .binding _ _ _ var subpattern => var :: optVars subpattern
  | .variant _ _ _ _ subpatterns | .leaf _ subpatterns => fieldVars subpatterns
  | .deref _ subpattern | .ascribeUserType _ subpattern => subpattern.vars

def Pat.optVars : Option Pat → List HirId
  | none => []
  | some p => p.vars

def Pat.fieldVars : List (Nat × Pat) → List HirId
  | [] => []
  | (_, p) :: ps => p.vars ++ fieldVars ps

end

mutual

/-- The variables that occur in an expression, referred to or bound. -/
def Expr.vars : Expr → List HirId
  | .literal _ _ | .other _ _ => []
  | .varRef _ id => [id]
  | .unary _ _ arg | .field _ arg _ | .scope _ arg | .use _ arg | .neverToAny _ arg
  | .deref _ arg | .borrow _ _ arg => arg.vars
  | .binary _ _ lhs rhs | .logicalOp _ _ lhs rhs => lhs.vars ++ rhs.vars
  | .tuple _ fields => listVars fields
  | .call _ _ args => listVars args
  | .adt _ _ _ _ fields _ => fieldVars fields
  | .block _ _ stmts expr => stmtVars stmts ++ optVars expr
  | .matchE _ scrutinee arms => scrutinee.vars ++ armVars arms

def Expr.listVars : List Expr → List HirId
  | [] => []
  | e :: es => e.vars ++ listVars es

def Expr.fieldVars : List (Nat × Expr) → List HirId
  | [] => []
  | (_, e) :: es => e.vars ++ fieldVars es

def Expr.optVars : Option Expr → List HirId
  | none => []
  | some e => e.vars

def Expr.stmtVars : List Stmt → List HirId
  | [] => []
  | .expr e :: rest => e.vars ++ stmtVars rest
  | .letS pattern initializer :: rest => pattern.vars ++ optVars initializer ++ stmtVars rest

def Expr.armVars : List Arm → List HirId
  | [] => []
  | .mk pattern guard body :: rest => pattern.vars ++ optVars guard ++ body.vars ++ armVars rest

end

end Hair
