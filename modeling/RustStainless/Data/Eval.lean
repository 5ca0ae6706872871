import Mathlib.Algebra.Order.Ring.Int
import RustStainless.Data.Ast

/-!
# The meaning of expressions

An evaluator for Stainless expressions. What the functions of a program return and which fields its
constructors have is a parameter; an expression has no value where it is stuck, fails or diverges.
-/

namespace St

/-! ## Values -/

/-- An ADT value has the global id of its constructor. -/
inductive Value where
  | unit
  | boolean (value : Bool)
  | integer (value : Int)
  | bv (signed : Bool) (value : Int) (size : Nat)
  | string (value : String)
  | tuple (values : List Value)
  | adt (constructor : Int) (fields : List Value)
  | set (elements : List Value)

mutual

/-- Equality of values. Sets are compared by their elements. -/
def Value.same : Value → Value → Bool
  | .unit, .unit => true
  | .boolean a, .boolean b => a == b
  | .integer a, .integer b => a == b
  | .bv s a n, .bv s' b n' => s == s' && a == b && n == n'
  | .string a, .string b => a == b
  | .tuple vs, .tuple ws => Value.sameAll vs ws
  | .adt c vs, .adt c' ws => c == c' && Value.sameAll vs ws
  | .set vs, .set ws => Value.subset vs ws && ws.all fun w => Value.contains vs w
  | _, _ => false

def Value.sameAll : List Value → List Value → Bool
  | [], [] => true
  | v :: vs, w :: ws => Value.same v w && Value.sameAll vs ws
  | _, _ => false

def Value.subset : List Value → List Value → Bool
  | [], _ => true
  | v :: vs, ws => ws.any (fun w => Value.same v w) && Value.subset vs ws

def Value.contains : List Value → Value → Bool
  | [], _ => false
  | v :: vs, w => Value.same v w || Value.contains vs w

end

/-! ## Bit vectors -/

/-- The value of a signed or unsigned bit vector with the lowest bits of `v`. -/
def wrap (signed : Bool) (size : Nat) (v : Int) : Int :=
  if signed then Int.bmod v (2 ^ size) else v % 2 ^ size

/-- The pattern of a value as a number. -/
def bitsOf (size : Nat) (v : Int) : Nat := (v % 2 ^ size).toNat

/-- A literal has a value if it is in the range of its type. -/
def Literal.value : Literal → Option Value
  | .unit => some .unit
  | .boolean b => some (.boolean b)
  | .bv signed v size => if wrap signed size v = v then some (.bv signed v size) else none
  | .string s => some (.string s)

/-- Operators on two bit vectors of one type. -/
def bvBinary (op : BinaryOperator) (signed : Bool) (size : Nat) (x y : Int) : Option Value :=
  let number (v : Int) : Option Value := some (.bv signed (wrap signed size v) size)
  let truth (b : Bool) : Option Value := some (.boolean b)
  match op with
  | .plus => number (x + y)
  | .minus => number (x - y)
  | .times => number (x * y)
  | .division => if y = 0 then none else number (x.tdiv y)
  | .remainder => if y = 0 then none else number (x.tmod y)
  | .lessThan => truth (x < y)
  | .lessEquals => truth (x ≤ y)
  | .greaterEquals => truth (x ≥ y)
  | .greaterThan => truth (x > y)
  | .bvXor => number (bitsOf size x ^^^ bitsOf size y : Nat)
  | .bvAnd => number (bitsOf size x &&& bitsOf size y : Nat)
  | .bvOr => number (bitsOf size x ||| bitsOf size y : Nat)
  | .bvShiftLeft => number (x * 2 ^ bitsOf size y)
  | .bvAShiftRight => number (x / 2 ^ bitsOf size y)
  | .bvLShiftRight => number (bitsOf size x / 2 ^ bitsOf size y : Nat)
  | _ => none

/-! ## Operators -/

def evalUnary : UnaryOperator → Value → Option Value
  | .not, .boolean b => some (.boolean (!b))
  | .bvNot, .bv signed v size => some (.bv signed (wrap signed size (-v - 1)) size)
  | .uMinus, .bv signed v size => some (.bv signed (wrap signed size (-v)) size)
  | .uMinus, .integer v => some (.integer (-v))
  | _, _ => none

/-- Operators on sets, and the one that adds an element. -/
def setBinary (op : BinaryOperator) (vs : List Value) (w : Value) : Option Value :=
  match op, w with
  | .setAdd, w => some (.set (w :: vs))
  | .setUnion, .set ws => some (.set (vs ++ ws))
  | .setIntersection, .set ws => some (.set (vs.filter (Value.contains ws)))
  | .setDifference, .set ws => some (.set (vs.filter fun v => !Value.contains ws v))
  | .subsetOf, .set ws => some (.boolean (Value.subset vs ws))
  | _, _ => none

def evalBinary (op : BinaryOperator) (v w : Value) : Option Value :=
  if op = .equals then some (.boolean (v.same w))
  else
    match v, w with
    | .bv s x n, .bv s' y n' => if s = s' ∧ n = n' then bvBinary op s n x y else none
    | .set vs, w => setBinary op vs w
    | _, _ => none

/-- The same number with more bits. -/
def evalWiden : Value → Tpe → Option Value
  | .bv signed v size, .bvType signed' size' =>
    if signed = signed' ∧ size < size' then some (.bv signed v size') else none
  | _, _ => none

/-! ## Environments and programs -/

/-- The values of the variables, by global id. -/
abbrev Env := Int → Option Value

def Env.set (ρ : Env) (v : Variable) (value : Value) : Env :=
  fun k => if k = v.id.globalId then some value else ρ k

def Env.setBinder (ρ : Env) (binder : Option ValDef) (value : Value) : Env :=
  match binder with
  | some vd => ρ.set vd.v value
  | none => ρ

/--
What the rest of a program says: the fields of the constructors, all by their global ids, and the
results of calls.
-/
structure Program where
  fields : Int → Option (List Int)
  call : SymbolIdentifier → List Tpe → List Value → Option Value

/-! ## Patterns -/

/-- Does the literal of a pattern match? -/
def Literal.matchesValue (lit : Literal) (value : Value) : Bool :=
  match lit.value with
  | some v => v.same value
  | none => false

mutual

/-- The bindings of a pattern that matches. -/
def Pattern.bind : Pattern → Value → Env → Option Env
  | .wildcard binder, value, ρ => some (ρ.setBinder binder value)
  | .literal binder lit, value, ρ =>
    if lit.matchesValue value then some (ρ.setBinder binder value) else none
  | .tuple binder subPatterns, .tuple values, ρ =>
    Pattern.bindAll subPatterns values (ρ.setBinder binder (.tuple values))
  | .adt binder id _ subPatterns, .adt constructor fields, ρ =>
    if id.globalId = constructor then
      Pattern.bindAll subPatterns fields (ρ.setBinder binder (.adt constructor fields))
    else none
  | .tuple _ _, _, _ | .adt _ _ _ _, _, _ => none

def Pattern.bindAll : List Pattern → List Value → Env → Option Env
  | [], [], ρ => some ρ
  | p :: ps, v :: vs, ρ =>
    match Pattern.bind p v ρ with
    | some ρ => Pattern.bindAll ps vs ρ
    | none => none
  | _, _, _ => none

end

/-! ## Expressions -/

/-- The value of a condition. -/
def Value.truth : Value → Option Bool
  | .boolean b => some b
  | _ => none

/-- The member of a tuple, counted from 1. -/
def evalTupleSelect : Value → Nat → Option Value
  | .tuple values, index + 1 => values[index]?
  | _, _ => none

/-- The field of an ADT value that a selector names. -/
def evalSelector (P : Program) (selector : SymbolIdentifier) : Value → Option Value
  | .adt constructor values =>
    (P.fields constructor).bind fun ids => values[ids.idxOf selector.globalId]?
  | _ => none

section

variable (P : Program)

mutual

/-- The value of an expression. -/
def Expr.eval : Env → Expr → Option Value
  | ρ, .variable v => ρ v.id.globalId
  | _, .literal lit => lit.value
  | ρ, .unary op arg => (Expr.eval ρ arg).bind (evalUnary op)
  | ρ, .binary op lhs rhs =>
    (Expr.eval ρ lhs).bind fun v => (Expr.eval ρ rhs).bind fun w => evalBinary op v w
  | ρ, .bvWideningCast expr newType => (Expr.eval ρ expr).bind fun v => evalWiden v newType
  | ρ, .and exprs => (Expr.evalAnd ρ exprs).map .boolean
  | ρ, .or exprs => (Expr.evalOr ρ exprs).map .boolean
  | ρ, .tuple exprs => (Expr.evalAll ρ exprs).map .tuple
  | ρ, .tupleSelect expr index => (Expr.eval ρ expr).bind fun v => evalTupleSelect v index
  | ρ, .adtSelector expr selector => (Expr.eval ρ expr).bind (evalSelector P selector)
  | ρ, .adt id _ args => (Expr.evalAll ρ args).map (.adt id.globalId)
  | ρ, .functionInvocation id tps args => (Expr.evalAll ρ args).bind (P.call id tps)
  | ρ, .finiteSet elements _ => (Expr.evalAll ρ elements).map .set
  | ρ, .letIn vd value body =>
    (Expr.eval ρ value).bind fun v => Expr.eval (ρ.set vd.v v) body
  | ρ, .block exprs last => (Expr.evalAll ρ exprs).bind fun _ => Expr.eval ρ last
  | ρ, .ifExpr cond thenn elze =>
    ((Expr.eval ρ cond).bind Value.truth).bind fun
      | true => Expr.eval ρ thenn
      | false => Expr.eval ρ elze
  | ρ, .matchExpr scrutinee cases =>
    (Expr.eval ρ scrutinee).bind fun v => Expr.evalCases ρ v cases
  | _, .error _ _ | _, .noTree _ => none
  | ρ, .decreases _ body => Expr.eval ρ body
  | ρ, .require pred body =>
    ((Expr.eval ρ pred).bind Value.truth).bind fun
      | true => Expr.eval ρ body
      | false => none
  | ρ, .ensuring body params pred =>
    (Expr.eval ρ body).bind fun v =>
      ((Expr.eval (ρ.setBinder params.head? v) pred).bind Value.truth).bind fun
        | true => some v
        | false => none

def Expr.evalAll : Env → List Expr → Option (List Value)
  | _, [] => some []
  | ρ, e :: es => (Expr.eval ρ e).bind fun v => (Expr.evalAll ρ es).map fun vs => v :: vs

/-- Conjunctions are evaluated from the left, and only as far as needed. -/
def Expr.evalAnd : Env → List Expr → Option Bool
  | _, [] => some true
  | ρ, e :: es =>
    ((Expr.eval ρ e).bind Value.truth).bind fun
      | true => Expr.evalAnd ρ es
      | false => some false

def Expr.evalOr : Env → List Expr → Option Bool
  | _, [] => some false
  | ρ, e :: es =>
    ((Expr.eval ρ e).bind Value.truth).bind fun
      | true => some true
      | false => Expr.evalOr ρ es

/-- The first case is taken whose pattern matches and whose guard, if there is one, is true. -/
def Expr.evalCases : Env → Value → List MatchCase → Option Value
  | _, _, [] => none
  | ρ, v, .mk pattern optGuard rhs :: cases =>
    match Pattern.bind pattern v ρ with
    | none => Expr.evalCases ρ v cases
    | some ρ' =>
      (Expr.evalGuard ρ' optGuard).bind fun
        | true => Expr.eval ρ' rhs
        | false => Expr.evalCases ρ v cases

def Expr.evalGuard : Env → Option Expr → Option Bool
  | _, none => some true
  | ρ, some guard => (Expr.eval ρ guard).bind Value.truth

end

end

end St
