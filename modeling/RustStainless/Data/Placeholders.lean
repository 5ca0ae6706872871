import RustStainless.Data.Ast

/-!
# Placeholders

`Untyped` and `NoTree` stand where the extractor had nothing to put. A tree is proper when neither
occurs in it.
-/

namespace St

/-! ## Types -/

mutual

/-- There is no `Untyped` in the type. -/
def Tpe.Proper : Tpe → Prop
  | .booleanType | .integerType | .unitType | .stringType | .bvType _ _ | .typeParameter _ _ => True
  | .tupleType bases => Tpe.ProperAll bases
  | .setType base => Tpe.Proper base
  | .adtType _ tps => Tpe.ProperAll tps
  | .functionType params result => Tpe.ProperAll params ∧ Tpe.Proper result
  | .untyped => False

def Tpe.ProperAll : List Tpe → Prop
  | [] => True
  | t :: ts => Tpe.Proper t ∧ Tpe.ProperAll ts

end

theorem Tpe.properAll_iff : ∀ {ts : List Tpe}, Tpe.ProperAll ts ↔ ∀ t ∈ ts, t.Proper
  | [] => by simp [Tpe.ProperAll]
  | t :: ts => by
    have ih : Tpe.ProperAll ts ↔ ∀ t ∈ ts, t.Proper := Tpe.properAll_iff
    simp [Tpe.ProperAll, ih]

/-- A variable is as proper as its type. -/
def Variable.Proper (v : Variable) : Prop := v.tpe.Proper

def ValDef.Proper (vd : ValDef) : Prop := vd.v.Proper

/-- An optional part is proper when it is missing. -/
def OptProper {α : Type} (proper : α → Prop) (a : Option α) : Prop := ∀ x ∈ a, proper x

@[simp] theorem optProper_none {α : Type} {proper : α → Prop} : OptProper proper none := by
  simp [OptProper]

@[simp] theorem optProper_some {α : Type} {proper : α → Prop} {a : α} :
    OptProper proper (some a) ↔ proper a := by
  simp [OptProper]

/-! ## Patterns -/

mutual

def Pattern.Proper : Pattern → Prop
  | .wildcard binder => OptProper ValDef.Proper binder
  | .literal binder _ => OptProper ValDef.Proper binder
  | .tuple binder subPatterns => OptProper ValDef.Proper binder ∧ Pattern.ProperAll subPatterns
  | .adt binder _ tps subPatterns =>
    OptProper ValDef.Proper binder ∧ Tpe.ProperAll tps ∧ Pattern.ProperAll subPatterns

def Pattern.ProperAll : List Pattern → Prop
  | [] => True
  | p :: ps => Pattern.Proper p ∧ Pattern.ProperAll ps

end

/-! ## Expressions -/

mutual

/-- There is neither a `NoTree` nor an `Untyped` in the expression. -/
def Expr.Proper : Expr → Prop
  | .variable v => v.Proper
  | .literal _ => True
  | .unary _ arg => Expr.Proper arg
  | .binary _ lhs rhs => Expr.Proper lhs ∧ Expr.Proper rhs
  | .bvWideningCast expr newType => Expr.Proper expr ∧ newType.Proper
  | .and exprs | .or exprs | .tuple exprs => Expr.ProperAll exprs
  | .tupleSelect expr _ | .adtSelector expr _ => Expr.Proper expr
  | .adt _ tps args | .functionInvocation _ tps args => Tpe.ProperAll tps ∧ Expr.ProperAll args
  | .finiteSet elements base => Expr.ProperAll elements ∧ base.Proper
  | .letIn vd value body => vd.Proper ∧ Expr.Proper value ∧ Expr.Proper body
  | .block exprs last => Expr.ProperAll exprs ∧ Expr.Proper last
  | .ifExpr cond thenn elze => Expr.Proper cond ∧ Expr.Proper thenn ∧ Expr.Proper elze
  | .matchExpr scrutinee cases => Expr.Proper scrutinee ∧ MatchCase.ProperAll cases
  | .error tpe _ => tpe.Proper
  | .noTree _ => False
  | .decreases measure body => Expr.Proper measure ∧ Expr.Proper body
  | .require pred body => Expr.Proper pred ∧ Expr.Proper body
  | .ensuring body params pred =>
    Expr.Proper body ∧ (∀ vd ∈ params, vd.Proper) ∧ Expr.Proper pred

def Expr.ProperAll : List Expr → Prop
  | [] => True
  | e :: es => Expr.Proper e ∧ Expr.ProperAll es

def Expr.ProperOpt : Option Expr → Prop
  | none => True
  | some e => Expr.Proper e

def MatchCase.Proper : MatchCase → Prop
  | .mk pattern optGuard rhs => pattern.Proper ∧ Expr.ProperOpt optGuard ∧ Expr.Proper rhs

def MatchCase.ProperAll : List MatchCase → Prop
  | [] => True
  | c :: cs => MatchCase.Proper c ∧ MatchCase.ProperAll cs

end

theorem Expr.properAll_iff : ∀ {es : List Expr}, Expr.ProperAll es ↔ ∀ e ∈ es, e.Proper
  | [] => by simp [Expr.ProperAll]
  | e :: es => by
    have ih : Expr.ProperAll es ↔ ∀ e ∈ es, e.Proper := Expr.properAll_iff
    simp [Expr.ProperAll, ih]

/-- The conjunction of at least one proper expression is proper. -/
theorem makeAnd_proper : ∀ {es : List Expr}, es ≠ [] → Expr.ProperAll es → (makeAnd es).Proper
  | [], hne, _ => absurd rfl hne
  | [_], _, h => h.1
  | _ :: _ :: _, _, h => h

/-- Without any expression there is nothing but a placeholder. -/
theorem makeAnd_nil : ¬ (makeAnd []).Proper := id

/-! ## Definitions -/

def ADTConstructor.Proper (c : ADTConstructor) : Prop := ∀ field ∈ c.fields, field.Proper

def ADTSort.Proper (sort : ADTSort) : Prop := ∀ c ∈ sort.constructors, c.Proper

/-- The types of the parameters and of the result. -/
def FunDef.SignatureProper (fd : FunDef) : Prop :=
  (∀ vd ∈ fd.params, vd.Proper) ∧ fd.returnType.Proper

/-- The body is a single `NoTree`, and the function is flagged to be external. -/
def FunDef.IsStub (fd : FunDef) : Prop :=
  fd.fullBody = .noTree fd.returnType ∧ .external ∈ fd.flags

end St
