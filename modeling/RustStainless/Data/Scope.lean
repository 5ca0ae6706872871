import RustStainless.Data.Ast

/-!
# Free variables

The variables that a pattern binds, and the variables that are free in an expression. A `Let` binds
its variable in its body, a match case the variables of its pattern in guard and body, and the
lambda of an `Ensuring` its parameters in the predicate.
-/

namespace St

/-! ## Patterns -/

def binderVars : Option ValDef → List Variable
  | none => []
  | some vd => [vd.v]

mutual

/-- The variables that a pattern binds. -/
def Pattern.vars : Pattern → List Variable
  | .wildcard binder | .literal binder _ => binderVars binder
  | .tuple binder subPatterns | .adt binder _ _ subPatterns =>
    binderVars binder ++ Pattern.listVars subPatterns

def Pattern.listVars : List Pattern → List Variable
  | [] => []
  | p :: ps => p.vars ++ listVars ps

end

theorem Pattern.mem_listVars {v : Variable} :
    ∀ {ps : List Pattern}, v ∈ Pattern.listVars ps ↔ ∃ p ∈ ps, v ∈ p.vars
  | [] => by simp [Pattern.listVars]
  | p :: ps => by
    have ih : v ∈ Pattern.listVars ps ↔ ∃ p ∈ ps, v ∈ p.vars := Pattern.mem_listVars
    simp [Pattern.listVars, ih]

/-! ## Expressions -/

mutual

/-- The variables that are free in an expression. -/
def Expr.freeVars : Expr → List Variable
  | .variable v => [v]
  | .literal _ | .error _ _ | .noTree _ => []
  | .unary _ arg => arg.freeVars
  | .binary _ lhs rhs => lhs.freeVars ++ rhs.freeVars
  | .bvWideningCast expr _ | .tupleSelect expr _ | .adtSelector expr _ => expr.freeVars
  | .and exprs | .or exprs | .tuple exprs | .adt _ _ exprs | .functionInvocation _ _ exprs
  | .finiteSet exprs _ => Expr.listFreeVars exprs
  | .letIn vd value body => value.freeVars ++ body.freeVars.filter (· ≠ vd.v)
  | .block exprs last => Expr.listFreeVars exprs ++ last.freeVars
  | .ifExpr cond thenn elze => cond.freeVars ++ thenn.freeVars ++ elze.freeVars
  | .matchExpr scrutinee cases => scrutinee.freeVars ++ MatchCase.listFreeVars cases
  | .decreases measure body => measure.freeVars ++ body.freeVars
  | .require pred body => pred.freeVars ++ body.freeVars
  | .ensuring body params pred =>
    body.freeVars ++ pred.freeVars.filter fun v => v ∉ params.map (·.v)

def Expr.listFreeVars : List Expr → List Variable
  | [] => []
  | e :: es => e.freeVars ++ Expr.listFreeVars es

def Expr.optFreeVars : Option Expr → List Variable
  | none => []
  | some e => e.freeVars

def MatchCase.freeVars : MatchCase → List Variable
  | .mk pattern optGuard rhs =>
    (Expr.optFreeVars optGuard ++ rhs.freeVars).filter (· ∉ pattern.vars)

def MatchCase.listFreeVars : List MatchCase → List Variable
  | [] => []
  | c :: cs => c.freeVars ++ MatchCase.listFreeVars cs

end

theorem Expr.mem_listFreeVars {v : Variable} :
    ∀ {es : List Expr}, v ∈ Expr.listFreeVars es ↔ ∃ e ∈ es, v ∈ e.freeVars
  | [] => by simp [Expr.listFreeVars]
  | e :: es => by
    have ih : v ∈ Expr.listFreeVars es ↔ ∃ e ∈ es, v ∈ e.freeVars := Expr.mem_listFreeVars
    simp [Expr.listFreeVars, ih]

theorem MatchCase.mem_listFreeVars {v : Variable} :
    ∀ {cs : List MatchCase}, v ∈ MatchCase.listFreeVars cs ↔ ∃ c ∈ cs, v ∈ c.freeVars
  | [] => by simp [MatchCase.listFreeVars]
  | c :: cs => by
    have ih : v ∈ MatchCase.listFreeVars cs ↔ ∃ c ∈ cs, v ∈ c.freeVars :=
      MatchCase.mem_listFreeVars
    simp [MatchCase.listFreeVars, ih]

theorem mem_makeAnd_freeVars {v : Variable} :
    ∀ {es : List Expr}, v ∈ (makeAnd es).freeVars ↔ ∃ e ∈ es, v ∈ e.freeVars
  | [] => by simp [makeAnd, Expr.freeVars]
  | [e] => by simp [makeAnd]
  | e :: e' :: es => by
    rw [makeAnd, Expr.freeVars, Expr.mem_listFreeVars]
    · simp
    · simp

/-! ## Functions -/

/-- Every variable that is free in the body is a parameter. -/
def FunDef.WellScoped (fd : FunDef) : Prop :=
  ∀ v ∈ fd.fullBody.freeVars, v ∈ fd.params.map (·.v)

instance (fd : FunDef) : Decidable fd.WellScoped := inferInstanceAs (Decidable (∀ _ ∈ _, _))

end St
