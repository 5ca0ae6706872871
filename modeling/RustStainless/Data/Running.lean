import RustStainless.Lib.Fuel
import RustStainless.Data.Eval
import RustStainless.Data.Symbols

/-!
# Running a program

The functions of a program are evaluated by fuel, one unit for each call. The specs around a body
are not evaluated when the function is called: whether they hold is what is to be verified.
-/

namespace St

open Lib

/-! ## More results -/

/-- The same constructors, and all results of calls that `P` has. -/
structure Program.Extends (P P' : Program) : Prop where
  fields : P'.fields = P.fields
  call : ∀ id tps ws w, P.call id tps ws = some w → P'.call id tps ws = some w

section Extends

variable {P P' : Program}

theorem evalSelector_extends (hP : P.Extends P') (selector : SymbolIdentifier) (v : Value) :
    evalSelector P' selector v = evalSelector P selector v := by
  cases v with
  | adt constructor values => rw [evalSelector, evalSelector, hP.fields]
  | _ => rfl

mutual

/-- Expressions keep their values if calls keep their results. -/
theorem Expr.eval_extends (hP : P.Extends P') : ∀ (e : Expr) {ρ : Env} {w : Value},
    e.eval P ρ = some w → e.eval P' ρ = some w
  | .variable v, ρ, w, h => by
    rw [Expr.eval] at h ⊢
    exact h
  | .literal lit, ρ, w, h => by
    rw [Expr.eval] at h ⊢
    exact h
  | .unary op arg, ρ, w, h => by
    rw [Expr.eval] at h ⊢
    exact bind_extends h (fun _ => Expr.eval_extends hP arg) (.refl _)
  | .binary op lhs rhs, ρ, w, h => by
    rw [Expr.eval] at h ⊢
    exact bind_extends h (fun _ => Expr.eval_extends hP lhs) fun _ _ h =>
      bind_extends h (fun _ => Expr.eval_extends hP rhs) (.refl _)
  | .bvWideningCast expr newType, ρ, w, h => by
    rw [Expr.eval] at h ⊢
    exact bind_extends h (fun _ => Expr.eval_extends hP expr) (.refl _)
  | .and exprs, ρ, w, h => by
    rw [Expr.eval] at h ⊢
    exact map_extends h fun _ => Expr.evalAnd_extends hP exprs
  | .or exprs, ρ, w, h => by
    rw [Expr.eval] at h ⊢
    exact map_extends h fun _ => Expr.evalOr_extends hP exprs
  | .tuple exprs, ρ, w, h => by
    rw [Expr.eval] at h ⊢
    exact map_extends h fun _ => Expr.evalAll_extends hP exprs
  | .tupleSelect expr index, ρ, w, h => by
    rw [Expr.eval] at h ⊢
    exact bind_extends h (fun _ => Expr.eval_extends hP expr) (.refl _)
  | .adtSelector expr selector, ρ, w, h => by
    rw [Expr.eval] at h ⊢
    refine bind_extends h (fun _ => Expr.eval_extends hP expr) fun v w h => ?_
    rw [evalSelector_extends hP, h]
  | .adt id tps args, ρ, w, h => by
    rw [Expr.eval] at h ⊢
    exact map_extends h fun _ => Expr.evalAll_extends hP args
  | .functionInvocation id tps args, ρ, w, h => by
    rw [Expr.eval] at h ⊢
    exact bind_extends h (fun _ => Expr.evalAll_extends hP args) (hP.call id tps)
  | .finiteSet elements base, ρ, w, h => by
    rw [Expr.eval] at h ⊢
    exact map_extends h fun _ => Expr.evalAll_extends hP elements
  | .letIn vd value body, ρ, w, h => by
    rw [Expr.eval] at h ⊢
    exact bind_extends h (fun _ => Expr.eval_extends hP value) fun _ _ => Expr.eval_extends hP body
  | .block exprs last, ρ, w, h => by
    rw [Expr.eval] at h ⊢
    exact bind_extends h (fun _ => Expr.evalAll_extends hP exprs) fun _ _ =>
      Expr.eval_extends hP last
  | .ifExpr cond thenn elze, ρ, w, h => by
    rw [Expr.eval] at h ⊢
    refine bind_extends h (fun _ h => ?_) fun c _ h => ?_
    · exact bind_extends h (fun _ => Expr.eval_extends hP cond) (.refl _)
    · cases c with
      | true => exact Expr.eval_extends hP thenn h
      | false => exact Expr.eval_extends hP elze h
  | .matchExpr scrutinee cases, ρ, w, h => by
    rw [Expr.eval] at h ⊢
    exact bind_extends h (fun _ => Expr.eval_extends hP scrutinee) fun _ _ =>
      Expr.evalCases_extends hP cases
  | .error _ _, ρ, w, h | .noTree _, ρ, w, h => by simp [Expr.eval] at h
  | .decreases measure body, ρ, w, h => by
    rw [Expr.eval] at h ⊢
    exact Expr.eval_extends hP body h
  | .require pred body, ρ, w, h => by
    rw [Expr.eval] at h ⊢
    refine bind_extends h (fun _ h => ?_) fun c _ h => ?_
    · exact bind_extends h (fun _ => Expr.eval_extends hP pred) (.refl _)
    · cases c with
      | true => exact Expr.eval_extends hP body h
      | false => cases h
  | .ensuring body params pred, ρ, w, h => by
    rw [Expr.eval] at h ⊢
    refine bind_extends h (fun _ => Expr.eval_extends hP body) fun v _ h => ?_
    refine bind_extends h (fun _ h => ?_) (.refl _)
    exact bind_extends h (fun _ => Expr.eval_extends hP pred) (.refl _)

theorem Expr.evalAll_extends (hP : P.Extends P') : ∀ (es : List Expr) {ρ : Env}
    {ws : List Value}, Expr.evalAll P ρ es = some ws → Expr.evalAll P' ρ es = some ws
  | [], ρ, ws, h => by
    rw [Expr.evalAll] at h ⊢
    exact h
  | e :: es, ρ, ws, h => by
    rw [Expr.evalAll] at h ⊢
    exact bind_extends h (fun _ => Expr.eval_extends hP e) fun _ _ h =>
      map_extends h fun _ => Expr.evalAll_extends hP es

theorem Expr.evalAnd_extends (hP : P.Extends P') : ∀ (es : List Expr) {ρ : Env} {b : Bool},
    Expr.evalAnd P ρ es = some b → Expr.evalAnd P' ρ es = some b
  | [], ρ, b, h => by
    rw [Expr.evalAnd] at h ⊢
    exact h
  | e :: es, ρ, b, h => by
    rw [Expr.evalAnd] at h ⊢
    refine bind_extends h (fun _ h => ?_) fun c _ h => ?_
    · exact bind_extends h (fun _ => Expr.eval_extends hP e) (.refl _)
    · cases c with
      | true => exact Expr.evalAnd_extends hP es h
      | false => exact h

theorem Expr.evalOr_extends (hP : P.Extends P') : ∀ (es : List Expr) {ρ : Env} {b : Bool},
    Expr.evalOr P ρ es = some b → Expr.evalOr P' ρ es = some b
  | [], ρ, b, h => by
    rw [Expr.evalOr] at h ⊢
    exact h
  | e :: es, ρ, b, h => by
    rw [Expr.evalOr] at h ⊢
    refine bind_extends h (fun _ h => ?_) fun c _ h => ?_
    · exact bind_extends h (fun _ => Expr.eval_extends hP e) (.refl _)
    · cases c with
      | true => exact h
      | false => exact Expr.evalOr_extends hP es h

theorem Expr.evalCases_extends (hP : P.Extends P') : ∀ (cases : List MatchCase) {ρ : Env}
    {v w : Value}, Expr.evalCases P ρ v cases = some w → Expr.evalCases P' ρ v cases = some w
  | [], ρ, v, w, h => by simp [Expr.evalCases] at h
  | .mk pattern optGuard rhs :: cases, ρ, v, w, h => by
    rw [Expr.evalCases] at h ⊢
    cases hbind : Pattern.bind pattern v ρ with
    | none =>
      simp only [hbind] at h ⊢
      exact Expr.evalCases_extends hP cases h
    | some ρ' =>
      simp only [hbind] at h ⊢
      refine bind_extends h (fun _ => Expr.evalGuard_extends hP optGuard) fun taken _ h => ?_
      cases taken with
      | true => exact Expr.eval_extends hP rhs h
      | false => exact Expr.evalCases_extends hP cases h

theorem Expr.evalGuard_extends (hP : P.Extends P') : ∀ (guard : Option Expr) {ρ : Env}
    {b : Bool}, Expr.evalGuard P ρ guard = some b → Expr.evalGuard P' ρ guard = some b
  | none, ρ, b, h => by
    rw [Expr.evalGuard] at h ⊢
    exact h
  | some guard, ρ, b, h => by
    rw [Expr.evalGuard] at h ⊢
    exact bind_extends h (fun _ => Expr.eval_extends hP guard) (.refl _)

end

end Extends

/-! ## Functions -/

/-- The body of a function without the specs around it. -/
def Expr.withoutSpecs : Expr → Expr
  | .ensuring body _ _ | .require _ body | .decreases _ body => body.withoutSpecs
  | e => e

def Expr.precondition : Expr → Option Expr
  | .ensuring body _ _ => body.precondition
  | .require pred _ => some pred
  | _ => none

/-- The name of the result and what holds of it. -/
def Expr.postcondition : Expr → Option (List ValDef × Expr)
  | .ensuring _ params pred => some (params, pred)
  | _ => none

/-- The parameters have the values of the arguments. -/
def Env.ofParams : List ValDef → List Value → Option Env
  | [], [] => some fun _ => none
  | vd :: vds, w :: ws => (Env.ofParams vds ws).map fun ρ => ρ.set vd.v w
  | _, _ => none

/-- A function, its type arguments and its arguments. -/
abbrev Invocation := SymbolIdentifier × List Tpe × List Value

namespace Symbols

variable (p : Symbols)

/-- The fields of a constructor. -/
def fieldsOf (constructor : Int) : Option (List Int) :=
  ((p.sorts.values.flatMap ADTSort.constructors).find? fun c => c.id.globalId = constructor).map
    fun c => c.fields.map fun vd => vd.v.id.globalId

def withCalls (call : Invocation → Option Value) : Program where
  fields := p.fieldsOf
  call := fun id tps ws => call (id, tps, ws)

/-- The result of a call, where `call` answers the calls in the body. -/
def invoke (call : Invocation → Option Value) (i : Invocation) : Option Value :=
  (p.functions.get? i.1.globalId).bind fun fd =>
    (Env.ofParams fd.params i.2.2).bind fun ρ =>
      fd.fullBody.withoutSpecs.eval (p.withCalls call) ρ

/-- The program with calls that nest at most `n` deep. -/
def program (n : Nat) : Program := p.withCalls (fuelled p.invoke n)

variable {p}

theorem withCalls_extends {call call' : Invocation → Option Value} (h : Extends call call') :
    (p.withCalls call).Extends (p.withCalls call') where
  fields := rfl
  call := fun id tps ws => h (id, tps, ws)

theorem invoke_layer : Layer p.invoke := by
  intro call call' hext i w h
  refine bind_extends h (fun _ h => h) fun fd w h => ?_
  refine bind_extends h (fun _ h => h) fun ρ w h => ?_
  exact Expr.eval_extends (withCalls_extends hext) _ h

/-- More fuel keeps the values of expressions. -/
theorem program_extends {m n : Nat} (h : m ≤ n) : (p.program m).Extends (p.program n) :=
  withCalls_extends (fuelled_mono invoke_layer h)

end Symbols

/-! ## Verification -/

/--
What is verified of a function, for some arguments: if its precondition holds and its body has a
value, then the postcondition is not false of this value.
-/
def FunDef.Verified (p : Symbols) (fd : FunDef) (ws : List Value) : Prop :=
  ∀ n σ w, Env.ofParams fd.params ws = some σ →
    (∀ pred ∈ fd.fullBody.precondition, pred.eval (p.program n) σ = some (.boolean true)) →
    fd.fullBody.withoutSpecs.eval (p.program n) σ = some w →
    ∀ post ∈ fd.fullBody.postcondition,
      post.2.eval (p.program n) (σ.setBinder post.1.head? w) ≠ some (.boolean false)

end St
