import RustStainless.Lib.Fuel
import RustStainless.Rustc.Eval

/-!
# Running the functions of a crate

The evaluator of `Rustc/Eval.lean` with calls of functions that have a body in the crate, by fuel:
every layer of an expression takes one unit of it, and a call goes on with the body of the function.
Calls of other functions have no value, and neither have the standard items: a panic has none, and
the functions on sets are not implemented.
-/

namespace Hair

open Rustc Lib

/-! ## Parameters -/

/-- A parameter is bound to the argument or to a reference to it. -/
def bindParam : Hir.Pat → Value → Option (HirId × Value)
  | .binding hirId _ (some (.byValue _)) _ none, v => some (hirId, v)
  | .binding hirId _ (some (.byReference _)) _ none, v => some (hirId, .ref v)
  | _, _ => none

def bindParams : List Hir.Pat → List Value → Option (List (HirId × Value))
  | [], [] => some []
  | p :: ps, v :: vs => (bindParam p v).bind fun b => (bindParams ps vs).map fun bs => b :: bs
  | _, _ => none

/-- The environment of a body at its start. -/
def paramEnv (bindings : List (HirId × Value)) : Env := Env.bindAll (fun _ => none) bindings

/-! ## One layer of an expression -/

/-- What is evaluated: an expression in an environment. -/
abbrev Task := Env × Expr

section

variable (tcx : Tcx) (accepts : Accepts)

section Parts

variable (ev : Task → Option Value)

def evalEach (ρ : Env) (es : List Expr) : Option (List Value) := es.mapM fun e => ev (ρ, e)

def evalInits (ρ : Env) (fields : List (Nat × Expr)) : Option (List (Nat × Value)) :=
  fields.mapM fun f => (ev (ρ, f.2)).map fun v => (f.1, v)

/-- A block without a final expression has the value `()`. -/
def evalLast (ρ : Env) : Option Expr → Option Value
  | none => some (.tuple [])
  | some e => ev (ρ, e)

/-- The environment behind the statements. -/
def runStmts : Env → List Stmt → Option Env
  | ρ, [] => some ρ
  | ρ, .expr e :: rest => (ev (ρ, e)).bind fun _ => runStmts ρ rest
  | ρ, .letS pattern (some initializer) :: rest =>
    (ev (ρ, initializer)).bind fun v =>
      match pattern.matchValue tcx v with
      | some (some bs) => if accepts.pat pattern then runStmts (ρ.bindAll bs) rest else none
      | _ => none
  | _, .letS _ none :: _ => none

def runGuard (ρ : Env) : Option Expr → Option Bool
  | none => some true
  | some guard => (ev (ρ, guard)).bind Value.truth

/-- The first arm is taken whose pattern matches and whose guard, if there is one, is true. -/
def runArms (ρ : Env) (v : Value) : List Arm → Option Value
  | [] => none
  | .mk pattern guard body :: rest =>
    match pattern.matchValue tcx v with
    | none => none
    | some none => runArms ρ v rest
    | some (some bs) =>
      if accepts.pat pattern then
        (runGuard ev (ρ.bindAll bs) guard).bind fun
          | true => ev (ρ.bindAll bs, body)
          | false => runArms ρ v rest
      else none

/-- Start the body of a function with the arguments. -/
def enter (did : DefId) (vs : List Value) : Option Value :=
  (bindParams (tcx.bodyOf did).params vs).bind fun bs => ev (paramEnv bs, (tcx.bodyOf did).value)

/-- The functions that can be called, by their bodies. -/
def callFn (fns : List DefId) : Ty → List Value → Option Value
  | .fnDef did _, vs =>
    if did ∈ fns ∧ tcx.stdItems.defToItemOpt did = none then enter tcx ev did vs else none
  | _, _ => none

/-- The value of an expression, where `ev` evaluates its parts and `call` the functions. -/
def Expr.layer (call : Ty → List Value → Option Value) (ρ : Env) : Expr → Option Value
  | .literal _ konst => if accepts.konst konst then constValue konst else none
  | .unary _ op arg => (ev (ρ, arg)).bind (evalUnary op)
  | .binary _ op lhs rhs =>
    (ev (ρ, lhs)).bind fun v => (ev (ρ, rhs)).bind fun w => evalBinary op v w
  | .logicalOp _ .and lhs rhs =>
    ((ev (ρ, lhs)).bind Value.truth).bind fun
      | true => ev (ρ, rhs)
      | false => some (.bool false)
  | .logicalOp _ .or lhs rhs =>
    ((ev (ρ, lhs)).bind Value.truth).bind fun
      | true => some (.bool true)
      | false => ev (ρ, rhs)
  | .tuple _ fields => (evalEach ev ρ fields).map .tuple
  | .field _ lhs name => (ev (ρ, lhs)).bind (Value.field name)
  | .varRef _ id => ρ id
  | .call _ funTy args =>
    (evalEach ev ρ args).bind fun vs =>
      if isBoxNew tcx funTy then vs.head?.map .box else call funTy vs
  | .adt _ did variantIndex _ fields base =>
    if base then none
    else
      (evalInits ev ρ fields).bind fun values =>
        (numFields tcx did variantIndex).bind fun n =>
          (fieldValues n values).map (.adt did variantIndex)
  | .block _ _ stmts expr => (runStmts tcx accepts ev ρ stmts).bind fun ρ' => evalLast ev ρ' expr
  | .matchE _ scrutinee arms => (ev (ρ, scrutinee)).bind fun v => runArms tcx accepts ev ρ v arms
  | .scope _ value => ev (ρ, value)
  | .use _ source => ev (ρ, source)
  | .deref _ arg => (ev (ρ, arg)).bind Value.unref
  | .borrow _ _ arg => (ev (ρ, arg)).map .ref
  | .neverToAny _ _ | .other _ _ => none

end Parts

variable (fns : List DefId)

/-- A layer of the evaluator. The value must have the type of the expression. -/
def runLayer (ev : Task → Option Value) (t : Task) : Option Value :=
  checked tcx t.2.ty (t.2.layer tcx accepts ev (callFn tcx ev fns) t.1)

/-- The value of an expression, with the functions of `fns`. -/
def run (n : Nat) : Task → Option Value := fuelled (runLayer tcx accepts fns) n

/-- What a function returns. -/
def runFn (n : Nat) (did : DefId) (vs : List Value) : Option Value :=
  enter tcx (run tcx accepts fns n) did vs

end

/-! ## More results -/

section Extends

variable {tcx : Tcx} {accepts accepts' : Accepts} {fns : List DefId} {ev ev' : Task → Option Value}

/-- Whatever is accepted is accepted by `accepts'`. -/
structure Accepts.Within (accepts accepts' : Accepts) : Prop where
  konst : ∀ c, accepts.konst c = true → accepts'.konst c = true
  pat : ∀ p, accepts.pat p = true → accepts'.pat p = true

theorem Accepts.within_all (accepts : Accepts) : accepts.Within .all :=
  ⟨fun _ _ => rfl, fun _ _ => rfl⟩

theorem Accepts.Within.refl (accepts : Accepts) : accepts.Within accepts :=
  ⟨fun _ h => h, fun _ h => h⟩

variable (hacc : accepts.Within accepts') (hev : Extends ev ev')

include hev

theorem evalInits_extends {ρ : Env} {fields : List (Nat × Expr)} {vals : List (Nat × Value)}
    (h : evalInits ev ρ fields = some vals) : evalInits ev' ρ fields = some vals :=
  mapM_extends (fun f _ h => map_extends h (hev (ρ, f.2))) h

theorem evalLast_extends {ρ : Env} {o : Option Expr} {v : Value} (h : evalLast ev ρ o = some v) :
    evalLast ev' ρ o = some v := by
  cases o with
  | none => exact h
  | some e => exact hev _ _ h

theorem runGuard_extends {ρ : Env} {guard : Option Expr} {b : Bool}
    (h : runGuard ev ρ guard = some b) : runGuard ev' ρ guard = some b := by
  cases guard with
  | none => exact h
  | some e => exact bind_extends h (hev (ρ, e)) (.refl _)

theorem enter_extends {did : DefId} {vs : List Value} {v : Value}
    (h : enter tcx ev did vs = some v) : enter tcx ev' did vs = some v :=
  bind_extends h (fun _ h => h) fun _ _ => hev _ _

theorem callFn_extends {funTy : Ty} {vs : List Value} {v : Value}
    (h : callFn tcx ev fns funTy vs = some v) : callFn tcx ev' fns funTy vs = some v := by
  cases funTy with
  | fnDef did substs =>
    simp only [callFn] at h ⊢
    split_ifs at h ⊢
    exact enter_extends hev h
  | _ => cases h

include hacc

theorem runStmts_extends {ρ ρ' : Env} {stmts : List Stmt}
    (h : runStmts tcx accepts ev ρ stmts = some ρ') :
    runStmts tcx accepts' ev' ρ stmts = some ρ' := by
  induction stmts generalizing ρ ρ' with
  | nil => exact h
  | cons stmt rest ih =>
    cases stmt with
    | expr e => exact bind_extends h (hev (ρ, e)) fun _ _ => ih
    | letS pattern initializer =>
      cases initializer with
      | none => cases h
      | some init =>
        refine bind_extends h (hev (ρ, init)) fun v _ h => ?_
        rcases hmatch : pattern.matchValue tcx v with _ | _ | bs
        · simp [hmatch] at h
        · simp [hmatch] at h
        simp only [hmatch] at h ⊢
        split_ifs at h with hpat
        rw [if_pos (hacc.pat _ hpat)]
        exact ih h

theorem runArms_extends {ρ : Env} {v u : Value} {arms : List Arm}
    (h : runArms tcx accepts ev ρ v arms = some u) :
    runArms tcx accepts' ev' ρ v arms = some u := by
  induction arms generalizing u with
  | nil => cases h
  | cons arm rest ih =>
    obtain ⟨pattern, guard, body⟩ := arm
    rw [runArms] at h ⊢
    rcases hmatch : pattern.matchValue tcx v with _ | _ | bs
    · simp [hmatch] at h
    · simp only [hmatch] at h ⊢
      exact ih h
    simp only [hmatch] at h ⊢
    split_ifs at h with hpat
    rw [if_pos (hacc.pat _ hpat)]
    refine bind_extends h (fun _ => runGuard_extends hev) fun taken _ h => ?_
    cases taken with
    | true => exact hev _ _ h
    | false => exact ih h

/-- A layer has more results if its parts do. -/
theorem runLayer_extends :
    Extends (runLayer tcx accepts fns ev) (runLayer tcx accepts' fns ev') := by
  rintro ⟨ρ, e⟩ v h
  obtain ⟨h, hfits⟩ := checked_eq_some.mp h
  refine checked_eq_some.mpr ⟨?_, hfits⟩
  change e.layer tcx accepts ev (callFn tcx ev fns) ρ = some v at h
  change e.layer tcx accepts' ev' (callFn tcx ev' fns) ρ = some v
  cases e with
  | literal ty konst =>
    simp only [Expr.layer] at h ⊢
    split_ifs at h with hk
    rw [if_pos (hacc.konst _ hk)]
    exact h
  | unary ty op arg => exact bind_extends h (hev _) (.refl _)
  | binary ty op lhs rhs =>
    exact bind_extends h (hev _) fun _ _ h => bind_extends h (hev _) (.refl _)
  | logicalOp ty op lhs rhs =>
    cases op with
    | and | or =>
      refine bind_extends h (fun _ h => bind_extends h (hev _) (.refl _)) fun c _ h => ?_
      cases c with
      | true | false => first | exact h | exact hev _ _ h
  | tuple ty fields => exact map_extends h fun _ => mapM_extends fun e _ => hev (ρ, e) _
  | field ty lhs name => exact bind_extends h (hev _) (.refl _)
  | varRef ty id => exact h
  | call ty funTy args =>
    refine bind_extends h (fun _ => mapM_extends fun e _ => hev (ρ, e) _) fun vs _ h => ?_
    split_ifs at h ⊢
    · exact h
    · exact callFn_extends hev h
  | adt ty did variantIndex substs fields base =>
    simp only [Expr.layer] at h ⊢
    split_ifs at h ⊢
    exact bind_extends h (fun _ => evalInits_extends hev) (.refl _)
  | block ty safe stmts expr =>
    exact bind_extends h (fun _ => runStmts_extends hacc hev) fun _ _ => evalLast_extends hev
  | matchE ty scrutinee arms =>
    exact bind_extends h (hev _) fun _ _ => runArms_extends hacc hev
  | scope ty value | use ty value => exact hev _ _ h
  | deref ty arg => exact bind_extends h (hev _) (.refl _)
  | borrow ty kind arg => exact map_extends h (hev _)
  | neverToAny ty arg | other ty kind => cases h

omit hev hacc

theorem runLayer_layer : Layer (runLayer tcx accepts fns) :=
  fun _ _ => runLayer_extends (.refl accepts)

/-- More fuel keeps what functions return. -/
theorem runFn_mono {m n : Nat} (h : m ≤ n) {did : DefId} {vs : List Value} {v : Value}
    (hv : runFn tcx accepts fns m did vs = some v) : runFn tcx accepts fns n did vs = some v :=
  enter_extends (fuelled_mono runLayer_layer h) hv

/-- What a function returns without some literals and patterns, it returns in Rust. -/
theorem runFn_all {n : Nat} {did : DefId} {vs : List Value} {v : Value}
    (hv : runFn tcx accepts fns n did vs = some v) : runFn tcx .all fns n did vs = some v :=
  enter_extends (fuelled_extends (fun _ _ => runLayer_extends accepts.within_all) n) hv

end Extends

end Hair
