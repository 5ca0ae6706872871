import Mathlib.Algebra.Order.Ring.Int
import RustStainless.Rustc.Tcx

/-!
# The meaning of HAIR

An evaluator for the expressions that are pure: no loops, no assignments, and no calls but
`Box::new`. An expression has no value where Rust panics or overflows, where it does something else,
and where a value does not have the type that is expected of it.
-/

namespace Hair

open Rustc Lib

/-! ## Values -/

inductive Value where
  | bool (value : Bool)
  | int (signed : Bool) (size : Nat) (value : Int)
  | tuple (values : List Value)
  | adt (did : DefId) (variantIndex : Nat) (fields : List Value)
  | ref (value : Value)
  | box (value : Value)

/-- The number that a pattern of bits stands for. -/
def readBits (signed : Bool) {size : Nat} (bits : BitVec size) : Int :=
  if signed then bits.toInt else bits.toNat

/-- A number that the type has. -/
def Representable (signed : Bool) (size : Nat) (v : Int) : Prop :=
  readBits signed (BitVec.ofInt size v) = v

instance (signed : Bool) (size : Nat) (v : Int) : Decidable (Representable signed size v) :=
  inferInstanceAs (Decidable (_ = _))

/-- The signedness and the width of a machine integer, without `isize` and `usize`. -/
def intType : Ty → Option (Bool × Nat)
  | .int t => t.bitWidth.map fun size => (true, size)
  | .uint t => t.bitWidth.map fun size => (false, size)
  | _ => none

section

variable (tcx : Tcx)

/-- How many fields a variant has. -/
def numFields (did : DefId) (variantIndex : Nat) : Option Nat := do
  let a ← tcx.adtDef did
  let v ← a.variants[variantIndex]?
  pure v.fields.length

/-- Is the value of the type, as far as its outermost part shows? -/
def Value.fits : Value → Ty → Bool
  | .int signed size v, .param _ => Representable signed size v
  | .int signed size v, ty => intType ty = some (signed, size) && Representable signed size v
  | _, .param _ => true
  | .bool _, .bool => true
  | .tuple values, .tuple tys => values.length = tys.length
  | .adt did variantIndex fields, .adt did' _ =>
    did = did' && numFields tcx did variantIndex = some fields.length && !tcx.isBox did
  | .ref _, .ref _ _ => true
  | .box _, .adt did _ => tcx.isBox did
  | _, _ => false

def checked (ty : Ty) (v : Option Value) : Option Value := v.filter fun v => v.fits tcx ty

end

/-- The value of a constant. The bits are those of the value, zero-extended. -/
def constValue (konst : Const) : Option Value :=
  if konst.ty.isUnit then some (.tuple [])
  else
    match konst.val with
    | .bits data =>
      if konst.ty.isBool then some (.bool (data == 1))
      else
        (intType konst.ty).bind fun t =>
          if data < 2 ^ t.2 then some (.int t.1 t.2 (readBits t.1 (BitVec.ofNat t.2 data)))
          else none
    | _ => none

/-! ## Operators -/

def evalUnary : UnOp → Value → Option Value
  | .not, .bool b => some (.bool (!b))
  | .not, .int signed size v => some (.int signed size (readBits signed (~~~BitVec.ofInt size v)))
  | .neg, .int signed size v => some (.int signed size (-v))
  | _, _ => none

/-- Operators on two integers of one type. The result of an overflow does not have this type. -/
def evalInts (op : BinOp) (signed : Bool) (size : Nat) (x y : Int) : Option Value :=
  let number (v : Int) : Option Value := some (.int signed size v)
  let bits (b : BitVec size) : Option Value := number (readBits signed b)
  let truth (b : Bool) : Option Value := some (.bool b)
  match op with
  | .add => number (x + y)
  | .sub => number (x - y)
  | .mul => number (x * y)
  | .div => if y = 0 then none else number (x.tdiv y)
  | .rem => if y = 0 ∨ ¬ Representable signed size (x.tdiv y) then none else number (x.tmod y)
  | .bitXor => bits (BitVec.ofInt size x ^^^ BitVec.ofInt size y)
  | .bitAnd => bits (BitVec.ofInt size x &&& BitVec.ofInt size y)
  | .bitOr => bits (BitVec.ofInt size x ||| BitVec.ofInt size y)
  | .eq => truth (x = y)
  | .ne => truth (x ≠ y)
  | .lt => truth (x < y)
  | .le => truth (x ≤ y)
  | .ge => truth (x ≥ y)
  | .gt => truth (x > y)
  | .shl | .shr | .offset => none

/-- The right operand of a shift may have any type; it is an overflow if it is not less than the
width. -/
def evalShift (isShl signed : Bool) (size : Nat) (x y : Int) : Option Value :=
  if 0 ≤ y ∧ y < size then
    let bits := BitVec.ofInt size x
    let shifted :=
      if isShl then bits <<< y.toNat
      else if signed then bits.sshiftRight y.toNat
      else bits >>> y.toNat
    some (.int signed size (readBits signed shifted))
  else none

def evalBools (op : BinOp) (a b : Bool) : Option Value :=
  match op with
  | .eq => some (.bool (a == b))
  | .ne | .bitXor => some (.bool (a != b))
  | .bitAnd => some (.bool (a && b))
  | .bitOr => some (.bool (a || b))
  | .lt => some (.bool (!a && b))
  | .le => some (.bool (!a || b))
  | .ge => some (.bool (a || !b))
  | .gt => some (.bool (a && !b))
  | _ => none

def evalBinary (op : BinOp) : Value → Value → Option Value
  | .int signed size x, .int signed' size' y =>
    match op with
    | .shl => evalShift true signed size x y
    | .shr => evalShift false signed size x y
    | _ => if signed = signed' ∧ size = size' then evalInts op signed size x y else none
  | .bool a, .bool b => evalBools op a b
  | _, _ => none

def Value.truth : Value → Option Bool
  | .bool b => some b
  | _ => none

/-- The field of a tuple or of a struct. -/
def Value.field (name : Nat) : Value → Option Value
  | .tuple values => values[name]?
  | .adt _ 0 fields => fields[name]?
  | _ => none

def Value.unref : Value → Option Value
  | .ref v | .box v => some v
  | _ => none

/-- The values of the fields in their order, if there is exactly one for each of them. -/
def fieldValues (n : Nat) (fields : List (Nat × Value)) : Option (List Value) :=
  if fields.length = n then (List.range n).mapM fun i => Assoc.get? fields i else none

/-! ## Environments and patterns -/

/-- The values of the variables. -/
abbrev Env := HirId → Option Value

def Env.bindAll (ρ : Env) (bindings : List (HirId × Value)) : Env :=
  fun h => (Assoc.get? bindings h).or (ρ h)

/-- What a binding is bound to. -/
def BindingMode.bound (mode : BindingMode) (v : Value) : Value :=
  match mode with
  | .byValue => v
  | .byRef _ => .ref v

/-- Equality of scalars of one type. -/
def Value.scalarEq : Value → Value → Option Bool
  | .bool a, .bool b => some (a == b)
  | .int s n x, .int s' n' y => if s = s' ∧ n = n' then some (x == y) else none
  | .tuple [], .tuple [] => some true
  | _, _ => none

/--
What a pattern does with a value: it does not match (`some none`), or it does and binds variables. A
pattern for values of another type does neither.
-/
abbrev MatchResult := Option (Option (List (HirId × Value)))

/-- Both have to match. -/
def MatchResult.both : MatchResult → MatchResult → MatchResult
  | some (some bs), some (some bs') => some (some (bs ++ bs'))
  | some _, some _ => some none
  | _, _ => none

section

variable (tcx : Tcx)

mutual

def Pat.matchValue : Pat → Value → MatchResult
  | .wild _, _ => some (some [])
  | .binding _ _ mode var subpattern, v =>
    (Pat.matchOpt subpattern v).map fun r => r.map fun bs => (var, mode.bound v) :: bs
  | .variant _ did _ variantIndex subpatterns, .adt did' variantIndex' fields =>
    if did = did' ∧ numFields tcx did' variantIndex' = some fields.length then
      if variantIndex = variantIndex' then Pat.matchFields subpatterns fields else some none
    else none
  | .leaf (.tuple tys) subpatterns, .tuple values =>
    if tys.length = values.length then Pat.matchFields subpatterns values else none
  | .leaf (.adt did _) subpatterns, .adt did' variantIndex fields =>
    if did = did' ∧ variantIndex = 0 ∧ numFields tcx did' 0 = some fields.length then
      Pat.matchFields subpatterns fields
    else none
  | .constant _ konst, v =>
    ((constValue konst).bind fun c => c.scalarEq v).map fun b => if b then some [] else none
  | .deref _ subpattern, .ref v | .deref _ subpattern, .box v => Pat.matchValue subpattern v
  | .ascribeUserType _ subpattern, v => Pat.matchValue subpattern v
  | .variant _ _ _ _ _, _ | .leaf _ _, _ | .deref _ _, _ | .other _, _ => none

def Pat.matchOpt : Option Pat → Value → MatchResult
  | none, _ => some (some [])
  | some p, v => Pat.matchValue p v

def Pat.matchFields : List (Nat × Pat) → List Value → MatchResult
  | [], _ => some (some [])
  | (i, p) :: ps, values =>
    match values[i]? with
    | some v => (Pat.matchValue p v).both (Pat.matchFields ps values)
    | none => none

end

/-! ## Expressions -/

/-- `Box::new`, which is none of the standard items. -/
def isBoxNew : Ty → Bool
  | .fnDef did _ =>
    tcx.defPathStr did = "std::boxed::Box::<T>::new" && (tcx.stdItems.defToItemOpt did).isNone
  | _ => false

/--
The literals that are evaluated and the patterns that are matched, so that one can ask for the value
of an expression without the others. Rust accepts all of them.
-/
structure Accepts where
  konst : Const → Bool
  pat : Pat → Bool

def Accepts.all : Accepts where
  konst := fun _ => true
  pat := fun _ => true

variable (accepts : Accepts)

mutual

/-- The value of an expression. -/
def Expr.eval : Env → Expr → Option Value
  | _, .literal ty konst =>
    checked tcx ty (if accepts.konst konst then constValue konst else none)
  | ρ, .unary ty op arg => checked tcx ty ((Expr.eval ρ arg).bind (evalUnary op))
  | ρ, .binary ty op lhs rhs =>
    checked tcx ty
      ((Expr.eval ρ lhs).bind fun v => (Expr.eval ρ rhs).bind fun w => evalBinary op v w)
  | ρ, .logicalOp ty .and lhs rhs =>
    checked tcx ty (((Expr.eval ρ lhs).bind Value.truth).bind fun
      | true => Expr.eval ρ rhs
      | false => some (.bool false))
  | ρ, .logicalOp ty .or lhs rhs =>
    checked tcx ty (((Expr.eval ρ lhs).bind Value.truth).bind fun
      | true => some (.bool true)
      | false => Expr.eval ρ rhs)
  | ρ, .tuple ty fields => checked tcx ty ((Expr.evalAll ρ fields).map .tuple)
  | ρ, .field ty lhs name => checked tcx ty ((Expr.eval ρ lhs).bind (Value.field name))
  | ρ, .varRef ty id => checked tcx ty (ρ id)
  | ρ, .call ty funTy args =>
    if isBoxNew tcx funTy then
      checked tcx ty ((Expr.evalAll ρ args).bind fun values => values.head?.map .box)
    else none
  | ρ, .adt ty did variantIndex _ fields base =>
    if base then none
    else
      checked tcx ty ((Expr.evalFields ρ fields).bind fun values =>
        (numFields tcx did variantIndex).bind fun n =>
          (fieldValues n values).map (.adt did variantIndex))
  | ρ, .block ty _ stmts expr =>
    checked tcx ty ((Expr.evalStmts ρ stmts).bind fun ρ' => Expr.evalOpt ρ' expr)
  | ρ, .matchE ty scrutinee arms =>
    checked tcx ty ((Expr.eval ρ scrutinee).bind fun v => Expr.evalArms ρ v arms)
  | ρ, .scope ty value => checked tcx ty (Expr.eval ρ value)
  | ρ, .use ty source => checked tcx ty (Expr.eval ρ source)
  | ρ, .deref ty arg => checked tcx ty ((Expr.eval ρ arg).bind Value.unref)
  | ρ, .borrow ty _ arg => checked tcx ty ((Expr.eval ρ arg).map .ref)
  | _, .neverToAny _ _ | _, .other _ _ => none

def Expr.evalAll : Env → List Expr → Option (List Value)
  | _, [] => some []
  | ρ, e :: es => (Expr.eval ρ e).bind fun v => (Expr.evalAll ρ es).map fun vs => v :: vs

def Expr.evalFields : Env → List (Nat × Expr) → Option (List (Nat × Value))
  | _, [] => some []
  | ρ, (i, e) :: es =>
    (Expr.eval ρ e).bind fun v => (Expr.evalFields ρ es).map fun vs => (i, v) :: vs

/-- A block without a final expression has the value `()`. -/
def Expr.evalOpt : Env → Option Expr → Option Value
  | _, none => some (.tuple [])
  | ρ, some e => Expr.eval ρ e

/-- The environment behind the statements. -/
def Expr.evalStmts : Env → List Stmt → Option Env
  | ρ, [] => some ρ
  | ρ, .expr e :: rest => (Expr.eval ρ e).bind fun _ => Expr.evalStmts ρ rest
  | ρ, .letS pattern (some initializer) :: rest =>
    (Expr.eval ρ initializer).bind fun v =>
      match pattern.matchValue tcx v with
      | some (some bs) =>
        if accepts.pat pattern then Expr.evalStmts (ρ.bindAll bs) rest else none
      | _ => none
  | _, .letS _ none :: _ => none

/-- The first arm is taken whose pattern matches and whose guard, if there is one, is true. -/
def Expr.evalArms : Env → Value → List Arm → Option Value
  | _, _, [] => none
  | ρ, v, .mk pattern guard body :: rest =>
    match pattern.matchValue tcx v with
    | none => none
    | some none => Expr.evalArms ρ v rest
    | some (some bs) =>
      if accepts.pat pattern then
        (Expr.evalGuard (ρ.bindAll bs) guard).bind fun
          | true => Expr.eval (ρ.bindAll bs) body
          | false => Expr.evalArms ρ v rest
      else none

def Expr.evalGuard : Env → Option Expr → Option Bool
  | _, none => some true
  | ρ, some guard => (Expr.eval ρ guard).bind Value.truth

end

end

/-! ## Without restrictions -/

section Restricted

variable {tcx : Tcx} {accepts : Accepts}

theorem checked_eq_some {ty : Ty} {o : Option Value} {v : Value} :
    checked tcx ty o = some v ↔ o = some v ∧ v.fits tcx ty = true := by
  simp [checked, Option.filter_eq_some_iff]

theorem bind_of_bind {α β : Type} {o o' : Option α} {f g : α → Option β} {y : β}
    (h : o.bind f = some y) (ho : ∀ x, o = some x → o' = some x)
    (hf : ∀ x, f x = some y → g x = some y) : o'.bind g = some y := by
  obtain ⟨x, hx, hy⟩ := Option.bind_eq_some_iff.mp h
  rw [ho x hx]
  exact hf x hy

theorem map_of_map {α β : Type} {o o' : Option α} {f : α → β} {y : β} (h : o.map f = some y)
    (ho : ∀ x, o = some x → o' = some x) : o'.map f = some y := by
  obtain ⟨x, hx, rfl⟩ := Option.map_eq_some_iff.mp h
  rw [ho x hx]
  rfl

mutual

/-- What has a value without some literals and patterns has the same value in Rust. -/
theorem Expr.eval_all : ∀ (e : Expr) {ρ : Env} {v : Value},
    e.eval tcx accepts ρ = some v → e.eval tcx .all ρ = some v
  | .literal ty konst, ρ, v, h => by
    rw [Expr.eval, checked_eq_some] at h ⊢
    refine ⟨?_, h.2⟩
    split_ifs at h with hk
    · exact h.1
    · cases h.1
  | .unary ty op arg, ρ, v, h => by
    rw [Expr.eval, checked_eq_some] at h ⊢
    exact ⟨bind_of_bind h.1 (fun _ => Expr.eval_all arg) fun _ hx => hx, h.2⟩
  | .binary ty op lhs rhs, ρ, v, h => by
    rw [Expr.eval, checked_eq_some] at h ⊢
    refine ⟨bind_of_bind h.1 (fun _ => Expr.eval_all lhs) fun _ hx => ?_, h.2⟩
    exact bind_of_bind hx (fun _ => Expr.eval_all rhs) fun _ hy => hy
  | .logicalOp ty .and lhs rhs, ρ, v, h => by
    rw [Expr.eval, checked_eq_some] at h ⊢
    refine ⟨bind_of_bind h.1 (fun _ hx => ?_) fun c hx => ?_, h.2⟩
    · exact bind_of_bind hx (fun _ => Expr.eval_all lhs) fun _ hy => hy
    · cases c with
      | true => exact Expr.eval_all rhs hx
      | false => exact hx
  | .logicalOp ty .or lhs rhs, ρ, v, h => by
    rw [Expr.eval, checked_eq_some] at h ⊢
    refine ⟨bind_of_bind h.1 (fun _ hx => ?_) fun c hx => ?_, h.2⟩
    · exact bind_of_bind hx (fun _ => Expr.eval_all lhs) fun _ hy => hy
    · cases c with
      | true => exact hx
      | false => exact Expr.eval_all rhs hx
  | .tuple ty fields, ρ, v, h => by
    rw [Expr.eval, checked_eq_some] at h ⊢
    exact ⟨map_of_map h.1 fun _ => Expr.evalAll_all fields, h.2⟩
  | .field ty lhs name, ρ, v, h => by
    rw [Expr.eval, checked_eq_some] at h ⊢
    exact ⟨bind_of_bind h.1 (fun _ => Expr.eval_all lhs) fun _ hx => hx, h.2⟩
  | .varRef ty id, ρ, v, h => by
    rw [Expr.eval] at h ⊢
    exact h
  | .call ty funTy args, ρ, v, h => by
    rw [Expr.eval] at h ⊢
    split_ifs at h ⊢ with hbox
    rw [checked_eq_some] at h ⊢
    exact ⟨bind_of_bind h.1 (fun _ => Expr.evalAll_all args) fun _ hx => hx, h.2⟩
  | .adt ty did variantIndex substs fields base, ρ, v, h => by
    rw [Expr.eval] at h ⊢
    split_ifs at h ⊢ with hbase
    rw [checked_eq_some] at h ⊢
    exact ⟨bind_of_bind h.1 (fun _ => Expr.evalFields_all fields) fun _ hx => hx, h.2⟩
  | .block ty safe stmts expr, ρ, v, h => by
    rw [Expr.eval, checked_eq_some] at h ⊢
    exact ⟨bind_of_bind h.1 (fun _ => Expr.evalStmts_all stmts) fun _ => Expr.evalOpt_all expr, h.2⟩
  | .matchE ty scrutinee arms, ρ, v, h => by
    rw [Expr.eval, checked_eq_some] at h ⊢
    exact ⟨bind_of_bind h.1 (fun _ => Expr.eval_all scrutinee) fun _ => Expr.evalArms_all arms, h.2⟩
  | .scope ty value, ρ, v, h => by
    rw [Expr.eval, checked_eq_some] at h ⊢
    exact ⟨Expr.eval_all value h.1, h.2⟩
  | .use ty source, ρ, v, h => by
    rw [Expr.eval, checked_eq_some] at h ⊢
    exact ⟨Expr.eval_all source h.1, h.2⟩
  | .deref ty arg, ρ, v, h => by
    rw [Expr.eval, checked_eq_some] at h ⊢
    exact ⟨bind_of_bind h.1 (fun _ => Expr.eval_all arg) fun _ hx => hx, h.2⟩
  | .borrow ty kind arg, ρ, v, h => by
    rw [Expr.eval, checked_eq_some] at h ⊢
    exact ⟨map_of_map h.1 fun _ => Expr.eval_all arg, h.2⟩
  | .neverToAny _ _, ρ, v, h => by simp [Expr.eval] at h
  | .other _ _, ρ, v, h => by simp [Expr.eval] at h

theorem Expr.evalAll_all : ∀ (es : List Expr) {ρ : Env} {vs : List Value},
    Expr.evalAll tcx accepts ρ es = some vs → Expr.evalAll tcx .all ρ es = some vs
  | [], ρ, vs, h => by
    rw [Expr.evalAll] at h ⊢
    exact h
  | e :: es, ρ, vs, h => by
    rw [Expr.evalAll] at h ⊢
    exact bind_of_bind h (fun _ => Expr.eval_all e) fun _ hx =>
      map_of_map hx fun _ => Expr.evalAll_all es

theorem Expr.evalFields_all : ∀ (fields : List (Nat × Expr)) {ρ : Env} {vs : List (Nat × Value)},
    Expr.evalFields tcx accepts ρ fields = some vs → Expr.evalFields tcx .all ρ fields = some vs
  | [], ρ, vs, h => by
    rw [Expr.evalFields] at h ⊢
    exact h
  | (i, e) :: rest, ρ, vs, h => by
    rw [Expr.evalFields] at h ⊢
    exact bind_of_bind h (fun _ => Expr.eval_all e) fun _ hx =>
      map_of_map hx fun _ => Expr.evalFields_all rest

theorem Expr.evalOpt_all : ∀ (o : Option Expr) {ρ : Env} {v : Value},
    Expr.evalOpt tcx accepts ρ o = some v → Expr.evalOpt tcx .all ρ o = some v
  | none, ρ, v, h => by
    rw [Expr.evalOpt] at h ⊢
    exact h
  | some e, ρ, v, h => by
    rw [Expr.evalOpt] at h ⊢
    exact Expr.eval_all e h

theorem Expr.evalStmts_all : ∀ (stmts : List Stmt) {ρ ρ' : Env},
    Expr.evalStmts tcx accepts ρ stmts = some ρ' → Expr.evalStmts tcx .all ρ stmts = some ρ'
  | [], ρ, ρ', h => by
    rw [Expr.evalStmts] at h ⊢
    exact h
  | .expr e :: rest, ρ, ρ', h => by
    rw [Expr.evalStmts] at h ⊢
    exact bind_of_bind h (fun _ => Expr.eval_all e) fun _ => Expr.evalStmts_all rest
  | .letS pattern (some initializer) :: rest, ρ, ρ', h => by
    rw [Expr.evalStmts] at h ⊢
    refine bind_of_bind h (fun _ => Expr.eval_all initializer) fun v hx => ?_
    rcases hmatch : pattern.matchValue tcx v with _ | _ | bs
    · simp [hmatch] at hx
    · simp [hmatch] at hx
    simp only [hmatch] at hx ⊢
    split_ifs at hx
    exact Expr.evalStmts_all rest hx
  | .letS _ none :: rest, ρ, ρ', h => by simp [Expr.evalStmts] at h

theorem Expr.evalArms_all : ∀ (arms : List Arm) {ρ : Env} {v u : Value},
    Expr.evalArms tcx accepts ρ v arms = some u → Expr.evalArms tcx .all ρ v arms = some u
  | [], ρ, v, u, h => by simp [Expr.evalArms] at h
  | .mk pattern guard body :: rest, ρ, v, u, h => by
    rw [Expr.evalArms] at h ⊢
    rcases hmatch : pattern.matchValue tcx v with _ | _ | bs
    · simp [hmatch] at h
    · simp only [hmatch] at h ⊢
      exact Expr.evalArms_all rest h
    simp only [hmatch] at h ⊢
    split_ifs at h
    refine bind_of_bind h (fun _ => Expr.evalGuard_all guard) fun taken hx => ?_
    cases taken with
    | true => exact Expr.eval_all body hx
    | false => exact Expr.evalArms_all rest hx

theorem Expr.evalGuard_all : ∀ (guard : Option Expr) {ρ : Env} {b : Bool},
    Expr.evalGuard tcx accepts ρ guard = some b → Expr.evalGuard tcx .all ρ guard = some b
  | none, ρ, b, h => by
    rw [Expr.evalGuard] at h ⊢
    exact h
  | some e, ρ, b, h => by
    rw [Expr.evalGuard] at h ⊢
    exact bind_of_bind h (fun _ => Expr.eval_all e) fun _ hx => hx

end

end Restricted

end Hair
