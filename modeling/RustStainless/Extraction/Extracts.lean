import RustStainless.Extraction.Image

/-!
# The translation as a relation

`ExprExtracts e t` says that `t` is the translation of `e`: one rule for each form that is
supported, with the ids and the variables as parameters. What is true of every translation is proved
by induction on the rules (`ExprExtracts.induct`), without another look at the traversal.
-/

namespace Stainless

open Rustc St Lib

/-! ## Bindings -/

/-- A binding that is supported: by value or by a shared reference. -/
def IsImmutableMode (mode : Hair.BindingMode) : Prop := mode = .byValue ∨ mode = .byRef .shared

/-- The variable that the pattern of a `let` binds. -/
inductive LetVar : Hair.Pat → HirId → Prop
  | binding {ty mode var} : IsImmutableMode mode → LetVar (.binding ty .not mode var none) var
  | ascribeUserType {ty p var} : LetVar p var → LetVar (.ascribeUserType ty p) var

/-! ## Rules over lists -/

/-- One pattern for each of the fields from the `i`-th on, a wildcard where none is listed. -/
inductive SubpatternsExtract (R : Hair.Pat → Pattern → Prop) :
    Nat → Nat → List (Nat × Hair.Pat) → List Pattern → Prop
  | done {i fields} : SubpatternsExtract R i 0 fields []
  | wildcard {i numFields fields ps} : (∀ f ∈ fields.head?, f.1 ≠ i) →
      SubpatternsExtract R (i + 1) numFields fields ps →
      SubpatternsExtract R i (numFields + 1) fields (.wildcard none :: ps)
  | pattern {i numFields p q fields ps} : R p q →
      SubpatternsExtract R (i + 1) numFields fields ps →
      SubpatternsExtract R i (numFields + 1) ((i, p) :: fields) (q :: ps)

/-- A block: the expressions so far, and the final expression, which is extracted already. -/
inductive StmtsExtract (vars : HirId → Option Variable) (R : Hair.Expr → St.Expr → Prop) :
    List Hair.Stmt → List St.Expr → St.Expr → St.Expr → Prop
  | finish {acc last} : StmtsExtract vars R [] acc last (finishBlock acc last)
  | expr {e t stmts acc last r} : R e t → StmtsExtract vars R stmts (acc ++ [t]) last r →
      StmtsExtract vars R (.expr e :: stmts) acc last r
  | letS {p var v init t stmts acc last r} : LetVar p var → vars var = some v → R init t →
      StmtsExtract vars R stmts [] last r →
      StmtsExtract vars R (.letS p (some init) :: stmts) acc last
        (finishBlock acc (.letIn { v := v } t r))

/-- Something that may be there. -/
inductive OptExtracts {α β : Type} (R : α → β → Prop) : Option α → Option β → Prop
  | none : OptExtracts R none none
  | some {a b} : R a b → OptExtracts R (some a) (some b)

inductive ArmExtracts (P : Hair.Pat → Pattern → Prop) (R : Hair.Expr → St.Expr → Prop) :
    Hair.Arm → MatchCase → Prop
  | mk {pattern guard body p g b} : P pattern p → OptExtracts R guard g → R body b →
      ArmExtracts P R (.mk pattern guard body) (.mk p g b)

section Monotone

variable {R R' : Hair.Expr → St.Expr → Prop}

theorem SubpatternsExtract.imp {R R' : Hair.Pat → Pattern → Prop} {i numFields : Nat}
    {fields : List (Nat × Hair.Pat)} {ps : List Pattern}
    (h : SubpatternsExtract R i numFields fields ps)
    (hR : ∀ f ∈ fields, ∀ q, R f.2 q → R' f.2 q) : SubpatternsExtract R' i numFields fields ps := by
  induction h with
  | done => exact .done
  | wildcard hi _ ih => exact .wildcard hi (ih hR)
  | @pattern i _ p q fields _ hpq _ ih =>
    exact .pattern (hR (i, p) List.mem_cons_self q hpq)
      (ih fun f hf => hR f (List.mem_cons_of_mem _ hf))

/-- The expressions in the statements of a block. -/
def stmtExprs : List Hair.Stmt → List Hair.Expr
  | [] => []
  | .expr e :: rest => e :: stmtExprs rest
  | .letS _ none :: rest => stmtExprs rest
  | .letS _ (some init) :: rest => init :: stmtExprs rest

theorem StmtsExtract.imp {vars : HirId → Option Variable} {stmts : List Hair.Stmt}
    {acc : List St.Expr} {last r : St.Expr} (h : StmtsExtract vars R stmts acc last r)
    (hR : ∀ e ∈ stmtExprs stmts, ∀ t, R e t → R' e t) : StmtsExtract vars R' stmts acc last r := by
  induction h with
  | finish => exact .finish
  | @expr e t stmts _ _ _ het _ ih =>
    exact .expr (hR e List.mem_cons_self t het) (ih fun e' he => hR e' (List.mem_cons_of_mem _ he))
  | @letS p var v init t stmts _ _ _ hvar hv hinit _ ih =>
    exact .letS hvar hv (hR init List.mem_cons_self t hinit)
      (ih fun e' he => hR e' (List.mem_cons_of_mem _ he))

theorem OptExtracts.imp {α β : Type} {R R' : α → β → Prop} {a : Option α} {b : Option β}
    (h : OptExtracts R a b) (hR : ∀ x ∈ a, ∀ y, R x y → R' x y) : OptExtracts R' a b := by
  cases h with
  | none => exact .none
  | some h => exact .some (hR _ rfl _ h)

theorem ArmExtracts.imp {P : Hair.Pat → Pattern → Prop} {arm : Hair.Arm} {c : MatchCase}
    (h : ArmExtracts P R arm c) (hguard : ∀ e ∈ arm.guard, ∀ t, R e t → R' e t)
    (hbody : ∀ t, R arm.body t → R' arm.body t) : ArmExtracts P R' arm c := by
  cases h with
  | mk hp hg hb => exact .mk hp (hg.imp hguard) (hbody _ hb)

end Monotone

/-! ## Operators -/

/-- The operators that only take bit vectors. -/
def bvOperator : Hair.BinOp → Option BinaryOperator
  | .add => some .plus
  | .sub => some .minus
  | .mul => some .times
  | .div => some .division
  | .rem => some .remainder
  | .lt => some .lessThan
  | .le => some .lessEquals
  | .ge => some .greaterEquals
  | .gt => some .greaterThan
  | .bitXor => some .bvXor
  | .bitAnd => some .bvAnd
  | .bitOr => some .bvOr
  | .eq | .ne | .shl | .shr | .offset => none

/-- The operator of a shift of a left operand of type `ty`. -/
def shiftOperator (ty : Ty) : Hair.BinOp → Option BinaryOperator
  | .shl => some .bvShiftLeft
  | .shr => some (if isSignedBvType ty then .bvAShiftRight else .bvLShiftRight)
  | _ => none

def setOperator : StdItem → Option BinaryOperator
  | .setAddFn => some .setAdd
  | .setDifferenceFn => some .setDifference
  | .setIntersectionFn => some .setIntersection
  | .setUnionFn => some .setUnion
  | .subsetOfFn => some .subsetOf
  | _ => none

/-- A call of the definition is extracted as a call. -/
def IsPlainCallee (tcx : Tcx) (did : DefId) : Prop :=
  ∀ item, tcx.stdItems.defToItemOpt did = some item →
    item ∈ [.fnTrait, .fnMutTrait, .fnOnceTrait, .sizedTrait, .setType]

/-- Both operands are bit vectors, or both are booleans. -/
def SameKind (ty1 ty2 : Ty) : Prop :=
  (isBvType ty1 ∧ isBvType ty2) ∨ (ty1.isBool ∧ ty2.isBool)

/-! ## Patterns and expressions -/

section Rules

variable (tcx : Tcx) (ids : Ids) (ctx : BodyCtxt)

/-- The images of the type arguments, without the closure types. -/
def argTypesImage (substs : List Ty) : Option (List Tpe) :=
  suppImages tcx ids ctx.txtcx.indexToTparam.get? (substs.filter fun ty => !ty.isClosure)

/-- The rules for patterns, with `R` for the translation of subpatterns. -/
inductive PatRule (R : Hair.Pat → Option ValDef → Pattern → Prop) :
    Hair.Pat → Option ValDef → Pattern → Prop
  | wild {ty binder} : PatRule R (.wild ty) binder (.wildcard binder)
  | binding {ty mode var v} : IsImmutableMode mode → ctx.vars.get? var = some v →
      PatRule R (.binding ty .not mode var none) none (.wildcard (some { v := v }))
  | bindingAt {ty mode var v p q} : IsImmutableMode mode → ctx.vars.get? var = some v →
      R p (some { v := v }) q →
      PatRule R (.binding ty .not mode var (some p)) none q
  | variant {ty did substs variantIndex fields binder sort constructor argTps ps} :
      adtIds tcx ids did = some sort → sort[variantIndex]? = some constructor →
      argTypesImage tcx ids ctx substs = some argTps →
      SubpatternsExtract (fun p q => R p none q) 0 constructor.fields.length
        (sortByIndex fields) ps →
      PatRule R (.variant ty did substs variantIndex fields) binder
        (.adt binder constructor.id argTps ps)
  | leafAdt {did substs fields binder constructor argTps ps} :
      adtIds tcx ids did = some [constructor] →
      argTypesImage tcx ids ctx substs = some argTps →
      SubpatternsExtract (fun p q => R p none q) 0 constructor.fields.length
        (sortByIndex fields) ps →
      PatRule R (.leaf (.adt did substs) fields) binder (.adt binder constructor.id argTps ps)
  | leafTuple {tys fields binder ps} :
      SubpatternsExtract (fun p q => R p none q) 0 tys.length (sortByIndex fields) ps →
      PatRule R (.leaf (.tuple tys) fields) binder (.tuple binder ps)
  | constant {ty konst binder lit} : literalTryFrom konst = .ok (some lit) →
      PatRule R (.constant ty konst) binder (.literal binder lit)
  | deref {ty p binder q} : R p binder q → PatRule R (.deref ty p) binder q

/-- A pattern and its translation, where a binder may be passed down. -/
inductive PatExtracts : Hair.Pat → Option ValDef → Pattern → Prop
  | intro {p binder q} : PatRule tcx ids ctx PatExtracts p binder q → PatExtracts p binder q

/-- The rules for expressions, with `R` for the translation of subexpressions. -/
inductive ExprRule (R : Hair.Expr → St.Expr → Prop) : Hair.Expr → St.Expr → Prop
  | literal {ty konst lit} : literalTryFrom konst = .ok (some lit) →
      ExprRule R (.literal ty konst) (.literal lit)
  | bvNot {ty arg a} : R arg a → isBvType arg.ty →
      ExprRule R (.unary ty .not arg) (.unary .bvNot a)
  | boolNot {ty arg a} : R arg a → arg.ty.isBool →
      ExprRule R (.unary ty .not arg) (.unary .not a)
  | neg {ty arg a} : R arg a → (isBvType arg.ty ∨ tcx.isBigintType arg.ty) →
      ExprRule R (.unary ty .neg arg) (.unary .uMinus a)
  | eq {ty lhs rhs a b} : R lhs a → R rhs b → SameKind lhs.ty rhs.ty →
      ExprRule R (.binary ty .eq lhs rhs) (.binary .equals a b)
  | ne {ty lhs rhs a b} : R lhs a → R rhs b → SameKind lhs.ty rhs.ty →
      ExprRule R (.binary ty .ne lhs rhs) (.unary .not (.binary .equals a b))
  | bvOp {ty op operator lhs rhs a b} : R lhs a → R rhs b →
      isBvType lhs.ty → isBvType rhs.ty → bvOperator op = some operator →
      ExprRule R (.binary ty op lhs rhs) (.binary operator a b)
  | shift {ty op operator lhs rhs a b b'} : R lhs a → R rhs b →
      isBvType lhs.ty → isBvType rhs.ty → shiftOperator lhs.ty op = some operator →
      widenShiftArg lhs.ty rhs.ty b = .ok b' →
      ExprRule R (.binary ty op lhs rhs) (.binary operator a b')
  | and {ty lhs rhs a b} : R lhs a → R rhs b → lhs.ty.isBool →
      rhs.ty.isBool → ExprRule R (.logicalOp ty .and lhs rhs) (.and [a, b])
  | or {ty lhs rhs a b} : R lhs a → R rhs b → lhs.ty.isBool →
      rhs.ty.isBool → ExprRule R (.logicalOp ty .or lhs rhs) (.or [a, b])
  | unit {ty} : ExprRule R (.tuple ty []) .unitLiteral
  | tuple {ty fields ts} : 2 ≤ fields.length → List.Forall₂ R fields ts →
      ExprRule R (.tuple ty fields) (.tuple ts)
  | tupleField {ty lhs name a tys} : R lhs a → lhs.ty = .tuple tys →
      ExprRule R (.field ty lhs name) (.tupleSelect a (name + 1))
  | adtField {ty lhs name a did substs constructor fieldId} : R lhs a →
      lhs.ty = .adt did substs → adtIds tcx ids did = some [constructor] →
      constructor.fields[name]? = some fieldId →
      ExprRule R (.field ty lhs name) (.adtSelector a fieldId)
  | varRef {ty id v} : ctx.vars.get? id = some v → ExprRule R (.varRef ty id) (.variable v)
  | panic {ty did substs arg a} : tcx.stdItems.defToItemOpt did = some .beginPanicFn →
      R arg a →
      ExprRule R (.call ty (.fnDef did substs) [arg]) (.block [a] (.error .unitType "Panic"))
  | setCreation {ty did elementTy substs args ts tpe} :
      tcx.stdItems.defToItemOpt did ∈ [some .setEmptyFn, some .setSingletonFn] →
      List.Forall₂ R args ts →
      suppImage tcx ids ctx.txtcx.indexToTparam.get? elementTy = some tpe →
      ExprRule R (.call ty (.fnDef did (elementTy :: substs)) args) (.finiteSet ts tpe)
  | setOp {ty did substs item operator set arg args a b ts} :
      tcx.stdItems.defToItemOpt did = some item → setOperator item = some operator →
      R set a → R arg b → List.Forall₂ R args ts →
      ExprRule R (.call ty (.fnDef did substs) (set :: arg :: args)) (.binary operator a b)
  | boxNew {ty did substs arg args a fdId} : IsPlainCallee tcx did → ids did = some fdId →
      fdId.symbolPath = boxNewPath → R arg a →
      ExprRule R (.call ty (.fnDef did substs) (arg :: args)) a
  | call {ty did substs args fdId argTps ts} : IsPlainCallee tcx did → ids did = some fdId →
      fdId.symbolPath ≠ boxNewPath → argTypesImage tcx ids ctx substs = some argTps →
      List.Forall₂ R args ts →
      ExprRule R (.call ty (.fnDef did substs) args) (.functionInvocation fdId argTps ts)
  | adt {ty did variantIndex substs fields sort constructor argTps ts} :
      adtIds tcx ids did = some sort → sort[variantIndex]? = some constructor →
      argTypesImage tcx ids ctx substs = some argTps →
      List.Forall₂ R ((sortByIndex fields).map Prod.snd) ts →
      ExprRule R (.adt ty did variantIndex substs fields false) (.adt constructor.id argTps ts)
  | block {ty stmts expr last r} : OptExtracts R expr last →
      StmtsExtract ctx.vars.get? R stmts [] (last.getD .unitLiteral) r →
      ExprRule R (.block ty true stmts expr) r
  | ifElse {ty scrutinee armTy armTy' konst guard guard' thenn elze cond t e} :
      looksLikeIf scrutinee
        [.mk (.constant armTy konst) guard thenn, .mk (.wild armTy') guard' elze] =
          .ok (some true) →
      R scrutinee cond → R thenn t → R elze e →
      ExprRule R (.matchE ty scrutinee
        [.mk (.constant armTy konst) guard thenn, .mk (.wild armTy') guard' elze])
        (.ifExpr cond t e)
  | ifOnly {ty scrutinee armTy armTy' konst guard guard' thenn elze cond t} :
      looksLikeIf scrutinee
        [.mk (.constant armTy konst) guard thenn, .mk (.wild armTy') guard' elze] =
          .ok (some false) →
      R scrutinee cond → R thenn t →
      ExprRule R (.matchE ty scrutinee
        [.mk (.constant armTy konst) guard thenn, .mk (.wild armTy') guard' elze])
        (.ifExpr cond t .unitLiteral)
  | matchE {ty scrutinee arms a cases} : looksLikeIf scrutinee arms = .ok none →
      R scrutinee a →
      List.Forall₂ (ArmExtracts (fun p q => PatExtracts tcx ids ctx p none q) R)
        arms cases →
      ExprRule R (.matchE ty scrutinee arms) (.matchExpr a cases)
  | scope {ty value t} : R value t → ExprRule R (.scope ty value) t
  | use {ty source t} : R source t → ExprRule R (.use ty source) t
  | neverToAny {ty source t} : R source t → ExprRule R (.neverToAny ty source) t
  | deref {ty arg t} : R arg t → ExprRule R (.deref ty arg) t
  | borrow {ty arg t} : R arg t → ExprRule R (.borrow ty .shared arg) t

/-- An expression and its translation. -/
inductive ExprExtracts : Hair.Expr → St.Expr → Prop
  | intro {e t} : ExprRule tcx ids ctx ExprExtracts e t → ExprExtracts e t

end Rules

/-! ## Induction on the rules -/

variable {tcx : Tcx} {ids : Ids} {ctx : BodyCtxt}

theorem mem_sortByIndex {α : Type} {fields : List (Nat × α)} {f : Nat × α} :
    f ∈ sortByIndex fields ↔ f ∈ fields :=
  (List.perm_insertionSort _ fields).mem_iff

theorem sizeOf_lt_of_mem_fields {α : Type} [SizeOf α] {fields : List (Nat × α)} {f : Nat × α}
    (h : f ∈ fields) : sizeOf f.2 < sizeOf fields := by
  have h1 := List.sizeOf_lt_of_mem h
  obtain ⟨i, a⟩ := f
  simp only [Prod.mk.sizeOf_spec] at h1
  simp only
  omega

theorem sizeOf_lt_of_mem_stmtExprs : ∀ {stmts : List Hair.Stmt} {e : Hair.Expr},
    e ∈ stmtExprs stmts → sizeOf e < sizeOf stmts
  | [], _, h => by simp [stmtExprs] at h
  | .expr e' :: rest, e, h => by
    rcases List.mem_cons.mp h with rfl | h
    · simp
      omega
    · have := sizeOf_lt_of_mem_stmtExprs h
      simp
      omega
  | .letS p none :: rest, e, h => by
    have := sizeOf_lt_of_mem_stmtExprs (show e ∈ stmtExprs rest from h)
    simp
    omega
  | .letS p (some init) :: rest, e, h => by
    rcases List.mem_cons.mp h with rfl | h
    · simp
      omega
    · have := sizeOf_lt_of_mem_stmtExprs h
      simp
      omega

theorem PatRule.imp {R R' : Hair.Pat → Option ValDef → Pattern → Prop} {p : Hair.Pat}
    {binder : Option ValDef} {q : Pattern} (h : PatRule tcx ids ctx R p binder q)
    (hR : ∀ p', sizeOf p' < sizeOf p → ∀ b q', R p' b q' → R' p' b q') :
    PatRule tcx ids ctx R' p binder q := by
  have hfields : ∀ {fields : List (Nat × Hair.Pat)} {n : Nat} {ps : List Pattern},
      sizeOf fields < sizeOf p →
      SubpatternsExtract (fun p q => R p none q) 0 n (sortByIndex fields) ps →
      SubpatternsExtract (fun p q => R' p none q) 0 n (sortByIndex fields) ps := by
    intro fields n ps hlt hps
    refine hps.imp fun f hf q' hq' => hR f.2 ?_ none q' hq'
    exact Nat.lt_trans (sizeOf_lt_of_mem_fields (mem_sortByIndex.mp hf)) hlt
  cases h with
  | wild => exact .wild
  | binding hmode hv => exact .binding hmode hv
  | bindingAt hmode hv hp => exact .bindingAt hmode hv (hR _ (by decreasing_tactic) _ _ hp)
  | variant hsort hcons htps hps =>
    exact .variant hsort hcons htps (hfields (by decreasing_tactic) hps)
  | leafAdt hsort htps hps => exact .leafAdt hsort htps (hfields (by decreasing_tactic) hps)
  | leafTuple hps => exact .leafTuple (hfields (by decreasing_tactic) hps)
  | constant hlit => exact .constant hlit
  | deref hp => exact .deref (hR _ (by decreasing_tactic) _ _ hp)

/-- Induction on a pattern that is translated: one rule, with the claim for all subpatterns. -/
theorem PatExtracts.induct {P : Hair.Pat → Option ValDef → Pattern → Prop}
    (hrule : ∀ p binder q,
      PatRule tcx ids ctx (fun p b q => PatExtracts tcx ids ctx p b q ∧ P p b q) p binder q →
      P p binder q) (p : Hair.Pat) (binder : Option ValDef) (q : Pattern)
    (h : PatExtracts tcx ids ctx p binder q) : P p binder q := by
  cases h with
  | intro h =>
    exact hrule p binder q (h.imp fun p' _ b q' h' => ⟨h', induct hrule p' b q' h'⟩)
termination_by sizeOf p

theorem ExprRule.imp {R R' : Hair.Expr → St.Expr → Prop} {e : Hair.Expr} {t : St.Expr}
    (h : ExprRule tcx ids ctx R e t)
    (hR : ∀ e', sizeOf e' < sizeOf e → ∀ t', R e' t' → R' e' t') :
    ExprRule tcx ids ctx R' e t := by
  have hall : ∀ {es : List Hair.Expr} {ts : List St.Expr}, (∀ e' ∈ es, sizeOf e' < sizeOf e) →
      List.Forall₂ R es ts → List.Forall₂ R' es ts := by
    intro es ts hlt hts
    exact ((List.forall₂_and_left _ _).mpr ⟨hlt, hts⟩).imp fun e' t' h => hR e' h.1 t' h.2
  cases h with
  | literal hlit => exact .literal hlit
  | bvNot ha hty => exact .bvNot (hR _ (by decreasing_tactic) _ ha) hty
  | boolNot ha hty => exact .boolNot (hR _ (by decreasing_tactic) _ ha) hty
  | neg ha hty => exact .neg (hR _ (by decreasing_tactic) _ ha) hty
  | eq ha hb hty =>
    exact .eq (hR _ (by decreasing_tactic) _ ha) (hR _ (by decreasing_tactic) _ hb) hty
  | ne ha hb hty =>
    exact .ne (hR _ (by decreasing_tactic) _ ha) (hR _ (by decreasing_tactic) _ hb) hty
  | bvOp ha hb h1 h2 hop =>
    exact .bvOp (hR _ (by decreasing_tactic) _ ha) (hR _ (by decreasing_tactic) _ hb) h1 h2 hop
  | shift ha hb h1 h2 hop hw =>
    exact .shift (hR _ (by decreasing_tactic) _ ha) (hR _ (by decreasing_tactic) _ hb) h1 h2 hop hw
  | and ha hb h1 h2 =>
    exact .and (hR _ (by decreasing_tactic) _ ha) (hR _ (by decreasing_tactic) _ hb) h1 h2
  | or ha hb h1 h2 =>
    exact .or (hR _ (by decreasing_tactic) _ ha) (hR _ (by decreasing_tactic) _ hb) h1 h2
  | unit => exact .unit
  | tuple hlen hts =>
    refine .tuple hlen (hall (fun e' he' => ?_) hts)
    have := List.sizeOf_lt_of_mem he'
    simp
    omega
  | tupleField ha hty => exact .tupleField (hR _ (by decreasing_tactic) _ ha) hty
  | adtField ha hty hsort hfield =>
    exact .adtField (hR _ (by decreasing_tactic) _ ha) hty hsort hfield
  | varRef hv => exact .varRef hv
  | panic hitem ha => exact .panic hitem (hR _ (by decreasing_tactic) _ ha)
  | setCreation hitem hts htpe =>
    refine .setCreation hitem (hall (fun e' he' => ?_) hts) htpe
    have := List.sizeOf_lt_of_mem he'
    simp
    omega
  | setOp hitem hop ha hb hts =>
    refine .setOp hitem hop (hR _ (by decreasing_tactic) _ ha) (hR _ (by decreasing_tactic) _ hb)
      (hall (fun e' he' => ?_) hts)
    have := List.sizeOf_lt_of_mem he'
    simp
    omega
  | boxNew hplain hid hbox ha => exact .boxNew hplain hid hbox (hR _ (by decreasing_tactic) _ ha)
  | call hplain hid hbox htps hts =>
    refine .call hplain hid hbox htps (hall (fun e' he' => ?_) hts)
    have := List.sizeOf_lt_of_mem he'
    simp
    omega
  | adt hsort hcons htps hts =>
    refine .adt hsort hcons htps (hall (fun e' he' => ?_) hts)
    obtain ⟨f, hf, rfl⟩ := List.mem_map.mp he'
    have := sizeOf_lt_of_mem_fields (mem_sortByIndex.mp hf)
    simp
    omega
  | block hlast hstmts =>
    refine .block (hlast.imp fun e' he' t' => hR e' ?_ t')
      (hstmts.imp fun e' he' t' => hR e' ?_ t')
    · obtain rfl := Option.mem_def.mp he'
      simp
      omega
    · have := sizeOf_lt_of_mem_stmtExprs he'
      simp
      omega
  | ifElse hif ha ht he =>
    exact .ifElse hif (hR _ (by decreasing_tactic) _ ha) (hR _ (by decreasing_tactic) _ ht)
      (hR _ (by decreasing_tactic) _ he)
  | ifOnly hif ha ht =>
    exact .ifOnly hif (hR _ (by decreasing_tactic) _ ha) (hR _ (by decreasing_tactic) _ ht)
  | @matchE ty scrutinee arms _ _ hif ha harms =>
    refine .matchE hif (hR _ (by decreasing_tactic) _ ha) ?_
    have hsize : ∀ arm ∈ arms, sizeOf arm < sizeOf (Hair.Expr.matchE ty scrutinee arms) := by
      intro arm harm
      have := List.sizeOf_lt_of_mem harm
      simp
      omega
    refine ((List.forall₂_and_left _ _).mpr ⟨hsize, harms⟩).imp fun arm c h => ?_
    obtain ⟨hlt, harm⟩ := h
    cases arm with
    | mk pattern guard body =>
      simp only [Hair.Arm.mk.sizeOf_spec] at hlt
      refine harm.imp (fun e' he' t' => hR e' ?_ t') fun t' => hR body ?_ t'
      · obtain rfl : guard = some e' := he'
        simp only [Option.some.sizeOf_spec] at hlt
        omega
      · omega
  | scope ha => exact .scope (hR _ (by decreasing_tactic) _ ha)
  | use ha => exact .use (hR _ (by decreasing_tactic) _ ha)
  | neverToAny ha => exact .neverToAny (hR _ (by decreasing_tactic) _ ha)
  | deref ha => exact .deref (hR _ (by decreasing_tactic) _ ha)
  | borrow ha => exact .borrow (hR _ (by decreasing_tactic) _ ha)

/-- Induction on an expression that is translated: one rule, with the claim for all parts. -/
theorem ExprExtracts.induct {P : Hair.Expr → St.Expr → Prop}
    (hrule : ∀ e t, ExprRule tcx ids ctx (fun e t => ExprExtracts tcx ids ctx e t ∧ P e t) e t →
      P e t) (e : Hair.Expr) (t : St.Expr) (h : ExprExtracts tcx ids ctx e t) : P e t := by
  cases h with
  | intro h => exact hrule e t (h.imp fun e' _ t' h' => ⟨h', induct hrule e' t' h'⟩)
termination_by sizeOf e

end Stainless
