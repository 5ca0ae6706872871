import RustStainless.Lib.MonadRel
import RustStainless.Extraction.Expr

/-!
# The traversal is parametric

Two related monads with related operations see the same traversal. This is the one induction over
the functions of `Extraction/Expr.lean`; what the extraction of a body returns, and which panics it
avoids, are two instances of it.
-/

namespace Stainless

open Rustc St Lib

variable {m n : Type → Type} [Monad m] [Monad n]

/-- The operations of two traversals are related, those on variables as far as `known` goes. -/
structure OpsRel (R : MonadRel m n) (known : HirId → Prop) (ops : BodyOps m) (ops' : BodyOps n) :
    Prop where
  unsupported : ∀ msg, R.rel (ops.unsupported msg) (ops'.unsupported msg)
  panic : ∀ {α : Type} (e : Panic), e ≠ .unregisteredVariable →
    R.rel (ops.panic e : m α) (ops'.panic e)
  extractAdt : ∀ d, R.rel (ops.extractAdt d) (ops'.extractAdt d)
  extractFnRef : ∀ d, R.rel (ops.extractFnRef d) (ops'.extractFnRef d)
  extractTy : ∀ ty, R.rel (ops.extractTy ty) (ops'.extractTy ty)
  extractTys : ∀ tys, R.rel (ops.extractTys tys) (ops'.extractTys tys)
  fetchVar : ∀ h, known h → R.rel (ops.fetchVar h) (ops'.fetchVar h)

variable {R : MonadRel m n} {known : HirId → Prop} {ops : BodyOps m} {ops' : BodyOps n}
  {tcx : Tcx}

/-! ## Lists with an index -/

theorem orderedInsert_rel {α : Type} {x : Nat × m α} {y : Nat × n α} {xs : List (Nat × m α)}
    {ys : List (Nat × n α)} (hi : x.1 = y.1) (hr : R.rel x.2 y.2) (h : R.each xs ys) :
    R.each (xs.orderedInsert (fun a b => a.1 ≤ b.1) x)
      (ys.orderedInsert (fun a b => a.1 ≤ b.1) y) := by
  induction h with
  | nil => exact .cons ⟨hi, hr⟩ .nil
  | @cons x' y' xs ys hxy h ih =>
    rw [List.orderedInsert, List.orderedInsert, hi, hxy.1]
    split
    · exact .cons ⟨hi, hr⟩ (.cons hxy h)
    · exact .cons hxy ih

theorem sortByIndex_rel {α : Type} {xs : List (Nat × m α)} {ys : List (Nat × n α)}
    (h : R.each xs ys) : R.each (sortByIndex xs) (sortByIndex ys) := by
  induction h with
  | nil => exact .nil
  | cons hxy _ ih => exact orderedInsert_rel hxy.1 hxy.2 ih

theorem extractSubpatternsFrom_rel (numFields : Nat) : ∀ (i : Nat) {xs : List (Nat × m Pattern)}
    {ys : List (Nat × n Pattern)}, R.each xs ys →
    R.rel (extractSubpatternsFrom i numFields xs) (extractSubpatternsFrom i numFields ys) := by
  induction numFields with
  | zero =>
    intro i xs ys _
    simp only [extractSubpatternsFrom]
    exact R.pure _
  | succ k ih =>
    intro i xs ys h
    cases h with
    | nil =>
      simp only [extractSubpatternsFrom]
      exact R.bind (ih _ .nil) fun _ => R.pure _
    | @cons x y xs ys hxy h =>
      obtain ⟨index, x⟩ := x
      obtain ⟨index', y⟩ := y
      obtain ⟨rfl, hxy⟩ := hxy
      simp only [extractSubpatternsFrom]
      refine R.ite (fun _ => ?_) fun _ => ?_
      · exact R.bind hxy fun _ => R.bind (ih _ h) fun _ => R.pure _
      · exact R.bind (ih _ (.cons ⟨rfl, hxy⟩ h)) fun _ => R.pure _

theorem extractSubpatterns_rel {xs : List (Nat × m Pattern)} {ys : List (Nat × n Pattern)}
    (h : R.each xs ys) (numFields : Nat) :
    R.rel (extractSubpatterns xs numFields) (extractSubpatterns ys numFields) :=
  extractSubpatternsFrom_rel numFields 0 (sortByIndex_rel h)

theorem extractAll_rel {xs : List (m St.Expr)} {ys : List (n St.Expr)} (h : R.all xs ys) :
    R.rel (extractAll xs) (extractAll ys) := by
  induction h with
  | nil => exact R.pure _
  | cons hxy _ ih =>
    simp only [extractAll]
    exact R.bind hxy fun _ => R.bind ih fun _ => R.pure _

/-! ## Panics of the traversal itself -/

theorem literalTryFrom_error {konst : Const} {e : Panic} (h : literalTryFrom konst = .error e) :
    e ≠ .unregisteredVariable := by
  unfold literalTryFrom at h
  split at h
  · simp at h
  · split at h
    · split at h <;> simp at h
      rw [← h]
      simp
    all_goals try simp at h
    split at h <;> simp at h

theorem looksLikeIf_error {scrutinee : Hair.Expr} {arms : List Hair.Arm} {e : Panic}
    (h : looksLikeIf scrutinee arms = .error e) : e ≠ .unregisteredVariable := by
  unfold looksLikeIf at h
  split at h
  · split at h
    · split at h
      · next p hp =>
        rw [← Except.error.inj h]
        exact literalTryFrom_error hp
      · split at h <;> simp at h
        rw [← h]
        simp
      · simp at h
    · simp at h
  · simp at h

/-! ## Operators -/

variable (hops : OpsRel R known ops ops')

include hops

theorem unsupportedExpr_rel (msg : String) :
    R.rel (unsupportedExpr ops msg) (unsupportedExpr ops' msg) :=
  R.bind (hops.unsupported msg) fun _ => R.pure _

theorem unsupportedPattern_rel (msg : String) :
    R.rel (unsupportedPattern ops msg) (unsupportedPattern ops' msg) :=
  R.bind (hops.unsupported msg) fun _ => R.pure _

theorem bailBlock_rel (accExprs : List St.Expr) (msg : String) :
    R.rel (bailBlock ops accExprs msg) (bailBlock ops' accExprs msg) :=
  R.bind (hops.unsupported msg) fun _ => R.pure _

theorem extractLiteral_rel (konst : Const) :
    R.rel (extractLiteral ops konst) (extractLiteral ops' konst) := by
  unfold extractLiteral
  cases hlit : literalTryFrom konst with
  | error e => exact hops.panic e (literalTryFrom_error hlit)
  | ok lit =>
    cases lit with
    | none => exact unsupportedExpr_rel hops _
    | some lit => exact R.pure _

theorem extractUnary_rel (op : Hair.UnOp) (argTy : Ty) (arg : St.Expr) :
    R.rel (extractUnary tcx ops op argTy arg) (extractUnary tcx ops' op argTy arg) := by
  have hpanic := hops.panic (α := St.Expr) .unexpected (by simp)
  cases op with
  | not =>
    simp only [extractUnary]
    exact R.ite (fun _ => R.pure _) fun _ => R.ite (fun _ => R.pure _) fun _ => hpanic
  | neg =>
    simp only [extractUnary]
    exact R.ite (fun _ => R.pure _) fun _ => hpanic

theorem extractShift_rel (ty1 ty2 : Ty) (isShl : Bool) (arg1 arg2 : St.Expr) :
    R.rel (extractShift ops ty1 ty2 isShl arg1 arg2)
      (extractShift ops' ty1 ty2 isShl arg1 arg2) := by
  unfold extractShift
  cases widenShiftArg ty1 ty2 arg2 with
  | error msg => exact unsupportedExpr_rel hops _
  | ok arg2 => exact R.ite (fun _ => R.pure _) fun _ => R.ite (fun _ => R.pure _) fun _ => R.pure _

theorem extractBinary_rel (op : Hair.BinOp) (ty1 ty2 : Ty) (arg1 arg2 : St.Expr) :
    R.rel (extractBinary ops op ty1 ty2 arg1 arg2) (extractBinary ops' op ty1 ty2 arg1 arg2) := by
  have hunsupported := unsupportedExpr_rel hops "Cannot extract binary op"
  unfold extractBinary
  refine R.ite (fun _ => hunsupported) fun _ => ?_
  cases op with
  | eq | ne => exact R.pure _
  | shl | shr => exact R.ite (fun _ => extractShift_rel hops _ _ _ _ _) fun _ => hunsupported
  | offset => exact hunsupported
  | _ => exact R.ite (fun _ => R.pure _) fun _ => hunsupported

/-! ## Patterns -/

theorem tryPatternToVar_rel : ∀ (p : Hair.Pat) (allowSubpattern : Bool), (∀ h ∈ p.vars, known h) →
    R.rel (tryPatternToVar ops p allowSubpattern) (tryPatternToVar ops' p allowSubpattern)
  | .binding _ .mut _ _ _, _, _ => R.pure _
  | .binding _ .not mode var subpattern, allowSubpattern, hk => by
    simp only [tryPatternToVar]
    refine R.ite (fun _ => R.pure _) fun _ => ?_
    have hvar := hops.fetchVar var (hk var (by simp [Hair.Pat.vars]))
    match mode with
    | .byValue | .byRef .shared => exact R.bind hvar fun _ => R.pure _
    | .byRef .shallow | .byRef .unique | .byRef .mut => exact R.pure _
  | .ascribeUserType _ subpattern, allowSubpattern, hk => by
    simp only [tryPatternToVar]
    exact tryPatternToVar_rel subpattern allowSubpattern (by simpa [Hair.Pat.vars] using hk)
  | .wild _, _, _ | .variant _ _ _ _ _, _, _ | .leaf _ _, _, _ | .constant _ _, _, _
  | .deref _ _, _, _ | .other _, _, _ => by
    simp only [tryPatternToVar]
    exact R.pure _

theorem extractArgTypes_rel (substs : List Ty) :
    R.rel (extractArgTypes ops substs) (extractArgTypes ops' substs) := hops.extractTys _

omit hops in
mutual

theorem extractPattern_rel (hops : OpsRel R known ops ops') :
    ∀ (p : Hair.Pat) (binder : Option ValDef), (∀ h ∈ p.vars, known h) →
    R.rel (extractPattern ops p binder) (extractPattern ops' p binder)
  | .wild _, binder, _ => by
    simp only [extractPattern]
    exact R.pure _
  | .binding ty mutability mode var subpattern, binder, hk => by
    simp only [extractPattern]
    refine R.ite (fun _ => hops.panic _ (by simp)) fun _ => ?_
    refine R.bind (tryPatternToVar_rel hops _ _ hk) fun r => ?_
    cases r with
    | ok v =>
      simp only [Hair.Pat.vars, List.mem_cons] at hk
      exact extractBound_rel hops subpattern { v := v } fun h hh => hk h (.inr hh)
    | error reason => exact unsupportedPattern_rel hops _
  | .variant _ did substs variantIndex subpatterns, binder, hk => by
    simp only [extractPattern]
    rw [Hair.Pat.vars] at hk
    refine R.bind (hops.extractAdt did) fun sort => ?_
    cases sort[variantIndex]? with
    | none => exact hops.panic _ (by simp)
    | some constructor =>
      refine R.bind (extractArgTypes_rel hops substs) fun _ => ?_
      exact R.bind (extractSubpatterns_rel (patternActions_rel hops subpatterns hk) _) fun _ =>
        R.pure _
  | .leaf ty subpatterns, binder, hk => by
    simp only [extractPattern]
    rw [Hair.Pat.vars] at hk
    cases ty with
    | adt did substs =>
      refine R.bind (hops.extractAdt did) fun sort => ?_
      match sort with
      | [] => exact hops.panic _ (by simp)
      | [constructor] =>
        refine R.bind (extractArgTypes_rel hops substs) fun _ => ?_
        exact R.bind (extractSubpatterns_rel (patternActions_rel hops subpatterns hk) _)
          fun _ => R.pure _
      | _ :: _ :: _ => exact hops.panic _ (by simp)
    | tuple tys =>
      exact R.bind (extractSubpatterns_rel (patternActions_rel hops subpatterns hk) _) fun _ =>
        R.pure _
    | _ => exact unsupportedPattern_rel hops _
  | .constant _ konst, binder, _ => by
    simp only [extractPattern]
    cases hlit : literalTryFrom konst with
    | error e => exact hops.panic e (literalTryFrom_error hlit)
    | ok lit =>
      cases lit with
      | none => exact unsupportedPattern_rel hops _
      | some lit => exact R.pure _
  | .deref _ subpattern, binder, hk => by
    simp only [extractPattern]
    exact extractPattern_rel hops subpattern binder (by simpa [Hair.Pat.vars] using hk)
  | .ascribeUserType _ _, _, _ | .other _, _, _ => by
    simp only [extractPattern]
    exact unsupportedPattern_rel hops _

theorem extractBound_rel (hops : OpsRel R known ops ops') :
    ∀ (p : Option Hair.Pat) (binder : ValDef), (∀ h ∈ Hair.Pat.optVars p, known h) →
    R.rel (extractBound ops p binder) (extractBound ops' p binder)
  | some p, binder, hk => by
    simp only [extractBound]
    exact extractPattern_rel hops p (some binder) (by simpa [Hair.Pat.optVars] using hk)
  | none, binder, _ => by
    simp only [extractBound]
    exact R.pure _

theorem patternActions_rel (hops : OpsRel R known ops ops') :
    ∀ ps : List (Nat × Hair.Pat), (∀ h ∈ Hair.Pat.fieldVars ps, known h) →
    R.each (patternActions ops ps) (patternActions ops' ps)
  | [], _ => by
    simp only [patternActions]
    exact .nil
  | (index, p) :: ps, hk => by
    simp only [Hair.Pat.fieldVars, List.mem_append] at hk
    simp only [patternActions]
    exact .cons ⟨rfl, extractPattern_rel hops p none fun h hh => hk h (.inl hh)⟩
      (patternActions_rel hops ps fun h hh => hk h (.inr hh))

end

/-! ## Calls -/

theorem extractPanic_rel {xs : List (m St.Expr)} {ys : List (n St.Expr)} (h : R.all xs ys)
    (isFmt : Bool) : R.rel (extractPanic ops xs isFmt) (extractPanic ops' ys isFmt) := by
  match h with
  | .nil => exact hops.panic _ (by simp)
  | .cons hx .nil =>
    simp only [extractPanic]
    exact R.ite (fun _ => unsupportedExpr_rel hops _) fun _ => R.bind hx fun _ => R.pure _
  | .cons _ (.cons _ _) => exact hops.panic _ (by simp)

theorem extractSetOp_rel {xs : List (m St.Expr)} {ys : List (n St.Expr)} (h : R.all xs ys)
    (operator : BinaryOperator) :
    R.rel (extractSetOp ops operator xs) (extractSetOp ops' operator ys) := by
  unfold extractSetOp
  refine R.bind (extractAll_rel h) fun es => ?_
  match es with
  | [] | [_] => exact hops.panic _ (by simp)
  | _ :: _ :: _ => exact R.pure _

theorem extractSetCreation_rel {xs : List (m St.Expr)} {ys : List (n St.Expr)} (h : R.all xs ys)
    (substs : List Ty) :
    R.rel (extractSetCreation ops xs substs) (extractSetCreation ops' ys substs) := by
  unfold extractSetCreation
  refine R.bind (extractAll_rel h) fun es => ?_
  cases substs with
  | nil => exact hops.panic _ (by simp)
  | cons ty _ => exact R.bind (hops.extractTy ty) fun _ => R.pure _

theorem extractCall_rel {xs : List (m St.Expr)} {ys : List (n St.Expr)} (h : R.all xs ys)
    (did : DefId) (substs : List Ty) :
    R.rel (extractCall ops did substs xs) (extractCall ops' did substs ys) := by
  unfold extractCall
  refine R.bind (hops.extractFnRef did) fun fdId => ?_
  refine R.ite (fun _ => ?_) fun _ => ?_
  · cases h with
    | nil => exact hops.panic _ (by simp)
    | cons hx _ => exact hx
  · refine R.bind (extractArgTypes_rel hops substs) fun _ => ?_
    exact R.bind (extractAll_rel h) fun _ => R.pure _

theorem extractCallLike_rel {xs : List (m St.Expr)} {ys : List (n St.Expr)} (h : R.all xs ys)
    (funTy : Ty) :
    R.rel (extractCallLike tcx ops funTy xs) (extractCallLike tcx ops' funTy ys) := by
  cases funTy with
  | fnDef did substs =>
    simp only [extractCallLike]
    cases tcx.stdItems.defToItemOpt did with
    | none => exact extractCall_rel hops h did substs
    | some item =>
      cases item with
      | beginPanicFn | beginPanicFmtFn => exact extractPanic_rel hops h _
      | setEmptyFn | setSingletonFn => exact extractSetCreation_rel hops h substs
      | setAddFn | setDifferenceFn | setIntersectionFn | setUnionFn | subsetOfFn =>
        exact extractSetOp_rel hops h _
      | fnTrait | fnMutTrait | fnOnceTrait | sizedTrait | setType =>
        exact extractCall_rel hops h did substs
  | _ => exact unsupportedExpr_rel hops _

theorem extractIf_rel {x : m St.Expr} {y : n St.Expr} {xs : List (m St.Expr)}
    {ys : List (n St.Expr)} (hxy : R.rel x y) (h : R.all xs ys) (hasElze : Bool) :
    R.rel (extractIf ops x xs hasElze) (extractIf ops' y ys hasElze) := by
  match h with
  | .nil => exact hops.panic _ (by simp)
  | .cons _ .nil => exact hops.panic _ (by simp)
  | .cons hthenn (.cons helze .nil) =>
    refine R.bind hxy fun _ => ?_
    refine R.bind hthenn fun _ => ?_
    refine R.bind ?_ fun _ => R.pure _
    exact R.ite (fun _ => helze) fun _ => R.pure _
  | .cons _ (.cons _ (.cons _ _)) => exact hops.panic _ (by simp)

/-! ## Expressions -/

omit hops in
mutual

/-- **Traversals with related operations are related.** -/
theorem extractExprWith_rel (hops : OpsRel R known ops ops') :
    ∀ e : Hair.Expr, (∀ h ∈ e.vars, known h) →
    R.rel (extractExprWith tcx ops e) (extractExprWith tcx ops' e)
  | .literal _ konst, _ => by
    simp only [extractExprWith]
    exact extractLiteral_rel hops konst
  | .unary _ op arg, hk => by
    simp only [extractExprWith]
    rw [Hair.Expr.vars] at hk
    exact R.bind (extractExprWith_rel hops arg hk) fun _ => extractUnary_rel hops _ _ _
  | .binary _ op lhs rhs, hk => by
    simp only [extractExprWith]
    simp only [Hair.Expr.vars, List.mem_append] at hk
    refine R.bind (extractExprWith_rel hops lhs fun h hh => hk h (.inl hh)) fun _ => ?_
    exact R.bind (extractExprWith_rel hops rhs fun h hh => hk h (.inr hh)) fun _ =>
      extractBinary_rel hops _ _ _ _ _
  | .logicalOp _ op lhs rhs, hk => by
    simp only [extractExprWith]
    simp only [Hair.Expr.vars, List.mem_append] at hk
    refine R.ite (fun _ => ?_) fun _ => hops.panic _ (by simp)
    refine R.bind (extractExprWith_rel hops lhs fun h hh => hk h (.inl hh)) fun _ => ?_
    refine R.bind (extractExprWith_rel hops rhs fun h hh => hk h (.inr hh)) fun _ => ?_
    cases op <;> exact R.pure _
  | .tuple _ fields, hk => by
    simp only [extractExprWith]
    rw [Hair.Expr.vars] at hk
    match fields.length with
    | 0 => exact R.pure _
    | 1 => exact unsupportedExpr_rel hops _
    | _ + 2 => exact R.bind (extractAll_rel (exprActions_rel hops fields hk)) fun _ => R.pure _
  | .field _ lhs name, hk => by
    simp only [extractExprWith]
    rw [Hair.Expr.vars] at hk
    cases lhs.ty with
    | tuple _ => exact R.bind (extractExprWith_rel hops lhs hk) fun _ => R.pure _
    | adt did _ =>
      refine R.bind (hops.extractAdt did) fun sort => ?_
      match sort with
      | [] => exact hops.panic _ (by simp)
      | [constructor] =>
        simp only
        cases constructor.fields[name]? with
        | some fieldId => exact R.bind (extractExprWith_rel hops lhs hk) fun _ => R.pure _
        | none => exact hops.panic _ (by simp)
      | _ :: _ :: _ => exact hops.panic _ (by simp)
    | _ => exact hops.panic _ (by simp)
  | .varRef _ id, hk => by
    simp only [extractExprWith]
    exact R.bind (hops.fetchVar id (hk id (by simp [Hair.Expr.vars]))) fun _ => R.pure _
  | .call _ funTy args, hk => by
    simp only [extractExprWith]
    rw [Hair.Expr.vars] at hk
    exact extractCallLike_rel hops (exprActions_rel hops args hk) funTy
  | .adt _ did variantIndex substs fields base, hk => by
    simp only [extractExprWith]
    rw [Hair.Expr.vars] at hk
    refine R.ite (fun _ => unsupportedExpr_rel hops _) fun _ => ?_
    refine R.bind (hops.extractAdt did) fun sort => ?_
    cases sort[variantIndex]? with
    | none => exact hops.panic _ (by simp)
    | some constructor =>
      refine R.bind (extractArgTypes_rel hops substs) fun _ => ?_
      exact R.bind (extractAll_rel (sortByIndex_rel (fieldActions_rel hops fields hk)).all)
        fun _ => R.pure _
  | .block _ safe stmts expr, hk => by
    simp only [extractExprWith]
    simp only [Hair.Expr.vars, List.mem_append] at hk
    refine R.ite (fun _ => ?_) fun _ => unsupportedExpr_rel hops _
    exact R.bind (extractFinal_rel hops expr fun h hh => hk h (.inr hh)) fun finalExpr =>
      extractBlock_rel hops stmts [] finalExpr fun h hh => hk h (.inl hh)
  | .matchE _ scrutinee arms, hk => by
    simp only [extractExprWith]
    simp only [Hair.Expr.vars, List.mem_append] at hk
    have hscrutinee := extractExprWith_rel hops scrutinee fun h hh => hk h (.inl hh)
    cases hif : looksLikeIf scrutinee arms with
    | error e => exact hops.panic e (looksLikeIf_error hif)
    | ok shape =>
      cases shape with
      | some hasElze =>
        exact extractIf_rel hops hscrutinee
          (bodyActions_rel hops arms fun h hh => hk h (.inr hh)) hasElze
      | none =>
        refine R.bind hscrutinee fun _ => ?_
        exact R.bind (extractArms_rel hops arms fun h hh => hk h (.inr hh)) fun _ => R.pure _
  | .scope _ value, hk | .use _ value, hk | .neverToAny _ value, hk | .deref _ value, hk
  | .borrow _ .shared value, hk => by
    simp only [extractExprWith]
    rw [Hair.Expr.vars] at hk
    exact extractExprWith_rel hops value hk
  | .borrow _ .shallow _, _ | .borrow _ .unique _, _ | .borrow _ .mut _, _ | .other _ _, _ => by
    simp only [extractExprWith]
    exact unsupportedExpr_rel hops _

theorem extractFinal_rel (hops : OpsRel R known ops ops') :
    ∀ e : Option Hair.Expr, (∀ h ∈ Hair.Expr.optVars e, known h) →
    R.rel (extractFinal tcx ops e) (extractFinal tcx ops' e)
  | some e, hk => by
    simp only [extractFinal]
    exact extractExprWith_rel hops e (by simpa [Hair.Expr.optVars] using hk)
  | none, _ => by
    simp only [extractFinal]
    exact R.pure _

theorem exprActions_rel (hops : OpsRel R known ops ops') :
    ∀ es : List Hair.Expr, (∀ h ∈ Hair.Expr.listVars es, known h) →
    R.all (exprActions tcx ops es) (exprActions tcx ops' es)
  | [], _ => by
    simp only [exprActions]
    exact .nil
  | e :: es, hk => by
    simp only [exprActions]
    simp only [Hair.Expr.listVars, List.mem_append] at hk
    exact .cons (extractExprWith_rel hops e fun h hh => hk h (.inl hh))
      (exprActions_rel hops es fun h hh => hk h (.inr hh))

theorem fieldActions_rel (hops : OpsRel R known ops ops') :
    ∀ fs : List (Nat × Hair.Expr), (∀ h ∈ Hair.Expr.fieldVars fs, known h) →
    R.each (fieldActions tcx ops fs) (fieldActions tcx ops' fs)
  | [], _ => by
    simp only [fieldActions]
    exact .nil
  | (index, e) :: fs, hk => by
    simp only [fieldActions]
    simp only [Hair.Expr.fieldVars, List.mem_append] at hk
    exact .cons ⟨rfl, extractExprWith_rel hops e fun h hh => hk h (.inl hh)⟩
      (fieldActions_rel hops fs fun h hh => hk h (.inr hh))

theorem extractBlock_rel (hops : OpsRel R known ops ops') :
    ∀ (stmts : List Hair.Stmt) (accExprs : List St.Expr)
    (finalExpr : St.Expr), (∀ h ∈ Hair.Expr.stmtVars stmts, known h) →
    R.rel (extractBlock_ ops (stmtActions tcx ops stmts) accExprs finalExpr)
      (extractBlock_ ops' (stmtActions tcx ops' stmts) accExprs finalExpr)
  | [], accExprs, finalExpr, _ => by
    simp only [stmtActions, extractBlock_]
    exact R.pure _
  | .expr e :: stmts, accExprs, finalExpr, hk => by
    simp only [stmtActions, extractBlock_]
    simp only [Hair.Expr.stmtVars, List.mem_append] at hk
    exact R.bind (extractExprWith_rel hops e fun h hh => hk h (.inl hh)) fun _ =>
      extractBlock_rel hops stmts _ finalExpr fun h hh => hk h (.inr hh)
  | .letS pattern initializer :: stmts, accExprs, finalExpr, hk => by
    simp only [stmtActions, extractBlock_]
    simp only [Hair.Expr.stmtVars, List.mem_append] at hk
    refine R.bind (tryPatternToVar_rel hops pattern false fun h hh => hk h (.inl (.inl hh)))
      fun r => ?_
    cases r with
    | error reason => exact bailBlock_rel hops _ _
    | ok v =>
      cases initializer with
      | none =>
        simp only [initAction]
        exact bailBlock_rel hops _ _
      | some init =>
        simp only [initAction]
        simp only [Hair.Expr.optVars] at hk
        refine R.bind (extractExprWith_rel hops init fun h hh => hk h (.inl (.inr hh))) fun _ => ?_
        exact R.bind (extractBlock_rel hops stmts [] finalExpr fun h hh => hk h (.inr hh))
          fun _ => R.pure _

theorem bodyActions_rel (hops : OpsRel R known ops ops') :
    ∀ arms : List Hair.Arm, (∀ h ∈ Hair.Expr.armVars arms, known h) →
    R.all (bodyActions tcx ops arms) (bodyActions tcx ops' arms)
  | [], _ => by
    simp only [bodyActions]
    exact .nil
  | .mk _ _ body :: arms, hk => by
    simp only [bodyActions]
    simp only [Hair.Expr.armVars, List.mem_append] at hk
    exact .cons (extractExprWith_rel hops body fun h hh => hk h (.inl (.inr hh)))
      (bodyActions_rel hops arms fun h hh => hk h (.inr hh))

theorem extractArms_rel (hops : OpsRel R known ops ops') :
    ∀ arms : List Hair.Arm, (∀ h ∈ Hair.Expr.armVars arms, known h) →
    R.rel (extractArms tcx ops arms) (extractArms tcx ops' arms)
  | [], _ => by
    simp only [extractArms]
    exact R.pure _
  | .mk pattern guard body :: arms, hk => by
    simp only [extractArms]
    simp only [Hair.Expr.armVars, List.mem_append] at hk
    refine R.bind (extractPattern_rel hops pattern none fun h hh =>
      hk h (.inl (.inl (.inl hh)))) fun _ => ?_
    refine R.bind (extractGuard_rel hops guard fun h hh => hk h (.inl (.inl (.inr hh)))) fun _ => ?_
    refine R.bind (extractExprWith_rel hops body fun h hh => hk h (.inl (.inr hh))) fun _ => ?_
    exact R.bind (extractArms_rel hops arms fun h hh => hk h (.inr hh)) fun _ => R.pure _

theorem extractGuard_rel (hops : OpsRel R known ops ops') :
    ∀ guard : Option Hair.Expr, (∀ h ∈ Hair.Expr.optVars guard, known h) →
    R.rel (extractGuard tcx ops guard) (extractGuard tcx ops' guard)
  | none, _ => by
    simp only [extractGuard]
    exact R.pure _
  | some e, hk => by
    simp only [extractGuard]
    exact R.bind (extractExprWith_rel hops e (by simpa [Hair.Expr.optVars] using hk)) fun _ =>
      R.pure _

end

end Stainless
