import RustStainless.Data.Placeholders
import RustStainless.Lib.Ensures
import RustStainless.Extraction.ImageExtracts
import RustStainless.Extraction.Traversal

/-!
# Bodies without placeholders

The traversal of a body is asked for all its outcomes, when the types and the variables that it is
given are proper and when nothing may be reported: `unsupported` has no outcome. Then every tree
that it can return is proper, so each placeholder of the traversal is put behind a report.
-/

namespace Stainless

open Rustc St Lib

/-- Ids and proper types may be anything, and what is reported or panics has no outcome. -/
def properOps : BodyOps Outcomes where
  unsupported := fun _ => .none
  panic := fun _ => .none
  extractAdt := fun _ _ => True
  extractFnRef := fun _ _ => True
  extractTy := fun _ => Tpe.Proper
  extractTys := fun _ => Tpe.ProperAll
  fetchVar := fun _ => Variable.Proper

section

variable {tcx : Tcx}

theorem unsupported_proper {α : Type} {P : α → Prop} {msg : String} {f : Unit → Outcomes α} :
    (properOps.unsupported msg >>= f).All P :=
  .bind (P := fun _ => False) .none fun _ h => h.elim

theorem unsupportedExpr_proper {msg : String} :
    (unsupportedExpr properOps msg).All Expr.Proper := unsupported_proper

theorem unsupportedPattern_proper {msg : String} :
    (unsupportedPattern properOps msg).All Pattern.Proper := unsupported_proper

theorem bailBlock_proper {accExprs : List St.Expr} {msg : String} :
    (bailBlock properOps accExprs msg).All Expr.Proper := unsupported_proper

theorem panic_proper {α : Type} {P : α → Prop} {e : Panic} :
    (properOps.panic e : Outcomes α).All P := .none

/-! ## Operators -/

theorem extractLiteral_proper (konst : Const) :
    (extractLiteral properOps konst).All Expr.Proper := by
  unfold extractLiteral
  split
  · exact .pure trivial
  · exact unsupportedExpr_proper
  · exact panic_proper

theorem extractUnary_proper (op : Hair.UnOp) (argTy : Ty) {arg : St.Expr} (h : arg.Proper) :
    (extractUnary tcx properOps op argTy arg).All Expr.Proper := by
  cases op with
  | not =>
    simp only [extractUnary]
    split
    · exact .pure h
    · split
      · exact .pure h
      · exact panic_proper
  | neg =>
    simp only [extractUnary]
    split
    · exact .pure h
    · exact panic_proper

theorem widenShiftArg_proper {ty1 ty2 : Ty} {arg2 e : St.Expr} (h : arg2.Proper)
    (he : widenShiftArg ty1 ty2 arg2 = .ok e) : e.Proper := by
  have hcast : ∀ signed width, (St.Expr.bvWideningCast arg2 (.bvType signed width)).Proper :=
    fun _ _ => ⟨h, trivial⟩
  unfold widenShiftArg at he
  split at he
  · rw [← Except.ok.inj he]
    exact h
  · split at he
    -- integers of the same signedness, as far as both have a width
    · split at he
      · split at he
        · rw [← Except.ok.inj he]
          exact hcast _ _
        · simp at he
      · simp at he
    · split at he
      · split at he
        · rw [← Except.ok.inj he]
          exact hcast _ _
        · simp at he
      · simp at he
    · simp at he

theorem extractShift_proper (ty1 ty2 : Ty) (isShl : Bool) {arg1 arg2 : St.Expr} (h1 : arg1.Proper)
    (h2 : arg2.Proper) : (extractShift properOps ty1 ty2 isShl arg1 arg2).All Expr.Proper := by
  unfold extractShift
  cases he : widenShiftArg ty1 ty2 arg2 with
  | error msg => exact unsupportedExpr_proper
  | ok e =>
    have h := widenShiftArg_proper h2 he
    dsimp only
    split
    · exact .pure ⟨h1, h⟩
    · split
      · exact .pure ⟨h1, h⟩
      · exact .pure ⟨h1, h⟩

theorem extractBinary_proper (op : Hair.BinOp) (ty1 ty2 : Ty) {arg1 arg2 : St.Expr}
    (h1 : arg1.Proper) (h2 : arg2.Proper) :
    (extractBinary properOps op ty1 ty2 arg1 arg2).All Expr.Proper := by
  unfold extractBinary
  dsimp only
  split
  · exact unsupportedExpr_proper
  · cases op with
    | eq | ne => exact .pure ⟨h1, h2⟩
    | shl | shr =>
      dsimp only
      split
      · exact extractShift_proper _ _ _ h1 h2
      · exact unsupportedExpr_proper
    | offset => exact unsupportedExpr_proper
    | _ =>
      dsimp only
      split
      · exact .pure ⟨h1, h2⟩
      · exact unsupportedExpr_proper

/-! ## Patterns -/

theorem tryPatternToVar_proper : ∀ (p : Hair.Pat) (allowSubpattern : Bool),
    (tryPatternToVar properOps p allowSubpattern).All fun r => ∀ v, r = .ok v → v.Proper
  | .binding _ .mut _ _ _, _ => .pure (by simp)
  | .binding _ .not mode var subpattern, allowSubpattern => by
    have hvar : (do
        let v ← properOps.fetchVar var
        pure (.ok v) : Outcomes (Except String Variable)).All fun r => ∀ v, r = .ok v → v.Proper :=
      .bind (P := Variable.Proper) (fun _ h => h) fun v hv => .pure (by simpa using hv)
    simp only [tryPatternToVar]
    split
    · exact .pure (by simp)
    · cases mode with
      | byValue => exact hvar
      | byRef kind =>
        cases kind with
        | shared => exact hvar
        | _ => exact .pure (by simp)
  | .ascribeUserType _ subpattern, allowSubpattern => by
    simp only [tryPatternToVar]
    exact tryPatternToVar_proper subpattern allowSubpattern
  | .wild _, _ | .variant _ _ _ _ _, _ | .leaf _ _, _ | .constant _ _, _ | .deref _ _, _
  | .other _, _ => by
    simp only [tryPatternToVar]
    exact .pure (by simp)

theorem extractSubpatternsFrom_proper (numFields : Nat) : ∀ (i : Nat)
    {fieldPats : List (Nat × Outcomes Pattern)},
    (∀ f ∈ fieldPats, f.2.All Pattern.Proper) →
    (extractSubpatternsFrom i numFields fieldPats).All Pattern.ProperAll := by
  induction numFields with
  | zero =>
    intro i fieldPats _
    rw [extractSubpatternsFrom]
    exact .pure trivial
  | succ n ih =>
    intro i fieldPats h
    cases fieldPats with
    | nil =>
      rw [extractSubpatternsFrom]
      exact (ih _ h).bind fun ps hps => .pure ⟨optProper_none, hps⟩
    | cons f fieldPats =>
      obtain ⟨index, pattern⟩ := f
      rw [extractSubpatternsFrom]
      split
      · refine (h _ List.mem_cons_self).bind fun p hp => ?_
        exact (ih _ fun f hf => h f (List.mem_cons_of_mem _ hf)).bind fun ps hps => .pure ⟨hp, hps⟩
      · exact (ih _ h).bind fun ps hps => .pure ⟨optProper_none, hps⟩

theorem extractSubpatterns_proper {fieldPats : List (Nat × Outcomes Pattern)} (numFields : Nat)
    (h : ∀ f ∈ fieldPats, f.2.All Pattern.Proper) :
    (extractSubpatterns fieldPats numFields).All Pattern.ProperAll :=
  extractSubpatternsFrom_proper numFields 0 fun f hf => h f (mem_sortByIndex.mp hf)

theorem extractArgTypes_proper (substs : List Ty) :
    (extractArgTypes properOps substs).All Tpe.ProperAll := fun _ h => h

mutual

theorem extractPattern_proper : ∀ (p : Hair.Pat) {binder : Option ValDef},
    OptProper ValDef.Proper binder → (extractPattern properOps p binder).All Pattern.Proper
  | .wild _, binder, hb => by
    simp only [extractPattern]
    exact .pure hb
  | .binding ty mutability mode var subpattern, binder, hb => by
    simp only [extractPattern]
    split
    · exact panic_proper
    · refine (tryPatternToVar_proper _ _).bind fun r hr => ?_
      cases r with
      | ok v => exact extractBound_proper subpattern (hr v rfl)
      | error reason => exact unsupportedPattern_proper
  | .variant _ did substs variantIndex subpatterns, binder, hb => by
    simp only [extractPattern]
    refine .bind (P := fun _ => True) (fun _ _ => trivial) fun sort _ => ?_
    split
    · exact panic_proper
    · refine (extractArgTypes_proper substs).bind fun tps htps => ?_
      refine (extractSubpatterns_proper _ (patternActions_proper subpatterns)).bind fun ps hps => ?_
      exact .pure ⟨hb, htps, hps⟩
  | .leaf ty subpatterns, binder, hb => by
    simp only [extractPattern]
    split
    · refine .bind (P := fun _ => True) (fun _ _ => trivial) fun sort _ => ?_
      split
      · refine (extractArgTypes_proper _).bind fun tps htps => ?_
        refine (extractSubpatterns_proper _ (patternActions_proper subpatterns)).bind
          fun ps hps => ?_
        exact .pure ⟨hb, htps, hps⟩
      · exact panic_proper
    · exact (extractSubpatterns_proper _ (patternActions_proper subpatterns)).bind
        fun ps hps => .pure ⟨hb, hps⟩
    · exact unsupportedPattern_proper
  | .constant _ konst, binder, hb => by
    simp only [extractPattern]
    split
    · exact .pure hb
    · exact unsupportedPattern_proper
    · exact panic_proper
  | .deref _ subpattern, binder, hb => by
    simp only [extractPattern]
    exact extractPattern_proper subpattern hb
  | .ascribeUserType _ _, _, _ | .other _, _, _ => by
    simp only [extractPattern]
    exact unsupportedPattern_proper

theorem extractBound_proper : ∀ (p : Option Hair.Pat) {v : Variable}, v.Proper →
    (extractBound properOps p { v := v }).All Pattern.Proper
  | some p, v, hv => by
    simp only [extractBound]
    exact extractPattern_proper p (optProper_some.mpr hv)
  | none, v, hv => by
    simp only [extractBound]
    exact .pure (optProper_some.mpr hv)

theorem patternActions_proper : ∀ (fieldPats : List (Nat × Hair.Pat)),
    ∀ f ∈ patternActions properOps fieldPats, f.2.All Pattern.Proper
  | [] => by simp [patternActions]
  | (index, p) :: rest => by
    simp only [patternActions, List.forall_mem_cons]
    exact ⟨extractPattern_proper p optProper_none, patternActions_proper rest⟩

end

/-! ## Calls -/

theorem extractAll_proper : ∀ {es : List (Outcomes St.Expr)}, (∀ e ∈ es, e.All Expr.Proper) →
    (extractAll es).All Expr.ProperAll
  | [], _ => by
    rw [extractAll]
    exact .pure trivial
  | e :: es, h => by
    rw [extractAll]
    refine (h e List.mem_cons_self).bind fun t ht => ?_
    exact (extractAll_proper fun e he => h e (List.mem_cons_of_mem _ he)).bind
      fun ts hts => .pure ⟨ht, hts⟩

variable {args : List (Outcomes St.Expr)}

theorem extractPanic_proper (h : ∀ e ∈ args, e.All Expr.Proper) (isFmt : Bool) :
    (extractPanic properOps args isFmt).All Expr.Proper := by
  unfold extractPanic
  split
  · split
    · exact unsupportedExpr_proper
    · exact (h _ List.mem_cons_self).bind fun t ht => .pure ⟨⟨ht, trivial⟩, trivial⟩
  · exact panic_proper

theorem extractSetOp_proper (h : ∀ e ∈ args, e.All Expr.Proper) (operator : BinaryOperator) :
    (extractSetOp properOps operator args).All Expr.Proper := by
  unfold extractSetOp
  refine (extractAll_proper h).bind fun es hes => ?_
  split
  · exact .pure ⟨hes.1, hes.2.1⟩
  · exact panic_proper

theorem extractSetCreation_proper (h : ∀ e ∈ args, e.All Expr.Proper) (substs : List Ty) :
    (extractSetCreation properOps args substs).All Expr.Proper := by
  unfold extractSetCreation
  refine (extractAll_proper h).bind fun es hes => ?_
  split
  · exact panic_proper
  · exact .bind (P := Tpe.Proper) (fun _ ht => ht) fun t ht => .pure ⟨hes, ht⟩

theorem extractCall_proper (h : ∀ e ∈ args, e.All Expr.Proper) (did : DefId) (substs : List Ty) :
    (extractCall properOps did substs args).All Expr.Proper := by
  unfold extractCall
  refine .bind (P := fun _ => True) (fun _ _ => trivial) fun fdId _ => ?_
  split
  · split
    · exact panic_proper
    · exact h _ List.mem_cons_self
  · refine (extractArgTypes_proper _).bind fun tps htps => ?_
    exact (extractAll_proper h).bind fun es hes => .pure ⟨htps, hes⟩

theorem extractCallLike_proper (h : ∀ e ∈ args, e.All Expr.Proper) (funTy : Ty) :
    (extractCallLike tcx properOps funTy args).All Expr.Proper := by
  unfold extractCallLike
  split
  · split
    · exact extractPanic_proper h _
    · exact extractPanic_proper h _
    · exact extractSetCreation_proper h _
    · exact extractSetCreation_proper h _
    · exact extractSetOp_proper h _
    · exact extractSetOp_proper h _
    · exact extractSetOp_proper h _
    · exact extractSetOp_proper h _
    · exact extractSetOp_proper h _
    · exact extractCall_proper h _ _
  · exact unsupportedExpr_proper

/-! ## Blocks and conditionals -/

theorem finishBlock_proper : ∀ {exprs : List St.Expr} {finalExpr : St.Expr},
    Expr.ProperAll exprs → finalExpr.Proper → (finishBlock exprs finalExpr).Proper
  | [], _, _, hf => hf
  | _ :: _, _, hes, hf => ⟨hes, hf⟩

theorem extractIf_proper {cond : Outcomes St.Expr} {bodies : List (Outcomes St.Expr)}
    (hc : cond.All Expr.Proper) (hb : ∀ e ∈ bodies, e.All Expr.Proper) (hasElze : Bool) :
    (extractIf properOps cond bodies hasElze).All Expr.Proper := by
  unfold extractIf
  split
  · refine hc.bind fun c hc => ?_
    refine (hb _ List.mem_cons_self).bind fun t ht => ?_
    refine .bind (P := Expr.Proper) ?_ fun e he => .pure ⟨hc, ht, he⟩
    split
    · exact hb _ (List.mem_cons_of_mem _ List.mem_cons_self)
    · exact .pure trivial
  · exact panic_proper

/-! ## Expressions -/

mutual

/-- **Whatever the traversal returns without a report is proper.** -/
theorem extractExprWith_proper : ∀ e : Hair.Expr,
    (extractExprWith tcx properOps e).All Expr.Proper
  | .literal _ konst => by
    simp only [extractExprWith]
    exact extractLiteral_proper konst
  | .unary _ op arg => by
    simp only [extractExprWith]
    exact (extractExprWith_proper arg).bind fun t ht => extractUnary_proper op _ ht
  | .binary _ op lhs rhs => by
    simp only [extractExprWith]
    refine (extractExprWith_proper lhs).bind fun t1 h1 => ?_
    exact (extractExprWith_proper rhs).bind fun t2 h2 => extractBinary_proper op _ _ h1 h2
  | .logicalOp _ op lhs rhs => by
    simp only [extractExprWith]
    split
    · refine (extractExprWith_proper lhs).bind fun t1 h1 => ?_
      refine (extractExprWith_proper rhs).bind fun t2 h2 => ?_
      cases op
      · exact .pure ⟨h1, h2, trivial⟩
      · exact .pure ⟨h1, h2, trivial⟩
    · exact panic_proper
  | .tuple _ fields => by
    simp only [extractExprWith]
    split
    · exact .pure trivial
    · exact unsupportedExpr_proper
    · exact (extractAll_proper (exprActions_proper fields)).bind fun es hes => .pure hes
  | .field _ lhs name => by
    simp only [extractExprWith]
    split
    · exact (extractExprWith_proper lhs).bind fun t ht => .pure ht
    · refine .bind (P := fun _ => True) (fun _ _ => trivial) fun sort _ => ?_
      split
      · split
        · exact (extractExprWith_proper lhs).bind fun t ht => .pure ht
        · exact panic_proper
      · exact panic_proper
    · exact panic_proper
  | .varRef _ id => by
    simp only [extractExprWith]
    exact .bind (P := Variable.Proper) (fun _ hv => hv) fun v hv => .pure hv
  | .call _ funTy args => by
    simp only [extractExprWith]
    exact extractCallLike_proper (exprActions_proper args) funTy
  | .adt _ did variantIndex substs fields base => by
    simp only [extractExprWith]
    split
    · exact unsupportedExpr_proper
    · refine .bind (P := fun _ => True) (fun _ _ => trivial) fun sort _ => ?_
      split
      · exact panic_proper
      · refine (extractArgTypes_proper substs).bind fun tps htps => ?_
        refine (extractAll_proper fun e he => ?_).bind fun es hes => .pure ⟨htps, hes⟩
        obtain ⟨f, hf, rfl⟩ := List.mem_map.mp he
        exact fieldActions_proper fields f (mem_sortByIndex.mp hf)
  | .block _ safe stmts expr => by
    simp only [extractExprWith]
    split
    · refine (extractFinal_proper expr).bind fun t ht => ?_
      exact extractBlock_proper stmts trivial ht
    · exact unsupportedExpr_proper
  | .matchE _ scrutinee arms => by
    simp only [extractExprWith]
    have hs := extractExprWith_proper scrutinee
    split
    · exact panic_proper
    · exact extractIf_proper hs (bodyActions_proper arms) _
    · refine hs.bind fun t ht => ?_
      exact (extractArms_proper arms).bind fun cs hcs => .pure ⟨ht, hcs⟩
  | .scope _ value | .use _ value | .neverToAny _ value | .deref _ value
  | .borrow _ .shared value => by
    simp only [extractExprWith]
    exact extractExprWith_proper value
  | .borrow _ .shallow _ | .borrow _ .unique _ | .borrow _ .mut _ | .other _ _ => by
    simp only [extractExprWith]
    exact unsupportedExpr_proper

theorem extractFinal_proper : ∀ e : Option Hair.Expr,
    (extractFinal tcx properOps e).All Expr.Proper
  | some e => by
    simp only [extractFinal]
    exact extractExprWith_proper e
  | none => by
    simp only [extractFinal]
    exact .pure trivial

theorem exprActions_proper : ∀ es : List Hair.Expr,
    ∀ e ∈ exprActions tcx properOps es, e.All Expr.Proper
  | [] => by simp [exprActions]
  | e :: es => by
    simp only [exprActions, List.forall_mem_cons]
    exact ⟨extractExprWith_proper e, exprActions_proper es⟩

theorem fieldActions_proper : ∀ fields : List (Nat × Hair.Expr),
    ∀ f ∈ fieldActions tcx properOps fields, f.2.All Expr.Proper
  | [] => by simp [fieldActions]
  | (index, e) :: rest => by
    simp only [fieldActions, List.forall_mem_cons]
    exact ⟨extractExprWith_proper e, fieldActions_proper rest⟩

theorem extractBlock_proper : ∀ (stmts : List Hair.Stmt) {accExprs : List St.Expr}
    {finalExpr : St.Expr}, Expr.ProperAll accExprs → finalExpr.Proper →
    (extractBlock_ properOps (stmtActions tcx properOps stmts) accExprs finalExpr).All Expr.Proper
  | [], accExprs, finalExpr, hacc, hf => by
    simp only [stmtActions, extractBlock_]
    exact .pure (finishBlock_proper hacc hf)
  | .expr e :: stmts, accExprs, finalExpr, hacc, hf => by
    simp only [stmtActions, extractBlock_]
    refine (extractExprWith_proper e).bind fun t ht => ?_
    refine extractBlock_proper stmts (Expr.properAll_iff.mpr ?_) hf
    simpa [ht, or_imp, forall_and] using Expr.properAll_iff.mp hacc
  | .letS pattern initializer :: stmts, accExprs, finalExpr, hacc, hf => by
    simp only [stmtActions, extractBlock_]
    refine (tryPatternToVar_proper pattern false).bind fun r hr => ?_
    cases r with
    | error reason => exact bailBlock_proper
    | ok v =>
      cases initializer with
      | none =>
        simp only [initAction]
        exact bailBlock_proper
      | some init =>
        simp only [initAction]
        refine (extractExprWith_proper init).bind fun t ht => ?_
        have hnil : Expr.ProperAll [] := trivial
        refine (extractBlock_proper stmts hnil hf).bind fun b hb => ?_
        exact .pure (finishBlock_proper hacc ⟨hr v rfl, ht, hb⟩)

theorem bodyActions_proper : ∀ arms : List Hair.Arm,
    ∀ e ∈ bodyActions tcx properOps arms, e.All Expr.Proper
  | [] => by simp [bodyActions]
  | .mk _ _ body :: rest => by
    simp only [bodyActions, List.forall_mem_cons]
    exact ⟨extractExprWith_proper body, bodyActions_proper rest⟩

theorem extractArms_proper : ∀ arms : List Hair.Arm,
    (extractArms tcx properOps arms).All MatchCase.ProperAll
  | [] => by
    simp only [extractArms]
    exact .pure trivial
  | .mk pattern guard body :: rest => by
    simp only [extractArms]
    refine (extractPattern_proper pattern optProper_none).bind fun p hp => ?_
    refine (extractGuard_proper guard).bind fun g hg => ?_
    refine (extractExprWith_proper body).bind fun b hb => ?_
    exact (extractArms_proper rest).bind fun cs hcs => .pure ⟨⟨hp, hg, hb⟩, hcs⟩

theorem extractGuard_proper : ∀ guard : Option Hair.Expr,
    (extractGuard tcx properOps guard).All Expr.ProperOpt
  | none => by
    simp only [extractGuard]
    exact .pure trivial
  | some e => by
    simp only [extractGuard]
    exact (extractExprWith_proper e).bind fun t ht => .pure ht

end

end

end Stainless
