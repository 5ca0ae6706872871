import RustStainless.Extraction.CrateUses

/-!
# What the traversal of a body asks for

A body refers to the functions that it calls, asks for the ADTs whose constructors and fields it
names, and extracts the types it uses. Every property of states that these steps keep is kept by the
whole traversal.
-/

namespace Stainless

open Rustc St Lib Extraction

/-! ## Uses -/

/-- All uses are of the given kind. -/
def UsesOnly (ok : BodyUse → Prop) (us : List BodyUse) : Prop := ∀ u ∈ us, ok u

section

variable {ok : BodyUse → Prop} {us us' : List BodyUse} {u : BodyUse}

theorem UsesOnly.head (h : UsesOnly ok (u :: us)) : ok u := h u List.mem_cons_self

theorem UsesOnly.tail (h : UsesOnly ok (u :: us)) : UsesOnly ok us :=
  fun u' hu => h u' (List.mem_cons_of_mem _ hu)

theorem UsesOnly.left (h : UsesOnly ok (us ++ us')) : UsesOnly ok us :=
  fun u hu => h u (List.mem_append_left _ hu)

theorem UsesOnly.right (h : UsesOnly ok (us ++ us')) : UsesOnly ok us' :=
  fun u hu => h u (List.mem_append_right _ hu)

theorem UsesOnly.types {d : DefId} {tys : List Ty} (h : UsesOnly ok (tys.map (.type d))) :
    ∀ ty ∈ tys, ok (.type d ty) := fun _ hty => h _ (List.mem_map_of_mem hty)

theorem mem_callees {d : DefId} : d ∈ callees us ↔ .callee d ∈ us ∨ .boxNew d ∈ us := by
  rw [callees, List.mem_filterMap]
  constructor
  · rintro ⟨u, hu, hd⟩
    cases u <;> simp only [BodyUse.calls, Option.some.injEq, reduceCtorEq] at hd
    · exact .inl (hd ▸ hu)
    · exact .inr (hd ▸ hu)
  · rintro (hu | hu)
    · exact ⟨_, hu, rfl⟩
    · exact ⟨_, hu, rfl⟩

theorem callees_append : callees (us ++ us') = callees us ++ callees us' := List.filterMap_append

end

/-! ## What a traversal does to the state -/

/--
The operations move the state by `R` as far as the uses allow. The path of a function that is
referred to tells whether it is `Box::new`, so what comes behind may rely on it.
-/
structure OpsMove (tcx : Tcx) (R : Extraction → Extraction → Prop) (ok : BodyUse → Prop)
    (ops : BodyOps Xtor) : Prop where
  refl : ∀ s, R s s
  trans : ∀ {s s' s''}, R s s' → R s' s'' → R s s''
  unsupported : ∀ msg, Run.Moves R (ops.unsupported msg)
  panic : ∀ {α : Type} (e : Panic), Run.Moves R (ops.panic e : Xtor α)
  extractAdt : ∀ d variantIndex, ok (.constructor d variantIndex) → Run.Moves R (ops.extractAdt d)
  selectAdt : ∀ d name, ok (.field d name) → Run.Moves R (ops.extractAdt d)
  extractFnRef : ∀ d, ok (.callee d) ∨ ok (.boxNew d) → ∀ f : SymbolIdentifier → Xtor St.Expr,
    (∀ id, (id.symbolPath = boxNewPath ↔ isBoxNewPath tcx d = true) → Run.Moves R (f id)) →
    Run.Moves R (ops.extractFnRef d >>= f)
  extractTy : ∀ d ty, ok (.type d ty) → Run.Moves R (ops.extractTy ty)
  extractTys : ∀ d tys, (∀ ty ∈ tys, ok (.type d ty)) → Run.Moves R (ops.extractTys tys)
  fetchVar : ∀ h, Run.Moves R (ops.fetchVar h)

section Traversal

variable {R : Extraction → Extraction → Prop} {ok : BodyUse → Prop} {ops : BodyOps Xtor}
  {tcx : Tcx} {c : UseCtxt} {α β : Type}

variable (hops : OpsMove tcx R ok ops)

include hops

theorem OpsMove.pure (a : α) : Run.Moves R (pure a : Xtor α) := .pure hops.refl a

theorem OpsMove.bind {x : Xtor α} {f : α → Xtor β} (hx : Run.Moves R x)
    (hf : ∀ a, Run.Moves R (f a)) : Run.Moves R (x >>= f) :=
  Run.Moves.bind (R := R) hops.trans hx hf

theorem unsupportedExpr_moves (msg : String) : Run.Moves R (unsupportedExpr ops msg) :=
  hops.bind (hops.unsupported msg) fun _ => hops.pure _

theorem unsupportedPattern_moves (msg : String) : Run.Moves R (unsupportedPattern ops msg) :=
  hops.bind (hops.unsupported msg) fun _ => hops.pure _

theorem bailBlock_moves (accExprs : List St.Expr) (msg : String) :
    Run.Moves R (bailBlock ops accExprs msg) :=
  hops.bind (hops.unsupported msg) fun _ => hops.pure _

theorem extractLiteral_moves (konst : Const) : Run.Moves R (extractLiteral ops konst) := by
  unfold extractLiteral
  split
  · exact hops.pure _
  · exact unsupportedExpr_moves hops _
  · exact hops.panic _

theorem extractUnary_moves (op : Hair.UnOp) (argTy : Ty) (arg : St.Expr) :
    Run.Moves R (extractUnary tcx ops op argTy arg) := by
  cases op with
  | not => exact .ite (hops.pure _) (.ite (hops.pure _) (hops.panic _))
  | neg => exact .ite (hops.pure _) (hops.panic _)

theorem extractShift_moves (ty1 ty2 : Ty) (isShl : Bool) (arg1 arg2 : St.Expr) :
    Run.Moves R (extractShift ops ty1 ty2 isShl arg1 arg2) := by
  unfold extractShift
  split
  · exact unsupportedExpr_moves hops _
  · exact .ite (hops.pure _) (.ite (hops.pure _) (hops.pure _))

theorem extractBinary_moves (op : Hair.BinOp) (ty1 ty2 : Ty) (arg1 arg2 : St.Expr) :
    Run.Moves R (extractBinary ops op ty1 ty2 arg1 arg2) := by
  have hunsupported := unsupportedExpr_moves hops "Cannot extract binary op"
  unfold extractBinary
  refine .ite hunsupported ?_
  cases op with
  | eq | ne => exact hops.pure _
  | shl | shr => exact .ite (extractShift_moves hops _ _ _ _ _) hunsupported
  | offset => exact hunsupported
  | _ => exact .ite (hops.pure _) hunsupported

/-! ## Patterns -/

theorem tryPatternToVar_moves : ∀ (p : Hair.Pat) (allowSubpattern : Bool),
    Run.Moves R (tryPatternToVar ops p allowSubpattern)
  | .binding _ .mut _ _ _, _ => hops.pure _
  | .binding _ .not mode var subpattern, allowSubpattern => by
    simp only [tryPatternToVar]
    split
    · exact hops.pure _
    · split
      · exact hops.bind (hops.fetchVar var) fun _ => hops.pure _
      · exact hops.bind (hops.fetchVar var) fun _ => hops.pure _
      · exact hops.pure _
  | .ascribeUserType _ subpattern, allowSubpattern => by
    simp only [tryPatternToVar]
    exact tryPatternToVar_moves subpattern allowSubpattern
  | .wild _, _ | .variant _ _ _ _ _, _ | .leaf _ _, _ | .constant _ _, _ | .deref _ _, _
  | .other _, _ => by
    simp only [tryPatternToVar]
    exact hops.pure _

theorem extractSubpatternsFrom_moves (numFields : Nat) : ∀ (i : Nat)
    {fieldPats : List (Nat × Xtor Pattern)}, (∀ f ∈ fieldPats, Run.Moves R f.2) →
    Run.Moves R (extractSubpatternsFrom i numFields fieldPats) := by
  induction numFields with
  | zero =>
    intro i fieldPats _
    rw [extractSubpatternsFrom]
    exact hops.pure _
  | succ k ih =>
    intro i fieldPats h
    cases fieldPats with
    | nil =>
      rw [extractSubpatternsFrom]
      exact hops.bind (ih _ (by simp)) fun _ => hops.pure _
    | cons f fieldPats =>
      obtain ⟨index, pattern⟩ := f
      rw [extractSubpatternsFrom]
      split
      · have hrest := ih (i + 1) fun f hf => h f (List.mem_cons_of_mem _ hf)
        exact hops.bind (h _ List.mem_cons_self) fun _ => hops.bind hrest fun _ => hops.pure _
      · exact hops.bind (ih _ h) fun _ => hops.pure _

theorem extractSubpatterns_moves {fieldPats : List (Nat × Xtor Pattern)}
    (h : ∀ f ∈ fieldPats, Run.Moves R f.2) (numFields : Nat) :
    Run.Moves R (extractSubpatterns fieldPats numFields) :=
  extractSubpatternsFrom_moves hops numFields 0 fun f hf => h f (mem_sortByIndex.mp hf)

omit hops in
mutual

theorem extractPattern_moves (hops : OpsMove tcx R ok ops) : ∀ (p : Hair.Pat)
    (binder : Option ValDef), UsesOnly ok (patUses c p) → Run.Moves R (extractPattern ops p binder)
  | .wild _, binder, _ => by
    simp only [extractPattern]
    exact hops.pure _
  | .binding ty mutability mode var subpattern, binder, h => by
    simp only [extractPattern]
    split
    · exact hops.panic _
    · refine hops.bind (tryPatternToVar_moves hops _ _) fun r => ?_
      cases r with
      | ok v => exact extractBound_moves hops subpattern { v := v } h.right
      | error reason => exact unsupportedPattern_moves hops _
  | .variant _ did substs variantIndex subpatterns, binder, h => by
    have htypes := hops.extractTys _ _ h.left.tail.types
    have hsub := extractSubpatterns_moves hops (patternActions_moves hops subpatterns h.right)
    simp only [extractPattern]
    refine hops.bind (hops.extractAdt did _ h.left.head) fun sort => ?_
    split
    · exact hops.panic _
    · exact hops.bind htypes fun _ => hops.bind (hsub _) fun _ => hops.pure _
  | .leaf (.adt did substs) subpatterns, binder, h => by
    have htypes := hops.extractTys _ _ h.left.tail.types
    have hsub := extractSubpatterns_moves hops (patternActions_moves hops subpatterns h.right)
    simp only [extractPattern]
    refine hops.bind (hops.extractAdt did _ h.left.head) fun sort => ?_
    split
    · exact hops.bind htypes fun _ => hops.bind (hsub _) fun _ => hops.pure _
    · exact hops.panic _
  | .leaf (.tuple _) subpatterns, binder, h => by
    have hsub := extractSubpatterns_moves hops (patternActions_moves hops subpatterns h)
    simp only [extractPattern]
    exact hops.bind (hsub _) fun _ => hops.pure _
  | .leaf .bool _, _, _ | .leaf (.int _) _, _, _ | .leaf (.uint _) _, _, _
  | .leaf (.ref _ _) _, _, _ | .leaf (.param _) _, _, _ | .leaf .char _, _, _ | .leaf .str _, _, _
  | .leaf .never _, _, _ | .leaf (.fnDef _ _) _, _, _ | .leaf (.closure _ _) _, _, _
  | .leaf (.other _) _, _, _ => by
    simp only [extractPattern]
    exact unsupportedPattern_moves hops _
  | .constant _ konst, binder, _ => by
    simp only [extractPattern]
    split
    · exact hops.pure _
    · exact unsupportedPattern_moves hops _
    · exact hops.panic _
  | .deref _ subpattern, binder, h => by
    simp only [extractPattern]
    exact extractPattern_moves hops subpattern binder h
  | .ascribeUserType _ _, _, _ | .other _, _, _ => by
    simp only [extractPattern]
    exact unsupportedPattern_moves hops _

theorem extractBound_moves (hops : OpsMove tcx R ok ops) : ∀ (p : Option Hair.Pat)
    (binder : ValDef), UsesOnly ok (optPatUses c p) → Run.Moves R (extractBound ops p binder)
  | some p, binder, h => by
    simp only [extractBound]
    exact extractPattern_moves hops p (some binder) h
  | none, binder, _ => by
    simp only [extractBound]
    exact hops.pure _

theorem patternActions_moves (hops : OpsMove tcx R ok ops) : ∀ ps : List (Nat × Hair.Pat),
    UsesOnly ok (fieldPatUses c ps) → ∀ f ∈ patternActions ops ps, Run.Moves R f.2
  | [], _ => by simp [patternActions]
  | (index, p) :: ps, h => by
    simp only [patternActions, List.forall_mem_cons]
    exact ⟨extractPattern_moves hops p none h.left, patternActions_moves hops ps h.right⟩

end

/-! ## Calls -/

theorem extractAll_moves {args : List (Xtor St.Expr)} (h : ∀ a ∈ args, Run.Moves R a) :
    Run.Moves R (extractAll args) := by
  induction args with
  | nil => exact hops.pure _
  | cons a args ih =>
    have hrest := ih fun b hb => h b (List.mem_cons_of_mem _ hb)
    exact hops.bind (h a List.mem_cons_self) fun _ => hops.bind hrest fun _ => hops.pure _

section Args

variable {args : List (Xtor St.Expr)} (h : ∀ a ∈ args, Run.Moves R a)

include h

theorem extractPanic_moves (isFmt : Bool) : Run.Moves R (extractPanic ops args isFmt) := by
  unfold extractPanic
  split
  · split
    · exact unsupportedExpr_moves hops _
    · exact hops.bind (h _ List.mem_cons_self) fun _ => hops.pure _
  · exact hops.panic _

theorem extractSetOp_moves (operator : BinaryOperator) :
    Run.Moves R (extractSetOp ops operator args) := by
  refine hops.bind (extractAll_moves hops h) fun es => ?_
  split
  · exact hops.pure _
  · exact hops.panic _

theorem extractSetCreation_moves {substs : List Ty}
    (hbase : UsesOnly ok (substs.head?.toList.map (.type c.fn))) :
    Run.Moves R (extractSetCreation ops args substs) := by
  refine hops.bind (extractAll_moves hops h) fun es => ?_
  split
  · exact hops.panic _
  · exact hops.bind (hops.extractTy c.fn _ hbase.head) fun _ => hops.pure _

/-- The type arguments of `Box::new` are not extracted. -/
theorem extractCall_moves {did : DefId} {substs : List Ty}
    (hcalls : UsesOnly ok (if isBoxNewPath tcx did then [.boxNew did]
      else .callee did :: c.argUses substs)) :
    Run.Moves R (extractCall ops did substs args) := by
  have hcallee : ok (.callee did) ∨ ok (.boxNew did) := by
    split at hcalls
    · exact .inr hcalls.head
    · exact .inl hcalls.head
  refine hops.extractFnRef did hcallee _ fun fdId hpath => ?_
  split
  · split
    · exact hops.panic _
    · exact h _ List.mem_cons_self
  · next hbox =>
    rw [if_neg fun hnew => hbox (hpath.mpr hnew)] at hcalls
    have hargs := extractAll_moves hops h
    exact hops.bind (hops.extractTys _ _ hcalls.tail.types) fun _ =>
      hops.bind hargs fun _ => hops.pure _

/-- A call of a function that is none of the standard ones refers to it. -/
theorem extractCallLike_moves {funTy : Ty} (hcalls : UsesOnly ok (calleeUses tcx c funTy)) :
    Run.Moves R (extractCallLike tcx ops funTy args) := by
  cases funTy with
  | fnDef did substs =>
    have hplain : IsPlainCallee tcx did → Run.Moves R (extractCall ops did substs args) := by
      intro hp
      rw [hp.calleeUses] at hcalls
      exact extractCall_moves hops h hcalls
    simp only [extractCallLike]
    cases hitem : tcx.stdItems.defToItemOpt did with
    | none => exact hplain (by simp [IsPlainCallee, hitem])
    | some item =>
      cases item with
      | beginPanicFn | beginPanicFmtFn => exact extractPanic_moves hops h _
      | setEmptyFn | setSingletonFn =>
        refine extractSetCreation_moves hops h (c := c) ?_
        simpa [calleeUses, hitem] using hcalls
      | setAddFn | setDifferenceFn | setIntersectionFn | setUnionFn | subsetOfFn =>
        exact extractSetOp_moves hops h _
      | fnTrait | fnMutTrait | fnOnceTrait | sizedTrait | setType =>
        exact hplain (by simp [IsPlainCallee, hitem])
  | _ => exact unsupportedExpr_moves hops _

end Args

theorem extractIf_moves {cond : Xtor St.Expr} {bodies : List (Xtor St.Expr)}
    (hcond : Run.Moves R cond) (h : ∀ b ∈ bodies, Run.Moves R b) (hasElze : Bool) :
    Run.Moves R (extractIf ops cond bodies hasElze) := by
  unfold extractIf
  split
  · refine hops.bind hcond fun _ => hops.bind (h _ (by simp)) fun _ => ?_
    refine hops.bind ?_ fun _ => hops.pure _
    split
    · exact h _ (by simp)
    · exact hops.pure _
  · exact hops.panic _

/-! ## Expressions -/

omit hops in
mutual

/-- **The traversal of an expression asks for nothing but what it uses.** -/
theorem extractExprWith_moves (hops : OpsMove tcx R ok ops) :
    ∀ e : Hair.Expr, UsesOnly ok (exprUses tcx c e) →
    Run.Moves R (extractExprWith tcx ops e)
  | .literal _ konst, _ => by
    simp only [extractExprWith]
    exact extractLiteral_moves hops konst
  | .unary _ op arg, h => by
    simp only [extractExprWith]
    exact hops.bind (extractExprWith_moves hops arg h) fun _ => extractUnary_moves hops _ _ _
  | .binary _ op lhs rhs, h => by
    simp only [extractExprWith]
    have hrhs := extractExprWith_moves hops rhs h.right
    exact hops.bind (extractExprWith_moves hops lhs h.left) fun _ => hops.bind hrhs fun _ =>
      extractBinary_moves hops _ _ _ _ _
  | .logicalOp _ op lhs rhs, h => by
    simp only [extractExprWith]
    have hrhs := extractExprWith_moves hops rhs h.right
    split
    · refine hops.bind (extractExprWith_moves hops lhs h.left) fun _ => hops.bind hrhs fun _ => ?_
      cases op <;> exact hops.pure _
    · exact hops.panic _
  | .tuple _ fields, h => by
    simp only [extractExprWith]
    split
    · exact hops.pure _
    · exact unsupportedExpr_moves hops _
    · exact hops.bind (extractAll_moves hops (exprActions_moves hops fields h)) fun _ => hops.pure _
  | .field _ lhs name, h => by
    simp only [extractExprWith]
    have hlhs := extractExprWith_moves hops lhs h.right
    split
    · exact hops.bind hlhs fun _ => hops.pure _
    · next did substs hty =>
      have hfield : ok (.field did name) := by
        have hselect : UsesOnly ok (selectionUses lhs.ty name) := h.left
        rw [hty] at hselect
        exact hselect.head
      refine hops.bind (hops.selectAdt did name hfield) fun sort => ?_
      split
      · split
        · exact hops.bind hlhs fun _ => hops.pure _
        · exact hops.panic _
      · exact hops.panic _
    · exact hops.panic _
  | .varRef _ id, _ => by
    simp only [extractExprWith]
    exact hops.bind (hops.fetchVar id) fun _ => hops.pure _
  | .call _ funTy args, h => by
    simp only [extractExprWith]
    exact extractCallLike_moves hops (exprActions_moves hops args h.right) h.left
  | .adt _ did variantIndex substs fields base, h => by
    simp only [extractExprWith]
    split
    · exact unsupportedExpr_moves hops _
    · refine hops.bind (hops.extractAdt did _ h.left.head) fun sort => ?_
      split
      · exact hops.panic _
      · have hargs := extractAll_moves hops (sortedActions_moves hops fields h.right)
        exact hops.bind (hops.extractTys _ _ h.left.tail.types) fun _ =>
          hops.bind hargs fun _ => hops.pure _
  | .block _ safe stmts expr, h => by
    simp only [extractExprWith]
    split
    · exact hops.bind (extractFinal_moves hops expr h.right) fun finalExpr =>
        extractBlock_moves hops stmts [] finalExpr h.left
    · exact unsupportedExpr_moves hops _
  | .matchE _ scrutinee arms, h => by
    simp only [extractExprWith]
    have hscrutinee := extractExprWith_moves hops scrutinee h.left
    split
    · exact hops.panic _
    · exact extractIf_moves hops hscrutinee (bodyActions_moves hops arms h.right) _
    · next hif =>
      have harms : UsesOnly ok (armUses tcx c true arms) := by
        have := h.right
        rwa [guardsMet, hif] at this
      exact hops.bind hscrutinee fun _ => hops.bind (extractArms_moves hops arms harms) fun _ =>
        hops.pure _
  | .scope _ value, h | .use _ value, h | .neverToAny _ value, h | .deref _ value, h
  | .borrow _ .shared value, h => by
    simp only [extractExprWith]
    exact extractExprWith_moves hops value h
  | .borrow _ .shallow _, _ | .borrow _ .unique _, _ | .borrow _ .mut _, _ | .other _ _, _ => by
    simp only [extractExprWith]
    exact unsupportedExpr_moves hops _

theorem extractFinal_moves (hops : OpsMove tcx R ok ops) :
    ∀ e : Option Hair.Expr, UsesOnly ok (optUses tcx c e) →
    Run.Moves R (extractFinal tcx ops e)
  | some e, h => by
    simp only [extractFinal]
    exact extractExprWith_moves hops e h
  | none, _ => by
    simp only [extractFinal]
    exact hops.pure _

theorem exprActions_moves (hops : OpsMove tcx R ok ops) :
    ∀ es : List Hair.Expr, UsesOnly ok (listUses tcx c es) →
    ∀ a ∈ exprActions tcx ops es, Run.Moves R a
  | [], _ => by simp [exprActions]
  | e :: es, h => by
    simp only [exprActions, List.forall_mem_cons]
    exact ⟨extractExprWith_moves hops e h.left, exprActions_moves hops es h.right⟩

theorem fieldActions_moves (hops : OpsMove tcx R ok ops) :
    ∀ fs : List (Nat × Hair.Expr), UsesOnly ok (fieldUses tcx c fs) →
    ∀ f ∈ fieldActions tcx ops fs, Run.Moves R f.2
  | [], _ => by simp [fieldActions]
  | (index, e) :: fs, h => by
    simp only [fieldActions, List.forall_mem_cons]
    exact ⟨extractExprWith_moves hops e h.left, fieldActions_moves hops fs h.right⟩

theorem sortedActions_moves (hops : OpsMove tcx R ok ops)
    (fs : List (Nat × Hair.Expr)) (h : UsesOnly ok (fieldUses tcx c fs)) :
    ∀ a ∈ (sortByIndex (fieldActions tcx ops fs)).map Prod.snd, Run.Moves R a := by
  intro a ha
  obtain ⟨f, hf, rfl⟩ := List.mem_map.mp ha
  exact fieldActions_moves hops fs h f (mem_sortByIndex.mp hf)

theorem extractBlock_moves (hops : OpsMove tcx R ok ops) :
    ∀ (stmts : List Hair.Stmt) (accExprs : List St.Expr)
    (finalExpr : St.Expr), UsesOnly ok (stmtUses tcx c stmts) →
    Run.Moves R (extractBlock_ ops (stmtActions tcx ops stmts) accExprs finalExpr)
  | [], accExprs, finalExpr, _ => by
    simp only [stmtActions, extractBlock_]
    exact hops.pure _
  | .expr e :: stmts, accExprs, finalExpr, h => by
    simp only [stmtActions, extractBlock_]
    exact hops.bind (extractExprWith_moves hops e h.left) fun _ =>
      extractBlock_moves hops stmts _ finalExpr h.right
  | .letS pattern initializer :: stmts, accExprs, finalExpr, h => by
    simp only [stmtActions, extractBlock_]
    refine hops.bind (tryPatternToVar_moves hops pattern false) fun r => ?_
    cases r with
    | error reason => exact bailBlock_moves hops _ _
    | ok v =>
      cases initializer with
      | none => exact bailBlock_moves hops _ _
      | some init =>
        have hrest := extractBlock_moves hops stmts [] finalExpr h.right
        exact hops.bind (extractExprWith_moves hops init h.left.right) fun _ =>
          hops.bind hrest fun _ => hops.pure _

theorem bodyActions_moves (hops : OpsMove tcx R ok ops)
    {guards : Bool} : ∀ arms : List Hair.Arm,
    UsesOnly ok (armUses tcx c guards arms) → ∀ a ∈ bodyActions tcx ops arms, Run.Moves R a
  | [], _ => by simp [bodyActions]
  | .mk _ _ body :: arms, h => by
    simp only [bodyActions, List.forall_mem_cons]
    exact ⟨extractExprWith_moves hops body h.left.right, bodyActions_moves hops arms h.right⟩

theorem extractArms_moves (hops : OpsMove tcx R ok ops) :
    ∀ arms : List Hair.Arm, UsesOnly ok (armUses tcx c true arms) →
    Run.Moves R (extractArms tcx ops arms)
  | [], _ => by
    simp only [extractArms]
    exact hops.pure _
  | .mk pattern guard body :: arms, h => by
    simp only [extractArms]
    refine hops.bind (extractPattern_moves hops pattern none h.left.left.left) fun _ => ?_
    refine hops.bind (extractGuard_moves hops guard h.left.left.right) fun _ => ?_
    refine hops.bind (extractExprWith_moves hops body h.left.right) fun _ => ?_
    exact hops.bind (extractArms_moves hops arms h.right) fun _ => hops.pure _

theorem extractGuard_moves (hops : OpsMove tcx R ok ops) :
    ∀ guard : Option Hair.Expr, UsesOnly ok (optUses tcx c guard) →
    Run.Moves R (extractGuard tcx ops guard)
  | none, _ => by
    simp only [extractGuard]
    exact hops.pure _
  | some e, h => by
    simp only [extractGuard]
    exact hops.bind (extractExprWith_moves hops e h) fun _ => hops.pure _

end

end Traversal

end Stainless
