import RustStainless.Extraction.CrateUses
import RustStainless.Macros.SpecScopes

/-!
# The references of the extracted definitions

Each definition of an extracted crate refers to what it uses: a function through its signature, its
body and its specs, a sort through its fields, a stub through its signature.
-/

namespace Stainless

open Rustc St Lib Extraction

variable {tcx : Tcx} {ids : Ids}

/-! ## Measures -/

theorem literalTryFrom_unit {konst : Const} :
    literalTryFrom konst = .ok (some .unit) ↔ konst.ty.isUnit = true := by
  unfold literalTryFrom
  split
  · next h => simp [h]
  · next h =>
    refine iff_of_false (fun heq => ?_) h
    split at heq
    · split at heq <;> simp at heq
    · obtain ⟨size, -, heq⟩ := Option.bind_eq_some_iff.mp (Except.ok.inj heq)
      obtain ⟨value, -, heq⟩ := Option.map_eq_some_iff.mp heq
      cases heq
    · obtain ⟨size, -, heq⟩ := Option.bind_eq_some_iff.mp (Except.ok.inj heq)
      obtain ⟨value, -, heq⟩ := Option.map_eq_some_iff.mp heq
      cases heq
    · split at heq <;> simp at heq
    · simp at heq

theorem treeShape_literal {lit : St.Literal} (h : lit ≠ .unit) :
    treeShape (.literal lit) = .other := by
  cases lit <;> first | rfl | exact absurd rfl h

theorem treeShape_block {exprs : List St.Expr} (hne : exprs ≠ []) (last : St.Expr) :
    treeShape (.block exprs last) = if treeShape last = .unit then .unitBlock else .other := by
  obtain ⟨e, es, rfl⟩ := List.exists_cons_of_ne_nil hne
  cases last with
  | literal lit => cases lit <;> rfl
  | block es' last =>
    have : treeShape (.block es' last) ≠ .unit := by
      unfold treeShape
      split <;> simp_all
    rw [if_neg this]
    rfl
  | _ => rfl

theorem finishBlock_shape (acc : List St.Expr) (last : St.Expr) :
    treeShape (finishBlock acc last) = if acc = [] then treeShape last
      else if treeShape last = .unit then .unitBlock else .other := by
  cases acc with
  | nil => rfl
  | cons e acc =>
    rw [if_neg (List.cons_ne_nil e acc)]
    exact treeShape_block (List.cons_ne_nil e acc) last

/--
Once there is something in front, a block ends with the unit literal if nothing is bound in it.
-/
theorem StmtsExtract.treeShape {vars : HirId → Option Variable} {R : Hair.Expr → St.Expr → Prop}
    {stmts : List Hair.Stmt} {acc : List St.Expr} {last r : St.Expr}
    (h : StmtsExtract vars R stmts acc last r) :
    Stainless.treeShape r = if acc = [] then blockShape stmts (Stainless.treeShape last)
      else if stmts.all isExprStmt && Stainless.treeShape last == .unit then .unitBlock
      else .other := by
  induction h with
  | @finish acc last => simp [finishBlock_shape, blockShape]
  | expr _ _ ih =>
    rw [ih, if_neg (List.append_ne_nil_of_right_ne_nil _ (List.cons_ne_nil _ _))]
    simp [blockShape, isExprStmt]
  | @letS p var v init t stmts acc last r _ _ _ _ _ =>
    have hlet : Stainless.treeShape (.letIn { v := v } t r) = .other := rfl
    simp [finishBlock_shape, hlet, blockShape, isExprStmt]

theorem IsPlainCallee.isErasedCall {did : DefId} (h : IsPlainCallee tcx did) (substs : List Ty) :
    isErasedCall tcx (.fnDef did substs) = isBoxNewPath tcx did := by
  have hall : (tcx.stdItems.defToItemOpt did).all
      (· ∈ [.fnTrait, .fnMutTrait, .fnOnceTrait, .sizedTrait, .setType]) = true := by
    rw [Option.all_eq_true]
    exact fun item hitem => decide_eq_true (h item hitem)
  rw [Stainless.isErasedCall, hall, Bool.true_and]

/-- A standard function is not erased. -/
theorem isErasedCall_std {did : DefId} {item : StdItem}
    (hitem : tcx.stdItems.defToItemOpt did = some item)
    (hnot : item ∉ [StdItem.fnTrait, .fnMutTrait, .fnOnceTrait, .sizedTrait, .setType])
    (substs : List Ty) : isErasedCall tcx (.fnDef did substs) = false := by
  simp [isErasedCall, hitem] at hnot ⊢
  simp [hnot]

section Shapes

variable {ctx : BodyCtxt}

/-- **How the translation of a body looks like can be seen in the body.** -/
theorem ExprExtracts.treeShape (hpaths : PathIds tcx ids) {e : Hair.Expr} {t : St.Expr}
    (h : ExprExtracts tcx ids ctx e t) : Stainless.treeShape t = bodyShape tcx e := by
  refine ExprExtracts.induct (P := fun e t => Stainless.treeShape t = bodyShape tcx e)
    (fun e t hrule => ?_) e t h
  cases hrule with
  | @literal ty konst lit hlit =>
    rw [bodyShape]
    by_cases hunit : konst.ty.isUnit = true
    · rw [literalTryFrom_unit.mpr hunit] at hlit
      obtain rfl : St.Literal.unit = lit := by simpa using hlit
      rw [if_pos hunit]
      rfl
    · rw [if_neg hunit]
      refine treeShape_literal fun heq => hunit (literalTryFrom_unit.mp ?_)
      rw [hlit, heq]
  | unit => rfl
  | @tuple ty fields ts hlength =>
    obtain ⟨e, es, rfl⟩ := List.exists_cons_of_ne_nil
      (List.ne_nil_of_length_pos (show 0 < fields.length by omega))
    rfl
  | panic hitem =>
    rw [bodyShape, isErasedCall_std hitem (by simp)]
    rfl
  | @setCreation ty did elementTy substs args ts tpe hitem =>
    have hstd : isErasedCall tcx (.fnDef did (elementTy :: substs)) = false := by
      rcases List.mem_pair.mp hitem with hitem | hitem
      · exact isErasedCall_std hitem (by simp) _
      · exact isErasedCall_std hitem (by simp) _
    rw [bodyShape, hstd]
    rfl
  | @setOp ty did substs item operator set arg args a b ts hitem hoperator =>
    have hstd : isErasedCall tcx (.fnDef did substs) = false := by
      refine isErasedCall_std hitem ?_ _
      cases item <;> simp [setOperator] at hoperator ⊢
    rw [bodyShape, hstd]
    rfl
  | boxNew hplain hid hbox ha =>
    rw [bodyShape, hplain.isErasedCall, (isBoxNewPath_iff hpaths hid).mpr hbox, if_pos rfl]
    exact ha.2
  | call hplain hid hbox =>
    have hno : isBoxNewPath tcx _ = false :=
      Bool.eq_false_iff.mpr fun h => hbox ((isBoxNewPath_iff hpaths hid).mp h)
    rw [bodyShape, hplain.isErasedCall, hno]
    rfl
  | @block ty stmts expr last r hlast hstmts =>
    rw [hstmts.treeShape, if_pos rfl, bodyShape]
    cases hlast with
    | none => rfl
    | some ht => exact congrArg (blockShape stmts) ht.2
  | scope ha | use ha | neverToAny ha | deref ha | borrow ha => exact ha.2
  | _ => rfl

end Shapes

/-- A measure is what stands in the block, which ends with the unit literal. -/
theorem measureOf_refs {t : St.Expr} {m : Option St.Expr} (h : measureOf t = .ok m) :
    (treeShape t = .unitBlock ∧ ∃ e, m = some e ∧ e.refs = t.refs) ∨
      (treeShape t ≠ .unitBlock ∧ m = none) := by
  unfold measureOf at h
  split at h
  · next exprs =>
    split at h
    · simp at h
    · next last hlast =>
      have hexprs := List.dropLast_append_getLast? last hlast
      have hne : exprs ≠ [] := by
        rintro rfl
        simp at hlast
      refine .inl ⟨?_, _, (Except.ok.inj h).symm, ?_⟩
      · rw [treeShape_block hne]
        rfl
      · conv_rhs => rw [← hexprs]
        simp [St.Expr.refs, St.Expr.listRefs, St.Expr.listRefs_append]
  · next hnot =>
    refine .inr ⟨fun hshape => ?_, (Except.ok.inj h).symm⟩
    unfold treeShape at hshape
    split at hshape
    · simp at hshape
    · next e es => exact hnot (e :: es) rfl
    · simp at hshape

/-! ## Variables -/

/-- The body binds every node at one type. -/
def BindingsTyped (body : Hir.Body) : Prop :=
  ∀ h ty ty', (h, ty) ∈ body.bindings → (h, ty') ∈ body.bindings → ty = ty'

theorem BindingsTyped.bindingTy {body : Hir.Body} (hb : BindingsTyped body) {h : HirId} {ty : Ty}
    (hty : (h, ty) ∈ body.bindings) : bindingTy body h = some ty := by
  have hmem : h ∈ Assoc.keys body.bindings := List.mem_map.mpr ⟨(h, ty), hty, rfl⟩
  obtain ⟨ty', hty'⟩ := Option.isSome_iff_exists.mp (Assoc.get?_isSome_iff.mpr hmem)
  rw [Stainless.bindingTy, hty', hb h ty' ty (Assoc.mem_of_get? hty') hty]

section Zip

variable {α β γ : Type} [DecidableEq α] {R : β → γ → Prop}

/-- Two lists of values for the same keys, related one by one. -/
theorem get?_zip_some : ∀ (ks : List α) {bs : List β} {cs : List γ}, List.Forall₂ R bs cs →
    ∀ {k : α} {b : β}, Assoc.get? (ks.zip bs) k = some b →
      ∃ c, Assoc.get? (ks.zip cs) k = some c ∧ R b c := by
  intro ks
  induction ks with
  | nil =>
    intro bs cs _ k b h
    simp at h
  | cons j ks ih =>
    intro bs cs hR k b h
    cases hR with
    | nil => simp at h
    | @cons b' c' bs cs hbc hrest =>
      rw [List.zip_cons_cons, Assoc.get?_cons] at h ⊢
      split at h
      · next hj =>
        obtain rfl := Option.some.inj h
        exact ⟨c', by rw [if_pos hj], hbc⟩
      · next hj =>
        obtain ⟨c, hc, hR⟩ := ih hrest h
        exact ⟨c, by rw [if_neg hj, hc], hR⟩

theorem get?_zip_none {ks : List α} {bs : List β} {cs : List γ} (h : List.Forall₂ R bs cs) {k : α}
    (hk : Assoc.get? (ks.zip bs) k = none) : Assoc.get? (ks.zip cs) k = none := by
  cases hc : Assoc.get? (ks.zip cs) k with
  | none => rfl
  | some c =>
    obtain ⟨b, hb, -⟩ := get?_zip_some ks h.flip hc
    rw [hk] at hb
    cases hb

end Zip

/-! ## Type parameters of specs -/

/-- The type parameters of a spec stand for those of the function. -/
theorem correlateTparams_get? {original : Assoc Nat TyParam} : ∀ (params : List GenericParamDef)
    {acc m : Assoc Nat TyParam}, correlateTparams original params acc = .ok m →
    (∀ i p, acc.get? i = some p → original.get? i = some p) →
    ∀ i p, m.get? i = some p → original.get? i = some p := by
  intro params
  induction params with
  | nil =>
    intro acc m h hacc
    obtain rfl := Except.ok.inj h
    exact hacc
  | cons param params ih =>
    intro acc m h hacc
    rw [correlateTparams] at h
    cases horig : original.get? param.index with
    | none => simp [horig] at h
    | some tparam =>
      rw [horig] at h
      refine ih h fun i p hp => ?_
      rw [Assoc.get?_insert] at hp
      split at hp
      · next hi => rw [← hi, horig, hp]
      · exact hacc i p hp

/-! ## Bodies -/

/-- What rustc guarantees for a body that is extracted. -/
structure BodyOk (tcx : Tcx) (d : DefId) : Prop where
  value : ExprOk tcx (tcx.bodyOf d).value
  bindings : BindingsTyped (tcx.bodyOf d)

section Bodies

variable {w : View} {body : Hir.Body} {ctx : BodyCtxt} {vars : Vars} {t : St.Expr}
  {txtcx : TyExtractionCtxt} {c : UseCtxt}

/--
The variables that were there from the start and the bindings of the body have the types of `c`.
-/
theorem BodyImage.ctxtUses (himg : BodyImage tcx w body ctx vars t)
    (hgen : GenericsImage tcx w.ids c.fn txtcx) (htps : ParamsOf txtcx ctx.txtcx.indexToTparam.get?)
    (hbind : BindingsTyped body)
    (hbefore : ∀ h v, ctx.vars.get? h = some v → RefsAre tcx w.ids v.tpe.refs (c.varUses h))
    (hown : ∀ h, ctx.vars.get? h = none → c.varTy h = bindingTy body h) :
    CtxtUses tcx w.ids c { ctx with vars := vars } where
  generics := ⟨txtcx, hgen, htps⟩
  vars := by
    intro h v hv
    cases hctx : ctx.vars.get? h with
    | some u =>
      obtain rfl : u = v := Option.some.inj ((himg.keeps h u hctx).symm.trans hv)
      exact hbefore h u hctx
    | none =>
      obtain ⟨ty, hty, htpe⟩ := himg.typed h v hv hctx
      have huses : c.varUses h = [.type c.fn ty] := by
        rw [UseCtxt.varUses, hown h hctx, hbind.bindingTy hty]
        rfl
      rw [huses]
      exact .type hgen htps (suppImage_some htpe)

theorem BodyImage.refsAre (himg : BodyImage tcx w body ctx vars t)
    (hc : CtxtUses tcx w.ids c { ctx with vars := vars }) (hpaths : PathIds tcx w.ids)
    (hok : ExprOk tcx body.value) : RefsAre tcx w.ids t.refs (exprUses tcx c body.value) :=
  (exprImage_extracts _ _ himg.expr).refsAre hc hpaths hok

end Bodies

/-! ## Functions -/

/-- The variable has the type. -/
def VarTyped (tcx : Tcx) (ids : Ids) (txtcx : TyExtractionCtxt) (v : Variable) (o : Option Ty) :
    Prop :=
  ∃ ty, o = some ty ∧ tyImage tcx ids txtcx.indexToTparam.get? ty = some v.tpe

section Functions

variable {w : View} {f : DefId} {pre post : List DefId} {measure : Option DefId} {fd : FunDef}
  {p : FnParts}

/-- The parameters have the types of their bindings. -/
theorem FnImage.paramTys (h : FnImage tcx w f pre post measure fd p) (hok : BodyOk tcx f) :
    List.Forall₂ (VarTyped tcx w.ids p.txtcx) (fd.params.map (·.v)) (paramTys tcx f) := by
  rw [Stainless.paramTys, List.forall₂_map_left_iff, List.forall₂_map_right_iff]
  refine h.params.flip.imp fun vd g hg => ?_
  obtain ⟨ty, hty, htpe⟩ := h.body.typed g vd.v hg rfl
  exact ⟨ty, hok.bindings.bindingTy hty, suppImage_some htpe⟩

/--
So the parameters of a spec, and the value that is returned, have the types that they have in the
function.
-/
theorem SpecImage.refsAre {spec : DefId} {t : St.Expr} {returnVar : Option Variable}
    {returns : Option Ty} (hspec : SpecImage tcx w p.txtcx fd.params returnVar spec t)
    (h : FnImage tcx w f pre post measure fd p) (hf : BodyOk tcx f) (hok : BodyOk tcx spec)
    (hpaths : PathIds tcx w.ids)
    (hreturns : List.Forall₂ (VarTyped tcx w.ids p.txtcx) returnVar.toList
      (returns.toList.map some)) :
    RefsAre tcx w.ids t.refs (bodyUses tcx (specCtxt tcx f returns spec) spec) := by
  obtain ⟨ctx, vars, hctx, himg⟩ := hspec
  have hcorr := correlateSpecFn_ok hctx
  have hself : ParamsOf p.txtcx p.txtcx.indexToTparam.get? := fun _ _ hp => hp
  have htps : ParamsOf p.txtcx ctx.txtcx.indexToTparam.get? :=
    correlateTparams_get? _ hcorr.tparams (by simp)
  have htyped : List.Forall₂ (VarTyped tcx w.ids p.txtcx)
      (fd.params.map (·.v) ++ returnVar.toList) (paramTys tcx f ++ returns.toList.map some) :=
    List.rel_append (h.paramTys hf) hreturns
  have hc : CtxtUses tcx w.ids (specCtxt tcx f returns spec) { ctx with vars := vars } := by
    refine himg.ctxtUses h.generics htps hok.bindings (fun g v hv => ?_) fun g hg => ?_
    · rw [hcorr.vars] at hv
      obtain ⟨o, ho, ty, rfl, htpe⟩ := get?_zip_some _ htyped hv
      have hty : (specCtxt tcx f returns spec).varTy g = some ty := by
        show (Assoc.get? _ g).getD _ = _
        rw [ho]
        rfl
      have huses : (specCtxt tcx f returns spec).varUses g = [.type f ty] := by
        rw [UseCtxt.varUses, hty]
        rfl
      rw [huses]
      exact .type h.generics hself htpe
    · rw [hcorr.vars] at hg
      show (Assoc.get? _ g).getD _ = _
      rw [get?_zip_none htyped hg]
      rfl
  exact himg.refsAre hc hpaths hok.value

theorem SpecImage.refsAre_all {returnVar : Option Variable} {returns : Option Ty}
    {specs : List DefId} {ts : List St.Expr}
    (hspecs : List.Forall₂ (SpecImage tcx w p.txtcx fd.params returnVar) specs ts)
    (h : FnImage tcx w f pre post measure fd p) (hf : BodyOk tcx f)
    (hok : ∀ spec ∈ specs, BodyOk tcx spec) (hpaths : PathIds tcx w.ids)
    (hreturns : List.Forall₂ (VarTyped tcx w.ids p.txtcx) returnVar.toList
      (returns.toList.map some)) :
    RefsAre tcx w.ids (St.Expr.listRefs ts) (specUses tcx f returns specs) := by
  induction hspecs with
  | nil => exact .nil
  | cons hspec _ ih =>
    rw [specUses, List.flatMap_cons]
    exact (hspec.refsAre h hf (hok _ List.mem_cons_self) hpaths hreturns).append
      (ih fun spec hspec => hok spec (List.mem_cons_of_mem _ hspec))

omit tcx ids in
theorem wrapDecreases_refs (m : Option St.Expr) (body : St.Expr) :
    (wrapDecreases m body).refs = St.Expr.optRefs m ++ body.refs := by
  cases m <;> rfl

omit tcx ids in
theorem wrapRequire_refs (specExprs : List St.Expr) (body : St.Expr) :
    (wrapRequire specExprs body).refs = St.Expr.listRefs specExprs ++ body.refs := by
  cases specExprs with
  | nil => rfl
  | cons e es => simp only [wrapRequire, St.Expr.refs, makeAnd_refs]

omit tcx ids in
theorem mem_wrapEnsuring_refs {specExprs : List St.Expr} {vd : ValDef} {body : St.Expr} {r : Ref} :
    r ∈ (wrapEnsuring specExprs vd body).refs ↔
      r ∈ body.refs ∨ (specExprs ≠ [] ∧ r ∈ vd.refs) ∨ r ∈ St.Expr.listRefs specExprs := by
  cases specExprs with
  | nil => simp [wrapEnsuring, St.Expr.listRefs]
  | cons e es => simp [wrapEnsuring, St.Expr.refs, makeAnd_refs]

/-- The value that is returned adds nothing: its type is that of the function. -/
theorem FnImage.mem_refs (h : FnImage tcx w f pre post measure fd p) (r : Ref) :
    r ∈ fd.refs ↔ r ∈ fd.params.flatMap ValDef.refs ++ fd.returnType.refs ++ p.bodyExpr.refs ++
      St.Expr.optRefs p.measure ++ St.Expr.listRefs p.preExprs ++ St.Expr.listRefs p.postExprs := by
  have hret : ({ v := p.returnVar } : ValDef).refs = fd.returnType.refs := by
    rw [ValDef.refs, h.returnTpe]
  rw [FunDef.refs, h.fullBody, FnParts.fullBody]
  simp only [List.mem_append, mem_wrapEnsuring_refs, wrapRequire_refs, wrapDecreases_refs, hret]
  tauto

/-- The measure that is kept refers to what its body uses. -/
theorem FnImage.measure_refsAre (h : FnImage tcx w f pre post measure fd p) (hf : BodyOk tcx f)
    (hok : ∀ m ∈ measure, BodyOk tcx m) (hpaths : PathIds tcx w.ids) :
    RefsAre tcx w.ids (St.Expr.optRefs p.measure)
      (specUses tcx f none (keptMeasure tcx measure)) := by
  cases hm : measure with
  | none =>
    rw [h.noMeasure hm]
    exact .nil
  | some m =>
    obtain ⟨t, hspec, hmeasure⟩ := h.measure m hm
    have hrefs : RefsAre tcx w.ids t.refs (bodyUses tcx (specCtxt tcx f none m) m) :=
      hspec.refsAre h hf (hok m hm) hpaths .nil
    obtain ⟨ctx, vars, -, himg⟩ := hspec
    have hshape := (exprImage_extracts _ _ himg.expr).treeShape hpaths
    rcases measureOf_refs hmeasure with ⟨hkept, e, he, heq⟩ | ⟨hdropped, hnone⟩
    · have hmem : keptMeasure tcx (some m) = [m] := by
        rw [keptMeasure, Option.toList_some, List.filter_singleton]
        simp [← hshape, hkept]
      rw [hmem, specUses, List.flatMap_singleton, he]
      exact hrefs.of_mem fun r => by rw [St.Expr.optRefs, heq]
    · have hmem : keptMeasure tcx (some m) = [] := by
        rw [keptMeasure, Option.toList_some, List.filter_singleton]
        simp [← hshape, hdropped]
      rw [hmem, hnone]
      exact .nil

/-- **A function refers to what it uses.** -/
theorem FnImage.refsAre {specs : FnSpecs}
    (h : FnImage tcx w f specs.preFns specs.postFns specs.measureFns.head? fd p)
    (hf : BodyOk tcx f) (hmeasure : ∀ m ∈ specs.measureFns.head?, BodyOk tcx m)
    (hpre : ∀ d ∈ specs.preFns, BodyOk tcx d) (hpost : ∀ d ∈ specs.postFns, BodyOk tcx d)
    (hpaths : PathIds tcx w.ids) : RefsAre tcx w.ids fd.refs (fnUses tcx f specs) := by
  have hself : ParamsOf p.txtcx p.txtcx.indexToTparam.get? := fun _ _ hp => hp
  have hvars : CtxtUses tcx w.ids (fnCtxt tcx f) { txtcx := p.txtcx, vars := p.vars } :=
    h.body.ctxtUses h.generics hself hf.bindings (by simp) fun _ _ => rfl
  have hparams : ∀ {hs : List HirId} {vds : List ValDef},
      List.Forall₂ (fun g vd => p.vars.get? g = some vd.v) hs vds →
      RefsAre tcx w.ids (vds.flatMap ValDef.refs) (hs.flatMap (fnCtxt tcx f).varUses) := by
    intro hs vds hforall
    induction hforall with
    | nil => exact .nil
    | cons hv _ ih =>
      rw [List.flatMap_cons, List.flatMap_cons]
      exact (hvars.vars _ _ hv).append ih
  have hreturnTpe := suppImage_some h.returnType
  have hreturn : RefsAre tcx w.ids fd.returnType.refs [.type f (tcx.fnSig f).output] :=
    .type h.generics hself hreturnTpe
  have hreturnVar : List.Forall₂ (VarTyped tcx w.ids p.txtcx) (some p.returnVar).toList
      ((some (tcx.fnSig f).output).toList.map some) :=
    .cons ⟨_, rfl, h.returnTpe ▸ hreturnTpe⟩ .nil
  have hpreRefs : RefsAre tcx w.ids (St.Expr.listRefs p.preExprs)
      (specUses tcx f none specs.preFns) :=
    SpecImage.refsAre_all h.pre h hf hpre hpaths .nil
  have hpostRefs : RefsAre tcx w.ids (St.Expr.listRefs p.postExprs)
      (specUses tcx f (some (tcx.fnSig f).output) specs.postFns) :=
    SpecImage.refsAre_all h.post h hf hpost hpaths hreturnVar
  have hsignature := (hparams h.params).append hreturn
  have hbody := hsignature.append (h.body.refsAre hvars hpaths hf.value)
  have hmeasureRefs := hbody.append (h.measure_refsAre hf hmeasure hpaths)
  exact ((hmeasureRefs.append hpreRefs).append hpostRefs).of_mem h.mem_refs

end Functions

end Stainless
