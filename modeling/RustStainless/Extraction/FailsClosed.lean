import RustStainless.Extraction.ByRules
import RustStainless.Extraction.ClosedAdts
import RustStainless.Extraction.Frontend
import RustStainless.Extraction.ProperBodies
import RustStainless.Extraction.Traversal

/-!
# Extraction fails closed

A crate that is extracted without an error has no placeholder in its symbols, apart from the bodies
of the stubs for the functions of other crates.
-/

namespace Stainless

open Rustc St Lib Extraction

variable {tcx : Tcx} {ids : Ids} {H : Prop}

/-! ## Bindings -/

def VarsProper (vars : Vars) : Prop := ∀ e ∈ vars, e.2.Proper

theorem VarsProper.insert {vars : Vars} (h : VarsProper vars) (hid : HirId) {v : Variable}
    (hv : v.Proper) : VarsProper (Assoc.insert vars hid v) := by
  intro e he
  rcases Assoc.mem_of_mem_insert he with rfl | he
  · exact hv
  · exact h e he

theorem addVar_yields {vars : Vars} {hid : HirId} {v : Variable} (hvars : H → VarsProper vars)
    (hv : H → v.Proper) : Yields ids H (addVar hid v vars) VarsProper := by
  unfold addVar
  split
  · exact .panic _
  · exact .pure fun hH => (hvars hH).insert _ (hv hH)

theorem checkBindingMode_yields (mode : Option Hir.BindMode) :
    Yields ids H (checkBindingMode mode) fun _ => True := by
  unfold checkBindingMode
  split
  · exact .pure fun _ => trivial
  · exact .pure fun _ => trivial
  · exact (unsupported_yields _).mono id fun _ _ h => h.elim

section

variable {txtcx : TyExtractionCtxt} (hctx : H → TparamsProper txtcx.indexToTparam)

include hctx

theorem extractTy_yields (ty : Ty) : Yields ids H (extractTy tcx txtcx ty) Tpe.Proper :=
  extractTyWith_yields txtcx extractAdtId_yields hctx ty

theorem extractTys_yields (tys : List Ty) : Yields ids H (extractTys tcx txtcx tys) Tpe.ProperAll :=
  extractTysWith_yields txtcx extractAdtId_yields hctx tys

theorem extractBinding_yields (pat : Hir.Pat) (flags : Option Flags) {vars : Vars}
    (hvars : H → VarsProper vars) :
    Yields ids H (extractBinding tcx txtcx pat flags vars) VarsProper := by
  unfold extractBinding
  split
  · exact .pure hvars
  · split
    · refine (checkBindingMode_yields _).bind fun _ => ?_
      refine (registerHir_yields _ _).bind fun id => ?_
      refine (extractTy_yields (fun h => hctx h.1.1) _).bind fun tpe => ?_
      exact addVar_yields (fun h => hvars h.1.1.1) fun h => h.2
    · exact .bail (unsupported_yields _) fun _ => .panic _

end

section

variable {txtcx : TyExtractionCtxt}

theorem extractParams_yields : ∀ (params : List Hir.Pat) (flagsBySymbol : Assoc String Flags)
    {vars : Vars} {H : Prop}, (H → TparamsProper txtcx.indexToTparam) → (H → VarsProper vars) →
    Yields ids H (extractParams tcx txtcx params flagsBySymbol vars) fun r => VarsProper r.1
  | [], _, _, _, _, hvars => .pure hvars
  | param :: rest, flagsBySymbol, vars, H, hctx, hvars => by
    rw [extractParams]
    refine (extractBinding_yields hctx param _ hvars).bind fun vars => ?_
    exact extractParams_yields rest _ (fun h => hctx h.1) fun h => h.2

mutual

theorem visitPat_yields : ∀ (p : Hir.Pat) {vars : Vars} {H : Prop},
    (H → TparamsProper txtcx.indexToTparam) → (H → VarsProper vars) →
    Yields ids H (visitPat tcx txtcx p vars) VarsProper
  | .binding hirId name mode nodeType subpattern, vars, H, hctx, hvars => by
    rw [visitPat]
    refine (extractBinding_yields hctx _ none hvars).bind fun vars => ?_
    exact visitOptPat_yields subpattern (fun h => hctx h.1) fun h => h.2
  | .other _ subpatterns, vars, H, hctx, hvars => by
    rw [visitPat]
    exact visitPats_yields subpatterns hctx hvars

theorem visitOptPat_yields : ∀ (p : Option Hir.Pat) {vars : Vars} {H : Prop},
    (H → TparamsProper txtcx.indexToTparam) → (H → VarsProper vars) →
    Yields ids H (visitOptPat tcx txtcx p vars) VarsProper
  | none, _, _, _, hvars => by
    rw [visitOptPat]
    exact .pure hvars
  | some p, _, _, hctx, hvars => by
    rw [visitOptPat]
    exact visitPat_yields p hctx hvars

theorem visitPats_yields : ∀ (ps : List Hir.Pat) {vars : Vars} {H : Prop},
    (H → TparamsProper txtcx.indexToTparam) → (H → VarsProper vars) →
    Yields ids H (visitPats tcx txtcx ps vars) VarsProper
  | [], _, _, _, hvars => by
    rw [visitPats]
    exact .pure hvars
  | p :: ps, vars, H, hctx, hvars => by
    rw [visitPats]
    refine (visitPat_yields p hctx hvars).bind fun vars => ?_
    exact visitPats_yields ps (fun h => hctx h.1) fun h => h.2

end

theorem populateDefContext_yields (body : Hir.Body) (flagsBySymbol : Assoc String Flags)
    {vars : Vars} (hctx : H → TparamsProper txtcx.indexToTparam) (hvars : H → VarsProper vars) :
    Yields ids H (populateDefContext tcx txtcx body flagsBySymbol vars)
      fun r => VarsProper r.1 := by
  unfold populateDefContext
  refine (extractParams_yields body.params _ hctx hvars).bind fun r => ?_
  refine (visitPats_yields body.params (fun h => hctx h.1) fun h => h.2).bind fun vars => ?_
  refine (visitPats_yields body.pats (fun h => hctx h.1.1) fun h => h.2).bind fun vars => ?_
  exact .pure fun h => h.2

end

/-! ## Bodies -/

/-- The context of a body has no placeholders in it. -/
structure BodyCtxt.Proper (ctx : BodyCtxt) : Prop where
  tparams : TparamsProper ctx.txtcx.indexToTparam
  vars : VarsProper ctx.vars

theorem fetchVar_yields {ctx : BodyCtxt} (hctx : H → ctx.Proper) (h : HirId) :
    Yields ids H (fetchVar ctx h) Variable.Proper := by
  unfold fetchVar
  split
  · next v hv => exact .pure fun hH => (hctx hH).vars _ (Assoc.mem_of_get? hv)
  · exact .panic _

/-- What a body extractor is answered is among the outcomes that the traversal was tried with. -/
theorem xtorOps_outcomes {ctx : BodyCtxt} (hctx : H → ctx.Proper) :
    OpsRel (Run.hasOutcomes Panic (closedWatch ids) H) (fun _ => True) (xtorOps tcx ctx)
      properOps where
  unsupported := unsupported_yields
  panic := fun e _ => .panic e
  extractAdt := fun d => (extractAdt_yields d).bind fun _ => .pure fun _ => trivial
  extractFnRef := fun d => (extractFnRef_yields d).mono id fun _ _ _ => trivial
  extractTy := extractTy_yields fun hH => (hctx hH).tparams
  extractTys := extractTys_yields fun hH => (hctx hH).tparams
  fetchVar := fun h _ => fetchVar_yields hctx h

theorem extractExpr_yields {ctx : BodyCtxt} (hctx : H → ctx.Proper) (e : Hair.Expr) :
    Yields ids H (extractExpr tcx ctx e) Expr.Proper := by
  have hops : OpsRel (Run.hasOutcomes Panic (closedWatch ids) H) (fun _ => True) (xtorOps tcx ctx)
      properOps := xtorOps_outcomes hctx
  have h : Yields ids H (extractExpr tcx ctx e) (extractExprWith tcx properOps e) :=
    extractExprWith_rel hops e fun _ _ => trivial
  exact h.mono id fun t _ ht => extractExprWith_proper e t ht

/-! ## Specs -/

theorem correlateTparams_proper {original : Assoc Nat TyParam} (ho : TparamsProper original) :
    ∀ (params : List GenericParamDef) {m m' : Assoc Nat TyParam}, TparamsProper m →
    correlateTparams original params m = .ok m' → TparamsProper m'
  | [], m, m', hm, h => by
    rw [correlateTparams] at h
    rw [← Except.ok.inj h]
    exact hm
  | param :: rest, m, m', hm, h => by
    rw [correlateTparams] at h
    split at h
    · simp at h
    · next tparam hp =>
      exact correlateTparams_proper ho rest (hm.insert _ (ho _ (Assoc.mem_of_get? hp))) h

theorem Correlated.proper {d : DefId} {original : TyExtractionCtxt} {params : List ValDef}
    {returnVar : Option Variable} {ctx : BodyCtxt}
    (h : Correlated tcx d original params returnVar ctx)
    (ho : TparamsProper original.indexToTparam) (hparams : ∀ vd ∈ params, vd.Proper)
    (hret : OptProper Variable.Proper returnVar) : ctx.Proper where
  tparams := correlateTparams_proper ho _ (by simp [TparamsProper]) h.tparams
  vars := by
    rintro ⟨g, v⟩ hv
    rw [h.vars] at hv
    rcases List.mem_append.mp (List.of_mem_zip hv).2 with hv | hv
    · obtain ⟨vd, hvd, rfl⟩ := List.mem_map.mp hv
      exact hparams vd hvd
    · exact hret v (by simpa using hv)

section

variable {original : TyExtractionCtxt} {params : List ValDef} {returnVar : Option Variable}
  (ho : H → TparamsProper original.indexToTparam) (hparams : H → ∀ vd ∈ params, vd.Proper)
  (hret : H → OptProper Variable.Proper returnVar)

include ho hparams hret

theorem extractSpecFn_yields (d : DefId) :
    Yields ids H (extractSpecFn tcx d original params returnVar) Expr.Proper := by
  unfold extractSpecFn
  refine (liftPanic_yields (P := BodyCtxt.Proper) fun hH ctx hctx => ?_).bind fun ctx => ?_
  · exact (correlateSpecFn_ok hctx).proper (ho hH) (hparams hH) (hret hH)
  · refine (populateDefContext_yields _ [] (fun h => h.2.tparams) fun h => h.2.vars).bind
      fun r => ?_
    exact extractExpr_yields (fun h => ⟨h.1.2.tparams, h.2⟩) _

theorem extractSpecFns_yields : ∀ ds : List DefId,
    Yields ids H (extractSpecFns tcx original params returnVar ds) Expr.ProperAll
  | [] => .pure fun _ => trivial
  | d :: rest => by
    rw [extractSpecFns]
    refine (extractSpecFn_yields ho hparams hret d).bind fun e => ?_
    refine ((extractSpecFns_yields rest).given And.left).bind fun es => ?_
    exact .pure fun h => ⟨h.1.2, h.2⟩

end

/-! ## Local functions -/

theorem measureOf_proper {specExpr : St.Expr} (h : specExpr.Proper) {measure : Option St.Expr}
    (hm : measureOf specExpr = .ok measure) : OptProper Expr.Proper measure := by
  unfold measureOf at hm
  split at hm
  · next exprs =>
    split at hm
    · simp at hm
    · next last hlast =>
      rw [← Except.ok.inj hm]
      have hexprs := Expr.properAll_iff.mp h.1
      refine optProper_some.mpr ⟨Expr.properAll_iff.mpr fun e he => ?_, ?_⟩
      · exact hexprs e ((List.dropLast_sublist exprs).subset he)
      · exact hexprs last (List.mem_of_getLast? hlast)
  · rw [← Except.ok.inj hm]
    exact optProper_none

theorem wrapDecreases_proper {measure : Option St.Expr} {bodyExpr : St.Expr}
    (hm : OptProper Expr.Proper measure) (hb : bodyExpr.Proper) :
    (wrapDecreases measure bodyExpr).Proper := by
  cases measure with
  | none => exact hb
  | some e => exact ⟨optProper_some.mp hm, hb⟩

theorem wrapRequire_proper {specExprs : List St.Expr} {bodyExpr : St.Expr}
    (hs : Expr.ProperAll specExprs) (hb : bodyExpr.Proper) :
    (wrapRequire specExprs bodyExpr).Proper := by
  cases specExprs with
  | nil => exact hb
  | cons e es => exact ⟨makeAnd_proper (by simp) hs, hb⟩

theorem wrapEnsuring_proper {specExprs : List St.Expr} {returnVd : ValDef} {bodyExpr : St.Expr}
    (hs : Expr.ProperAll specExprs) (hr : returnVd.Proper) (hb : bodyExpr.Proper) :
    (wrapEnsuring specExprs returnVd bodyExpr).Proper := by
  cases specExprs with
  | nil => exact hb
  | cons e es => exact ⟨hb, by simpa using hr, makeAnd_proper (by simp) hs⟩

theorem fetchParams_yields {ctx : BodyCtxt} (hctx : H → ctx.Proper) : ∀ hids : List HirId,
    Yields ids H (fetchParams ctx hids) fun vds => ∀ vd ∈ vds, vd.Proper
  | [] => .pure fun _ => by simp
  | h :: rest => by
    rw [fetchParams]
    refine (fetchVar_yields hctx h).bind fun v => ?_
    refine ((fetchParams_yields hctx rest).given And.left).bind fun vds => ?_
    refine .pure fun hH => ?_
    simp only [List.forall_mem_cons]
    exact ⟨hH.1.2, hH.2⟩

/-- The parts of a function are proper. -/
structure FnBodyProper (r : List ValDef × Tpe × St.Expr × Assoc String Flags) : Prop where
  params : ∀ vd ∈ r.1, vd.Proper
  returnTpe : r.2.1.Proper
  bodyExpr : r.2.2.1.Proper

theorem extractFnBody_yields (d : DefId) {txtcx : TyExtractionCtxt}
    (hctx : H → TparamsProper txtcx.indexToTparam) (flagsBySymbol : Assoc String Flags) :
    Yields ids H (extractFnBody tcx d txtcx flagsBySymbol) FnBodyProper := by
  unfold extractFnBody
  refine (populateDefContext_yields _ _ hctx fun _ => by simp [VarsProper]).bind fun r => ?_
  refine (extractTy_yields (fun h => hctx h.1) _).bind fun returnTpe => ?_
  refine (fetchParams_yields (fun h => ⟨hctx h.1.1, h.1.2⟩) _).bind fun params => ?_
  refine (extractExpr_yields (fun h => ⟨hctx h.1.1.1, h.1.1.2⟩) _).bind fun bodyExpr => ?_
  exact .pure fun h => ⟨h.1.2, h.1.1.2, h.2⟩

theorem extractMeasure_yields {txtcx : TyExtractionCtxt} {params : List ValDef}
    (hctx : H → TparamsProper txtcx.indexToTparam) (hparams : H → ∀ vd ∈ params, vd.Proper)
    (measureSpecFunction : Option DefId) :
    Yields ids H (extractMeasure tcx txtcx params measureSpecFunction)
      (OptProper Expr.Proper) := by
  cases measureSpecFunction with
  | none => exact .pure fun _ => optProper_none
  | some d =>
    refine (extractSpecFn_yields hctx hparams (fun _ => optProper_none) d).bind fun specExpr => ?_
    exact liftPanic_yields fun hH measure hm => measureOf_proper hH.2 hm

theorem extractLocalFn_yields (d : DefId) (preSpecFunctions postSpecFunctions : List DefId)
    (measureSpecFunction : Option DefId) :
    Yields ids H (extractLocalFn tcx d preSpecFunctions postSpecFunctions measureSpecFunction)
      (FunctionClosed ids) := by
  unfold extractLocalFn
  split
  · exact .panic _
  refine (yields_of_warns fun _ _ _ h => extractFlagsFrom_warns _ h).bind fun flags => ?_
  refine (extractGenericsWith_yields extractAdtId_yields d).bind fun generics => ?_
  refine (extractFnBody_yields d (fun h => h.2) _).bind fun r => ?_
  refine (yields_of_warns fun _ _ _ h => reportUnusedFlags_warns h).bind fun _ => ?_
  refine (extractMeasure_yields (fun h => h.1.1.2) (fun h => h.1.2.params) _).bind fun measure => ?_
  refine (extractSpecFns_yields (fun h => h.1.1.1.2) (fun h => h.1.1.2.params)
    (fun _ => optProper_none) _).bind fun preExprs => ?_
  refine (freshId_yields "ret").bind fun returnId => ?_
  refine (extractSpecFns_yields (fun h => h.1.1.1.1.1.2) (fun h => h.1.1.1.1.2.params)
    (fun h => optProper_some.mpr h.1.1.1.1.2.returnTpe) _).bind fun postExprs => ?_
  refine (extractFnRef_yields d).bind fun funId => ?_
  refine .pure fun ⟨⟨⟨⟨⟨⟨⟨_, hbody⟩, _⟩, hmeasure⟩, hpre⟩, _⟩, hpost⟩, _⟩ => ?_
  refine ⟨⟨hbody.params, hbody.returnTpe⟩, .inl ?_⟩
  refine wrapEnsuring_proper hpost hbody.returnTpe ?_
  exact wrapRequire_proper hpre (wrapDecreases_proper hmeasure hbody.bodyExpr)

theorem extractFn_yields (d : DefId) (specs : FnSpecs) :
    Yields ids H (extractFn tcx d specs) fun _ => True := by
  have hlocal : ∀ H', Yields ids H' (do
      let fd ← extractLocalFn tcx d specs.preFns specs.postFns specs.measureFns.head?
      addFunction fd.id fd) fun _ => True := fun H' =>
    (extractLocalFn_yields d _ _ _).bind fun fd => addFunction_yields fun h => h.2
  unfold extractFn
  split
  · exact .bail (spanErr_yields _) fun _ => hlocal _
  · exact hlocal _

theorem extractFns_yields (v : ItemVisitor) : ∀ fns : List FnItem,
    Yields ids True (extractFns tcx v fns) fun _ => True
  | [] => .pure fun _ => trivial
  | f :: rest => (extractFn_yields f.defId _).bind fun _ => (extractFns_yields v rest).of_true

/-! ## External functions -/

theorem extractExternParams_yields {txtcx : TyExtractionCtxt}
    (hctx : H → TparamsProper txtcx.indexToTparam) : ∀ (tys : List Ty) (i : Nat),
    Yields ids H (extractExternParams tcx txtcx i tys) fun vds => ∀ vd ∈ vds, vd.Proper
  | [], _ => .pure fun _ => by simp
  | ty :: tys, i => by
    rw [extractExternParams]
    refine (freshId_yields _).bind fun id => ?_
    refine (extractTy_yields (fun h => hctx h.1) ty).bind fun tpe => ?_
    refine ((extractExternParams_yields hctx tys (i + 1)).given fun h => h.1.1).bind fun rest => ?_
    refine .pure fun h => ?_
    simp only [List.forall_mem_cons]
    exact ⟨h.1.2, h.2⟩

/-- An external function is a stub, and nothing but its body is a placeholder. -/
theorem extractExternFn_yields (d : DefId) :
    Yields ids H (extractExternFn tcx d) (FunctionClosed ids) := by
  unfold extractExternFn
  split
  · exact .panic _
  · next hlocal =>
    refine (extractGenericsWith_yields extractAdtId_yields d).bind fun generics => ?_
    refine (extractExternParams_yields (fun h => h.2) _ 0).bind fun params => ?_
    refine (extractTy_yields (fun h => h.1.2) _).bind fun returnTpe => ?_
    refine (extractFnRef_yields d).bind fun funId => ?_
    refine .pure fun ⟨⟨⟨_, hparams⟩, hreturn⟩, hid⟩ => ⟨⟨hparams, hreturn⟩, .inr ⟨⟨rfl, ?_⟩, d, ?_⟩⟩
    · exact List.mem_cons_self
    · exact ⟨by simpa using hlocal, hid⟩

theorem extractExternFns_yields : ∀ ds : List DefId,
    Yields ids True (extractExternFns tcx ds) fun _ => True
  | [] => .pure fun _ => trivial
  | d :: rest => by
    rw [extractExternFns]
    refine (extractExternFn_yields d).bind fun fd => ?_
    refine (addFunction_yields fun h => h.2).bind fun _ => ?_
    exact (extractExternFns_yields rest).of_true

/-! ## The crate -/

theorem reportAll_yields (msg : String) : ∀ ds : List DefId,
    Yields ids True (reportAll msg ds) fun _ => True
  | [] => .pure fun _ => trivial
  | _ :: rest => .bail (unsupported_yields msg) fun _ => (reportAll_yields msg rest).of_true

theorem visitItem_yields (v : ItemVisitor) (item : Hir.Item) :
    Yields ids H (visitItem tcx v item) fun _ => True := by
  unfold visitItem
  split
  · exact .pure fun _ => trivial
  · split
    all_goals first
      | exact .pure fun _ => trivial
      | exact unsupported_bail _ _

theorem visitItems_yields : ∀ (items : List Hir.Item) (v : ItemVisitor),
    Yields ids True (visitItems tcx items v) fun _ => True
  | [], _ => .pure fun _ => trivial
  | item :: rest, v =>
    (visitItem_yields v item).bind fun v' => (visitItems_yields rest v').of_true

theorem visitAllItemLikes_yields (krate : Hir.Crate) :
    Yields ids True (visitAllItemLikes tcx krate) fun _ => True := by
  unfold visitAllItemLikes
  refine (visitItems_yields _ _).bind fun v => ?_
  refine (reportAll_yields _ _).of_true.bind fun _ => ?_
  exact (reportAll_yields _ _).of_true.bind fun _ => .pure fun _ => trivial

theorem externalFunctions_yields : Yields ids H (externalFunctions tcx) fun _ => True := by
  refine yields_of_quiet fun s ds s' h => ?_
  obtain ⟨t, s₁, h1, h2⟩ := Run.bind_ok.mp h
  obtain ⟨rfl, rfl⟩ := Run.get_ok.mp h1
  obtain ⟨-, rfl⟩ := Run.pure_ok.mp h2
  exact ⟨.refl _, rfl, rfl⟩

theorem processCrate_yields (krate : Hir.Crate) :
    Yields ids True (processCrate tcx krate) fun _ => True := by
  unfold processCrate
  refine (visitAllItemLikes_yields krate).bind fun v => ?_
  refine (extractLocalAdts_yields _).of_true.bind fun _ => ?_
  refine (extractFns_yields v _).of_true.bind fun _ => ?_
  exact externalFunctions_yields.bind fun ds => (extractExternFns_yields ds).of_true

/-- The symbols have no placeholders but the bodies of the stubs of other crates. -/
structure SymbolsClosed (ids : Ids) (symbols : St.Symbols) : Prop where
  sorts : ∀ sort ∈ symbols.sorts.values, sort.Proper
  functions : ∀ fd ∈ symbols.functions.values, FunctionClosed ids fd

theorem StoredClosed.symbols {s : Extraction} (h : StoredClosed ids s) :
    SymbolsClosed ids (s.symbols tcx) where
  sorts := by
    intro sort hsort
    have hmem := (tcx.iterOrder.mem_iter).mp (Table.mem_of_mem_ofList hsort)
    obtain ⟨e, he, rfl⟩ := List.mem_map.mp hmem
    exact h.adts e he
  functions := by
    intro fd hfd
    have hmem := (tcx.iterOrder.mem_iter).mp (Table.mem_of_mem_ofList hfd)
    obtain ⟨e, he, rfl⟩ := List.mem_map.mp hmem
    exact h.functions e he

/--
**Extraction fails closed.** What passes `abort_if_errors` is of a run that reported no error. Such
a run leaves no placeholder in the symbols but in the bodies of stubs, and it has extracted the
bodies and the specs of all functions by the rules, of which none is for what is not supported.
-/
theorem processCrate_failsClosed {krate : Hir.Crate} {s : Extraction}
    (h : processCrate tcx krate .new = .ok ((), s)) :
    (∀ symbols, checkedSymbols tcx krate = .ok (some symbols) →
      s.NoErrors ∧ symbols = s.symbols tcx) ∧
    (s.NoErrors → SymbolsClosed s.didId (s.symbols tcx)) ∧
    (TcxOk tcx → KrateOk tcx krate → s.NoErrors →
      FunctionsExtract tcx s.view (.ofKrate tcx krate) (s.symbols tcx).functions.values) := by
  refine ⟨fun symbols hsymbols => ?_, fun hn => ?_, fun hok hk hn fd hfd => ?_⟩
  · obtain ⟨t, ht, hn, rfl⟩ := checkedSymbols_some.mp hsymbols
    obtain ⟨-, rfl⟩ := Prod.mk.inj (Except.ok.inj (h.symm.trans ht))
    exact ⟨hn, rfl⟩
  · have hnew : StoredClosed s.didId .new := by
      constructor <;> simp [Extraction.new]
    have hyields : Yields s.didId True (processCrate tcx krate) fun _ => True :=
      processCrate_yields krate
    obtain ⟨-, hrun⟩ := hyields .new () s h
    exact (hrun ⟨hn, fun _ _ hd => hd⟩ trivial hnew).1.symbols
  · have hmem := (tcx.iterOrder.mem_iter).mp (Table.mem_of_mem_ofList hfd)
    exact processCrate_extracts hok hk h hn fd hmem

/-- `fn f() { match g() { _ => () } }`, where `g` is a function of another crate. -/
def callerTcx : Tcx :=
  { Tcx.empty with
    defKind := fun _ => .fn
    defPathStr := fun d => if d.isLocal then "f" else "g"
    bodyOf := fun _ =>
      { params := []
        pats := [.other ⟨⟨0, 1⟩, 1⟩ []]
        value := .matchE .unit (.call .unit (.fnDef ⟨1, 50⟩ []) [])
          [.mk (.wild .unit) none (.tuple .unit [])] } }

def callerKrate : Hir.Crate :=
  { items := [{ defId := ⟨0, 1⟩, ident := ⟨"f", 0⟩, kind := .fn false }]
    traitItems := []
    otherImplItems := [] }

theorem callerTcx_ok : TcxOk callerTcx :=
  .of_noFields (fun _ => rfl) (fun _ => rfl) (fun _ => rfl) fun _ h => nomatch h

theorem callerKrate_ok : KrateOk callerTcx callerKrate where
  items := List.nodup_singleton _
  fns := List.nodup_singleton _
  idents := by
    rintro item hitem items hkind
    rw [List.mem_singleton.mp hitem] at hkind
    cases hkind
  adt := by
    rintro item hitem hadt
    rw [List.mem_singleton.mp hitem] at hadt
    simp [IsAdtItem] at hadt
  all_adts := by
    rintro d - ⟨a, ha⟩
    cases ha
  fn := by
    rintro d hd
    rw [List.mem_singleton.mp hd]
    exact ⟨rfl, rfl, rfl⟩

/-- Two symbols, the second a stub, and the body of the first is by the rules. -/
theorem processCrate_failsClosed_stub :
    ∃ s, processCrate callerTcx callerKrate .new = .ok ((), s) ∧ s.NoErrors ∧
      s.functions.length = 2 ∧ SymbolsClosed s.didId (s.symbols callerTcx) ∧
      FunctionsExtract callerTcx s.view (.ofKrate callerTcx callerKrate)
        (s.symbols callerTcx).functions.values := by
  obtain ⟨s, h, hn, hlen⟩ : ∃ s, processCrate callerTcx callerKrate .new = .ok ((), s) ∧
      s.NoErrors ∧ s.functions.length = 2 := ⟨_, rfl, by decide, rfl⟩
  obtain ⟨-, hclosed, hextract⟩ := processCrate_failsClosed h
  exact ⟨s, h, hn, hlen, hclosed hn, hextract callerTcx_ok callerKrate_ok hn⟩

end Stainless
