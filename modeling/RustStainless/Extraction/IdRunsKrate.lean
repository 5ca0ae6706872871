import RustStainless.Extraction.Alike
import RustStainless.Extraction.IdRuns
import RustStainless.Extraction.Krate
import RustStainless.Extraction.Traversal

/-!
# An extraction is a run of the operations

Whatever the extraction of a crate does to the state, it does through the operations of
`Extraction/IdRuns.lean`. So what holds of every run of these holds of every extraction.
-/

namespace Stainless

open Rustc St Lib Extraction

variable {tcx : Tcx}

/-! ## States that a run connects -/

/-- Some run of the operations leads from one state to the other. -/
def OpRuns (tcx : Tcx) (s s' : Extraction) : Prop :=
  ∃ ops trace, runOps tcx ops s = .ok (trace, s')

theorem runOps_append : ∀ {ops ops' : List IdOp} {trace trace' : List Event}
    {s s' s'' : Extraction}, runOps tcx ops s = .ok (trace, s') →
    runOps tcx ops' s' = .ok (trace', s'') →
    runOps tcx (ops ++ ops') s = .ok (trace ++ trace', s'')
  | [], ops', trace, trace', s, s', s'', h, h' => by
    obtain ⟨rfl, rfl⟩ := Run.pure_ok.mp h
    exact h'
  | op :: ops, ops', trace, trace', s, s', s'', h, h' => by
    simp only [runOps] at h
    obtain ⟨id, s₁, h1, h⟩ := Run.bind_ok.mp h
    obtain ⟨rest, s₂, h2, h⟩ := Run.bind_ok.mp h
    obtain ⟨rfl, rfl⟩ := Run.pure_ok.mp h
    have ih := runOps_append h2 h'
    rw [List.cons_append, runOps, Run.bind_eq h1, Run.bind_eq ih, Run.pure_eq, List.append_assoc]

theorem OpRuns.refl (s : Extraction) : OpRuns tcx s s := ⟨[], [], rfl⟩

theorem OpRuns.trans {s s' s'' : Extraction} (h : OpRuns tcx s s') (h' : OpRuns tcx s' s'') :
    OpRuns tcx s s'' := by
  obtain ⟨ops, trace, hrun⟩ := h
  obtain ⟨ops', trace', hrun'⟩ := h'
  exact ⟨ops ++ ops', trace ++ trace', runOps_append hrun hrun'⟩

/-! ## Computations made of operations -/

/-- Every successful run of `x` is a run of the operations. -/
def ByOps {α : Type} (tcx : Tcx) (x : Xtor α) : Prop := Run.Moves (OpRuns tcx) x

section

variable {α β : Type}

theorem ByOps.pure (a : α) : ByOps tcx (pure a : Xtor α) := Run.Moves.pure OpRuns.refl a

theorem ByOps.bind {x : Xtor α} {f : α → Xtor β} (hx : ByOps tcx x) (hf : ∀ a, ByOps tcx (f a)) :
    ByOps tcx (x >>= f) :=
  Run.Moves.bind (R := OpRuns tcx) OpRuns.trans hx hf

theorem ByOps.panic (e : Panic) : ByOps tcx (Run.panic e : Xtor α) := Run.Moves.panic e

theorem ByOps.get : ByOps tcx (get : Xtor Extraction) := by
  intro s a s' h
  obtain ⟨-, rfl⟩ := Run.get_ok.mp h
  exact .refl s'

/-- One operation, with what it returns. -/
theorem ByOps.op (op : IdOp) {x : Xtor α} {f : α → Option SymbolIdentifier}
    (h : runOp tcx op = f <$> x) : ByOps tcx x := by
  intro s a s' hx
  have hop : runOp tcx op s = .ok (f a, s') := by
    rw [h]
    exact Run.map_ok.mpr ⟨a, hx, rfl⟩
  exact ⟨[op], _, by rw [runOps, Run.bind_eq hop, Run.bind_eq (show runOps tcx [] s' = _ from rfl),
    Run.pure_eq]⟩

end

/-! ## Growth -/

theorem runOp_grows (op : IdOp) : Run.Moves Grows (runOp tcx op) := by
  intro s r s' h
  cases op with
  | freshId name =>
    obtain ⟨id, hid, -⟩ := Run.map_ok.mp h
    obtain ⟨-, rfl⟩ := freshIdWithPath_ok.mp hid
    exact grows_bump name
  | registerDef d =>
    obtain ⟨id, hid, -⟩ := Run.map_ok.mp h
    obtain ⟨hd, -, rfl⟩ := registerDef_ok.mp hid
    exact grows_withDef hd
  | getOrRegisterDef d =>
    obtain ⟨id, hid, -⟩ := Run.map_ok.mp h
    rcases getOrRegisterDef_ok.mp hid with ⟨-, rfl⟩ | ⟨hd, -, rfl⟩
    · exact .refl _
    · exact grows_withDef hd
  | registerHir g name =>
    obtain ⟨id, hid, -⟩ := Run.map_ok.mp h
    obtain ⟨hg, -, rfl⟩ := registerHir_ok.mp hid
    exact grows_withHir hg
  | addAdt sort =>
    obtain ⟨u, hu, -⟩ := Run.map_ok.mp h
    obtain ⟨-, rfl⟩ := addAdt_ok.mp hu
    exact grows_addAdt _ _
  | addFunctionRef d =>
    obtain ⟨u, hu, -⟩ := Run.map_ok.mp h
    obtain ⟨-, rfl⟩ := addFunctionRef_ok.mp hu
    exact grows_addFunctionRef d
  | addFunction fd =>
    obtain ⟨u, hu, -⟩ := Run.map_ok.mp h
    obtain ⟨-, rfl⟩ := addFunction_ok.mp hu
    exact grows_addFunction _ _
  | report m =>
    obtain ⟨u, hu, -⟩ := Run.map_ok.mp h
    obtain rfl := report_ok.mp hu
    exact grows_report m

theorem OpRuns.grows {s s' : Extraction} (h : OpRuns tcx s s') : Grows s s' := by
  obtain ⟨ops, trace, hrun⟩ := h
  induction ops generalizing s trace with
  | nil =>
    obtain ⟨-, rfl⟩ := Run.pure_ok.mp hrun
    exact .refl _
  | cons op ops ih =>
    rw [runOps] at hrun
    obtain ⟨id, s₁, h1, hrun⟩ := Run.bind_ok.mp hrun
    obtain ⟨rest, s₂, h2, hrun⟩ := Run.bind_ok.mp hrun
    obtain ⟨-, rfl⟩ := Run.pure_ok.mp hrun
    exact (runOp_grows op s id s₁ h1).trans (ih rest h2)

theorem ByOps.grows {α : Type} {x : Xtor α} (h : ByOps tcx x) : Run.Moves Grows x :=
  fun s a s' hx => (h s a s' hx).grows

/-! ## The primitives -/

theorem report_byOps (m : Diag) : ByOps tcx (report m) := .op (.report m) rfl

theorem spanErr_byOps (msg : String) : ByOps tcx (spanErr msg) := report_byOps _

theorem unsupported_byOps (msg : String) : ByOps tcx (unsupported msg) := spanErr_byOps _

theorem freshId_byOps (name : String) : ByOps tcx (freshId name) := .op (.freshId name) rfl

theorem registerDef_byOps (d : DefId) : ByOps tcx (registerDef tcx d) := .op (.registerDef d) rfl

theorem getOrRegisterDef_byOps (d : DefId) : ByOps tcx (getOrRegisterDef tcx d) :=
  .op (.getOrRegisterDef d) rfl

theorem registerHir_byOps (h : HirId) (name : String) : ByOps tcx (registerHir tcx h name) :=
  .op (.registerHir h name) rfl

theorem addAdt_byOps (sort : ADTSort) : ByOps tcx (addAdt sort.id sort) := .op (.addAdt sort) rfl

theorem addFunctionRef_byOps (d : DefId) : ByOps tcx (addFunctionRef d) :=
  .op (.addFunctionRef d) rfl

theorem addFunction_byOps (fd : FunDef) : ByOps tcx (addFunction fd.id fd) :=
  .op (.addFunction fd) rfl

theorem getIdFromDef_byOps (d : DefId) : ByOps tcx (getIdFromDef d) :=
  .bind .get fun _ => .pure _

theorem extractFnRef_byOps (d : DefId) : ByOps tcx (extractFnRef tcx d) := by
  refine .bind (getIdFromDef_byOps d) fun id => ?_
  cases id with
  | some id => exact .pure _
  | none => exact .bind (addFunctionRef_byOps d) fun _ => registerDef_byOps d

/-! ## Types, generics and ADTs -/

/-- That a computation is made of operations, as a relation that programs keep. -/
def byOpsRel (tcx : Tcx) : MonadRel (Run Panic Extraction) (Run Panic Extraction) where
  rel := fun x _ => ByOps tcx x
  pure := fun a => .pure a
  bind := fun hx hf => .bind hx hf

theorem keepsRel_byOps : KeepsRel tcx (byOpsRel tcx) where
  report := report_byOps
  getOrRegisterDef := getOrRegisterDef_byOps
  panic := fun e _ => .panic e

theorem ByOps.twice {α : Type} {x : Xtor α} (h : ByOps tcx x) : (byOpsRel tcx).rel x x := h

theorem extractFlags_byOps (d : DefId) : ByOps tcx (extractFlags tcx d) :=
  extractFlags_rel keepsRel_byOps d

theorem reportUnusedFlags_byOps (d : DefId) (bySymbol : Assoc String Flags) :
    ByOps tcx (reportUnusedFlags tcx d bySymbol) :=
  reportUnusedFlags_rel keepsRel_byOps d bySymbol

theorem reportUnusedAdtFlags_byOps (d : DefId) (bySymbol : Assoc String Flags) :
    ByOps tcx (reportUnusedAdtFlags tcx d bySymbol) := by
  unfold reportUnusedAdtFlags
  split
  · exact reportUnusedFlags_byOps d bySymbol
  · exact .pure _

section

variable {adtId : DefId → Xtor SymbolIdentifier} (hadt : ∀ d, ByOps tcx (adtId d))

include hadt

theorem extractConstructors_byOps (txtcx : TyExtractionCtxt) (sortId : SymbolIdentifier)
    (variants : List VariantDef) (flags : Assoc String Flags) :
    ByOps tcx (extractConstructors tcx adtId txtcx sortId variants flags) :=
  extractConstructors_rel keepsRel_byOps (fun d => (hadt d).twice) txtcx sortId variants flags

theorem extractSort_byOps (sortId : SymbolIdentifier) (d : DefId) (adtDef : AdtDef) :
    ByOps tcx (extractSort tcx adtId sortId d adtDef) :=
  extractSort_rel keepsRel_byOps (fun d => (hadt d).twice) sortId d adtDef

end

theorem extractAdtIdWith_byOps {adt : DefId → Xtor ADTSort} (hadt : ∀ d, ByOps tcx (adt d))
    (d : DefId) : ByOps tcx (extractAdtIdWith adt d) := by
  refine .bind (getIdFromDef_byOps d) fun id => ?_
  cases id with
  | some id => exact .pure _
  | none => exact .bind (hadt d) fun _ => .pure _

theorem extractAdtWith_byOps : ∀ (depth : Nat) (d : DefId), ByOps tcx (extractAdtWith tcx depth d)
  | 0, _ => .panic _
  | depth + 1, d => by
    rw [extractAdtWith]
    refine .bind (.bind .get fun _ => .pure _) fun sort => ?_
    cases sort with
    | some sort => exact .pure _
    | none =>
      refine .bind (registerDef_byOps d) fun id => ?_
      split
      · exact .panic _
      · exact extractSort_byOps (extractAdtIdWith_byOps (extractAdtWith_byOps depth)) id d _

theorem extractAdt_byOps (d : DefId) : ByOps tcx (extractAdt tcx d) := extractAdtWith_byOps _ d

theorem extractAdtId_byOps (d : DefId) : ByOps tcx (extractAdtId tcx d) :=
  extractAdtIdWith_byOps extractAdt_byOps d

theorem extractTy_byOps (txtcx : TyExtractionCtxt) (ty : Ty) : ByOps tcx (extractTy tcx txtcx ty) :=
  extractTyWith_rel txtcx keepsRel_byOps (fun d => (extractAdtId_byOps d).twice) ty

theorem extractTys_byOps (txtcx : TyExtractionCtxt) (tys : List Ty) :
    ByOps tcx (extractTys tcx txtcx tys) :=
  extractTysWith_rel txtcx keepsRel_byOps (fun d => (extractAdtId_byOps d).twice) tys

theorem extractGenerics_byOps (d : DefId) : ByOps tcx (extractGenerics tcx d) :=
  extractGenericsWith_rel keepsRel_byOps (fun d => (extractAdtId_byOps d).twice) d

theorem extractLocalAdts_byOps : ∀ ds : List DefId, ByOps tcx (extractLocalAdts tcx ds)
  | [] => .pure _
  | d :: rest => .bind (extractAdt_byOps d) fun sort =>
    .bind (addAdt_byOps sort) fun _ => extractLocalAdts_byOps rest

/-! ## Bodies -/

theorem fetchVar_byOps (ctx : BodyCtxt) (h : HirId) : ByOps tcx (fetchVar ctx h) := by
  unfold fetchVar
  split
  · exact .pure _
  · exact .panic _

theorem extractExpr_byOps (ctx : BodyCtxt) (e : Hair.Expr) : ByOps tcx (extractExpr tcx ctx e) := by
  have hops : OpsRel (byOpsRel tcx) (fun _ => True) (xtorOps tcx ctx) (xtorOps tcx ctx) :=
    { unsupported := fun msg => unsupported_byOps msg
      panic := fun e _ => .panic e
      extractAdt := fun d => .bind (extractAdt_byOps d) fun _ => .pure _
      extractFnRef := fun d => extractFnRef_byOps d
      extractTy := fun ty => extractTy_byOps _ ty
      extractTys := fun tys => extractTys_byOps _ tys
      fetchVar := fun h _ => fetchVar_byOps ctx h }
  exact extractExprWith_rel hops e fun _ _ => trivial

theorem extractBinding_byOps (txtcx : TyExtractionCtxt) (pat : Hir.Pat) (flags : Option Flags)
    (vars : Vars) : ByOps tcx (extractBinding tcx txtcx pat flags vars) := by
  unfold extractBinding checkBindingMode addVar
  split
  · exact .pure _
  · cases pat with
    | binding h name mode nodeType sub =>
      refine .bind ?_ fun _ => .bind (registerHir_byOps h name) fun id =>
        .bind (extractTy_byOps txtcx nodeType) fun t => ?_
      · split
        · exact .pure _
        · exact .pure _
        · exact unsupported_byOps _
      · split
        · exact .panic _
        · exact .pure _
    | other h subs => exact .bind (unsupported_byOps _) fun _ => .panic _

theorem extractParams_byOps (txtcx : TyExtractionCtxt) : ∀ (params : List Hir.Pat)
    (flags : Assoc String Flags) (vars : Vars),
    ByOps tcx (extractParams tcx txtcx params flags vars)
  | [], _, _ => .pure _
  | param :: rest, _, vars => .bind (extractBinding_byOps txtcx param _ vars) fun _ =>
    extractParams_byOps txtcx rest _ _

mutual

theorem visitPat_byOps (txtcx : TyExtractionCtxt) : ∀ (p : Hir.Pat) (vars : Vars),
    ByOps tcx (visitPat tcx txtcx p vars)
  | .binding h name mode nodeType sub, vars => by
    rw [visitPat]
    exact .bind (extractBinding_byOps txtcx _ none vars) fun _ => visitOptPat_byOps txtcx sub _
  | .other h subs, vars => by
    rw [visitPat]
    exact visitPats_byOps txtcx subs vars

theorem visitOptPat_byOps (txtcx : TyExtractionCtxt) : ∀ (p : Option Hir.Pat) (vars : Vars),
    ByOps tcx (visitOptPat tcx txtcx p vars)
  | none, vars => by
    rw [visitOptPat]
    exact .pure _
  | some p, vars => by
    rw [visitOptPat]
    exact visitPat_byOps txtcx p vars

theorem visitPats_byOps (txtcx : TyExtractionCtxt) : ∀ (ps : List Hir.Pat) (vars : Vars),
    ByOps tcx (visitPats tcx txtcx ps vars)
  | [], vars => by
    rw [visitPats]
    exact .pure _
  | p :: ps, vars => by
    rw [visitPats]
    exact .bind (visitPat_byOps txtcx p vars) fun _ => visitPats_byOps txtcx ps _

end

theorem populateDefContext_byOps (txtcx : TyExtractionCtxt) (body : Hir.Body)
    (flags : Assoc String Flags) (vars : Vars) :
    ByOps tcx (populateDefContext tcx txtcx body flags vars) := by
  unfold populateDefContext
  refine .bind (extractParams_byOps txtcx _ _ _) fun r => ?_
  refine .bind (visitPats_byOps txtcx _ _) fun vs => ?_
  exact .bind (visitPats_byOps txtcx _ _) fun _ => .pure _

/-! ## Functions -/

theorem liftPanic_byOps {α : Type} (x : Except Panic α) : ByOps tcx (liftPanic x) := by
  cases x with
  | ok a => exact .pure a
  | error e => exact .panic e

theorem extractSpecFn_byOps (d : DefId) (original : TyExtractionCtxt) (params : List ValDef)
    (returnVar : Option Variable) :
    ByOps tcx (extractSpecFn tcx d original params returnVar) := by
  unfold extractSpecFn
  refine .bind (liftPanic_byOps _) fun ctx => ?_
  exact .bind (populateDefContext_byOps _ _ _ _) fun _ => extractExpr_byOps _ _

theorem extractSpecFns_byOps (original : TyExtractionCtxt) (params : List ValDef)
    (returnVar : Option Variable) : ∀ ds : List DefId,
    ByOps tcx (extractSpecFns tcx original params returnVar ds)
  | [] => .pure _
  | d :: rest => .bind (extractSpecFn_byOps d original params returnVar) fun _ =>
    .bind (extractSpecFns_byOps original params returnVar rest) fun _ => .pure _

theorem fetchParams_byOps (ctx : BodyCtxt) : ∀ hs : List HirId, ByOps tcx (fetchParams ctx hs)
  | [] => .pure _
  | h :: rest => .bind (fetchVar_byOps ctx h) fun _ =>
    .bind (fetchParams_byOps ctx rest) fun _ => .pure _

theorem extractFnBody_byOps (d : DefId) (txtcx : TyExtractionCtxt) (flags : Assoc String Flags) :
    ByOps tcx (extractFnBody tcx d txtcx flags) := by
  unfold extractFnBody
  refine .bind (populateDefContext_byOps _ _ _ _) fun r => ?_
  refine .bind (extractTy_byOps _ _) fun t => ?_
  refine .bind (fetchParams_byOps _ _) fun ps => ?_
  exact .bind (extractExpr_byOps _ _) fun _ => .pure _

theorem extractMeasure_byOps (txtcx : TyExtractionCtxt) (params : List ValDef) :
    ∀ d : Option DefId, ByOps tcx (extractMeasure tcx txtcx params d)
  | none => .pure _
  | some d => .bind (extractSpecFn_byOps d txtcx params none) fun _ => liftPanic_byOps _

theorem extractLocalFn_byOps (d : DefId) (pre post : List DefId) (measure : Option DefId) :
    ByOps tcx (extractLocalFn tcx d pre post measure) := by
  unfold extractLocalFn
  split
  · exact .panic _
  refine .bind (extractFlags_byOps d) fun flags => ?_
  refine .bind (extractGenerics_byOps d) fun g => ?_
  refine .bind (extractFnBody_byOps d _ _) fun r => ?_
  refine .bind (reportUnusedFlags_byOps d _) fun _ => ?_
  refine .bind (extractMeasure_byOps _ _ measure) fun m => ?_
  refine .bind (extractSpecFns_byOps _ _ _ pre) fun pres => ?_
  refine .bind (freshId_byOps _) fun ret => ?_
  refine .bind (extractSpecFns_byOps _ _ _ post) fun posts => ?_
  exact .bind (extractFnRef_byOps d) fun _ => .pure _

theorem extractFn_byOps (d : DefId) (specs : FnSpecs) : ByOps tcx (extractFn tcx d specs) := by
  have hadd : ByOps tcx (do
      let fd ← extractLocalFn tcx d specs.preFns specs.postFns specs.measureFns.head?
      addFunction fd.id fd) :=
    .bind (extractLocalFn_byOps d _ _ _) fun fd => addFunction_byOps fd
  unfold extractFn
  split
  · exact .bind (spanErr_byOps _) fun _ => hadd
  · exact hadd

theorem extractFns_byOps (v : ItemVisitor) : ∀ fs : List FnItem, ByOps tcx (extractFns tcx v fs)
  | [] => .pure _
  | f :: rest => .bind (extractFn_byOps f.defId _) fun _ => extractFns_byOps v rest

theorem extractExternParams_byOps (txtcx : TyExtractionCtxt) : ∀ (i : Nat) (tys : List Ty),
    ByOps tcx (extractExternParams tcx txtcx i tys)
  | _, [] => .pure _
  | i, ty :: tys => .bind (freshId_byOps _) fun _ => .bind (extractTy_byOps txtcx ty) fun _ =>
    .bind (extractExternParams_byOps txtcx (i + 1) tys) fun _ => .pure _

theorem extractExternFn_byOps (d : DefId) : ByOps tcx (extractExternFn tcx d) := by
  unfold extractExternFn
  split
  · exact .panic _
  refine .bind (extractGenerics_byOps d) fun g => ?_
  refine .bind (extractExternParams_byOps _ _ _) fun ps => ?_
  refine .bind (extractTy_byOps _ _) fun t => ?_
  exact .bind (extractFnRef_byOps d) fun _ => .pure _

theorem extractExternFns_byOps : ∀ ds : List DefId, ByOps tcx (extractExternFns tcx ds)
  | [] => .pure _
  | d :: rest => .bind (extractExternFn_byOps d) fun fd => .bind (addFunction_byOps fd) fun _ =>
    extractExternFns_byOps rest

/-! ## The crate -/

theorem visitItem_byOps (v : ItemVisitor) (item : Hir.Item) : ByOps tcx (visitItem tcx v item) := by
  unfold visitItem
  split
  · exact .pure _
  · cases item.kind with
    | enum | struct | fn | impl => exact .pure _
    | _ => exact .bind (unsupported_byOps _) fun _ => .pure _

theorem visitItems_byOps : ∀ (items : List Hir.Item) (v : ItemVisitor),
    ByOps tcx (visitItems tcx items v)
  | [], _ => .pure _
  | item :: rest, v => .bind (visitItem_byOps v item) fun _ => visitItems_byOps rest _

theorem reportAll_byOps (msg : String) : ∀ ds : List DefId, ByOps tcx (reportAll msg ds)
  | [] => .pure _
  | _ :: rest => .bind (unsupported_byOps msg) fun _ => reportAll_byOps msg rest

/-- **The extraction of a crate is a run of the operations.** -/
theorem processCrate_byOps (krate : Hir.Crate) : ByOps tcx (processCrate tcx krate) := by
  unfold processCrate visitAllItemLikes
  refine .bind ?_ fun v => ?_
  · exact .bind (visitItems_byOps _ _) fun _ => .bind (reportAll_byOps _ _) fun _ =>
      .bind (reportAll_byOps _ _) fun _ => .pure _
  refine .bind (extractLocalAdts_byOps _) fun _ => ?_
  refine .bind (extractFns_byOps v _) fun _ => ?_
  exact .bind (.bind .get fun _ => .pure _) fun _ => extractExternFns_byOps _

/-! ## Identifiers never collide -/

/-- What a run of operations from the start guarantees of the identifiers that it hands out. -/
structure NeverCollide (tcx : Tcx) (ops : List IdOp) (trace : List Event) (s : Extraction) :
    Prop where
  /-- No two identifiers share a `globalId`, or a name and a local id, but those of one
  definition, which are the same. -/
  separate : trace.Pairwise Separate
  did_inj : ∀ d e i j, s.didId d = some i → s.didId e = some j → i.globalId = j.globalId → d = e
  hid_inj : ∀ g h i j, s.hidId g = some i → s.hidId h = some j → i.globalId = j.globalId → g = h
  did_hid : ∀ d g i j, s.didId d = some i → s.hidId g = some j → i.globalId ≠ j.globalId
  /-- A definition keeps its identifier, however the run goes on. -/
  forever : ∀ more trace' s', runOps tcx more s = .ok (trace', s') →
    ∀ e ∈ trace ++ trace', ∀ d, e.op.defId? = some d → s'.didId d = some e.id
  /-- With fewer than `2 ^ 31` identifiers no counter leaves its 32 bits. -/
  counters : ∀ e ∈ trace, (0 ≤ e.id.globalId ∧ e.id.globalId < trace.length) ∧
    0 ≤ e.id.id.id ∧ e.id.id.id < trace.length
  /-- `Symbols::new` keeps one entry for each sort and each function that was added. -/
  sorts : (St.Symbols.new (intoResult tcx s).sorts (intoResult tcx s).functions).sorts.values.Perm
    (addedAdts ops)
  functions :
    (St.Symbols.new (intoResult tcx s).sorts (intoResult tcx s).functions).functions.values.Perm
      (addedFunctions ops)

/-- **Identifiers never collide**, whatever operations run and in whatever order. -/
theorem ids_neverCollide {ops : List IdOp} {trace : List Event} {s : Extraction}
    (h : runOps tcx ops .new = .ok (trace, s)) : NeverCollide tcx ops trace s := by
  have hok : TraceOk tcx trace s := by simpa using (TraceOk.new tcx).run ops h
  obtain ⟨hadts, hfunctions⟩ := runOps_added ops h
  refine ⟨hok.separate, hok.ids.did_inj, hok.ids.hid_inj, hok.ids.did_hid, ?_, ?_, ?_, ?_⟩
  · intro more trace' s' hmore
    exact (hok.run more hmore).kept
  · intro e he
    have hcount := hok.idCount_le
    have hglobal := hok.globalId_lt e he
    have hlocal := hok.id_lt e he
    have hname := hok.nameCount_le e.id.id.name
    have hnonneg := hok.nonneg e he
    omega
  · rw [show addedAdts ops = s.adts.values from hadts.symm]
    exact values_ofList_perm hok.adts (tcx.iterOrder.perm .adts s.adts.values)
  · rw [show addedFunctions ops = s.functions.values from hfunctions.symm]
    exact values_ofList_perm hok.functions (tcx.iterOrder.perm .functions s.functions.values)

/-- A run through all routes: a numeric path is renamed, and a definition is asked for twice. -/
theorem ids_neverCollide_allRoutes :
    let tcx : Tcx := { Tcx.empty with defPathStr := fun _ => "0" }
    let ops : List IdOp :=
      [.freshId "_0", .registerDef ⟨0, 7⟩, .getOrRegisterDef ⟨0, 7⟩, .getOrRegisterDef ⟨0, 8⟩,
        .registerHir ⟨⟨0, 7⟩, 1⟩ "_0"]
    ∃ trace s, runOps tcx ops .new = .ok (trace, s) ∧ trace.length = 5 ∧
      NeverCollide tcx ops trace s :=
  ⟨_, _, rfl, rfl, ids_neverCollide rfl⟩

end Stainless
