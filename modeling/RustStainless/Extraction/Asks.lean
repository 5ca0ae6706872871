import RustStainless.Extraction.Calls

/-!
# What a run asks for

A run refers to a function when it extracts a call of it or the function itself, and an ADT gets an
id when a type, a bound, a constructor or a field asks for it, or when an ADT that did mentions it.
What a run asks for is bounded in advance (`AskedFor`), and each part of the extraction stays within
these bounds if what it looks at does.
-/

namespace Stainless

open Rustc St Lib Extraction

/-- The functions and the ADTs that may be asked for. -/
structure AskedFor (tcx : Tcx) where
  callee : DefId → Prop
  adt : DefId → Prop
  callee_kind : ∀ d, callee d → IsFnLike (tcx.defKind d)

variable {tcx : Tcx} {asks : AskedFor tcx}

/-- The use may be asked for. -/
def BodyUse.Within (asks : AskedFor tcx) : BodyUse → Prop
  | .callee did | .boxNew did => asks.callee did
  | .constructor did _ | .field did _ => asks.adt did
  | .type _ ty => ∀ d ∈ tyAdts tcx ty, asks.adt d

/--
From consistent ids, no function is referred to and no ADT is reached but as may be asked for.
-/
structure StaysWithin (asks : AskedFor tcx) (s s' : Extraction) : Prop where
  ids : IdsOk tcx s → IdsOk tcx s'
  refs : ∀ d ∈ s'.functionRefs, d ∈ s.functionRefs ∨ asks.callee d
  adts : ∀ d, Registered tcx s s' d → ∃ r, asks.adt r ∧ Reaches tcx r d

/-- A step that gives no id to a definition. -/
theorem StaysWithin.quiet {s s' : Extraction} (ids : IdsOk tcx s → IdsOk tcx s')
    (refs : s'.functionRefs = s.functionRefs) (did : ∀ d, s'.didId d = s.didId d) :
    StaysWithin asks s s' where
  ids := ids
  refs := fun d hd => .inl (refs ▸ hd)
  adts := by
    rintro d ⟨-, hnone, hsome⟩
    exact absurd ((did d).trans hnone) hsome

theorem StaysWithin.refl (s : Extraction) : StaysWithin asks s s := .quiet id rfl fun _ => rfl

theorem StaysWithin.trans {s s' s'' : Extraction} (h : StaysWithin asks s s')
    (h' : StaysWithin asks s' s'') : StaysWithin asks s s'' where
  ids := fun hids => h'.ids (h.ids hids)
  refs := by
    intro d hd
    rcases h'.refs d hd with hd | hd
    · exact h.refs d hd
    · exact .inr hd
  adts := by
    rintro d ⟨hkind, hnone, hsome⟩
    -- An ADT gets its id in one of the two steps.
    by_cases hd : s'.didId d = none
    · exact h'.adts d ⟨hkind, hd, hsome⟩
    · exact h.adts d ⟨hkind, hnone, hd⟩

theorem AdtMoves.staysWithin {w : Set DefId} {s s' : Extraction} (h : AdtMoves tcx w s s')
    (hw : ∀ d ∈ w, asks.adt d) : StaysWithin asks s s' where
  ids := h.ids
  refs := fun d hd => .inl (h.functionRefs ▸ hd)
  adts := by
    intro d hd
    obtain ⟨r, hr, hreach⟩ := h.reached d hd
    exact ⟨r, hw r hr, hreach⟩

/-- The computation asks for nothing else. It starts from consistent ids. -/
def AsksOnly {α : Type} (asks : AskedFor tcx) (x : Xtor α) : Prop :=
  Run.Moves (fun s s' => IdsOk tcx s → StaysWithin asks s s') x

section

variable {α β : Type} {x y : Xtor α}

theorem AsksOnly.of_stays (h : ∀ s a s', x s = .ok (a, s') → StaysWithin asks s s') :
    AsksOnly asks x := fun s a s' hx _ => h s a s' hx

theorem AsksOnly.pure (a : α) : AsksOnly asks (pure a : Xtor α) :=
  Run.Moves.pure (fun s _ => .refl s) a

theorem AsksOnly.panic (e : Panic) : AsksOnly asks (Run.panic e : Xtor α) := Run.Moves.panic e

theorem AsksOnly.trans {s s' s'' : Extraction} (h : IdsOk tcx s → StaysWithin asks s s')
    (h' : IdsOk tcx s' → StaysWithin asks s' s'') (hids : IdsOk tcx s) :
    StaysWithin asks s s'' := (h hids).trans (h' ((h hids).ids hids))

theorem AsksOnly.bind {f : α → Xtor β} (hx : AsksOnly asks x) (hf : ∀ a, AsksOnly asks (f a)) :
    AsksOnly asks (x >>= f) :=
  Run.Moves.bind (R := fun s s' => IdsOk tcx s → StaysWithin asks s s') AsksOnly.trans hx hf

theorem AsksOnly.ite {p : Prop} [Decidable p] (hx : AsksOnly asks x) (hy : AsksOnly asks y) :
    AsksOnly asks (if p then x else y) := Run.Moves.ite hx hy

theorem WarnsOnly.staysWithin {s s' : Extraction} (h : WarnsOnly s s') : StaysWithin asks s s' := by
  obtain ⟨ms, -, rfl⟩ := h
  exact .quiet (fun hids => hids.of_mapping rfl) rfl fun _ => rfl

theorem AsksOnly.of_warns (h : ∀ s a s', x s = .ok (a, s') → WarnsOnly s s') : AsksOnly asks x :=
  .of_stays fun s a s' hx => (h s a s' hx).staysWithin

end

/-! ## Primitives -/

theorem report_asksOnly (m : Diag) : AsksOnly asks (report m) := by
  refine .of_stays fun s u s' h => ?_
  obtain rfl := report_ok.mp h
  exact .quiet (fun hids => hids.of_mapping rfl) rfl fun _ => rfl

theorem freshId_asksOnly (name : String) : AsksOnly asks (freshId name) := by
  refine .of_stays fun s id s' h => ?_
  obtain ⟨-, rfl⟩ := freshIdWithPath_ok.mp h
  exact .quiet (fun hids => hids.bump name) rfl fun _ => rfl

theorem registerHir_asksOnly (h : HirId) (name : String) :
    AsksOnly asks (registerHir tcx h name) := by
  refine .of_stays fun s id s' hrun => ?_
  obtain ⟨hnone, -, rfl⟩ := registerHir_ok.mp hrun
  exact .quiet (fun hids => hids.withHir hnone) rfl fun _ => rfl

theorem addFunction_asksOnly (id : SymbolIdentifier) (fd : FunDef) :
    AsksOnly asks (addFunction id fd) := by
  refine .of_stays fun s u s' h => ?_
  obtain ⟨-, rfl⟩ := addFunction_ok.mp h
  exact .quiet (fun hids => hids.of_mapping rfl) rfl fun _ => rfl

theorem addAdt_asksOnly (id : SymbolIdentifier) (sort : ADTSort) :
    AsksOnly asks (addAdt id sort) := by
  refine .of_stays fun s u s' h => ?_
  obtain ⟨-, rfl⟩ := addAdt_ok.mp h
  exact .quiet (fun hids => hids.of_mapping rfl) rfl fun _ => rfl

theorem extractFnRef_didId {d : DefId} {id : SymbolIdentifier} {s s' : Extraction}
    (h : extractFnRef tcx d s = .ok (id, s')) : s'.didId d = some id := by
  rcases extractFnRef_ok.mp h with ⟨hid, rfl⟩ | ⟨hnone, -, rfl, rfl⟩
  · exact hid
  · show (s.withDef tcx d).didId d = _
    rw [withDef_didId tcx hnone, if_pos rfl]

/-- A function is no ADT. -/
theorem extractFnRef_stays {d : DefId} (hd : asks.callee d) {id : SymbolIdentifier}
    {s s' : Extraction} (h : extractFnRef tcx d s = .ok (id, s')) : StaysWithin asks s s' := by
  rcases extractFnRef_ok.mp h with ⟨-, rfl⟩ | ⟨hnone, -, -, rfl⟩
  · exact .refl s'
  · refine ⟨fun hids => (hids.withDef hnone).of_mapping rfl, fun e he => ?_, ?_⟩
    · rcases List.mem_append.mp he with he | he
      · exact .inl he
      · rw [List.mem_singleton.mp he]
        exact .inr hd
    · rintro e ⟨hkind, he, hsome⟩
      have hid : (s.withDef tcx d).didId e ≠ none := hsome
      rw [withDef_didId tcx hnone] at hid
      split at hid
      · next heq =>
        subst heq
        -- The only new id is that of the function, whose kind is not that of an ADT.
        rcases asks.callee_kind d hd with hfn | hfn <;> rw [hfn] at hkind <;> cases hkind
      · exact absurd he hid

theorem extractFnRef_asksOnly {d : DefId} (hd : asks.callee d) :
    AsksOnly asks (extractFnRef tcx d) := .of_stays fun _ _ _ h => extractFnRef_stays hd h

theorem fetchVar_asksOnly (ctx : BodyCtxt) (h : HirId) : AsksOnly asks (fetchVar ctx h) := by
  unfold fetchVar
  split
  · exact .pure _
  · exact .panic _

theorem liftPanic_asksOnly {α : Type} (x : Except Panic α) : AsksOnly asks (liftPanic x) := by
  cases x with
  | ok a => exact .pure a
  | error e => exact .panic e

theorem fetchParams_asksOnly (ctx : BodyCtxt) : ∀ hs : List HirId,
    AsksOnly asks (fetchParams ctx hs)
  | [] => .pure _
  | h :: hs =>
    .bind (fetchVar_asksOnly ctx h) fun _ => .bind (fetchParams_asksOnly ctx hs) fun _ => .pure _

theorem checkBindingMode_asksOnly (mode : Option Hir.BindMode) :
    AsksOnly asks (checkBindingMode mode) := by
  unfold checkBindingMode
  split
  · exact .pure _
  · exact .pure _
  · exact report_asksOnly _

theorem addVar_asksOnly (h : HirId) (v : Variable) (vars : Vars) :
    AsksOnly asks (addVar h v vars) := by
  unfold addVar
  exact .ite (.panic _) (.pure _)

section

variable (hok : TcxOk tcx)

include hok

/-! ## Types and ADTs -/

theorem extractAdt_asksOnly {d : DefId} (hd : asks.adt d) : AsksOnly asks (extractAdt tcx d) := by
  refine .of_stays fun s sort s' h => ?_
  cases hstored : (s.didId d).bind fun id => s.adts.get? id.globalId with
  | some stored =>
    -- What is stored is returned as it is.
    have h' : extractAdt tcx d s = .ok (stored, s) := by
      unfold extractAdt adtDepth extractAdtWith
      rw [Run.bind_eq getSort_eq, hstored]
      rfl
    obtain ⟨-, rfl⟩ := Prod.mk.inj (Except.ok.inj (h'.symm.trans h))
    exact .refl s
  | none =>
    refine (extractAdt_fresh hok hstored h).moves.staysWithin fun e he => ?_
    rwa [Set.mem_singleton_iff.mp he]

theorem extractTy_asksOnly (txtcx : TyExtractionCtxt) {ty : Ty}
    (h : ∀ d ∈ tyAdts tcx ty, asks.adt d) : AsksOnly asks (extractTy tcx txtcx ty) :=
  .of_stays fun s t s' hrun =>
    (extractTyWith_movesBy txtcx (extractAdtId_spec hok).moves ty s t s' hrun).staysWithin h

omit hok in
theorem exists_of_mem_tysAdts {tys : List Ty} {d : DefId} (h : d ∈ tysAdts tcx tys) :
    ∃ ty ∈ tys, d ∈ tyAdts tcx ty := by
  induction tys with
  | nil => cases h
  | cons ty tys ih =>
    rw [tysAdts, List.mem_append] at h
    rcases h with h | h
    · exact ⟨ty, List.mem_cons_self, h⟩
    · obtain ⟨ty', hty, h⟩ := ih h
      exact ⟨ty', List.mem_cons_of_mem _ hty, h⟩

theorem extractTys_asksOnly (txtcx : TyExtractionCtxt) {tys : List Ty}
    (h : ∀ ty ∈ tys, ∀ d ∈ tyAdts tcx ty, asks.adt d) : AsksOnly asks (extractTys tcx txtcx tys) :=
  .of_stays fun s ts s' hrun => by
    refine AdtMoves.staysWithin
      (extractTysWith_movesBy txtcx (extractAdtId_spec hok).moves tys s ts s' hrun) fun d hd => ?_
    obtain ⟨ty, hty, hd⟩ := exists_of_mem_tysAdts hd
    exact h ty hty d hd

theorem extractGenerics_asksOnly {d : DefId} (hclosure : tcx.isClosure d = false)
    (h : ∀ e ∈ genericsAdts tcx d, asks.adt e) : AsksOnly asks (extractGenerics tcx d) := by
  refine .of_stays fun s r s' hrun => ?_
  obtain ⟨tparams, txtcx⟩ := r
  exact (extractGenericsWith_ok hok (extractAdtId_spec hok) hclosure hrun).moves.staysWithin h

/-! ## Bodies -/

/-- A call is known by the path of the id of its function. -/
theorem xtorOps_moves (ctx : BodyCtxt) :
    OpsMove tcx (fun s s' => IdsOk tcx s → StaysWithin asks s s') (BodyUse.Within asks)
      (xtorOps tcx ctx) where
  refl := fun s _ => .refl s
  trans := AsksOnly.trans
  unsupported := fun _ => report_asksOnly _
  panic := fun e => AsksOnly.panic e
  extractAdt := fun _ _ hd => AsksOnly.bind (extractAdt_asksOnly hok hd) fun _ => .pure _
  selectAdt := fun _ _ hd => AsksOnly.bind (extractAdt_asksOnly hok hd) fun _ => .pure _
  extractFnRef := by
    intro d hd f hf s r s'' h hids
    obtain ⟨id, s', h1, h2⟩ := Run.bind_ok.mp h
    have hstays : StaysWithin asks s s' := extractFnRef_stays (hd.elim (fun h => h) fun h => h) h1
    have hids' := hstays.ids hids
    have hknown : s'.didId d = some id := extractFnRef_didId h1
    refine hstays.trans (hf id ?_ s' r s'' h2 hids')
    -- The path in the id is that of the function, so it tells whether this is `Box::new`.
    rw [isBoxNewPath, ← hids'.did_path d id hknown, decide_eq_true_iff]
  extractTy := fun _ _ h => extractTy_asksOnly hok _ h
  extractTys := fun _ _ h => extractTys_asksOnly hok _ h
  fetchVar := fetchVar_asksOnly ctx

theorem extractExpr_asksOnly {ctx : BodyCtxt} {c : UseCtxt} {e : Hair.Expr}
    (h : UsesOnly (BodyUse.Within asks) (exprUses tcx c e)) :
    AsksOnly asks (extractExpr tcx ctx e) := extractExprWith_moves (xtorOps_moves hok ctx) e h

/-! ## Bindings -/

omit hok in
/-- The types of bindings. -/
def bindingUses (f : DefId) (bindings : List (HirId × Ty)) : List BodyUse :=
  bindings.map fun b => .type f b.2

omit hok in
theorem bindingUses_append (f : DefId) (bs bs' : List (HirId × Ty)) :
    bindingUses f (bs ++ bs') = bindingUses f bs ++ bindingUses f bs' := List.map_append

section Bindings

variable {txtcx : TyExtractionCtxt} {f : DefId}

/-- The binding that a pattern is itself is extracted, not what is in it. -/
theorem extractBinding_asksOnly {p : Hir.Pat}
    (h : UsesOnly (BodyUse.Within asks) (bindingUses f p.bindings)) (flags : Option Flags)
    (vars : Vars) : AsksOnly asks (extractBinding tcx txtcx p flags vars) := by
  unfold extractBinding
  split
  · exact .pure _
  · split
    · rw [Hir.Pat.bindings] at h
      refine .bind (checkBindingMode_asksOnly _) fun _ => ?_
      refine .bind (registerHir_asksOnly _ _) fun _ => ?_
      exact .bind (extractTy_asksOnly hok _ h.head) fun _ => addVar_asksOnly _ _ _
    · exact .bind (report_asksOnly _) fun _ => .panic _

theorem extractParams_asksOnly : ∀ (params : List Hir.Pat) (m : Assoc String Flags) (vars : Vars),
    UsesOnly (BodyUse.Within asks) (bindingUses f (Hir.Pat.listBindings params)) →
    AsksOnly asks (extractParams tcx txtcx params m vars)
  | [], _, _, _ => .pure _
  | param :: rest, _, vars, h => by
    rw [Hir.Pat.listBindings, bindingUses_append] at h
    exact .bind (extractBinding_asksOnly hok h.left _ vars) fun vars =>
      extractParams_asksOnly rest _ vars h.right

omit hok in
mutual

theorem visitPat_asksOnly (hok : TcxOk tcx) : ∀ (p : Hir.Pat) (vars : Vars),
    UsesOnly (BodyUse.Within asks) (bindingUses f p.bindings) →
    AsksOnly asks (visitPat tcx txtcx p vars)
  | .binding hirId name mode nodeType subpattern, vars, h => by
    rw [visitPat]
    exact .bind (extractBinding_asksOnly hok h _ _) fun vars =>
      visitOptPat_asksOnly hok subpattern vars h.tail
  | .other _ subpatterns, vars, h => by
    rw [visitPat]
    exact visitPats_asksOnly hok subpatterns vars h

theorem visitOptPat_asksOnly (hok : TcxOk tcx) : ∀ (p : Option Hir.Pat) (vars : Vars),
    UsesOnly (BodyUse.Within asks) (bindingUses f (Hir.Pat.optBindings p)) →
    AsksOnly asks (visitOptPat tcx txtcx p vars)
  | none, vars, _ => by
    rw [visitOptPat]
    exact .pure _
  | some p, vars, h => by
    rw [visitOptPat]
    exact visitPat_asksOnly hok p vars h

theorem visitPats_asksOnly (hok : TcxOk tcx) : ∀ (ps : List Hir.Pat) (vars : Vars),
    UsesOnly (BodyUse.Within asks) (bindingUses f (Hir.Pat.listBindings ps)) →
    AsksOnly asks (visitPats tcx txtcx ps vars)
  | [], vars, _ => by
    rw [visitPats]
    exact .pure _
  | p :: ps, vars, h => by
    rw [Hir.Pat.listBindings, bindingUses_append] at h
    rw [visitPats]
    exact .bind (visitPat_asksOnly hok p vars h.left) fun vars =>
      visitPats_asksOnly hok ps vars h.right

end

theorem populateDefContext_asksOnly {body : Hir.Body}
    (h : UsesOnly (BodyUse.Within asks) (bindingUses f body.bindings)) (m : Assoc String Flags)
    (vars : Vars) : AsksOnly asks (populateDefContext tcx txtcx body m vars) := by
  rw [Hir.Body.bindings, bindingUses_append] at h
  refine .bind (extractParams_asksOnly hok _ _ _ h.left) fun r => ?_
  refine .bind (visitPats_asksOnly hok _ _ h.left) fun vars => ?_
  exact .bind (visitPats_asksOnly hok _ _ h.right) fun vars => .pure _

end Bindings

/-! ## Functions -/

omit hok in
/-- The types of the bindings in the bodies that are extracted for a function. -/
def bodyBindings (tcx : Tcx) (f : DefId) (ds : List DefId) : List BodyUse :=
  ds.flatMap fun d => bindingUses f (tcx.bodyOf d).bindings

section Functions

variable {f : DefId} {returns : Option Ty} {original : TyExtractionCtxt} {params : List ValDef}
  {returnVar : Option Variable}

theorem extractSpecFn_asksOnly {c : UseCtxt} {d : DefId}
    (hbindings : UsesOnly (BodyUse.Within asks) (bindingUses f (tcx.bodyOf d).bindings))
    (h : UsesOnly (BodyUse.Within asks) (bodyUses tcx c d)) :
    AsksOnly asks (extractSpecFn tcx d original params returnVar) := by
  refine .bind (liftPanic_asksOnly _) fun ctx => ?_
  exact .bind (populateDefContext_asksOnly hok hbindings _ _) fun r => extractExpr_asksOnly hok h

theorem extractSpecFns_asksOnly : ∀ (specs : List DefId),
    UsesOnly (BodyUse.Within asks) (bodyBindings tcx f specs) →
    UsesOnly (BodyUse.Within asks) (specUses tcx f returns specs) →
    AsksOnly asks (extractSpecFns tcx original params returnVar specs) := by
  intro specs
  induction specs with
  | nil => exact fun _ _ => .pure _
  | cons d specs ih =>
    intro hbindings h
    rw [bodyBindings, List.flatMap_cons] at hbindings
    rw [specUses, List.flatMap_cons] at h
    refine .bind (extractSpecFn_asksOnly hok hbindings.left h.left) fun _ => ?_
    exact .bind (ih hbindings.right h.right) fun _ => .pure _

theorem extractMeasure_asksOnly : ∀ (measure : Option DefId),
    UsesOnly (BodyUse.Within asks) (bodyBindings tcx f measure.toList) →
    UsesOnly (BodyUse.Within asks) (specUses tcx f returns measure.toList) →
    AsksOnly asks (extractMeasure tcx original params measure)
  | none, _, _ => .pure _
  | some d, hbindings, h => by
    rw [Option.toList_some, bodyBindings, List.flatMap_singleton] at hbindings
    rw [Option.toList_some, specUses, List.flatMap_singleton] at h
    exact .bind (extractSpecFn_asksOnly hok hbindings h) fun _ => liftPanic_asksOnly _

theorem extractFnBody_asksOnly {c : UseCtxt} {d : DefId} {txtcx : TyExtractionCtxt}
    {m : Assoc String Flags}
    (hbindings : UsesOnly (BodyUse.Within asks) (bindingUses f (tcx.bodyOf d).bindings))
    (houtput : (BodyUse.type f (tcx.fnSig d).output).Within asks)
    (h : UsesOnly (BodyUse.Within asks) (bodyUses tcx c d)) :
    AsksOnly asks (extractFnBody tcx d txtcx m) := by
  refine .bind (populateDefContext_asksOnly hok hbindings _ _) fun r => ?_
  refine .bind (extractTy_asksOnly hok _ houtput) fun _ => ?_
  refine .bind (fetchParams_asksOnly _ _) fun _ => ?_
  exact .bind (extractExpr_asksOnly hok h) fun _ => .pure _

omit hok in
/-- What a function asks for besides itself and the ADTs in its bounds. -/
def fnAsks (tcx : Tcx) (f : DefId) (specs : FnSpecs) : List BodyUse :=
  .type f (tcx.fnSig f).output :: (bodyBindings tcx f
    (f :: (specs.measureFns.head?.toList ++ specs.preFns ++ specs.postFns)) ++
    metUses tcx f specs)

/-- A function asks for itself, for what is in its signature and bounds, and for what its bodies
use. -/
theorem extractLocalFn_asksOnly {specs : FnSpecs} (hclosure : tcx.isClosure f = false)
    (hself : asks.callee f) (hbounds : ∀ e ∈ genericsAdts tcx f, asks.adt e)
    (h : UsesOnly (BodyUse.Within asks) (fnAsks tcx f specs)) : AsksOnly asks
      (extractLocalFn tcx f specs.preFns specs.postFns specs.measureFns.head?) := by
  obtain ⟨houtput, hbindings, huses⟩ :
      _ ∧ UsesOnly _ (bodyBindings tcx f _) ∧ UsesOnly _ (metUses tcx f specs) :=
    ⟨h.head, h.tail.left, h.tail.right⟩
  rw [bodyBindings, List.flatMap_cons, List.flatMap_append, List.flatMap_append] at hbindings
  have hmeasure := hbindings.right.left.left
  have hpre := hbindings.right.left.right
  have hpost := hbindings.right.right
  refine .ite (.panic _) ?_
  refine .bind (.of_warns fun _ _ _ h => extractFlagsFrom_warns _ h) fun flags => ?_
  refine .bind (extractGenerics_asksOnly hok hclosure hbounds) fun r => ?_
  refine .bind (extractFnBody_asksOnly hok hbindings.left houtput huses.left.left.left) fun r' => ?_
  refine .bind (.of_warns fun _ _ _ h => reportUnusedFlags_warns h) fun _ => ?_
  refine .bind (extractMeasure_asksOnly hok _ hmeasure huses.left.left.right) fun _ => ?_
  refine .bind (extractSpecFns_asksOnly hok _ hpre huses.left.right) fun _ => ?_
  refine .bind (freshId_asksOnly _) fun _ => ?_
  refine .bind (extractSpecFns_asksOnly hok _ hpost huses.right) fun _ => ?_
  exact .bind (extractFnRef_asksOnly hself) fun _ => .pure _

theorem extractFns_asksOnly {v : ItemVisitor} : ∀ (fs : List FnItem),
    (∀ g ∈ fs, tcx.isClosure g.defId = false ∧ asks.callee g.defId ∧
      (∀ e ∈ genericsAdts tcx g.defId, asks.adt e) ∧
      UsesOnly (BodyUse.Within asks) (fnAsks tcx g.defId (v.fnSpecs g.defId))) →
    AsksOnly asks (extractFns tcx v fs) := by
  intro fs
  induction fs with
  | nil => exact fun _ => .pure _
  | cons g fs ih =>
    intro h
    obtain ⟨hclosure, hself, hbounds, huses⟩ := h g List.mem_cons_self
    refine .bind ?_ fun _ => ih fun g' hg => h g' (List.mem_cons_of_mem _ hg)
    have hfn := AsksOnly.bind (extractLocalFn_asksOnly hok hclosure hself hbounds huses)
      fun fd => addFunction_asksOnly fd.id fd
    unfold extractFn
    split
    · exact .bind (report_asksOnly _) fun _ => hfn
    · exact hfn

end Functions

/-! ## The other steps of a run -/

theorem extractLocalAdts_asksOnly : ∀ (ds : List DefId), (∀ d ∈ ds, asks.adt d) →
    AsksOnly asks (extractLocalAdts tcx ds) := by
  intro ds
  induction ds with
  | nil => exact fun _ => .pure _
  | cons d ds ih =>
    intro h
    rw [extractLocalAdts]
    refine .bind (extractAdt_asksOnly hok (h d List.mem_cons_self)) fun sort => ?_
    refine .bind (addAdt_asksOnly _ _) fun _ => ?_
    exact ih fun e he => h e (List.mem_cons_of_mem _ he)

omit hok in
theorem mem_stubUses {d : DefId} (h : UsesOnly (BodyUse.Within asks) (stubUses tcx d)) :
    (∀ ty ∈ (tcx.fnSig d).inputs, ∀ e ∈ tyAdts tcx ty, asks.adt e) ∧
      ∀ e ∈ tyAdts tcx (tcx.fnSig d).output, asks.adt e :=
  ⟨h.left.types, h.right.head⟩

theorem extractExternParams_asksOnly (txtcx : TyExtractionCtxt) : ∀ (tys : List Ty) (i : Nat),
    (∀ ty ∈ tys, ∀ e ∈ tyAdts tcx ty, asks.adt e) →
    AsksOnly asks (extractExternParams tcx txtcx i tys)
  | [], _, _ => .pure _
  | ty :: tys, i, h => by
    rw [extractExternParams]
    refine .bind (freshId_asksOnly _) fun id => ?_
    refine .bind (extractTy_asksOnly hok _ (h ty List.mem_cons_self)) fun _ => ?_
    refine .bind (extractExternParams_asksOnly txtcx tys (i + 1) fun ty' hty => ?_) fun _ => .pure _
    exact h ty' (List.mem_cons_of_mem _ hty)

/-- A stub asks for what is in the signature and the bounds of its function. -/
theorem extractExternFn_asksOnly {d : DefId} (hclosure : tcx.isClosure d = false)
    (hself : asks.callee d) (hbounds : ∀ e ∈ genericsAdts tcx d, asks.adt e)
    (h : UsesOnly (BodyUse.Within asks) (stubUses tcx d)) :
    AsksOnly asks (extractExternFn tcx d) := by
  obtain ⟨hinputs, houtput⟩ := mem_stubUses h
  refine .ite (.panic _) ?_
  refine .bind (extractGenerics_asksOnly hok hclosure hbounds) fun r => ?_
  refine .bind (extractExternParams_asksOnly hok _ _ _ hinputs) fun _ => ?_
  refine .bind (extractTy_asksOnly hok _ houtput) fun _ => ?_
  exact .bind (extractFnRef_asksOnly hself) fun _ => .pure _

theorem extractExternFns_asksOnly : ∀ (ds : List DefId),
    (∀ d ∈ ds, tcx.isClosure d = false ∧ asks.callee d ∧
      (∀ e ∈ genericsAdts tcx d, asks.adt e) ∧
      UsesOnly (BodyUse.Within asks) (stubUses tcx d)) →
    AsksOnly asks (extractExternFns tcx ds) := by
  intro ds
  induction ds with
  | nil => exact fun _ => .pure _
  | cons d ds ih =>
    intro h
    obtain ⟨hclosure, hself, hbounds, huses⟩ := h d List.mem_cons_self
    refine .bind (extractExternFn_asksOnly hok hclosure hself hbounds huses) fun fd => ?_
    refine .bind (addFunction_asksOnly _ _) fun _ => ?_
    exact ih fun e he => h e (List.mem_cons_of_mem _ he)

end

end Stainless
