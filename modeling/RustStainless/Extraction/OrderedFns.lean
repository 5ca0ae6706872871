import RustStainless.Extraction.OrderedAdts
import RustStainless.Extraction.FnImage

/-!
# Functions in two iteration orders

The flags of a function and of its parameters come in the order of a set, as its type parameters
come in the order of a map. The bodies are extracted in the order of their expressions.
-/

namespace Stainless

open Rustc St Lib Extraction

variable {tcx : Tcx} {ids : KnownIds} (o : IterOrder HashSite)

/-- A function: its generics are calm, it has at most one flag, and so has each parameter. -/
structure FnCalm (tcx : Tcx) (known : DefId → Prop) (d : DefId) : Prop where
  generics : GenericsCalm tcx known d
  flags : (itemFlags tcx d).carrier.set.length ≤ 1
  paramFlags : ∀ p ∈ (tcx.bodyOf d).params, ∀ name, p.simpleIdent = some name →
    (symbolFlags tcx d name).length ≤ 1

/-! ## Bindings -/

section Bindings

variable {txtcx txtcx' : TyExtractionCtxt} (hctx : CtxAlike txtcx txtcx')

theorem addVar_follows (h : HirId) (v : Variable) (vars : Vars) :
    FollowsIn tcx ids (addVar h v vars) (addVar h v vars) Eq := by
  unfold addVar
  split
  · exact .panic _
  · exact .pure rfl

theorem checkBindingMode_follows (mode : Option Hir.BindMode) :
    FollowsIn tcx ids (checkBindingMode mode) (checkBindingMode mode) Eq := by
  unfold checkBindingMode
  split
  · exact .pure rfl
  · exact .pure rfl
  · exact unsupported_follows _

include hctx

theorem extractBinding_follows (pat : Hir.Pat) {flags : Option Flags}
    (hflags : ∀ fs, flags = some fs → fs.set.length ≤ 1) (vars : Vars) :
    FollowsIn tcx ids (extractBinding tcx txtcx pat flags vars)
      (extractBinding (tcx.withOrder o) txtcx' pat flags vars) Eq := by
  unfold extractBinding
  split
  · exact .pure rfl
  · cases pat with
    | binding h name mode nodeType sub =>
      have hsame : flags.map (Flags.toStainless (tcx.withOrder o) txtcx.defId (some name)) =
          flags.map (Flags.toStainless tcx txtcx.defId (some name)) := by
        cases flags with
        | none => rfl
        | some fs => simp [Flags.toStainless_withOrder o (hflags fs rfl)]
      simp only [hctx.defId, hsame]
      refine (checkBindingMode_follows mode).bind_eq fun _ => ?_
      refine (registerHir_follows h name).bind_eq fun id => ?_
      refine (extractTy_follows o hctx nodeType).bind_eq fun tpe => ?_
      exact addVar_follows _ _ _
    | other h subs => exact (unsupported_follows _).bind_eq fun _ => .panic _

theorem extractParams_follows {names : String → Prop} : ∀ (params : List Hir.Pat)
    (flagsBySymbol : Assoc String Flags) (vars : Vars),
    (∀ p ∈ params, ∀ name, p.simpleIdent = some name → names name) →
    SingleFlags names flagsBySymbol →
    FollowsIn tcx ids (extractParams tcx txtcx params flagsBySymbol vars)
      (extractParams (tcx.withOrder o) txtcx' params flagsBySymbol vars) Eq
  | [], _, _, _, _ => .pure rfl
  | param :: rest, flagsBySymbol, vars, hnames, hflags => by
    have hparam : ∀ fs, param.simpleIdent.bind flagsBySymbol.get? = some fs →
        fs.set.length ≤ 1 := by
      intro fs hfs
      obtain ⟨name, hname, hget⟩ := Option.bind_eq_some_iff.mp hfs
      exact hflags name (hnames param List.mem_cons_self name hname) fs hget
    have hrest : SingleFlags names
        ((param.simpleIdent.map flagsBySymbol.remove).getD flagsBySymbol) := by
      cases param.simpleIdent with
      | none => exact hflags
      | some name => exact hflags.remove name
    rw [extractParams, extractParams]
    refine (extractBinding_follows o hctx param hparam vars).bind_eq fun vars => ?_
    exact extractParams_follows rest _ vars
      (fun p hp => hnames p (List.mem_cons_of_mem _ hp)) hrest

omit hctx in
mutual

theorem visitPat_follows (hctx : CtxAlike txtcx txtcx') :
    ∀ (p : Hir.Pat) (vars : Vars),
    FollowsIn tcx ids (visitPat tcx txtcx p vars) (visitPat (tcx.withOrder o) txtcx' p vars) Eq
  | .binding h name mode nodeType sub, vars => by
    rw [visitPat, visitPat]
    exact (extractBinding_follows o hctx _ (by simp) vars).bind_eq fun _ =>
      visitOptPat_follows hctx sub _
  | .other h subs, vars => by
    rw [visitPat, visitPat]
    exact visitPats_follows hctx subs vars

theorem visitOptPat_follows (hctx : CtxAlike txtcx txtcx') :
    ∀ (p : Option Hir.Pat) (vars : Vars), FollowsIn tcx ids
    (visitOptPat tcx txtcx p vars) (visitOptPat (tcx.withOrder o) txtcx' p vars) Eq
  | none, vars => by
    rw [visitOptPat, visitOptPat]
    exact .pure rfl
  | some p, vars => by
    rw [visitOptPat, visitOptPat]
    exact visitPat_follows hctx p vars

theorem visitPats_follows (hctx : CtxAlike txtcx txtcx') :
    ∀ (ps : List Hir.Pat) (vars : Vars),
    FollowsIn tcx ids (visitPats tcx txtcx ps vars) (visitPats (tcx.withOrder o) txtcx' ps vars) Eq
  | [], vars => by
    rw [visitPats, visitPats]
    exact .pure rfl
  | p :: ps, vars => by
    rw [visitPats, visitPats]
    exact (visitPat_follows hctx p vars).bind_eq fun _ => visitPats_follows hctx ps _

end

theorem populateDefContext_follows {names : String → Prop} (body : Hir.Body)
    {flagsBySymbol : Assoc String Flags} (vars : Vars)
    (hnames : ∀ p ∈ body.params, ∀ name, p.simpleIdent = some name → names name)
    (hflags : SingleFlags names flagsBySymbol) :
    FollowsIn tcx ids (populateDefContext tcx txtcx body flagsBySymbol vars)
      (populateDefContext (tcx.withOrder o) txtcx' body flagsBySymbol vars) Eq := by
  unfold populateDefContext
  refine (extractParams_follows o hctx _ _ vars hnames hflags).bind_eq fun r => ?_
  refine (visitPats_follows o hctx body.params r.1).bind_eq fun vars => ?_
  exact (visitPats_follows o hctx body.pats vars).bind_eq fun _ => .pure rfl

end Bindings

/-! ## Bodies -/

@[simp] theorem extractExprWith_withOrder (ops : BodyOps Xtor) :
    extractExprWith (tcx.withOrder o) ops = extractExprWith tcx ops := by
  delta extractExprWith
  rfl

@[simp] theorem extractFnRef_withOrder (d : DefId) :
    extractFnRef (tcx.withOrder o) d = extractFnRef tcx d := rfl

section Bodies

variable {txtcx txtcx' : TyExtractionCtxt}

theorem fetchVar_follows (vars : Vars) (h : HirId) :
    FollowsIn tcx ids (fetchVar ⟨txtcx, vars⟩ h) (fetchVar ⟨txtcx', vars⟩ h) Eq := by
  unfold fetchVar
  dsimp only
  split
  · exact .pure rfl
  · exact .panic _

theorem fetchParams_follows (vars : Vars) : ∀ hs : List HirId,
    FollowsIn tcx ids (fetchParams ⟨txtcx, vars⟩ hs) (fetchParams ⟨txtcx', vars⟩ hs) Eq
  | [] => .pure rfl
  | h :: hs => by
    rw [fetchParams, fetchParams]
    exact (fetchVar_follows vars h).bind_eq fun _ =>
      (fetchParams_follows vars hs).bind_eq fun _ => .pure rfl

variable (hctx : CtxAlike txtcx txtcx')

include hctx

/-- The traversal asks the same in both runs. -/
theorem extractExpr_follows (vars : Vars) (e : Hair.Expr) :
    FollowsIn tcx ids (extractExpr tcx ⟨txtcx, vars⟩ e)
      (extractExpr (tcx.withOrder o) ⟨txtcx', vars⟩ e) Eq := by
  have hops : OpsRel (Run.follows Panic (orderPairing tcx ids)) (fun _ => True)
      (xtorOps tcx ⟨txtcx, vars⟩) (xtorOps (tcx.withOrder o) ⟨txtcx', vars⟩) :=
    { unsupported := fun msg => unsupported_follows msg
      panic := fun e _ => .panic e
      extractAdt := fun d => (extractAdt_follows o d).bind (fun _ => .pure Grows.refl _)
        fun sort sort' h => .pure (by rw [sortIds, sortIds, h.constructors])
      extractFnRef := fun d => extractFnRef_follows d
      extractTy := fun ty => extractTy_follows o hctx ty
      extractTys := fun tys => extractTys_follows o hctx tys
      fetchVar := fun h _ => fetchVar_follows vars h }
  unfold extractExpr
  rw [extractExprWith_withOrder]
  exact extractExprWith_rel hops e fun _ _ => trivial

end Bodies

/-! ## Spec functions -/

theorem correlateTparams_nodup {original : Assoc Nat TyParam} : ∀ (params : List GenericParamDef)
    {m m' : Assoc Nat TyParam}, correlateTparams original params m = .ok m' → m.keys.Nodup →
    m'.keys.Nodup := by
  intro params
  induction params with
  | nil =>
    intro m m' h hm
    obtain rfl := Except.ok.inj h
    exact hm
  | cons p params ih =>
    intro m m' h hm
    rw [correlateTparams] at h
    cases hp : original.get? p.index with
    | none => simp [hp] at h
    | some tparam =>
      simp only [hp] at h
      exact ih h (Assoc.nodup_keys_insert hm _ _)

theorem correlateTparams_congr {original original' : Assoc Nat TyParam}
    (h : ∀ i, original.get? i = original'.get? i) : ∀ (params : List GenericParamDef)
    (m : Assoc Nat TyParam),
    correlateTparams original params m = correlateTparams original' params m
  | [], _ => rfl
  | p :: params, m => by
    rw [correlateTparams, correlateTparams, h]
    cases original'.get? p.index with
    | none => rfl
    | some tparam => exact correlateTparams_congr h params _

theorem liftPanic_follows {α : Type} (x : Except Panic α) :
    FollowsIn tcx ids (liftPanic x) (liftPanic x) Eq := by
  cases x with
  | ok a => exact .pure rfl
  | error e => exact .panic e

section SpecFns

variable {txtcx txtcx' : TyExtractionCtxt} (hctx : CtxAlike txtcx txtcx')

include hctx

/-- The type parameters are looked up by their index, so their order does not matter. -/
theorem correlateSpecFn_congr (d : DefId) (params : List ValDef) (returnVar : Option Variable) :
    correlateSpecFn (tcx.withOrder o) d txtcx' params returnVar =
      correlateSpecFn tcx d txtcx params returnVar := by
  unfold correlateSpecFn
  rw [allGenericParamsOf_withOrder, ← hctx.perm.length_eq, hctx.defId,
    correlateTparams_congr hctx.get?]
  rfl

theorem extractSpecFn_follows (d : DefId) (params : List ValDef) (returnVar : Option Variable) :
    FollowsIn tcx ids (extractSpecFn tcx d txtcx params returnVar)
      (extractSpecFn (tcx.withOrder o) d txtcx' params returnVar) Eq := by
  unfold extractSpecFn
  rw [correlateSpecFn_congr o hctx]
  refine (liftPanic_follows _).bind_post (fun _ _ _ h => correlateSpecFn_ok (liftPanic_ok.mp h).1)
    fun ctx hc => ?_
  have hspec : CtxAlike ctx.txtcx ctx.txtcx :=
    .refl (correlateTparams_nodup _ hc.tparams (by simp [Assoc.keys]))
  have hnone : SingleFlags (fun _ => True) [] := fun _ _ _ h => by simp at h
  refine (populateDefContext_follows o hspec (tcx.bodyOf d) ctx.vars
    (fun _ _ _ _ => trivial) hnone).bind_eq fun r => ?_
  exact extractExpr_follows o hspec r.1 _

theorem extractSpecFns_follows (params : List ValDef) (returnVar : Option Variable) :
    ∀ ds : List DefId, FollowsIn tcx ids (extractSpecFns tcx txtcx params returnVar ds)
      (extractSpecFns (tcx.withOrder o) txtcx' params returnVar ds) Eq
  | [] => .pure rfl
  | d :: ds => by
    rw [extractSpecFns, extractSpecFns]
    exact (extractSpecFn_follows o hctx d params returnVar).bind_eq fun _ =>
      (extractSpecFns_follows params returnVar ds).bind_eq fun _ => .pure rfl

theorem extractMeasure_follows (params : List ValDef) (d : Option DefId) :
    FollowsIn tcx ids (extractMeasure tcx txtcx params d)
      (extractMeasure (tcx.withOrder o) txtcx' params d) Eq := by
  cases d with
  | none => exact .pure rfl
  | some d =>
    exact (extractSpecFn_follows o hctx d params none).bind_eq fun e => liftPanic_follows _

end SpecFns

/-! ## Functions -/

theorem extractFnBody_follows {txtcx txtcx' : TyExtractionCtxt} (hctx : CtxAlike txtcx txtcx')
    {known : DefId → Prop} {d : DefId} (hcalm : FnCalm tcx known d) :
    FollowsIn tcx ids (extractFnBody tcx d txtcx (itemFlags tcx d).bySymbol)
      (extractFnBody (tcx.withOrder o) d txtcx' (itemFlags tcx d).bySymbol) Eq := by
  have hflags : SingleFlags
      (fun name => ∃ p ∈ (tcx.bodyOf d).params, p.simpleIdent = some name)
      (itemFlags tcx d).bySymbol := by
    refine singleFlags_of_symbolFlags fun name hname => ?_
    obtain ⟨p, hp, hname⟩ := hname
    exact hcalm.paramFlags p hp name hname
  unfold extractFnBody
  refine (populateDefContext_follows o hctx (tcx.bodyOf d) []
    (fun p hp name hname => ⟨p, hp, hname⟩) hflags).bind_eq fun r => ?_
  refine (extractTy_follows o hctx _).bind_eq fun returnTpe => ?_
  refine (fetchParams_follows r.1 _).bind_eq fun params => ?_
  exact (extractExpr_follows o hctx r.1 _).bind_eq fun bodyExpr => .pure rfl

theorem extractLocalFn_follows {known : DefId → Prop} {d : DefId}
    (hknown : ∀ a, known a → ids a ≠ none) (hcalm : FnCalm tcx known d) (pre post : List DefId)
    (measure : Option DefId) :
    FollowsIn tcx ids (extractLocalFn tcx d pre post measure)
      (extractLocalFn (tcx.withOrder o) d pre post measure) Eq := by
  unfold extractLocalFn
  split
  · exact .panic _
  rw [extractFlags_withOrder]
  have hflags : FollowsIn tcx ids (extractFlags tcx d) (extractFlags tcx d) Eq :=
    (extractFlags_steady d).follows
  refine hflags.bind_post (fun _ _ _ h => extractFlags_eq h) fun flags hfs => ?_
  subst hfs
  have hgenerics := extractGenerics_follows o hknown hcalm.generics.bounds
  refine hgenerics.bind (fun r => ?_) fun r r' hr => ?_
  · refine ByOps.grows (.bind (extractFnBody_byOps d r.2 _) fun b => ?_)
    refine .bind (reportUnusedFlags_byOps d _) fun _ => ?_
    refine .bind (extractMeasure_byOps _ _ measure) fun m => ?_
    refine .bind (extractSpecFns_byOps _ _ _ pre) fun pres => ?_
    refine .bind (freshId_byOps _) fun ret => ?_
    refine .bind (extractSpecFns_byOps _ _ _ post) fun posts => ?_
    exact .bind (extractFnRef_byOps d) fun _ => .pure _
  · obtain ⟨tparams, txtcx⟩ := r
    obtain ⟨tparams', txtcx'⟩ := r'
    have hctx : CtxAlike txtcx txtcx' := hr.ctx
    obtain rfl : tparams = tparams' := hr.tparams hcalm.generics.tparams
    refine (extractFnBody_follows o hctx hcalm).bind_eq fun r => ?_
    obtain ⟨params, returnTpe, bodyExpr, flagsBySymbol⟩ := r
    refine (reportUnusedFlags_follows o d flagsBySymbol).bind_eq fun _ => ?_
    refine (extractMeasure_follows o hctx params measure).bind_eq fun m => ?_
    refine (extractSpecFns_follows o hctx params none pre).bind_eq fun pres => ?_
    refine (freshId_follows "ret").bind_eq fun ret => ?_
    refine (extractSpecFns_follows o hctx params (some _) post).bind_eq fun posts => ?_
    refine (extractFnRef_follows d).bind_eq fun funId => ?_
    rw [Flags.toStainless_withOrder o hcalm.flags]
    exact .pure rfl

end Stainless
