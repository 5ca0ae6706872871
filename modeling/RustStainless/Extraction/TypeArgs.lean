import RustStainless.Extraction.Image
import RustStainless.Extraction.AdtReturns

/-!
# Type parameters and type arguments

The definitions of the type parameters come out of a hash map, the type arguments of a use are
taken from the rustc arguments in index order. The two agree in number when the closure types among
the arguments are as many as the parameters with an `Fn`-like bound, and in position, whatever the
order of the map, only when there is at most one parameter.
-/

namespace Stainless

open Rustc St Lib Extraction

variable {tcx : Tcx} {ids : Ids} {ctx : BodyCtxt}

/-! ## Uses of a definition -/

/-- Where a definition is named together with type arguments. -/
inductive UseSite where
  | functionInvocation
  | adt
  | adtPattern
  | adtType
deriving DecidableEq

/-- A node that names the definition `d`, extracted from a tree with the arguments `substs`. -/
inductive Use (tcx : Tcx) (ids : Ids) (ctx : BodyCtxt) (d : DefId) (substs : List Ty)
    (argTps : List Tpe) : UseSite → Prop
  | functionInvocation {ty : Ty} {args : List Hair.Expr} {id : SymbolIdentifier}
      {es : List St.Expr} : ids d = some id → id.symbolPath ≠ boxNewPath →
      exprImage tcx ids ctx (.call ty (.fnDef d substs) args)
        = some (.functionInvocation id argTps es) →
      Use tcx ids ctx d substs argTps .functionInvocation
  | adt {ty : Ty} {variantIndex : Nat} {fields : List (Nat × Hair.Expr)} {base : Bool}
      {id : SymbolIdentifier} {es : List St.Expr} :
      exprImage tcx ids ctx (.adt ty d variantIndex substs fields base) = some (.adt id argTps es) →
      Use tcx ids ctx d substs argTps .adt
  | variant {ty : Ty} {variantIndex : Nat} {subpatterns : List (Nat × Hair.Pat)}
      {binder binder' : Option ValDef} {id : SymbolIdentifier} {ps : List Pattern} :
      patternImage tcx ids ctx (.variant ty d substs variantIndex subpatterns) binder
        = some (.adt binder' id argTps ps) →
      Use tcx ids ctx d substs argTps .adtPattern
  | leaf {subpatterns : List (Nat × Hair.Pat)} {binder binder' : Option ValDef}
      {id : SymbolIdentifier} {ps : List Pattern} :
      patternImage tcx ids ctx (.leaf (.adt d substs) subpatterns) binder
        = some (.adt binder' id argTps ps) →
      Use tcx ids ctx d substs argTps .adtPattern
  | adtType {id : SymbolIdentifier} : tcx.isBigint d = false → tcx.isBox d = false →
      tcx.stdItems.defToItemOpt d ≠ some .setType →
      suppImage tcx ids ctx.txtcx.indexToTparam.get? (.adt d substs)
        = some (.adtType id argTps) →
      Use tcx ids ctx d substs argTps .adtType

/-- The arguments from which a use takes its type arguments. -/
def UseSite.argTys : UseSite → List Ty → List Ty
  | .adtType, substs => substs
  | _, substs => substs.filter fun ty => !ty.isClosure

theorem suppImages_some {tps : Nat → Option TyParam} {tys : List Ty} {ts : List Tpe}
    (h : suppImages tcx ids tps tys = some ts) : tysImage tcx ids tps tys = some ts := by
  unfold suppImages at h
  split at h
  · exact h
  · simp at h

/-- Whatever the site, the type arguments are the images of the arguments it goes through. -/
theorem Use.argTps_image {d : DefId} {substs : List Ty} {argTps : List Tpe} {site : UseSite}
    (h : Use tcx ids ctx d substs argTps site) :
    tysImage tcx ids ctx.txtcx.indexToTparam.get? (site.argTys substs) = some argTps := by
  cases h with
  | @functionInvocation ty args id es hid hpath h =>
    simp only [exprImage, extractExprWith, extractCallLike] at h
    have hcall : extractCall (imageOps tcx ids ctx) d substs
        (exprActions tcx (imageOps tcx ids ctx) args) = some (.functionInvocation id argTps es) →
        tysImage tcx ids ctx.txtcx.indexToTparam.get? (UseSite.argTys .functionInvocation substs)
          = some argTps := by
      intro h
      simp only [extractCall, Option.bind_eq_bind, Option.bind_eq_some_iff] at h
      obtain ⟨fdId, hfd, h⟩ := h
      have : fdId = id := Option.some.inj (hfd.symm.trans hid)
      subst this
      rw [if_neg hpath] at h
      simp only [Option.bind_eq_some_iff] at h
      obtain ⟨tps, htps, es', -, h⟩ := h
      simp only [Option.pure_def, Option.some.injEq, Expr.functionInvocation.injEq] at h
      rw [← h.2.1]
      exact suppImages_some htps
    have hset : ∀ op, extractSetOp (imageOps tcx ids ctx) op
        (exprActions tcx (imageOps tcx ids ctx) args) ≠
          some (.functionInvocation id argTps es) := by
      intro op h
      simp only [extractSetOp, Option.bind_eq_bind, Option.bind_eq_some_iff] at h
      obtain ⟨es, -, h⟩ := h
      cases es with
      | nil => simp [imageOps] at h
      | cons e es => cases es <;> simp [imageOps] at h
    have hpanic : ∀ b, extractPanic (imageOps tcx ids ctx)
        (exprActions tcx (imageOps tcx ids ctx) args) b ≠
          some (.functionInvocation id argTps es) := by
      intro b h
      unfold extractPanic at h
      split at h
      · split at h
        · simp [unsupportedExpr, imageOps] at h
        · simp [Option.bind_eq_some_iff] at h
      · simp [imageOps] at h
    split at h
    · exact absurd h (hpanic _)
    · exact absurd h (hpanic _)
    · simp only [extractSetCreation, Option.bind_eq_bind, Option.bind_eq_some_iff] at h
      obtain ⟨_, -, h⟩ := h
      split at h <;> simp [imageOps, Option.bind_eq_some_iff] at h
    · simp only [extractSetCreation, Option.bind_eq_bind, Option.bind_eq_some_iff] at h
      obtain ⟨_, -, h⟩ := h
      split at h <;> simp [imageOps, Option.bind_eq_some_iff] at h
    · exact absurd h (hset _)
    · exact absurd h (hset _)
    · exact absurd h (hset _)
    · exact absurd h (hset _)
    · exact absurd h (hset _)
    · exact hcall h
  | @adt ty variantIndex fields base id es h =>
    simp only [exprImage, extractExprWith] at h
    split at h
    · simp [unsupportedExpr, imageOps] at h
    · simp only [Option.bind_eq_bind, Option.bind_eq_some_iff] at h
      obtain ⟨sort, -, h⟩ := h
      split at h
      · simp [imageOps] at h
      · simp only [Option.bind_eq_some_iff] at h
        obtain ⟨tps, htps, es', -, h⟩ := h
        simp only [Option.pure_def, Option.some.injEq, Expr.adt.injEq] at h
        rw [← h.2.1]
        exact suppImages_some htps
  | @variant ty variantIndex subpatterns binder binder' id ps h =>
    simp only [patternImage, extractPattern, Option.bind_eq_bind, Option.bind_eq_some_iff] at h
    obtain ⟨sort, -, h⟩ := h
    split at h
    · simp [imageOps] at h
    · simp only [Option.bind_eq_some_iff] at h
      obtain ⟨tps, htps, ps', -, h⟩ := h
      simp only [Option.pure_def, Option.some.injEq, Pattern.adt.injEq] at h
      rw [← h.2.2.1]
      exact suppImages_some htps
  | @leaf subpatterns binder binder' id ps h =>
    simp only [patternImage, extractPattern, Option.bind_eq_bind, Option.bind_eq_some_iff] at h
    obtain ⟨sort, -, h⟩ := h
    split at h
    · simp only [Option.bind_eq_some_iff] at h
      obtain ⟨tps, htps, ps', -, h⟩ := h
      simp only [Option.pure_def, Option.some.injEq, Pattern.adt.injEq] at h
      rw [← h.2.2.1]
      exact suppImages_some htps
    · simp [imageOps] at h
  | @adtType id hb hx hs h =>
    unfold suppImage at h
    split at h
    · simp only [tyImage, hb, hx, hs, Bool.false_eq_true, if_false] at h
      split at h
      · next id' tps hid htps =>
        simp only [Option.some.injEq, Tpe.adtType.injEq] at h
        rw [← h.2]
        exact htps
      · simp at h
    · simp at h

theorem tysImage_get {tps : Nat → Option TyParam} : ∀ {tys : List Ty} {ts : List Tpe},
    tysImage tcx ids tps tys = some ts → List.Forall₂ (fun ty t => tyImage tcx ids tps ty = some t)
      tys ts
  | [], ts, h => by
    simp only [tysImage, Option.some.injEq] at h
    exact h ▸ .nil
  | ty :: tys, ts, h => by
    simp only [tysImage] at h
    cases hx : tyImage tcx ids tps ty with
    | none => simp [hx] at h
    | some t =>
      cases hy : tysImage tcx ids tps tys with
      | none => simp [hx, hy] at h
      | some us =>
        simp only [hx, hy, Option.some.injEq] at h
        exact h ▸ .cons hx (tysImage_get hy)

theorem Use.length {d : DefId} {substs : List Ty} {argTps : List Tpe} {site : UseSite}
    (h : Use tcx ids ctx d substs argTps site) :
    argTps.length = (site.argTys substs).length := (tysImage_get h.argTps_image).length_eq.symm

/-! ## How many there are -/

/-- How many type parameters of a definition are replaced by function types. -/
def numFunParams (tcx : Tcx) (d : DefId) : Nat :=
  ((allGenericParamsOf tcx d).filter fun p => p.kind = .type && isFunParam tcx d p.index).length

/-- How many type parameters a definition has. -/
def numTypeParams (tcx : Tcx) (d : DefId) : Nat :=
  ((allGenericParamsOf tcx d).filter fun p => p.kind = .type).length

theorem plainParamsOf_length (tcx : Tcx) (d : DefId) :
    (plainParamsOf tcx d).length + numFunParams tcx d = numTypeParams tcx d := by
  unfold plainParamsOf numFunParams numTypeParams
  induction allGenericParamsOf tcx d with
  | nil => rfl
  | cons p ps ih =>
    by_cases hk : p.kind = .type <;> by_cases hf : isFunParam tcx d p.index = true <;>
      simp [hk, hf] at ih ⊢ <;> omega

/-- The definition of a type parameter that stays one has the id of the parameter. -/
def DefOf (ids : Ids) (p : GenericParamDef) (tp : TypeParameterDef) : Prop :=
  ids p.defId = some tp.tp.id

theorem filterMap_toDef_extracted (defs : List TypeParameterDef) :
    (defs.map fun tp => TyParam.extracted tp.tp).filterMap TyParam.toDef = defs := by
  induction defs with
  | nil => rfl
  | cons tp defs ih => simpa [TyParam.toDef] using ih

theorem tparamImages_defs {ps : List GenericParamDef} {m : Assoc Nat TyParam}
    (h : List.Forall₂ (TparamImage ids) ps m) : ∃ defs : List TypeParameterDef,
      m.values = defs.map (fun tp => TyParam.extracted tp.tp) ∧
      List.Forall₂ (DefOf ids) ps defs := by
  induction h with
  | nil => exact ⟨[], rfl, .nil⟩
  | cons hp _ ih =>
    obtain ⟨defs, hv, hf⟩ := ih
    obtain ⟨-, id, hid, he⟩ := hp
    refine ⟨{ tp := { id := id, flags := [] } } :: defs, ?_, .cons hid hf⟩
    simp only [Assoc.values, List.map_cons, he] at hv ⊢
    rw [hv]

/-- The definitions in a context are those of the parameters that stay type parameters. -/
theorem GenericsImage.defs {d : DefId} {txtcx : TyExtractionCtxt}
    (h : GenericsImage tcx ids d txtcx) :
    List.Forall₂ (DefOf ids) (plainParamsOf tcx d)
      (txtcx.indexToTparam.values.filterMap TyParam.toDef) := by
  obtain ⟨plain, hofs, hm, hplain, hhofs⟩ := h.entries
  obtain ⟨defs, hv, hdefs⟩ := tparamImages_defs hplain
  have hnone : hofs.values.filterMap TyParam.toDef = [] := by
    rw [List.filterMap_eq_nil_iff]
    intro e he
    obtain ⟨x, hx, rfl⟩ := List.mem_map.mp he
    obtain ⟨f, -, -, tpes, rty, tpe, -, -, -, hxe⟩ := forall₂_mem_right hhofs hx
    rw [hxe]
    rfl
  have hsplit : Assoc.values (plain ++ hofs) = plain.values ++ hofs.values := List.map_append
  rw [hm, hsplit, List.filterMap_append, hnone, List.append_nil, hv, filterMap_toDef_extracted]
  exact hdefs

/-- A definition has one type parameter definition for each parameter that stays one. -/
theorem tparamDefs_length {d : DefId} {txtcx : TyExtractionCtxt}
    (h : GenericsImage tcx ids d txtcx) :
    (tparamDefs tcx txtcx).length = (plainParamsOf tcx d).length := by
  have hperm := tcx.iterOrder.perm (.indexToTparam txtcx.defId) txtcx.indexToTparam.values
  rw [tparamDefs, (hperm.filterMap _).length_eq]
  exact h.defs.length_eq.symm

/-- When are there as many type arguments at a site as the definition has type parameters? -/
def ArityOk (tcx : Tcx) (d : DefId) (substs : List Ty) : UseSite → Prop
  | .adtType => numFunParams tcx d = 0
  | _ => (substs.filter fun ty => ty.isClosure).length = numFunParams tcx d

/--
**A use has as many type arguments as its definition has type parameters if and only if**, at a
call, a construction or a pattern, as many of its arguments are closure types as parameters of the
definition have an `Fn`-like bound, and, in a type, no parameter has such a bound.
-/
theorem argTps_length_iff (hok : TcxOk tcx) {d : DefId} {s s' : Extraction}
    {tparams : List TypeParameterDef} {txtcx : TyExtractionCtxt}
    (hcl : tcx.isClosure d = false)
    (hdef : extractGenerics tcx d s = .ok ((tparams, txtcx), s')) {substs : List Ty}
    (hsubsts : substs.length = numTypeParams tcx d) {argTps : List Tpe} {site : UseSite}
    (huse : Use tcx ids ctx d substs argTps site) :
    argTps.length = tparams.length ↔ ArityOk tcx d substs site := by
  have hgen := extractGenericsWith_ok hok (extractAdtId_spec hok) hcl hdef
  have htps : tparams.length + numFunParams tcx d = substs.length := by
    rw [hgen.tparams, tparamDefs_length hgen.image, plainParamsOf_length, hsubsts]
  have hsplit : (substs.filter fun ty => ty.isClosure).length +
      (substs.filter fun ty => !ty.isClosure).length = substs.length :=
    (List.length_eq_length_filter_add _).symm
  rw [huse.length]
  cases site <;> simp only [UseSite.argTys, ArityOk] <;> omega

section Apply

/-- `fn apply<F: Fn(i32) -> i32>(f: F)`. -/
def applyTcx : Tcx :=
  { Tcx.empty with
    defKind := fun d => if d.index = 0 then .fn else .tyParam
    defPathStr := fun d => if d.index = 0 then "apply" else "F"
    genericsOf := fun _ => .root [{ index := 0, defId := ⟨0, 1⟩, kind := .type }]
    predicatesOf := fun _ =>
      [.trait ⟨1, 0⟩ (.param 0) [.int .i32], .projection ⟨1, 2⟩ (.param 0) (.int .i32)] }

/-- The type of the parameter `f` of `apply` where it is extracted. -/
def applyFn : Tpe := .functionType [.bvType true 32] (.bvType true 32)

/-- The context of the body of `apply`. -/
def applyCtx : BodyCtxt where
  txtcx := { defId := ⟨0, 0⟩, indexToTparam := [(0, .replaced applyFn)] }
  vars := [(⟨⟨0, 0⟩, 1⟩,
    { id := { id := { name := "f", globalId := 0, id := 0 }, symbolPath := ["apply", "f"] }
      tpe := applyFn
      flags := [] })]

/-- The id of `apply`. -/
def applyId : SymbolIdentifier where
  id := { name := "apply", globalId := 1, id := 0 }
  symbolPath := ["apply"]

def applyIds : Ids := fun d => if d = ⟨0, 0⟩ then some applyId else none

/-- The call `apply::<arg>(f)` in the body of `apply`. -/
def applyCall (arg : Ty) : Hair.Expr :=
  .call (.int .i32) (.fnDef ⟨0, 0⟩ [arg]) [.varRef (.param 0) ⟨⟨0, 0⟩, 1⟩]

theorem use_applyCall {arg : Ty} {argTps : List Tpe} {es : List St.Expr}
    (h : exprImage applyTcx applyIds applyCtx (applyCall arg) =
      some (.functionInvocation applyId argTps es)) :
    Use applyTcx applyIds applyCtx ⟨0, 0⟩ [arg] argTps .functionInvocation :=
  .functionInvocation rfl (by decide) h

theorem applyTcx_ok : TcxOk applyTcx where
  adt_kind := by simp [applyTcx, Tcx.empty]
  variant_kind := by simp [applyTcx, Tcx.empty]
  field_kind := by simp [applyTcx, Tcx.empty]
  tparam_kind := by simp [applyTcx, allGenericParamsOf, allGenericParams]
  tparam_index := by simp [applyTcx, allGenericParamsOf, allGenericParams]
  tparam_inj := by simp [applyTcx, allGenericParamsOf, allGenericParams]
  adt_not_closure := by simp [applyTcx, Tcx.empty]
  mentions_adt := by
    rintro d e ⟨a, ha, -⟩
    simp [Tcx.adtDef, applyTcx, Tcx.empty] at ha
  field_params := by simp [applyTcx, Tcx.empty]
  field_applied := by simp [applyTcx, Tcx.empty]
  params_applied := by
    intro d p hp
    have : p = (0, [.int .i32]) := List.mem_singleton.mp hp
    simp [this, TysApplied, TyApplied]
  returns_applied := by
    intro d p hp
    have : p = (0, .int .i32) := List.mem_singleton.mp hp
    simp [this, TyApplied]

/-- `apply(|x| x)`: the closure type is left out, as the parameter `F` is. -/
theorem argTps_length_closure :
    ArityOk applyTcx ⟨0, 0⟩ [.closure ⟨0, 2⟩ []] .functionInvocation := by
  obtain ⟨tparams, txtcx, s', hdef, hnil⟩ : ∃ tparams txtcx s',
      extractGenerics applyTcx ⟨0, 0⟩ .new = .ok ((tparams, txtcx), s') ∧ tparams = [] :=
    ⟨_, _, _, rfl, rfl⟩
  have huse : Use applyTcx applyIds applyCtx ⟨0, 0⟩ [.closure ⟨0, 2⟩ []] [] .functionInvocation :=
    use_applyCall rfl
  exact (argTps_length_iff applyTcx_ok rfl hdef rfl huse).mp (by rw [hnil]; rfl)

/--
The recursive call `apply(f)` in the body of `apply`: the type argument is `F` itself, which is a
function type there and is kept, while `apply` has no type parameter left.
-/
theorem argTps_length_recursive :
    ∃ s' tparams txtcx argTps, TcxOk applyTcx ∧
      extractGenerics applyTcx ⟨0, 0⟩ .new = .ok ((tparams, txtcx), s') ∧
      txtcx.indexToTparam = applyCtx.txtcx.indexToTparam ∧
      Use applyTcx applyIds applyCtx ⟨0, 0⟩ [.param 0] argTps .functionInvocation ∧
      argTps.length ≠ tparams.length :=
  ⟨_, _, _, [applyFn], applyTcx_ok, rfl, rfl, use_applyCall rfl, by decide⟩

end Apply

/-! ## In which order they are -/

/-- A bound that turns its parameter into a function type. -/
def IsFnLike? (tcx : Tcx) : Predicate → Bool
  | .trait did (.param _) _ => !tcx.shouldSilentlyIgnoreTrait did && tcx.isFnLikeTrait did
  | .projection did (.param _) _ => tcx.isFnLikeTrait did
  | _ => false

/--
A definition with plain type parameters only: no lifetimes, no constants, no `Fn`-like bounds.
rustc numbers the parameters in their order, those of the parent first.
-/
structure PlainGenerics (tcx : Tcx) (d : DefId) : Prop where
  not_closure : tcx.isClosure d = false
  kind : ∀ p ∈ allGenericParamsOf tcx d, p.kind = .type
  tyParam : ∀ p ∈ allGenericParamsOf tcx d, tcx.defKind p.defId = .tyParam
  index : (allGenericParamsOf tcx d).map (·.index) =
    List.range (allGenericParamsOf tcx d).length
  inj : ((allGenericParamsOf tcx d).map (·.defId)).Nodup
  bounds : ∀ p ∈ tcx.predicatesOf d, IsFnLike? tcx p = false

theorem funBounds_eq_nil : ∀ (ps : List Predicate), (∀ p ∈ ps, IsFnLike? tcx p = false) →
    funParamsOf tcx ps = [] ∧ funReturnsOf tcx ps = [] := by
  intro ps
  induction ps with
  | nil => exact fun _ => ⟨rfl, rfl⟩
  | cons p ps ih =>
    intro h
    have hp := h p List.mem_cons_self
    obtain ⟨h₁, h₂⟩ := ih fun q hq => h q (List.mem_cons_of_mem _ hq)
    cases p with
    | trait did selfTy paramTys =>
      cases selfTy <;> simp_all [funParamsOf, funReturnsOf, IsFnLike?]
    | projection did selfTy ty =>
      cases selfTy <;> simp_all [funParamsOf, funReturnsOf, IsFnLike?]
    | other => exact ⟨h₁, h₂⟩

theorem PlainGenerics.plainParamsOf {d : DefId} (h : PlainGenerics tcx d) :
    plainParamsOf tcx d = allGenericParamsOf tcx d := by
  refine List.filter_eq_self.mpr fun p hp => ?_
  simp [h.kind p hp, isFunParam, (funBounds_eq_nil _ h.bounds).1, Assoc.contains]

/-- The extraction of plain generics: one entry and one definition for each parameter. -/
theorem extractGenerics_plain {d : DefId} (hplain : PlainGenerics tcx d) {s s' : Extraction}
    {tparams : List TypeParameterDef} {txtcx : TyExtractionCtxt}
    (h : extractGenerics tcx d s = .ok ((tparams, txtcx), s')) :
    (IdsOk tcx s → IdsOk tcx s') ∧ ∃ defs : List TypeParameterDef,
      tparams = (tcx.iterOrder.iter (.indexToTparam d)
        (defs.map fun tp => TyParam.extracted tp.tp)).filterMap TyParam.toDef ∧
      List.Forall₂ (DefOf s'.didId) (allGenericParamsOf tcx d) defs := by
  rw [extractGenerics, extractGenericsWith, if_neg (by simp [hplain.not_closure])] at h
  obtain ⟨bounds, s₁, h1, h⟩ := Run.bind_ok.mp h
  obtain ⟨m, s₂, h2, h⟩ := Run.bind_ok.mp h
  obtain ⟨txtcx', s₃, h3, h⟩ := Run.bind_ok.mp h
  obtain ⟨heq, rfl⟩ := Run.pure_ok.mp h
  obtain ⟨rfl, rfl⟩ := Prod.mk.inj heq
  have hscan := scanPredicates_ok _ h1
  have hnil := funBounds_eq_nil _ hplain.bounds
  have hparams : bounds.params = funParamsOf tcx (tcx.predicatesOf d) := by simpa using hscan.params
  have hiter : tcx.iterOrder.iter (.tparamToFunParams d) bounds.params = [] := by
    rw [hparams, hnil.1]
    exact tcx.iterOrder.iter_of_length_le_one (Nat.zero_le 1)
  rw [hiter] at h3
  obtain ⟨rfl, rfl⟩ := Run.pure_ok.mp h3
  have hnodup : ((allGenericParamsOf tcx d).map (·.index)).Nodup := by
    rw [hplain.index]
    exact List.nodup_range
  obtain ⟨hmoves, plain, hm, hps⟩ := extractTparams_ok _ (fun p hp _ => hplain.tyParam p hp)
    (by simpa [Assoc.keys] using hnodup) h2
  rw [List.nil_append] at hm
  subst hm
  rw [plainParams_eq hparams, hplain.plainParamsOf] at hps
  have hall := hscan.warns.adtMoves.trans hmoves
  refine ⟨hall.ids, ?_⟩
  obtain ⟨defs, hv, hf⟩ := tparamImages_defs hps
  exact ⟨defs, by simp only [tparamDefs, hv], hf⟩

/-- The extraction of plain generics returns. -/
theorem extractGenerics_plain_returns {d : DefId} (hplain : PlainGenerics tcx d) (s : Extraction) :
    ∃ r s', extractGenerics tcx d s = .ok (r, s') := by
  have hstable : Stable fun _ => True := fun _ _ _ h => h
  have hnil := funBounds_eq_nil _ hplain.bounds
  obtain ⟨bounds, s₁, h1, -, -⟩ := scanPredicates_returns tcx hstable
    (tcx.predicatesOf d) (b := { params := [], returns := [] })
    (by simp [hnil.1, Assoc.keys]) (by simp [hnil.2, Assoc.keys]) s trivial
  have hparams : bounds.params = [] := by
    simpa [hnil.1] using (scanPredicates_ok _ h1).params
  obtain ⟨m, s₂, h2, -, -⟩ := extractTparams_returns tcx hstable bounds
    (allGenericParamsOf tcx d) [] s₁ trivial
  have hiter : tcx.iterOrder.iter (.tparamToFunParams d) bounds.params = [] := by
    rw [hparams]
    exact tcx.iterOrder.iter_of_length_le_one (Nat.zero_le 1)
  refine ⟨(tparamDefs tcx ⟨d, m⟩, ⟨d, m⟩), s₂, ?_⟩
  rw [extractGenerics, extractGenericsWith, if_neg (by simp [hplain.not_closure]),
    Run.bind_eq h1, Run.bind_eq h2, hiter]
  rfl

/-- The definitions are those of the type parameters, in the order of their indices. -/
def InIndexOrder (tcx : Tcx) (d : DefId) (ids : Ids) (tparams : List TypeParameterDef) : Prop :=
  List.Forall₂ (DefOf ids) (allGenericParamsOf tcx d) tparams

/-- Definitions that match their parameters have the ids of these. -/
theorem defOf_ids {ps : List GenericParamDef} {tparams : List TypeParameterDef}
    (h : List.Forall₂ (DefOf ids) ps tparams) :
    tparams.map (fun tp => some tp.tp.id) = ps.map fun p => ids p.defId := by
  induction h with
  | nil => rfl
  | cons hp _ ih =>
    rw [List.map_cons, List.map_cons, ih]
    exact congrArg (· :: _) hp.symm

/-- A list without repetition that reads the same backwards has at most one element. -/
theorem length_le_one_of_reverse_eq {α : Type} {l : List α} (hnd : l.Nodup) (h : l.reverse = l) :
    l.length ≤ 1 := by
  by_contra hlen
  have h0 : 0 < l.length := by omega
  have hlast : l.length - 1 < l.length := by omega
  have heq : l[0] = l[l.length - 1] := by
    have h1 : l.reverse[0]? = l[l.length - 1]? := by simp [List.getElem?_reverse h0]
    rw [h, List.getElem?_eq_getElem h0, List.getElem?_eq_getElem hlast] at h1
    exact Option.some.inj h1
  have := (List.Nodup.getElem_inj_iff hnd).mp heq
  omega

/-- Each type argument is the image of the argument for the parameter that is defined there. -/
def Instantiates (tcx : Tcx) (ids : Ids) (tps : Nat → Option TyParam) (d : DefId)
    (substs : List Ty) (tparams : List TypeParameterDef) (argTps : List Tpe) : Prop :=
  ∀ (i : Nat) (t : Tpe), argTps[i]? = some t → ∃ tp p ty, tparams[i]? = some tp ∧
    p ∈ allGenericParamsOf tcx d ∧ DefOf ids p tp ∧ substs[p.index]? = some ty ∧
    tyImage tcx ids tps ty = some t

theorem PlainGenerics.withOrder {d : DefId} (h : PlainGenerics tcx d) (o : IterOrder HashSite) :
    PlainGenerics (tcx.withOrder o) d :=
  ⟨h.not_closure, h.kind, h.tyParam, h.index, h.inj, h.bounds⟩

/-- With at most one parameter, every use instantiates it. -/
theorem instantiates_of_le_one {d : DefId} (hplain : PlainGenerics tcx d)
    (hone : (allGenericParamsOf tcx d).length ≤ 1) {tparams : List TypeParameterDef}
    (hdefs : InIndexOrder tcx d ids tparams) {substs : List Ty}
    (hsubsts : substs.length = (allGenericParamsOf tcx d).length) {argTps : List Tpe}
    {site : UseSite} (huse : Use tcx ids ctx d substs argTps site) :
    Instantiates tcx ids ctx.txtcx.indexToTparam.get? d substs tparams argTps := by
  intro i t hi
  have hargs := tysImage_get huse.argTps_image
  obtain ⟨ty, hty, himg⟩ := forall₂_getElem? hargs hi
  have hmem : ty ∈ substs := by
    have := List.mem_of_getElem? hty
    cases site
    · exact List.mem_of_mem_filter this
    · exact List.mem_of_mem_filter this
    · exact List.mem_of_mem_filter this
    · exact this
  have hlen : (site.argTys substs).length ≤ substs.length := by
    cases site
    · exact List.length_filter_le _ _
    · exact List.length_filter_le _ _
    · exact List.length_filter_le _ _
    · exact Nat.le_refl _
  have hilt := (List.getElem?_eq_some_iff.mp hty).1
  have hindex := hplain.index
  unfold InIndexOrder at hdefs
  match hparams : allGenericParamsOf tcx d, substs, hdefs with
  | [], substs, _ =>
    rw [hparams, List.length_nil] at hsubsts
    omega
  | [p], [a], .cons hp .nil =>
    have hi0 : i = 0 := by simp at hlen; omega
    subst hi0
    rw [hparams] at hindex
    simp only [List.map_cons, List.map_nil, List.length_cons, List.length_nil, List.range_succ,
      List.range_zero, List.nil_append, List.cons.injEq, and_true] at hindex
    refine ⟨_, p, a, rfl, by simp, hp, by simp [hindex], ?_⟩
    rw [List.mem_singleton.mp hmem] at himg
    exact himg
  | [p], [], _ => simp at hmem
  | [p], _ :: _ :: _, _ => simp [hparams] at hsubsts
  | _ :: _ :: _, _, _ => simp [hparams] at hone

/--
**The type parameters of a definition come out in index order for every order of the hash map, and
with them every use instantiates the parameter at its position, if and only if there is at most one
type parameter.**
-/
theorem tparams_inIndexOrder_iff {d : DefId} (hplain : PlainGenerics tcx d) :
    (∀ (o : IterOrder HashSite) (s s' : Extraction) (tparams : List TypeParameterDef)
        (txtcx : TyExtractionCtxt),
      extractGenerics (tcx.withOrder o) d s = .ok ((tparams, txtcx), s') →
      InIndexOrder tcx d s'.didId tparams ∧
      ∀ (ids : Ids) (ctx : BodyCtxt) (substs : List Ty) (argTps : List Tpe) (site : UseSite),
        (∀ e id, s'.didId e = some id → ids e = some id) →
        substs.length = (allGenericParamsOf tcx d).length →
        Use (tcx.withOrder o) ids ctx d substs argTps site →
        Instantiates (tcx.withOrder o) ids ctx.txtcx.indexToTparam.get? d substs tparams argTps) ↔
      (allGenericParamsOf tcx d).length ≤ 1 := by
  constructor
  · intro h
    have hrev := hplain.withOrder .reversed
    obtain ⟨⟨tparams, txtcx⟩, s', hrun⟩ := extractGenerics_plain_returns hrev .new
    obtain ⟨hids, defs, htps, hdefs⟩ := extractGenerics_plain hrev hrun
    have horder := defOf_ids (h .reversed .new s' tparams txtcx hrun).1
    have hrevd : tparams = defs.reverse := by
      rw [htps, ← filterMap_toDef_extracted defs.reverse, List.map_reverse]
      rfl
    have hback : (defs.map fun tp => some tp.tp.id).reverse = defs.map fun tp => some tp.tp.id := by
      rw [← List.map_reverse, ← hrevd, horder]
      exact (defOf_ids hdefs).symm
    have hnd : (defs.map fun tp => some tp.tp.id).Nodup := by
      rw [defOf_ids hdefs]
      refine List.Nodup.map_on (fun p hp q hq hpq => ?_) hplain.inj.of_map
      obtain ⟨tp, -, hid⟩ := forall₂_mem_left hdefs hp
      have hids' := hids (.new _)
      exact List.inj_on_of_nodup_map hplain.inj hp hq
        (hids'.did_inj _ _ _ _ hid (hpq ▸ hid) rfl)
    have hone := length_le_one_of_reverse_eq hnd hback
    rwa [List.length_map, ← hdefs.length_eq] at hone
  · intro hone o s s' tparams txtcx hrun
    have hplain' := hplain.withOrder o
    obtain ⟨-, defs, htps, hdefs⟩ := extractGenerics_plain hplain' hrun
    have hlen : (defs.map fun tp => TyParam.extracted tp.tp).length ≤ 1 := by
      rw [List.length_map, ← hdefs.length_eq]
      exact hone
    rw [IterOrder.iter_of_length_le_one _ hlen, filterMap_toDef_extracted] at htps
    have horder : InIndexOrder tcx d s'.didId tparams := htps ▸ hdefs
    refine ⟨horder, fun ids ctx substs argTps site hsees hsubsts huse => ?_⟩
    exact instantiates_of_le_one hplain' hone
      (horder.imp fun p tp hp => hsees p.defId _ hp) hsubsts huse

section Pair

/-- A definition with the type parameters `T`, `U`, .. up to the given number. -/
def genericTcx (n : Nat) : Tcx :=
  { Tcx.empty with
    defKind := fun _ => .tyParam
    defPathStr := fun d => if d.index = 0 then "T" else "U"
    genericsOf := fun _ =>
      .root ((List.range n).map fun i => { index := i, defId := ⟨0, i⟩, kind := .type }) }

theorem genericTcx_plain (n : Nat) (d : DefId) : PlainGenerics (genericTcx n) d where
  not_closure := rfl
  kind := by simp [genericTcx, allGenericParamsOf, allGenericParams]
  tyParam := by simp [genericTcx]
  index := by simp [genericTcx, allGenericParamsOf, allGenericParams, Function.comp_def]
  inj := by
    simp only [genericTcx, allGenericParamsOf, allGenericParams, List.map_map]
    exact List.Nodup.map (fun i j h => by simpa using h) List.nodup_range
  bounds := by simp [genericTcx, Tcx.empty]

/-- One type parameter: every order of the map gives the only list there is. -/
theorem tparams_inIndexOrder_one :
    PlainGenerics (genericTcx 1) ⟨0, 0⟩ ∧
      ∀ (o : IterOrder HashSite) (s s' : Extraction) (tparams : List TypeParameterDef)
        (txtcx : TyExtractionCtxt),
      extractGenerics ((genericTcx 1).withOrder o) ⟨0, 0⟩ s = .ok ((tparams, txtcx), s') →
      InIndexOrder (genericTcx 1) ⟨0, 0⟩ s'.didId tparams :=
  ⟨genericTcx_plain 1 _, fun o s s' tparams txtcx h =>
    ((tparams_inIndexOrder_iff (genericTcx_plain 1 ⟨0, 0⟩)).mpr (by decide) o s s' tparams txtcx
      h).1⟩

/-- Two type parameters `T` and `U`: a map that is iterated backwards gives them as `U`, `T`. -/
theorem tparams_reversed_two :
    ∃ s' tparams txtcx, PlainGenerics (genericTcx 2) ⟨0, 0⟩ ∧
      extractGenerics ((genericTcx 2).withOrder .reversed) ⟨0, 0⟩ .new =
        .ok ((tparams, txtcx), s') ∧
      ¬ InIndexOrder (genericTcx 2) ⟨0, 0⟩ s'.didId tparams := by
  refine ⟨_, _, _, genericTcx_plain 2 _, rfl, fun h => ?_⟩
  have := defOf_ids h
  exact absurd this (by decide)

end Pair

end Stainless
