import RustStainless.Macros.Signatures
import RustStainless.Extraction.FnImage

/-!
# Placement of spec functions

The macro decides where a spec function stands, and the extractor expects it to have the generics
of its function there. The two agree unless the function is an associated one without a receiver:
a function nested in its body does not have the impl as a parent.
-/

namespace Stainless

open Rustc St Lib

variable {tcx : Tcx}

/-! ## The assertions on a spec function -/

/-- The type parameters correlate if all indices are those of the original function. -/
theorem correlateTparams_isOk {original : Assoc Nat TyParam} :
    ∀ {ps : List GenericParamDef} {m : Assoc Nat TyParam},
      (∃ m', correlateTparams original ps m = .ok m') ↔ ∀ p ∈ ps, p.index ∈ original.keys := by
  intro ps
  induction ps with
  | nil => simp [correlateTparams]
  | cons p ps ih =>
    intro m
    rw [correlateTparams]
    cases hp : original.get? p.index with
    | none =>
      have hmem := Assoc.get?_eq_none_iff.mp hp
      simp [hmem]
    | some tparam =>
      have hmem : p.index ∈ original.keys := Assoc.get?_isSome_iff.mp (by simp [hp])
      simpa [hmem] using ih

/-- Parameters with ids of their own can all be registered. -/
theorem correlateParams_isOk : ∀ (vs : List Variable) {hs : List HirId} {vars : Vars},
    hs.Nodup → (∀ h ∈ hs, vars.get? h = none) →
      ∃ vars', correlateParams vs hs vars = .ok vars' := by
  intro vs
  induction vs with
  | nil =>
    intro hs vars _ _
    exact ⟨vars, by rw [correlateParams]; simp⟩
  | cons v vs ih =>
    intro hs vars hnd hnone
    cases hs with
    | nil => exact ⟨vars, by rw [correlateParams]; simp⟩
    | cons h hs =>
      obtain ⟨hh, hnd⟩ := List.nodup_cons.mp hnd
      have hn := hnone h List.mem_cons_self
      rw [correlateParams, if_neg (by simp [Assoc.contains, hn])]
      refine ih hnd fun g hg => ?_
      rw [Assoc.get?_insert_of_none hn, if_neg (by rintro rfl; exact hh hg)]
      exact hnone g (List.mem_cons_of_mem _ hg)

/-- When none of the assertions on a spec function fails. -/
theorem correlateSpecFn_isOk {d : DefId} {original : TyExtractionCtxt} {params : List ValDef}
    {returnVar : Option Variable} (hnd : (paramHirIds (tcx.bodyOf d)).Nodup) :
    (∃ ctx, correlateSpecFn tcx d original params returnVar = .ok ctx) ↔
      (tcx.genericsOf d).parent = (tcx.genericsOf original.defId).parent ∧
      (allGenericParamsOf tcx d).length = original.indexToTparam.length ∧
      (∀ p ∈ allGenericParamsOf tcx d, p.index ∈ original.indexToTparam.keys) ∧
      (paramHirIds (tcx.bodyOf d)).length = params.length + returnVar.toList.length := by
  constructor
  · rintro ⟨ctx, h⟩
    have hc := correlateSpecFn_ok h
    exact ⟨hc.parent, hc.generics, correlateTparams_isOk.mp ⟨_, hc.tparams⟩, hc.arity⟩
  · rintro ⟨hparent, hlen, hindex, harity⟩
    obtain ⟨m, hm⟩ := correlateTparams_isOk.mpr hindex
    obtain ⟨vars, hvars⟩ := correlateParams_isOk (params.map (·.v) ++ returnVar.toList) hnd
      (show ∀ h ∈ _, Assoc.get? [] h = none by simp)
    have hret : ¬ (returnVar.isSome && (paramHirIds (tcx.bodyOf d)).isEmpty) = true := by
      rintro h
      obtain ⟨hs, he⟩ := Bool.and_eq_true_iff.mp h
      obtain ⟨r, rfl⟩ := Option.isSome_iff_exists.mp hs
      rw [List.isEmpty_iff.mp he] at harity
      simp at harity
    refine ⟨{ txtcx := { defId := d, indexToTparam := m }, vars := vars }, ?_⟩
    rw [correlateSpecFn, if_neg (not_not.mpr hparent), if_neg (not_not.mpr hlen), hm]
    show (if _ then _ else _) = _
    rw [if_neg hret, if_neg (by omega), hvars]
    rfl

/-! ## The type parameters of the original function -/

/-- The `Fn`-like bounds of a function are on type parameters that it has. -/
def BoundsOwn (tcx : Tcx) (d : DefId) : Prop :=
  ∀ i ∈ (funParamsOf tcx (tcx.predicatesOf d)).keys,
    ∃ p ∈ allGenericParamsOf tcx d, p.index = i ∧ p.kind = .type

theorem hofImages_keys {ids : DefId → Option SymbolIdentifier} {tps : Nat → Option TyParam}
    {returns : Assoc Nat Ty} {ps : Assoc Nat (List Ty)} {m : Assoc Nat TyParam}
    (h : List.Forall₂ (HofImage tcx ids tps returns) ps m) : m.keys = ps.keys := by
  induction h with
  | nil => rfl
  | cons hp _ ih =>
    rw [Assoc.keys, Assoc.keys] at ih ⊢
    rw [List.map_cons, List.map_cons, hp.1, ih]

/-- The context has an entry for each type parameter, and no other one. -/
theorem GenericsImage.keys_perm (hok : TcxOk tcx) {ids : DefId → Option SymbolIdentifier}
    {d : DefId} {txtcx : TyExtractionCtxt} (h : GenericsImage tcx ids d txtcx)
    (hbounds : BoundsOwn tcx d) :
    txtcx.indexToTparam.keys.Perm
      (((allGenericParamsOf tcx d).filter fun p => p.kind = .type).map (·.index)) := by
  have hnd : (((allGenericParamsOf tcx d).filter fun p => p.kind = .type).map (·.index)).Nodup :=
    (hok.tparam_index d).sublist (List.filter_sublist.map _)
  rw [List.perm_ext_iff_of_nodup h.nodup hnd]
  obtain ⟨plain, hofs, hm, hplain, hhofs⟩ := h.entries
  have hiter : ∀ i, i ∈ hofs.keys ↔ i ∈ (funParamsOf tcx (tcx.predicatesOf d)).keys := by
    intro i
    rw [hofImages_keys hhofs]
    exact ((tcx.iterOrder.perm _ _).map Prod.fst).mem_iff
  intro i
  have hkeys : i ∈ txtcx.indexToTparam.keys ↔ i ∈ plain.keys ∨ i ∈ hofs.keys := by
    simp [hm, Assoc.keys]
  rw [hkeys, tparamImages_keys hplain, hiter, List.mem_map, List.mem_map]
  constructor
  · rintro (⟨p, hp, rfl⟩ | hi)
    · refine ⟨p, ?_, rfl⟩
      simp only [plainParamsOf, List.mem_filter, Bool.and_eq_true] at hp
      exact List.mem_filter.mpr ⟨hp.1, hp.2.1⟩
    · obtain ⟨p, hp, rfl, hk⟩ := hbounds i hi
      exact ⟨p, List.mem_filter.mpr ⟨hp, by simp [hk]⟩, rfl⟩
  · rintro ⟨p, hp, rfl⟩
    obtain ⟨hp, hk⟩ := List.mem_filter.mp hp
    by_cases hf : p.index ∈ (funParamsOf tcx (tcx.predicatesOf d)).keys
    · exact .inr hf
    · refine .inl ⟨p, List.mem_filter.mpr ⟨hp, ?_⟩, rfl⟩
      have hc : isFunParam tcx d p.index = false := by
        rw [isFunParam, Assoc.contains_eq_false, Assoc.get?_eq_none_iff]
        exact hf
      simpa [hc] using hk

end Stainless

namespace StainlessMacros

open Syn Rustc St Lib Stainless

/-! ## Function items in rustc -/

/-- The kind of a generic parameter in the generics of rustc. -/
def lowerKind : GenericParamKind → GenericParamDefKind
  | .lifetime => .lifetime
  | .type => .type
  | .const => .const

/-- Each `impl Trait` of a parameter is a type parameter. -/
def implKinds (arg : FnArg) : List GenericParamDefKind := .replicate arg.implTraits .type

/--
The kinds of the parameters that a function has of its own: those that it names, and a type for each
`impl Trait` of its parameters. Lifetimes are late bound, and those are not among the generics.
-/
def ownKinds (f : ItemFn) : List GenericParamDefKind :=
  ((f.sig.generics.params.map (·.kind)).filter fun k => k ≠ .lifetime).map lowerKind ++
    f.sig.inputs.elems.flatMap implKinds

/-- The generics of an item of the impl, or of an item that is in none. -/
def genericsIn (tcx : Tcx) : Option DefId → List GenericParamDef → Rustc.Generics
  | none, own => .root own
  | some impl, own => .child impl (tcx.genericsOf impl) own

/-- rustc has defined `d` by the function item `f`, in the impl if there is one. An item that is
nested in a body is in none. -/
structure Lowered (tcx : Tcx) (impl : Option DefId) (f : ItemFn) (d : DefId) : Prop where
  generics : ∃ own, tcx.genericsOf d = genericsIn tcx impl own ∧
    own.map GenericParamDef.kind = ownKinds f
  indices : (allGenericParamsOf tcx d).map GenericParamDef.index =
    List.range (allGenericParamsOf tcx d).length
  bounds : BoundsOwn tcx d
  params : (tcx.bodyOf d).params.length = f.sig.inputs.elems.length
  hirIds : (paramHirIds (tcx.bodyOf d)).Nodup

/-- The generics that a definition in an impl inherits. -/
def implParams (tcx : Tcx) : Option DefId → List GenericParamDef
  | none => []
  | some impl => allGenericParamsOf tcx impl

@[simp] theorem genericsIn_parent (tcx : Tcx) (impl : Option DefId) (own : List GenericParamDef) :
    (genericsIn tcx impl own).parent = impl := by
  cases impl <;> rfl

@[simp] theorem allGenericParams_genericsIn (tcx : Tcx) (impl : Option DefId)
    (own : List GenericParamDef) :
    allGenericParams (genericsIn tcx impl own) = implParams tcx impl ++ own := by
  cases impl <;> rfl

section

variable {tcx : Tcx} {impl : Option DefId} {f g : ItemFn} {d e : DefId}

theorem Lowered.parent (h : Lowered tcx impl f d) : (tcx.genericsOf d).parent = impl := by
  obtain ⟨own, hd, -⟩ := h.generics
  rw [hd, genericsIn_parent]

theorem Lowered.kinds (h : Lowered tcx impl f d) :
    (allGenericParamsOf tcx d).map GenericParamDef.kind =
      (implParams tcx impl).map GenericParamDef.kind ++ ownKinds f := by
  obtain ⟨own, hd, hown⟩ := h.generics
  rw [allGenericParamsOf, hd, allGenericParams_genericsIn, List.map_append, hown]

/--
A spec function has generics of the same kinds under the same indices, and more types behind them
for the `impl Trait`s of `ret`.
-/
theorem Lowered.specFn (hf : Lowered tcx impl f d) (hg : Lowered tcx impl g e) {spec : Spec}
    (h : SpecFnOf f spec g) :
    (allGenericParamsOf tcx e).length = (allGenericParamsOf tcx d).length +
      ((retArg f spec.typ).flatMap implKinds).length := by
  have hkinds : (allGenericParamsOf tcx e).map GenericParamDef.kind =
      (allGenericParamsOf tcx d).map GenericParamDef.kind ++
        (retArg f spec.typ).flatMap implKinds := by
    rw [hg.kinds, hf.kinds, ownKinds, ownKinds, h.generics, h.inputs, List.flatMap_append]
    simp only [Generics.printed, List.append_assoc]
  have hlength := congrArg List.length hkinds
  rwa [List.length_append, List.length_map, List.length_map] at hlength

end

/-! ## The expansion and its correlation -/

/--
The impl that a function is an item of, where `impl` is the one of the function that it was
generated for. What is nested in a body is in none.
-/
def Place.impl (impl : Option DefId) : Place → Option DefId
  | .sibling => impl
  | .nested => none

/--
rustc has defined the function, as an expansion leaves it, and what the expansion has generated,
each where the expansion has put it.
-/
structure Placed (tcx : Tcx) (impl : Option DefId) (item : ItemFn) (out : List ItemFn) (d : DefId)
    (ds : List DefId) : Prop where
  fn : Lowered tcx impl (itemAfter item out) d
  closure : tcx.isClosure d = false
  specs : List.Forall₂ (fun g e => Lowered tcx (g.1.impl impl) g.2 e) (generatedAt item out) ds

/-- The return value is a variable for a postcondition only. -/
def returnVarOf (ret : Variable) : SpecType → Option Variable
  | .post => some ret
  | .pre | .measure => none

/-- No assertion fails when the spec functions are matched with the function. -/
def SpecsCorrelate (tcx : Tcx) (txtcx : TyExtractionCtxt) (params : List ValDef) (ret : Variable)
    (specs : List Spec) (ds : List DefId) : Prop :=
  List.Forall₂ (fun spec e => ∃ ctx,
    correlateSpecFn tcx e txtcx params (returnVarOf ret spec.typ) = .ok ctx) specs ds

/-- All generic parameters of a function are types, those of its impl as well. -/
def AllTypes (tcx : Tcx) (d : DefId) : Prop :=
  ∀ p ∈ allGenericParamsOf tcx d, p.kind = .type

instance (tcx : Tcx) (d : DefId) : Decidable (AllTypes tcx d) :=
  inferInstanceAs (Decidable (∀ _ ∈ _, _))

section

variable {tcx : Tcx} {impl : Option DefId} {item f : ItemFn} {d e : DefId}

/-- A postcondition does not get a type parameter that the function does not have. -/
def RetPlain (item : ItemFn) (spec : Spec) : Prop :=
  spec.typ = .post → ∀ ty ∈ item.sig.output, ty.implTraits = 0

theorem retPlain_iff {spec : Spec} :
    ((retArg item spec.typ).flatMap implKinds).length = 0 ↔ RetPlain item spec := by
  unfold RetPlain
  cases spec.typ with
  | pre | measure => simp [retArg]
  | post =>
    cases hout : item.sig.output <;>
      simp [retArg, resultTy, hout, implKinds, FnArg.implTraits, TypeTokens.plain]

/-- One spec function that stands in the impl of the function, or in none. -/
theorem correlates_iff {impl' : Option DefId} {ids : DefId → Option SymbolIdentifier}
    {txtcx : TyExtractionCtxt} {params : List ValDef} {ret : Variable} {spec : Spec}
    (hok : TcxOk tcx) (hfn : Lowered tcx impl item d) (himg : GenericsImage tcx ids d txtcx)
    (hparams : params.length = item.sig.inputs.elems.length) (hspec : Lowered tcx impl' f e)
    (hf : SpecFnOf item spec f) :
    (∃ ctx, correlateSpecFn tcx e txtcx params (returnVarOf ret spec.typ) = .ok ctx) ↔
      impl' = impl ∧ AllTypes tcx d ∧ RetPlain item spec := by
  have hkeys := himg.keys_perm hok hfn.bounds
  have hlen : txtcx.indexToTparam.length =
      ((allGenericParamsOf tcx d).filter fun p => p.kind = .type).length := by
    simpa [Assoc.keys] using hkeys.length_eq
  have hle := List.length_filter_le (fun p => decide (p.kind = .type)) (allGenericParamsOf tcx d)
  have harity : (paramHirIds (tcx.bodyOf e)).length =
      params.length + (returnVarOf ret spec.typ).toList.length := by
    rw [paramHirIds, List.length_map, hspec.params, hf.inputs, List.length_append, hparams]
    cases spec.typ <;> rfl
  rw [correlateSpecFn_isOk hspec.hirIds, himg.defId, hspec.parent, hfn.parent, ← retPlain_iff]
  constructor
  · rintro ⟨rfl, hgen, -, -⟩
    -- The spec function has at least the generics of the function, of which only the types count.
    rw [hfn.specFn hspec hf, hlen] at hgen
    have hall : ((allGenericParamsOf tcx d).filter fun p => p.kind = .type).length =
        (allGenericParamsOf tcx d).length := by omega
    refine ⟨rfl, fun p hp => ?_, by omega⟩
    simpa using List.length_filter_eq_length_iff.mp hall p hp
  · rintro ⟨rfl, htypes, hret⟩
    have hall : ((allGenericParamsOf tcx d).filter fun p => p.kind = .type) =
        allGenericParamsOf tcx d :=
      List.filter_eq_self.mpr fun p hp => by simpa using htypes p hp
    have hl := hfn.specFn hspec hf
    rw [hret, Nat.add_zero] at hl
    rw [hall] at hlen hkeys
    refine ⟨rfl, by rw [hl, hlen], fun p hp => ?_, harity⟩
    rw [hkeys.mem_iff, hfn.indices, ← hl, ← hspec.indices]
    exact List.mem_map.mpr ⟨p, hp, rfl⟩

/-- All spec functions of an expansion stand in the same place. -/
theorem specsCorrelate_of_place {impl' : Option DefId} {ids : DefId → Option SymbolIdentifier}
    {txtcx : TyExtractionCtxt} {params : List ValDef} {ret : Variable}
    (hok : TcxOk tcx) (hfn : Lowered tcx impl item d) (himg : GenericsImage tcx ids d txtcx)
    (hparams : params.length = item.sig.inputs.elems.length) :
    ∀ {specs : List Spec} {fs : List ItemFn} {ds : List DefId},
      List.Forall₂ (SpecFnOf item) specs fs → List.Forall₂ (Lowered tcx impl') fs ds →
      (SpecsCorrelate tcx txtcx params ret specs ds ↔
        specs = [] ∨ (impl' = impl ∧ AllTypes tcx d ∧ ∀ spec ∈ specs, RetPlain item spec)) := by
  intro specs fs ds hspecs
  induction hspecs generalizing ds with
  | nil =>
    rintro ⟨⟩
    simp [SpecsCorrelate]
  | @cons spec f specs fs hspec hspecs ih =>
    intro hds
    cases hds with
    | @cons _ e _ ds he hds =>
      have hone : (∃ ctx, correlateSpecFn tcx e txtcx params (returnVarOf ret spec.typ) = .ok ctx) ↔
          impl' = impl ∧ AllTypes tcx d ∧ RetPlain item spec :=
        correlates_iff hok hfn himg hparams he hspec
      rw [SpecsCorrelate, List.forall₂_cons, hone]
      have hrest := ih hds
      rw [SpecsCorrelate] at hrest
      rw [hrest, List.forall_mem_cons]
      constructor
      · rintro ⟨⟨himpl, htypes, hspec⟩, rfl | ⟨-, -, hspecs⟩⟩
        · exact .inr ⟨himpl, htypes, hspec, by simp⟩
        · exact .inr ⟨himpl, htypes, hspec, hspecs⟩
      · rintro (h | ⟨himpl, htypes, hspec, hspecs⟩)
        · cases h
        · exact ⟨⟨himpl, htypes, hspec⟩, .inr ⟨himpl, htypes, hspecs⟩⟩

/-- The parameters of a function are those of its body. -/
theorem extractFnBody_arity {txtcx : TyExtractionCtxt} {m m' : Assoc String Flags}
    {params : List ValDef} {returnTpe : Tpe} {bodyExpr : St.Expr} {s s' : Extraction}
    (h : extractFnBody tcx d txtcx m s = .ok ((params, returnTpe, bodyExpr, m'), s')) :
    params.length = (tcx.bodyOf d).params.length := by
  unfold extractFnBody at h
  obtain ⟨_, s₁, h1, h⟩ := Run.bind_ok.mp h
  obtain ⟨tpe, s₂, h2, h⟩ := Run.bind_ok.mp h
  obtain ⟨vds, s₃, h3, h⟩ := Run.bind_ok.mp h
  obtain ⟨t, s₄, h4, h⟩ := Run.bind_ok.mp h
  obtain ⟨heq, -⟩ := Run.pure_ok.mp h
  obtain ⟨rfl, -⟩ := Prod.mk.inj heq
  have hlen := (fetchParams_ok _ h3).2.length_eq
  rw [← hlen, paramHirIds, List.length_map]

theorem lowered_congr (hsig : f.sig = item.sig) :
    Lowered tcx impl f d ↔ Lowered tcx impl item d := by
  have hkinds : ownKinds f = ownKinds item := by rw [ownKinds, ownKinds, hsig]
  constructor
  · rintro ⟨hgen, hidx, hbounds, hparams, hhir⟩
    exact ⟨hkinds ▸ hgen, hidx, hbounds, hsig ▸ hparams, hhir⟩
  · rintro ⟨hgen, hidx, hbounds, hparams, hhir⟩
    exact ⟨hkinds ▸ hgen, hidx, hbounds, hsig ▸ hparams, hhir⟩

/--
The place of a spec function is in the impl of the function if that is a method or in no impl.
-/
theorem place_impl_eq :
    Place.impl impl (if hasSelfParam item then .sibling else .nested) = impl ↔
      hasSelfParam item ∨ impl = none := by
  by_cases hs : hasSelfParam item = true
  · simp [hs, Place.impl]
  · simp [hs, Place.impl, eq_comm]

/--
**The spec functions of an expansion pass the assertions of the extractor iff there are none, or
the function has a receiver or is in no impl, all its generic parameters are types, and there is no
postcondition on an `impl Trait` that is returned.**
-/
theorem specsCorrelate_iff (hok : TcxOk tcx) {specs : List Spec} {out : List ItemFn}
    {ds : List DefId} (hexpand : generateFnWithSpec item specs = .ok out)
    (hplaced : Placed tcx impl item out d ds)
    {tparams : List TypeParameterDef} {txtcx : TyExtractionCtxt} {s₀ s₁ : Extraction}
    (hgen : extractGenerics tcx d s₀ = .ok ((tparams, txtcx), s₁))
    {flags flags' : Assoc String Flags} {params : List ValDef} {returnTpe : Tpe}
    {bodyExpr : St.Expr} {s₂ s₃ : Extraction}
    (hbody : extractFnBody tcx d txtcx flags s₂ = .ok ((params, returnTpe, bodyExpr, flags'), s₃))
    (ret : Variable) :
    SpecsCorrelate tcx txtcx params ret specs ds ↔
      specs = [] ∨ ((hasSelfParam item ∨ impl = none) ∧ AllTypes tcx d ∧
        ∀ spec ∈ specs, spec.typ = .post → ∀ ty ∈ item.sig.output, ty.implTraits = 0) := by
  obtain ⟨specFns, hmake, rfl⟩ := generateFnWithSpec_ok.mp hexpand
  have hds := hplaced.specs
  -- The output has all spec functions in one place, which says what their parent is.
  rw [generatedAt_eq, List.forall₂_map_left_iff] at hds
  have hspecs : List.Forall₂ (Lowered tcx
      (Place.impl impl (if hasSelfParam item then .sibling else .nested))) specFns ds := hds
  have hfn := (lowered_congr (itemAfter_sig item specFns)).mp hplaced.fn
  have himg := (extractGenericsWith_ok hok (extractAdtId_spec hok) hplaced.closure hgen).image
  have hparams : params.length = item.sig.inputs.elems.length :=
    (extractFnBody_arity hbody).trans hfn.params
  rw [specsCorrelate_of_place hok hfn himg hparams (makeSpecFns_forall₂ hmake) hspecs,
    place_impl_eq]
  rfl

end

/-! ## A function with a precondition -/

/-- Functions of a parameter `b: bool` that return it, with the given generics. -/
def boolFnTcx (genericsOf : DefId → Rustc.Generics) : Tcx :=
  { Tcx.empty with
    defKind := fun _ => .tyParam
    genericsOf := genericsOf
    fnSig := fun _ => { inputs := [.bool], output := .bool }
    bodyOf := fun d =>
      { params := [.binding ⟨d, 0⟩ "b" (some (.byValue .not)) .bool none]
        pats := []
        value := .varRef .bool ⟨d, 0⟩ } }

/-- `fn f<...>(b: bool) -> bool { b }` -/
def boolFn (params : List GenericParam) : ItemFn :=
  .mk []
    { ident := "f"
      generics := { params := params, whereClause := [] }
      inputs := .single (.typed "b" (.plain "bool"))
      output := some (.plain "bool") }
    [.expr "b"]

/-- What `#[pre(b)]` generates for it. -/
def boolFnExpansion (params : List GenericParam) : List ItemFn :=
  [(boolFn params).splice
    [.fn (specFn (boolFn params) .pre "__pre_1_f" (.single (.typed "b" (.plain "bool")))
      [.expr "b"])]]

theorem boolFn_expands (params : List GenericParam) :
    generateFnWithSpec (boolFn params) [{ typ := .pre, expr := .whole "b" }] =
      .ok (boolFnExpansion params) := by
  have hident : specIdent .pre 1 "f" = some "__pre_1_f" := specIdent_eq_some.mpr ⟨by decide, rfl⟩
  refine generateFnWithSpec_ok.mpr ⟨[specFn (boolFn params) .pre "__pre_1_f"
    (.single (.typed "b" (.plain "bool"))) [.expr "b"]], ?_, rfl⟩
  refine makeSpecFns_cons.mpr ⟨_, [], ?_, rfl, rfl⟩
  unfold makeSpecFn
  rw [show (boolFn params).sig.ident = "f" from rfl, hident]
  rfl

/-- In `impl<T>`, the function `f` is `1` and its spec function is `2`. -/
def assocFnTcx : Tcx :=
  boolFnTcx fun d =>
    if d.index = 0 then .root [⟨0, ⟨0, 3⟩, .type⟩]
    else if d.index = 1 then .child ⟨0, 0⟩ (.root [⟨0, ⟨0, 3⟩, .type⟩]) []
    else .root []

/-- `fn f<T>` is `1` and its spec function is `2`. -/
def freeFnTcx : Tcx :=
  boolFnTcx fun d => .root [⟨0, ⟨0, d.index + 2⟩, .type⟩]

section

variable {genericsOf : DefId → Rustc.Generics}

theorem boolFnTcx_ok (h : ∀ d, (allGenericParams (genericsOf d)).length ≤ 1) :
    TcxOk (boolFnTcx genericsOf) where
  adt_kind := fun _ h => absurd h List.not_mem_nil
  variant_kind := fun _ h => absurd h List.not_mem_nil
  field_kind := fun _ h => absurd h List.not_mem_nil
  tparam_kind := fun _ _ _ _ _ => rfl
  tparam_index := fun d => by
    have hd := h d
    rcases hl : allGenericParams (genericsOf d) with _ | ⟨p, _ | ⟨q, ps⟩⟩
    · simp [allGenericParamsOf, boolFnTcx, hl]
    · simp [allGenericParamsOf, boolFnTcx, hl]
    · simp [hl] at hd
  tparam_inj := fun d _ => by
    have hd := h d
    rcases hl : allGenericParams (genericsOf d) with _ | ⟨p, _ | ⟨q, ps⟩⟩
    · simp [allGenericParamsOf, boolFnTcx, hl]
    · simp [allGenericParamsOf, boolFnTcx, hl]
    · simp [hl] at hd
  adt_not_closure := fun _ h => absurd h List.not_mem_nil
  mentions_adt := by
    rintro _ _ ⟨a, ha, -⟩
    cases ha
  field_params := fun _ h => absurd h List.not_mem_nil
  field_applied := fun _ h => absurd h List.not_mem_nil
  params_applied := fun _ _ h => absurd h List.not_mem_nil
  returns_applied := fun _ _ h => absurd h List.not_mem_nil

/-- Both functions have the parameter of `f`, and no bounds. -/
theorem boolFn_lowered {impl : Option DefId} {f : ItemFn} {d : DefId} {own : List GenericParamDef}
    (hgenerics : genericsOf d = genericsIn (boolFnTcx genericsOf) impl own)
    (hkinds : own.map GenericParamDef.kind = ownKinds f)
    (hindices : (allGenericParams (genericsOf d)).map GenericParamDef.index =
      List.range (allGenericParams (genericsOf d)).length)
    (hinputs : f.sig.inputs.elems.length = 1) : Lowered (boolFnTcx genericsOf) impl f d where
  generics := ⟨own, hgenerics, hkinds⟩
  indices := hindices
  bounds := fun _ h => absurd h List.not_mem_nil
  params := hinputs.symm
  hirIds := List.nodup_singleton _

end

/-- The return value of the function. -/
def boolRet : Variable :=
  { id := Extraction.new.nextId "ret" ["ret"], tpe := .booleanType, flags := [] }

/-- `#[pre(b)] fn f<T>(b: bool) -> bool { b }`, in no impl. -/
theorem specsCorrelate_freeFn :
    ∃ txtcx params, SpecsCorrelate freeFnTcx txtcx params boolRet
    [{ typ := .pre, expr := .whole "b" }]
      [⟨0, 2⟩] := by
  have hplaced : Placed freeFnTcx none (boolFn [⟨.type, "T", []⟩])
      (boolFnExpansion [⟨.type, "T", []⟩]) ⟨0, 1⟩ [⟨0, 2⟩] :=
    { fn := boolFn_lowered rfl rfl rfl rfl
      closure := rfl
      specs := .cons (boolFn_lowered rfl rfl rfl rfl) .nil }
  obtain ⟨⟨tparams, txtcx⟩, s₁, hgen⟩ : ∃ r s₁,
      extractGenerics freeFnTcx ⟨0, 1⟩ .new = .ok (r, s₁) := ⟨_, _, rfl⟩
  obtain ⟨⟨params, tpe, e, flags⟩, s₂, hbody⟩ : ∃ r s₂,
      extractFnBody freeFnTcx ⟨0, 1⟩ txtcx [] s₁ = .ok (r, s₂) := by
    cases hgen
    exact ⟨_, _, rfl⟩
  refine ⟨txtcx, params, ?_⟩
  refine (specsCorrelate_iff (boolFnTcx_ok fun _ => le_refl 1) (boolFn_expands _) hplaced hgen hbody
    boolRet).mpr (.inr ⟨.inr rfl, by decide, by simp⟩)

/-- `impl<T> S<T> { #[pre(b)] fn f(b: bool) -> bool { b } }` -/
theorem not_specsCorrelate_assocFn :
    ¬ ∀ (tcx : Tcx) (impl : Option DefId) (item : ItemFn) (specs : List Spec) (out : List ItemFn)
      (d : DefId) (ds : List DefId), TcxOk tcx → generateFnWithSpec item specs = .ok out →
      Placed tcx impl item out d ds → AllTypes tcx d →
      ∀ tparams txtcx s₀ s₁, extractGenerics tcx d s₀ = .ok ((tparams, txtcx), s₁) →
      ∀ flags params tpe e flags' s₂,
        extractFnBody tcx d txtcx flags s₁ = .ok ((params, tpe, e, flags'), s₂) →
        ∀ ret, SpecsCorrelate tcx txtcx params ret specs ds := by
  intro h
  have hplaced : Placed assocFnTcx (some ⟨0, 0⟩) (boolFn []) (boolFnExpansion []) ⟨0, 1⟩
      [⟨0, 2⟩] :=
    { fn := boolFn_lowered rfl rfl rfl rfl
      closure := rfl
      specs := .cons (boolFn_lowered rfl rfl rfl rfl) .nil }
  have hok : TcxOk assocFnTcx := boolFnTcx_ok fun d => by
    by_cases h0 : d.index = 0
    · simp [h0, allGenericParams]
    · by_cases h1 : d.index = 1 <;> simp [h0, h1, allGenericParams]
  obtain ⟨⟨tparams, txtcx⟩, s₁, hgen⟩ : ∃ r s₁,
      extractGenerics assocFnTcx ⟨0, 1⟩ .new = .ok (r, s₁) := ⟨_, _, rfl⟩
  obtain ⟨⟨params, tpe, e, flags⟩, s₂, hbody⟩ : ∃ r s₂,
      extractFnBody assocFnTcx ⟨0, 1⟩ txtcx [] s₁ = .ok (r, s₂) := by
    cases hgen
    exact ⟨_, _, rfl⟩
  have hspecs := h _ _ _ _ _ _ _ hok (boolFn_expands _) hplaced (by decide) _ _ _ _ hgen _ _ _ _ _ _
    hbody boolRet
  cases hspecs with
  | cons hspec _ =>
    obtain ⟨ctx, hctx⟩ := hspec
    cases hgen
    have hparent := (correlateSpecFn_ok hctx).parent
    cases hparent

end StainlessMacros
