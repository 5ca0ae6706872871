import RustStainless.Data.Canonical
import RustStainless.Extraction.CrateCalls
import RustStainless.Extraction.Frontend
import RustStainless.Extraction.OrderedVisitor

/-!
# Reproducible output

Two runs of the extraction on one crate that differ in the orders of the hash maps. If no map that
shows its order has more than one entry, both end alike and the bytes that are written are the same.
Whether that is so can be read off the crate.
-/

namespace Stainless

open Rustc St Lib Extraction

variable {tcx : Tcx} {ids : KnownIds} (o : IterOrder HashSite)

/-! ## Functions -/

omit o in
theorem addFunction_follows (id : SymbolIdentifier) (fd : FunDef) :
    FollowsIn tcx ids (addFunction id fd) (addFunction id fd) Eq := by
  intro s u s' h
  obtain ⟨hk, rfl⟩ := addFunction_ok.mp h
  refine ⟨grows_addFunction _ _, fun _ t ht => ⟨(), _, addFunction_ok.mpr ⟨?_, rfl⟩, ?_, rfl⟩⟩
  · rw [ht.functions]
    exact hk
  · exact ⟨ht.mapping, ht.adts, ht.functionRefs, by simp [ht.functions],
      ht.known.grows (grows_addFunction _ _)⟩

section

variable {known : DefId → Prop} (hknown : ∀ a, known a → ids a ≠ none)

include hknown

theorem extractFn_follows {d : DefId} (hcalm : FnCalm tcx known d) (specs : FnSpecs) :
    FollowsIn tcx ids (extractFn tcx d specs) (extractFn (tcx.withOrder o) d specs) Eq := by
  have hfn := extractLocalFn_follows o hknown hcalm specs.preFns specs.postFns
    specs.measureFns.head?
  unfold extractFn
  split
  · exact (report_follows _ _).bind_eq fun _ => hfn.bind_eq fun fd => addFunction_follows _ fd
  · exact hfn.bind_eq fun fd => addFunction_follows _ fd

theorem extractFns_follows {v w : ItemVisitor} (hv : ∀ d, w.fnSpecs d = v.fnSpecs d) :
    ∀ fs : List FnItem, (∀ f ∈ fs, FnCalm tcx known f.defId) →
    FollowsIn tcx ids (extractFns tcx v fs) (extractFns (tcx.withOrder o) w fs) Eq
  | [], _ => .pure rfl
  | f :: fs, hcalm => by
    rw [extractFns, extractFns, hv]
    refine (extractFn_follows o hknown (hcalm f List.mem_cons_self) _).bind_eq fun _ => ?_
    exact extractFns_follows hv fs fun g hg => hcalm g (List.mem_cons_of_mem _ hg)

/-! ## External functions -/

omit hknown in
theorem extractExternParams_follows {txtcx txtcx' : TyExtractionCtxt}
    (hctx : CtxAlike txtcx txtcx') :
    ∀ (tys : List Ty) (i : Nat), FollowsIn tcx ids (extractExternParams tcx txtcx i tys)
      (extractExternParams (tcx.withOrder o) txtcx' i tys) Eq
  | [], _ => by
    rw [extractExternParams, extractExternParams]
    exact .pure rfl
  | ty :: tys, i => by
    rw [extractExternParams, extractExternParams]
    refine (freshId_follows _).bind_eq fun id => ?_
    refine (extractTy_follows o hctx ty).bind_eq fun tpe => ?_
    exact (extractExternParams_follows hctx tys (i + 1)).bind_eq fun rest => .pure rfl

theorem extractExternFn_follows {d : DefId} (hcalm : GenericsCalm tcx known d) :
    FollowsIn tcx ids (extractExternFn tcx d) (extractExternFn (tcx.withOrder o) d) Eq := by
  unfold extractExternFn
  split
  · exact .panic _
  refine (extractGenerics_follows o hknown hcalm.bounds).bind (fun r => ?_) fun r r' hr => ?_
  · refine ByOps.grows (.bind (extractExternParams_byOps r.2 0 _) fun ps => ?_)
    exact .bind (extractTy_byOps r.2 _) fun t => .bind (extractFnRef_byOps d) fun _ => .pure _
  · obtain ⟨tparams, txtcx⟩ := r
    obtain ⟨tparams', txtcx'⟩ := r'
    obtain rfl : tparams = tparams' := hr.tparams hcalm.tparams
    refine (extractExternParams_follows o hr.ctx _ 0).bind_eq fun params => ?_
    refine (extractTy_follows o hr.ctx _).bind_eq fun returnTpe => ?_
    exact (extractFnRef_follows d).bind_eq fun funId => .pure rfl

theorem extractExternFns_follows : ∀ ds : List DefId, (∀ d ∈ ds, GenericsCalm tcx known d) →
    FollowsIn tcx ids (extractExternFns tcx ds) (extractExternFns (tcx.withOrder o) ds) Eq
  | [], _ => .pure rfl
  | d :: ds, hcalm => by
    rw [extractExternFns, extractExternFns]
    refine (extractExternFn_follows o hknown (hcalm d List.mem_cons_self)).bind_eq fun fd => ?_
    refine (addFunction_follows _ fd).bind_eq fun _ => ?_
    exact extractExternFns_follows ds fun e he => hcalm e (List.mem_cons_of_mem _ he)

end

omit o in
theorem externalFunctions_eq (s : Extraction) : externalFunctions tcx s =
    .ok ((tcx.iterOrder.iter .functionRefs s.functionRefs).filter fun d => !d.isLocal, s) :=
  Run.bind_eq Run.get_eq

omit o in
/-- Lists of one element, however often, have only one order. -/
theorem eq_of_perm_of_forall_eq {α : Type} {l l' : List α} (h : l.Perm l')
    (heq : ∀ a ∈ l, ∀ b ∈ l, a = b) : l = l' := by
  have hall : ∀ l : List α, l.Pairwise fun _ _ => True := fun l =>
    List.pairwise_of_forall fun _ _ => trivial
  exact h.eq_of_pairwise (fun a b ha hb _ _ => heq a ha b (h.mem_iff.mpr hb)) (hall l) (hall l')

/-- A single external function has only one order. -/
theorem externalFunctions_follows : FollowsIn tcx ids (externalFunctions tcx)
    (externalFunctions (tcx.withOrder o)) fun ds es =>
      ds = es ∧ ∀ d ∈ ds, GenericsCalm tcx (fun _ => False) d := by
  intro s ds s' h
  obtain ⟨rfl, rfl⟩ := Prod.mk.inj (Except.ok.inj ((externalFunctions_eq s).symm.trans h))
  have hmem : ∀ d, d ∈ (tcx.iterOrder.iter .functionRefs s.functionRefs).filter (!·.isLocal) ↔
      d ∈ s.functionRefs ∧ d.isLocal = false := fun d => by
    rw [List.mem_filter, tcx.iterOrder.mem_iter, Bool.not_eq_true']
  refine ⟨.refl _, fun hgood t ht => ⟨_, t, externalFunctions_eq t, ht, ?_, ?_⟩⟩
  · rw [ht.functionRefs]
    have hperm := (tcx.iterOrder.perm .functionRefs s.functionRefs).trans
      (o.perm .functionRefs s.functionRefs).symm
    refine eq_of_perm_of_forall_eq (hperm.filter _) fun d hd e he => ?_
    have hd' := (hmem d).mp hd
    have he' := (hmem e).mp he
    exact hgood.external d hd'.1 e he'.1 hd'.2 he'.2
  · intro d hd
    have hd' := (hmem d).mp hd
    exact hgood.generics d hd'.1 hd'.2

/-! ## The crate -/

omit o in
/-- Behind `x`, all ids of its last state are known. -/
theorem FollowsIn.bind_known {α β : Type} {x y : Xtor α} {f g : α → Xtor β} {R : β → β → Prop}
    (hxy : FollowsIn tcx ids x y Eq)
    (hfg : ∀ s a s', x s = .ok (a, s') → FollowsIn tcx s'.didId (f a) (g a) R) :
    FollowsIn tcx ids (x >>= f) (y >>= g) R := by
  intro s c s'' h
  obtain ⟨a, s', h1, h2⟩ := Run.bind_ok.mp h
  obtain ⟨hgrow₁, hx⟩ := hxy s a s' h1
  obtain ⟨hgrow₂, hf⟩ := hfg s a s' h1 s' c s'' h2
  refine ⟨hgrow₁.trans hgrow₂, fun hgood t ht => ?_⟩
  obtain ⟨b, t', hy, ht', rfl⟩ := hx ((orderPairing tcx ids).good_of_grows hgrow₂ hgood) t ht
  have hall : Alike s'.didId s' t' :=
    ⟨ht'.mapping, ht'.adts, ht'.functionRefs, ht'.functions, fun _ _ h => h⟩
  obtain ⟨d, t'', hg, ht'', hR⟩ := hf hgood t' hall
  refine ⟨d, t'', (Run.bind_eq hy).trans hg, ?_, hR⟩
  exact ⟨ht''.mapping, ht''.adts, ht''.functionRefs, ht''.functions, ht'.known.grows hgrow₂⟩

omit o in
/-- An ADT that was extracted has an id. -/
theorem extractAdt_met {d : DefId} {sort : ADTSort} {s s' : Extraction}
    (h : extractAdt tcx d s = .ok (sort, s')) : s'.didId d ≠ none := by
  rw [extractAdt, adtDepth, extractAdtWith, Run.bind_eq getSort_eq] at h
  cases hid : s.didId d with
  | some id =>
    rw [hid, Option.bind_some] at h
    cases hstored : s.adts.get? id.globalId with
    | some sort' =>
      rw [hstored] at h
      obtain ⟨-, rfl⟩ := Run.pure_ok.mp h
      simp [hid]
    | none =>
      -- It has an id and is not stored, so it cannot be registered again.
      rw [hstored] at h
      obtain ⟨_, s₁, h1, -⟩ := Run.bind_ok.mp h
      rw [(registerDef_ok.mp h1).1] at hid
      simp at hid
  | none =>
    rw [hid, Option.bind_none] at h
    obtain ⟨id, s₁, h1, h⟩ := Run.bind_ok.mp h
    obtain ⟨hnone, rfl, rfl⟩ := registerDef_ok.mp h1
    have hgrow : Grows (s.withDef tcx d) s' := by
      cases hadt : tcx.adtDef d with
      | none => simp [hadt] at h
      | some a =>
        simp only [hadt] at h
        exact (extractSort_byOps (extractAdtIdWith_byOps (extractAdtWith_byOps _)) _ d a).grows
          _ _ _ h
    refine hgrow.didId_ne_none ?_
    rw [withDef_didId tcx hnone, if_pos rfl]
    simp

omit o in
theorem extractLocalAdts_met : ∀ (ds : List DefId) {u : Unit} {s s' : Extraction},
    extractLocalAdts tcx ds s = .ok (u, s') → ∀ d ∈ ds, s'.didId d ≠ none := by
  intro ds
  induction ds with
  | nil => simp
  | cons d ds ih =>
    intro u s s' h
    rw [extractLocalAdts] at h
    obtain ⟨sort, s₁, h1, h⟩ := Run.bind_ok.mp h
    obtain ⟨_, s₂, h2, h⟩ := Run.bind_ok.mp h
    have hgrow : Grows s₁ s' := by
      obtain ⟨-, rfl⟩ := addAdt_ok.mp h2
      exact (grows_addAdt _ _).trans ((extractLocalAdts_byOps ds).grows _ _ _ h)
    intro e he
    rcases List.mem_cons.mp he with rfl | he
    · exact hgrow.didId_ne_none (extractAdt_met h1)
    · exact ih h e he

/--
No hash map of the run shows its order. Each impl has at most one normal function and at most one
spec of each type for it; each function of the crate, each ADT that the run meets and the one
external function, if any, are calm.
-/
structure OrderFree (tcx : Tcx) (krate : Hir.Crate) (s : Extraction) : Prop where
  impls : ImplsCalm krate
  fns : ∀ f ∈ (ItemVisitor.ofKrate tcx krate).functions,
    FnCalm tcx (· ∈ (ItemVisitor.ofKrate tcx krate).adts) f.defId
  ends : EndsCalm tcx s

omit o in
/--
The same, read off the crate: its impls and functions are calm, every ADT that is reached from one
it names is calm, and its bodies call at most one function of another crate, which has calm
generics.
-/
structure CrateCalm (tcx : Tcx) (krate : Hir.Crate) : Prop where
  impls : ImplsCalm krate
  fns : ∀ f ∈ (ItemVisitor.ofKrate tcx krate).functions,
    FnCalm tcx (· ∈ (ItemVisitor.ofKrate tcx krate).adts) f.defId
  adts : ∀ d a, (ItemVisitor.ofKrate tcx krate).Meets tcx d → tcx.adtDef d = some a → AdtCalm tcx a
  generics : ∀ d ∈ (ItemVisitor.ofKrate tcx krate).externals tcx,
    GenericsCalm tcx (fun _ => False) d
  external : ∀ d ∈ (ItemVisitor.ofKrate tcx krate).externals tcx,
    ∀ e ∈ (ItemVisitor.ofKrate tcx krate).externals tcx, d = e

omit o in
/-- **A run on a calm crate shows no order**: it meets only what is reached from the crate. -/
theorem CrateCalm.orderFree (hok : TcxOk tcx) {krate : Hir.Crate} (hkrate : KrateOk tcx krate)
    (hbodies : BodiesOk tcx (.ofKrate tcx krate)) (h : CrateCalm tcx krate) {u : Unit}
    {s : Extraction} (hrun : processCrate tcx krate .new = .ok (u, s)) :
    OrderFree tcx krate s where
  impls := h.impls
  fns := h.fns
  ends := by
    have hexternal : ∀ d ∈ s.functionRefs, d.isLocal = false →
        d ∈ (ItemVisitor.ofKrate tcx krate).externals tcx := fun d hd hlocal =>
      processCrate_externals hkrate hbodies hok hrun hd hlocal
    refine ⟨fun d a hd ha => ?_, fun d hd hlocal => h.generics d (hexternal d hd hlocal),
      fun d hd e he hdl hel => h.external d (hexternal d hd hdl) e (hexternal e he hel)⟩
    have hkind : tcx.defKind d = .adt := by
      rw [← Tcx.adtDef_did ha]
      exact hok.adt_kind a (Tcx.adtDef_mem ha)
    exact h.adts d a (processCrate_meets hkrate hbodies hok hrun hkind hd) ha

theorem processCrate_follows {krate : Hir.Crate} (hkrate : KrateOk tcx krate)
    (himpls : ImplsCalm krate) (hfns : ∀ f ∈ (ItemVisitor.ofKrate tcx krate).functions,
      FnCalm tcx (· ∈ (ItemVisitor.ofKrate tcx krate).adts) f.defId) :
    FollowsIn tcx ids (processCrate tcx krate) (processCrate (tcx.withOrder o) krate) Eq := by
  have hlocal : ∀ d ∈ (ItemVisitor.ofKrate tcx krate).adts, d.isLocal = true := by
    intro d hd
    rw [ofKrate_adts] at hd
    obtain ⟨item, hitem, rfl⟩ := List.mem_map.mp hd
    obtain ⟨hitem, hkind⟩ := List.mem_filter.mp hitem
    exact (hkrate.adt item hitem (by simpa using hkind)).1
  have halike : VisitorAlike (.ofKrate tcx krate) (.ofKrate (tcx.withOrder o) krate) :=
    ofKrate_alike o himpls
  unfold processCrate
  refine (visitAllItemLikes_follows o krate).bind (fun v => ?_) fun v w hvw => ?_
  · refine ByOps.grows (.bind (extractLocalAdts_byOps v.adts) fun _ => ?_)
    refine .bind (extractFns_byOps v v.functions) fun _ => ?_
    exact .bind (.bind .get fun _ => .pure _) fun ds => extractExternFns_byOps ds
  · obtain ⟨rfl, rfl⟩ := hvw
    rw [halike.adts, halike.functions]
    refine FollowsIn.bind_known (extractLocalAdts_follows o _ hlocal) fun s u s' h => ?_
    refine (extractFns_follows o (extractLocalAdts_met _ h) halike.fnSpecs _ hfns).bind_eq
      fun _ => ?_
    refine (externalFunctions_follows o).bind (fun ds => (extractExternFns_byOps ds).grows)
      fun ds es h => ?_
    obtain ⟨rfl, hcalm⟩ := h
    exact extractExternFns_follows o (fun _ hk => hk.elim) ds hcalm

/-- The output of a run. -/
theorem symbols_serializeIn {tcx' : Tcx} {krate : Hir.Crate} {u : Unit} {s t : Extraction}
    (h : processCrate tcx krate .new = .ok (u, s)) (hadts : t.adts = s.adts)
    (hfunctions : t.functions = s.functions) (toSignedBytesBe : Int → List UInt8)
    (p p' : IterOrder SymbolMap) :
    (t.symbols tcx').serializeIn toSignedBytesBe p' =
      (s.symbols tcx).serializeIn toSignedBytesBe p := by
  obtain ⟨ops, trace, hops⟩ := processCrate_byOps krate .new u s h
  have hok : TraceOk tcx trace s := by simpa using (TraceOk.new tcx).run ops hops
  have hsorts := keyed_values_nodup hok.adts
  have hfns := keyed_values_nodup hok.functions
  unfold Extraction.symbols intoResult
  rw [hadts, hfunctions]
  exact serializeIn_new hsorts hfns toSignedBytesBe (tcx'.iterOrder.perm _ _)
    (tcx'.iterOrder.perm _ _) (tcx.iterOrder.perm _ _) (tcx.iterOrder.perm _ _) p' p

/-- **The output is reproducible** where no hash map shows its order: with any other orders the
extraction ends too, and the same bytes are written. -/
theorem processCrate_reproducible {krate : Hir.Crate} (hkrate : KrateOk tcx krate)
    {s : Extraction} (hrun : processCrate tcx krate .new = .ok ((), s))
    (hfree : OrderFree tcx krate s) (o : IterOrder HashSite) :
    ∃ t, processCrate (tcx.withOrder o) krate .new = .ok ((), t) ∧
      ∀ toSignedBytesBe p p', (t.symbols (tcx.withOrder o)).serializeIn toSignedBytesBe p' =
        (s.symbols tcx).serializeIn toSignedBytesBe p := by
  have hnone : Alike (fun _ => none) .new .new := ⟨rfl, rfl, rfl, rfl, by simp [Knows]⟩
  obtain ⟨-, hfollow⟩ := processCrate_follows o hkrate hfree.impls hfree.fns .new () s hrun
  obtain ⟨_, t, ht, halike, -⟩ := hfollow hfree.ends .new hnone
  exact ⟨t, ht, fun toSignedBytesBe p p' =>
    symbols_serializeIn hrun halike.adts halike.functions toSignedBytesBe p p'⟩

/-! ## A generic struct -/

section Generic

/-- The type `S<bool>`. -/
def boolStruct : Ty := .adt ⟨0, 0⟩ [.bool]

/--
The generic struct `#[external] #[var(x)] struct S<T> { x: T }` and the function
`fn f(s: S<bool>) -> bool { g(s.x) }`, where `g` is a function of another crate.
-/
def genericStruct : Tcx :=
  { Tcx.empty with
    defKind := fun d =>
      if d = ⟨0, 0⟩ then .adt else if d = ⟨0, 1⟩ then .field
      else if d = ⟨0, 2⟩ then .tyParam else .fn
    defPathStr := fun d =>
      if d = ⟨0, 0⟩ then "S" else if d = ⟨0, 1⟩ then "S::x" else if d = ⟨0, 2⟩ then "S::T"
      else if d.isLocal then "f" else "g"
    adtDefs := [
      { did := ⟨0, 0⟩
        isBox := false
        variants := [
          { defId := ⟨0, 0⟩, fields := [{ did := ⟨0, 1⟩, name := "x", ty := .param 0 }] }] }]
    genericsOf := fun d =>
      .root (if d = ⟨0, 0⟩ then [{ index := 0, defId := ⟨0, 2⟩, kind := .type }] else [])
    fnSig := fun d => { inputs := [if d.isLocal then boolStruct else .bool], output := .bool }
    attrs := fun d =>
      if d = ⟨0, 0⟩ then [
        .normal ["clippy", "stainless", "external"] .empty,
        .normal ["clippy", "stainless", "var"] (.delimited [.token (.ident "x")])]
      else []
    bodyOf := fun d =>
      { params := [.binding ⟨d, 0⟩ "s" (some (.byValue .not)) boolStruct none]
        pats := []
        value := .call .bool (.fnDef ⟨1, 50⟩ []) [.field .bool (.varRef boolStruct ⟨d, 0⟩) 0] } }

def genericKrate : Hir.Crate :=
  { items := [
      { defId := ⟨0, 0⟩, ident := ⟨"S", 0⟩, kind := .struct },
      { defId := ⟨0, 3⟩, ident := ⟨"f", 0⟩, kind := .fn false }]
    traitItems := []
    otherImplItems := [] }

theorem genericStruct_params {d : DefId} {p : GenericParamDef}
    (hp : p ∈ allGenericParamsOf genericStruct d) :
    d = ⟨0, 0⟩ ∧ p = { index := 0, defId := ⟨0, 2⟩, kind := .type } := by
  change p ∈ (if d = ⟨0, 0⟩ then _ else []) at hp
  split at hp
  · next hd => exact ⟨hd, List.mem_singleton.mp hp⟩
  · cases hp

theorem genericStruct_ok : TcxOk genericStruct where
  adt_kind := by simp [genericStruct]
  variant_kind := by simp [genericStruct]
  field_kind := by simp [genericStruct]
  tparam_kind := by
    intro d _ p hp _
    obtain ⟨-, rfl⟩ := genericStruct_params hp
    rfl
  tparam_index := fun d => by
    show ((if d = ⟨0, 0⟩ then _ else []).map _).Nodup
    split <;> simp
  tparam_inj := fun d _ => by
    show ((if d = ⟨0, 0⟩ then _ else []).map _).Nodup
    split <;> simp
  adt_not_closure := fun _ _ => rfl
  mentions_adt := by
    rintro d e ⟨a, ha, hbound | ⟨v, hv, f, hf, he⟩⟩
    · obtain ⟨p, hp, -⟩ := hbound
      cases hp
    · have hmem := Tcx.adtDef_mem ha
      rw [genericStruct, List.mem_singleton] at hmem
      subst hmem
      rw [List.mem_singleton] at hv
      subst hv
      rw [List.mem_singleton] at hf
      subst hf
      cases he
  field_params := by
    simp [genericStruct, allGenericParamsOf, allGenericParams, tyParams]
  field_applied := by simp [genericStruct, TyApplied]
  params_applied := fun _ _ hp => nomatch hp
  returns_applied := fun _ _ hp => nomatch hp

theorem genericKrate_ok : KrateOk genericStruct genericKrate where
  items := by decide
  fns := by decide
  idents := by simp [genericKrate]
  adt := by
    intro item hitem hadt
    rcases List.mem_pair.mp hitem with rfl | rfl
    · exact ⟨rfl, _, rfl⟩
    · simp [IsAdtItem] at hadt
  all_adts := by
    rintro d - ⟨a, ha⟩
    have hd := Tcx.adtDef_did ha
    have hmem := Tcx.adtDef_mem ha
    rw [genericStruct, List.mem_singleton] at hmem
    subst hmem
    exact ⟨_, List.mem_cons_self, hd, .inl (.inr rfl)⟩
  fn := by decide

theorem genericStruct_bodyOk (d : DefId) : BodyOk genericStruct d where
  value := by
    refine ⟨fun did substs heq => ⟨fun item hitem => ?_, fun hbox => ?_⟩, trivial, trivial⟩
    · cases hitem
    · obtain ⟨rfl, rfl⟩ := Ty.fnDef.inj heq
      exact absurd hbox (by decide)
  bindings := by
    intro h ty ty' hty hty'
    simp only [genericStruct, Hir.Body.bindings, Hir.Pat.listBindings, Hir.Pat.bindings,
      Hir.Pat.optBindings, List.append_nil, List.mem_singleton, Prod.mk.injEq] at hty hty'
    exact hty.2.trans hty'.2.symm

theorem genericKrate_callees :
    (ItemVisitor.ofKrate genericStruct genericKrate).callees genericStruct = [⟨1, 50⟩] := rfl

theorem genericKrate_bodiesOk : BodiesOk genericStruct (.ofKrate genericStruct genericKrate) where
  fns := fun f _ => genericStruct_bodyOk f.defId
  specs := fun _ _ d _ => genericStruct_bodyOk d
  callees := by
    rw [genericKrate_callees]
    simp [genericStruct, IsFnLike, Tcx.empty]

theorem genericKrate_calm : CrateCalm genericStruct genericKrate where
  impls := by simp [ImplsCalm, genericKrate]
  fns := by
    intro f hf
    obtain rfl := List.mem_singleton.mp hf
    exact ⟨⟨.inl (by decide), by decide⟩, by decide, by decide⟩
  adts := by
    intro d a _ ha
    have hmem := Tcx.adtDef_mem ha
    rw [genericStruct, List.mem_singleton] at hmem
    subst hmem
    exact ⟨.inl (by decide), by decide, by decide, by decide⟩
  generics := by
    rw [ItemVisitor.externals, genericKrate_callees]
    intro d hd
    obtain rfl := List.mem_singleton.mp hd
    exact ⟨.inl (by decide), by decide⟩
  external := by
    rw [ItemVisitor.externals, genericKrate_callees]
    intro d hd e he
    rw [List.mem_singleton.mp hd, List.mem_singleton.mp he]

end Generic

/-- The struct, the function and the stub are written alike when all orders are reversed. -/
theorem processCrate_reproducible_generic :
    ∃ s t, processCrate genericStruct genericKrate .new = .ok ((), s) ∧
      s.adts.length = 1 ∧ s.functions.length = 2 ∧
      processCrate (genericStruct.withOrder .reversed) genericKrate .new = .ok ((), t) ∧
      ∀ toSignedBytesBe p p',
        (t.symbols (genericStruct.withOrder .reversed)).serializeIn toSignedBytesBe p' =
          (s.symbols genericStruct).serializeIn toSignedBytesBe p := by
  obtain ⟨s, hrun, hadts, hfns⟩ : ∃ s, processCrate genericStruct genericKrate .new =
      .ok ((), s) ∧ s.adts.length = 1 ∧ s.functions.length = 2 := ⟨_, rfl, rfl, rfl⟩
  obtain ⟨t, ht, hbytes⟩ := processCrate_reproducible genericKrate_ok hrun
    (genericKrate_calm.orderFree genericStruct_ok genericKrate_ok genericKrate_bodiesOk hrun)
    .reversed
  exact ⟨s, t, hrun, hadts, hfns, ht, hbytes⟩

/-! ## A struct with two annotations -/

/-- A struct `S` without fields that has the flags. -/
def flaggedStruct (flags : List String) : Tcx :=
  { Tcx.empty with
    defKind := fun _ => .adt
    defPathStr := fun _ => "S"
    adtDefs := [{ did := ⟨0, 0⟩, isBox := false, variants := [{ defId := ⟨0, 0⟩, fields := [] }] }]
    attrs := fun _ => flags.map fun flag => .normal ["clippy", "stainless", flag] .empty }

/-- The crate of the struct. -/
def oneStruct : Hir.Crate :=
  { items := [{ defId := ⟨0, 0⟩, ident := { name := "S", ctxt := 0 }, kind := .struct }]
    traitItems := []
    otherImplItems := [] }

/-- With two flags, reversing the order of the sets changes what is written. -/
theorem processCrate_not_reproducible :
    ∃ s t, processCrate (flaggedStruct ["external", "pure"]) oneStruct .new = .ok ((), s) ∧
      processCrate ((flaggedStruct ["external", "pure"]).withOrder .reversed) oneStruct .new =
        .ok ((), t) ∧
      (s.symbols (flaggedStruct ["external", "pure"])).serialize Rust.toSignedBytesBe [] ≠
        (t.symbols ((flaggedStruct ["external", "pure"]).withOrder .reversed)).serialize
          Rust.toSignedBytesBe [] := by
  refine ⟨_, _, rfl, rfl, ?_⟩
  rw [Symbols.serialize, Symbols.serialize, Symbols.serializeInner, Symbols.serializeInner,
    Symbols.sortedFunctions_nil rfl, Symbols.sortedFunctions_nil rfl,
    Symbols.sortedSorts_singleton rfl, Symbols.sortedSorts_singleton rfl]
  decide

end Stainless
