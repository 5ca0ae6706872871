import RustStainless.Extraction.CrateCalls
import RustStainless.Extraction.IdRunsKrate
import RustStainless.Extraction.Meaning
import RustStainless.Extraction.Frontend

/-!
# Closed programs

The program that a crate is extracted to defines whatever it refers to if every ADT that is used is
one of the crate, and every function of the crate that is called is extracted: it must not be a spec
function, nor the constructor of a tuple struct or variant. Functions of other crates have stubs.
-/

namespace Stainless

open Rustc St Lib Extraction

variable {tcx : Tcx}

/-! ## What the crate defines -/

/-- The visitor has what is used. -/
def BodyUse.Defined (tcx : Tcx) (v : ItemVisitor) : BodyUse → Prop
  | .callee did => did.isLocal = true → did ∈ v.functions.map FnItem.defId
  | .boxNew _ => True
  | .constructor did _ | .field did _ => did ∈ v.adts
  | .type d ty => ∀ e, TyUses tcx d ty e → e ∈ v.adts

/-- A variant or a field belongs to one ADT. -/
structure PartsOwned (tcx : Tcx) : Prop where
  variants : ∀ d a d' a', tcx.adtDef d = some a → tcx.adtDef d' = some a' →
    ∀ v ∈ a.variants, ∀ v' ∈ a'.variants, v.defId = v'.defId → d = d'
  fields : ∀ d a d' a', tcx.adtDef d = some a → tcx.adtDef d' = some a' →
    ∀ v ∈ a.variants, ∀ v' ∈ a'.variants, ∀ f ∈ v.fields, ∀ f' ∈ v'.fields, f.did = f'.did → d = d'

/-! ## The sorts and functions of the program -/

/--
The program of an extracted crate: a sort for each ADT of the visitor, a function for each of its
functions, and a stub for each function of another crate that is called.
-/
structure ProgramOf (tcx : Tcx) (v : ItemVisitor) (s : Extraction) (p : St.Symbols) : Prop where
  ids : IdsOk tcx s
  sorts : ∀ sort ∈ p.sorts.values, ∃ d ∈ v.adts, SortImage tcx s.didId d sort
  sort : ∀ d ∈ v.adts, ∃ sort ∈ p.sorts.values, SortImage tcx s.didId d sort
  functions : ∀ fd ∈ p.functions.values,
    (∃ f ∈ v.functions, s.didId f.defId = some fd.id ∧
      RefsAre tcx s.didId fd.refs (fnUses tcx f.defId (v.fnSpecs f.defId))) ∨
    ∃ d ∈ v.externals tcx, s.didId d = some fd.id ∧ RefsAre tcx s.didId fd.refs (stubUses tcx d)
  function : ∀ f ∈ v.functions, ∃ fd ∈ p.functions.values, s.didId f.defId = some fd.id ∧
    RefsAre tcx s.didId fd.refs (fnUses tcx f.defId (v.fnSpecs f.defId))
  stub : ∀ d ∈ v.externals tcx, ∃ fd ∈ p.functions.values, s.didId d = some fd.id ∧
    RefsAre tcx s.didId fd.refs (stubUses tcx d)

/-- The values of the tables, in some order. -/
theorem symbols_perm {krate : Hir.Crate} {u : Unit} {s : Extraction}
    (h : processCrate tcx krate .new = .ok (u, s)) :
    (s.symbols tcx).sorts.values.Perm s.adts.values ∧
      (s.symbols tcx).functions.values.Perm s.functions.values := by
  obtain ⟨ops, trace, hops⟩ := processCrate_byOps krate .new u s h
  have hok : TraceOk tcx trace s := by simpa using (TraceOk.new tcx).run ops hops
  have hsorts := tcx.iterOrder.perm .adts s.adts.values
  have hfns := tcx.iterOrder.perm .functions s.functions.values
  have hsortKeys := ((hsorts.map _).nodup_iff).mpr (keyed_values_nodup hok.adts)
  have hfnKeys := ((hfns.map _).nodup_iff).mpr (keyed_values_nodup hok.functions)
  exact ⟨(List.Perm.of_eq (Table.values_ofList hsortKeys)).trans hsorts,
    (List.Perm.of_eq (Table.values_ofList hfnKeys)).trans hfns⟩

theorem processCrate_programOf (hok : TcxOk tcx) {krate : Hir.Crate} (hk : KrateOk tcx krate)
    (hbodies : BodiesOk tcx (.ofKrate tcx krate)) {u : Unit} {s : Extraction}
    (h : processCrate tcx krate .new = .ok (u, s)) (hn : s.NoErrors) :
    ProgramOf tcx (.ofKrate tcx krate) s (s.symbols tcx) := by
  obtain ⟨-, hcrate⟩ := processCrate_ok hok hk h hn
  obtain ⟨externals, hmem, entries, stubs, hfns, hentries, hstubs⟩ :=
    processCrate_functions hok hk hbodies h hn
  obtain ⟨hsortsPerm, hfnsPerm⟩ := symbols_perm h
  have hpaths : PathIds tcx s.view.ids := .of_idsOk hcrate.inv.ids
  have hvalue : ∀ {fd : FunDef}, fd ∈ (s.symbols tcx).functions.values ↔
      ∃ e ∈ entries ++ stubs, e.2 = fd := by
    intro fd
    rw [hfnsPerm.mem_iff, hfns]
    exact List.mem_map
  have hsort : ∀ {sort : ADTSort}, sort ∈ (s.symbols tcx).sorts.values ↔
      ∃ e ∈ s.adts, e.2 = sort := by
    intro sort
    rw [hsortsPerm.mem_iff]
    exact List.mem_map
  have hentry : ∀ {f e}, f ∈ (ItemVisitor.ofKrate tcx krate).functions →
      FnEntry tcx s.view (.ofKrate tcx krate) f e → s.didId f.defId = some e.2.id ∧
        RefsAre tcx s.didId e.2.refs
          (fnUses tcx f.defId ((ItemVisitor.ofKrate tcx krate).fnSpecs f.defId)) := by
    intro f e hf he
    have hrefs := he.refsAre hbodies hpaths hf
    obtain ⟨-, -, p, himg⟩ := he
    exact ⟨himg.id, hrefs⟩
  exact
    { ids := hcrate.inv.ids
      sorts := by
        intro sort hs
        obtain ⟨e, he, rfl⟩ := hsort.mp hs
        obtain ⟨d, hd, hentry⟩ := forall₂_mem_right hcrate.store.sorts he
        exact ⟨d, hd, hentry.2⟩
      sort := by
        intro d hd
        obtain ⟨e, he, hentry⟩ := forall₂_mem_left hcrate.store.sorts hd
        exact ⟨e.2, hsort.mpr ⟨e, he, rfl⟩, hentry.2⟩
      functions := by
        intro fd hfd
        obtain ⟨e, he, rfl⟩ := hvalue.mp hfd
        rcases List.mem_append.mp he with he | he
        · obtain ⟨f, hf, hfe⟩ := forall₂_mem_right hentries he
          exact .inl ⟨f, hf, hentry hf hfe⟩
        · obtain ⟨d, hd, hde⟩ := forall₂_mem_right hstubs he
          exact .inr ⟨d, (hmem d).mp hd, hde.id, hde.refs⟩
      function := by
        intro f hf
        obtain ⟨e, he, hfe⟩ := forall₂_mem_left hentries hf
        exact ⟨e.2, hvalue.mpr ⟨e, List.mem_append_left _ he, rfl⟩, hentry hf hfe⟩
      stub := by
        intro d hd
        obtain ⟨e, he, hde⟩ := forall₂_mem_left hstubs ((hmem d).mpr hd)
        exact ⟨e.2, hvalue.mpr ⟨e, List.mem_append_right _ he, rfl⟩, hde.id, hde.refs⟩ }

/-! ## What is defined -/

section Defined

variable {v : ItemVisitor} {s : Extraction} {p : St.Symbols} {d : DefId} {id : SymbolIdentifier}

theorem SortImage.refsAre {sort : ADTSort} (h : SortImage tcx s.didId d sort) :
    RefsAre tcx s.didId sort.refs (adtUses tcx d) := by
  obtain ⟨a, txtcx, ha, hgen, -, hcons⟩ := h.shape
  have hself : ParamsOf txtcx txtcx.indexToTparam.get? := fun _ _ hp => hp
  have hfields : ∀ {fs : List FieldDef} {vds : List ValDef},
      List.Forall₂ (FieldImage tcx s.didId txtcx.indexToTparam.get?) fs vds →
      RefsAre tcx s.didId (vds.flatMap ValDef.refs) (fs.map fun f => .type d f.ty) := by
    intro fs vds hforall
    induction hforall with
    | nil => exact .nil
    | cons hf _ ih => exact (RefsAre.type hgen hself hf.2).append ih
  have hall : ∀ {vs : List VariantDef} {cs : List ADTConstructor},
      List.Forall₂ (ConstructorImage tcx s.didId txtcx.indexToTparam.get? sort.id) vs cs →
      RefsAre tcx s.didId (cs.flatMap fun c => c.fields.flatMap ValDef.refs)
        (vs.flatMap fun v => v.fields.map fun f => .type d f.ty) := by
    intro vs cs hforall
    induction hforall with
    | nil => exact .nil
    | cons hc _ ih => exact (hfields hc.fields).append ih
  have huses : adtUses tcx d = a.variants.flatMap fun v => v.fields.map fun f => .type d f.ty := by
    rw [adtUses, ha, Option.toList_some, List.flatMap_singleton]
  rw [huses]
  exact hall hcons

variable (hp : ProgramOf tcx v s p)

include hp

theorem ProgramOf.sort_defined_iff (hid : s.didId d = some id) :
    (Ref.sort id.globalId).Defined p ↔ d ∈ v.adts := by
  constructor
  · rintro ⟨sort, hsort, hkey⟩
    obtain ⟨e, he, himg⟩ := hp.sorts sort hsort
    exact hp.ids.did_inj e d _ _ himg.id hid hkey ▸ he
  · intro hd
    obtain ⟨sort, hsort, himg⟩ := hp.sort d hd
    obtain rfl := Option.some.inj (himg.id.symm.trans hid)
    exact ⟨sort, hsort, rfl⟩

/-- A function is defined if it is one of the visitor or a stub. -/
theorem ProgramOf.function_defined_iff (hid : s.didId d = some id) :
    (Ref.function id.globalId).Defined p ↔
      d ∈ v.functions.map FnItem.defId ∨ d ∈ v.externals tcx := by
  constructor
  · rintro ⟨fd, hfd, hkey⟩
    rcases hp.functions fd hfd with ⟨f, hf, hf', -⟩ | ⟨e, he, he', -⟩
    · obtain rfl := hp.ids.did_inj f.defId d _ _ hf' hid hkey
      exact .inl (List.mem_map.mpr ⟨f, hf, rfl⟩)
    · obtain rfl := hp.ids.did_inj e d _ _ he' hid hkey
      exact .inr he
  · rintro (hd | hd)
    · obtain ⟨f, hf, rfl⟩ := List.mem_map.mp hd
      obtain ⟨fd, hfd, hf', -⟩ := hp.function f hf
      obtain rfl := Option.some.inj (hf'.symm.trans hid)
      exact ⟨fd, hfd, rfl⟩
    · obtain ⟨fd, hfd, hd', -⟩ := hp.stub d hd
      obtain rfl := Option.some.inj (hd'.symm.trans hid)
      exact ⟨fd, hfd, rfl⟩

theorem ProgramOf.constructor_defined_iff (hparts : PartsOwned tcx) {sort : List ConstructorIds}
    {variantIndex : Nat} {c : ConstructorIds} (hsort : adtIds tcx s.didId d = some sort)
    (hc : sort[variantIndex]? = some c) :
    (Ref.constructor c.id.globalId).Defined p ↔ d ∈ v.adts := by
  obtain ⟨a, ha, hvariants⟩ := Option.bind_eq_some_iff.mp hsort
  obtain ⟨variant, hvariant, hid, -⟩ := forall₂_getElem? (variantsIds_forall₂ hvariants) hc
  have hmem := List.mem_of_getElem? hvariant
  constructor
  · rintro ⟨sort', hsort', c', hc', hkey⟩
    obtain ⟨e, he, himg⟩ := hp.sorts sort' hsort'
    obtain ⟨a', txtcx, ha', -, -, hcons⟩ := himg.shape
    obtain ⟨variant', hvariant', hid'⟩ := forall₂_mem_right hcons hc'
    have hsame := hp.ids.did_inj _ _ _ _ hid'.id hid hkey
    exact hparts.variants e a' d a ha' ha variant' hvariant' variant hmem hsame ▸ he
  · intro hd
    obtain ⟨sort', hsort', himg⟩ := hp.sort d hd
    obtain rfl := Option.some.inj (himg.adtIds.symm.trans hsort)
    rw [sortIds, List.getElem?_map] at hc
    obtain ⟨c', hc', rfl⟩ := Option.map_eq_some_iff.mp hc
    exact ⟨sort', hsort', c', List.mem_of_getElem? hc', rfl⟩

theorem ProgramOf.selector_defined_iff (hparts : PartsOwned tcx) {c : ConstructorIds}
    {rest : List ConstructorIds} {name : Nat} (hsort : adtIds tcx s.didId d = some (c :: rest))
    (hfield : c.fields[name]? = some id) :
    (Ref.selector id.globalId).Defined p ↔ d ∈ v.adts := by
  obtain ⟨a, ha, hvariants⟩ := Option.bind_eq_some_iff.mp hsort
  obtain ⟨variant, hvariant, -, hfields⟩ :=
    forall₂_getElem? (variantsIds_forall₂ hvariants) (i := 0) rfl
  have hmem := List.mem_of_getElem? hvariant
  obtain ⟨did, hdid, hid⟩ := forall₂_getElem? (fieldsIds_forall₂ hfields) hfield
  obtain ⟨f, hf, rfl⟩ := List.mem_map.mp (List.mem_of_getElem? hdid)
  constructor
  · rintro ⟨sort', hsort', c', hc', vd, hvd, hkey⟩
    obtain ⟨e, he, himg⟩ := hp.sorts sort' hsort'
    obtain ⟨a', txtcx, ha', -, -, hcons⟩ := himg.shape
    obtain ⟨variant', hvariant', hid'⟩ := forall₂_mem_right hcons hc'
    obtain ⟨f', hf', hfield'⟩ := forall₂_mem_right hid'.fields hvd
    have hsame := hp.ids.did_inj _ _ _ _ hfield'.1 hid hkey
    exact hparts.fields e a' d a ha' ha variant' hvariant' variant hmem f' hf' f hf hsame ▸ he
  · intro hd
    obtain ⟨sort', hsort', himg⟩ := hp.sort d hd
    have hids := Option.some.inj (himg.adtIds.symm.trans hsort)
    obtain ⟨c', rest', hcons, rfl, -⟩ := List.map_eq_cons_iff.mp hids
    simp only [List.getElem?_map, Option.map_eq_some_iff] at hfield
    obtain ⟨vd, hvd, rfl⟩ := hfield
    exact ⟨sort', hsort', c', hcons ▸ List.mem_cons_self, vd, List.mem_of_getElem? hvd, rfl⟩

/-- What is used and has references is defined if the visitor has it. -/
theorem ProgramOf.defined_iff (hparts : PartsOwned tcx) {u : BodyUse}
    (hshown : ∀ o, u.Shows tcx s.didId o → o ≠ none)
    (hcallee : ∀ d, u.calls = some d → d.isLocal = false → d ∈ v.externals tcx) :
    (∀ r, u.Shows tcx s.didId (some r) → r.Defined p) ↔ u.Defined tcx v := by
  cases u with
  | callee did =>
    obtain ⟨r, hr⟩ := Option.ne_none_iff_exists'.mp (hshown _ rfl)
    obtain ⟨id, hid, rfl⟩ := Option.map_eq_some_iff.mp hr
    simp only [BodyUse.Shows, hid, Option.map_some, Option.some.injEq, forall_eq]
    rw [hp.function_defined_iff hid]
    constructor
    · rintro (hd | hd) hlocal
      · exact hd
      · simp [ItemVisitor.externals, hlocal] at hd
    · intro h
      cases hlocal : did.isLocal with
      | true => exact .inl (h hlocal)
      | false => exact .inr (hcallee did rfl hlocal)
  | boxNew did => simp [BodyUse.Shows, BodyUse.Defined]
  | constructor did variantIndex =>
    obtain ⟨r, hr⟩ := Option.ne_none_iff_exists'.mp (hshown _ rfl)
    obtain ⟨c, hc, rfl⟩ := Option.map_eq_some_iff.mp hr
    obtain ⟨sort, hsort, hc'⟩ := Option.bind_eq_some_iff.mp hc
    simp only [BodyUse.Shows, hc, Option.map_some, Option.some.injEq, forall_eq]
    exact hp.constructor_defined_iff hparts hsort hc'
  | field did name =>
    obtain ⟨r, hr⟩ := Option.ne_none_iff_exists'.mp (hshown _ rfl)
    obtain ⟨id, hid, rfl⟩ := Option.map_eq_some_iff.mp hr
    obtain ⟨sort, hsort, hhead⟩ := Option.bind_eq_some_iff.mp hid
    obtain ⟨c, hc, hfield⟩ := Option.bind_eq_some_iff.mp hhead
    obtain ⟨rest, rfl⟩ := List.head?_eq_some_iff.mp hc
    simp only [BodyUse.Shows, hid, Option.map_some, Option.some.injEq, forall_eq]
    exact hp.selector_defined_iff hparts hsort hfield
  | type d ty =>
    constructor
    · intro h e he
      obtain ⟨r, hr⟩ := Option.ne_none_iff_exists'.mp (hshown _ ⟨e, he, rfl⟩)
      obtain ⟨id, hid, rfl⟩ := Option.map_eq_some_iff.mp hr
      exact (hp.sort_defined_iff hid).mp (h _ ⟨e, he, hr.symm⟩)
    · rintro h r ⟨e, he, hr⟩
      obtain ⟨id, hid, rfl⟩ := Option.map_eq_some_iff.mp hr.symm
      exact (hp.sort_defined_iff hid).mpr (h e he)

/-- The references of a definition are defined if all that it uses is. -/
theorem ProgramOf.refs_defined_iff (hparts : PartsOwned tcx) {rs : List Ref} {us : List BodyUse}
    (hrefs : RefsAre tcx s.didId rs us)
    (hcallee : ∀ d ∈ callees us, d.isLocal = false → d ∈ v.externals tcx) :
    (∀ r ∈ rs, r.Defined p) ↔ ∀ u ∈ us, u.Defined tcx v := by
  have hiff : ∀ u ∈ us, (∀ r, u.Shows tcx s.didId (some r) → r.Defined p) ↔ u.Defined tcx v := by
    intro u hu
    refine hp.defined_iff hparts (fun o ho hnone => ?_) fun d hd => ?_
    · obtain ⟨r, -, hr⟩ := hrefs.ref hu ho
      rw [hnone] at hr
      cases hr
    · exact hcallee d (List.mem_filterMap.mpr ⟨u, hu, hd⟩)
  constructor
  · intro h u hu
    refine (hiff u hu).mp fun r hr => ?_
    obtain ⟨r', hr', heq⟩ := hrefs.ref hu hr
    obtain rfl := Option.some.inj heq
    exact h r hr'
  · intro h r hr
    obtain ⟨u, hu, hshows⟩ := hrefs.use hr
    exact (hiff u hu).mpr (h u hu) r hshows

end Defined

/-! ## Closed programs -/

/-- Types call nothing. -/
theorem callees_nil {us : List BodyUse} (h : ∀ u ∈ us, ∃ d ty, u = .type d ty) :
    callees us = [] := by
  rw [callees, List.filterMap_eq_nil_iff]
  intro u hu
  obtain ⟨d, ty, rfl⟩ := h u hu
  rfl

theorem callees_adtUses (d : DefId) : callees (adtUses tcx d) = [] := by
  refine callees_nil fun u hu => ?_
  obtain ⟨a, -, hu⟩ := List.mem_flatMap.mp hu
  obtain ⟨v, -, hu⟩ := List.mem_flatMap.mp hu
  obtain ⟨f, -, rfl⟩ := List.mem_map.mp hu
  exact ⟨d, f.ty, rfl⟩

theorem callees_stubUses (d : DefId) : callees (stubUses tcx d) = [] := by
  refine callees_nil fun u hu => ?_
  rcases List.mem_append.mp hu with hu | hu
  · obtain ⟨ty, -, rfl⟩ := List.mem_map.mp hu
    exact ⟨d, ty, rfl⟩
  · exact ⟨d, _, List.mem_singleton.mp hu⟩

theorem callees_signatureUses (f : DefId) : callees (signatureUses tcx f) = [] := by
  refine callees_nil fun u hu => ?_
  rcases List.mem_append.mp hu with hu | hu
  · obtain ⟨h, -, hu⟩ := List.mem_flatMap.mp hu
    obtain ⟨ty, -, rfl⟩ := List.mem_map.mp hu
    exact ⟨_, ty, rfl⟩
  · exact ⟨f, _, List.mem_singleton.mp hu⟩

/-- All that a function calls is met in its bodies. -/
theorem callees_fnUses {f : DefId} {specs : FnSpecs} {d : DefId}
    (h : d ∈ callees (fnUses tcx f specs)) : d ∈ callees (metUses tcx f specs) := by
  have hkept : ∀ {m : Option DefId}, d ∈ callees (specUses tcx f none (keptMeasure tcx m)) →
      d ∈ callees (specUses tcx f none m.toList) := by
    intro m hd
    obtain ⟨u, hu, hd⟩ := List.mem_filterMap.mp hd
    obtain ⟨spec, hspec, hu⟩ := List.mem_flatMap.mp hu
    exact List.mem_filterMap.mpr
      ⟨u, List.mem_flatMap.mpr ⟨spec, List.mem_of_mem_filter hspec, hu⟩, hd⟩
  rw [fnUses] at h
  rw [metUses]
  simp only [callees_append, callees_signatureUses, List.nil_append, List.mem_append] at h ⊢
  rcases h with ((h | h) | h) | h
  · exact .inl (.inl (.inl h))
  · exact .inl (.inl (.inr (hkept h)))
  · exact .inl (.inr h)
  · exact .inr h

/-- A program is closed if the visitor has all that the crate uses, and only then. -/
theorem ProgramOf.closed_iff {v : ItemVisitor} {s : Extraction} {p : St.Symbols}
    (hp : ProgramOf tcx v s p) (hparts : PartsOwned tcx) :
    p.Closed ↔ ∀ u ∈ v.uses tcx, u.Defined tcx v := by
  have hsort : ∀ {d : DefId} {sort : ADTSort}, SortImage tcx s.didId d sort →
      ((∀ r ∈ sort.refs, r.Defined p) ↔ ∀ u ∈ adtUses tcx d, u.Defined tcx v) := by
    intro d sort himg
    exact hp.refs_defined_iff hparts himg.refsAre (by simp [callees_adtUses])
  have hfn : ∀ {f : FnItem} {fd : FunDef}, f ∈ v.functions →
      RefsAre tcx s.didId fd.refs (fnUses tcx f.defId (v.fnSpecs f.defId)) →
      ((∀ r ∈ fd.refs, r.Defined p) ↔
        ∀ u ∈ fnUses tcx f.defId (v.fnSpecs f.defId), u.Defined tcx v) := by
    intro f fd hf hrefs
    refine hp.refs_defined_iff hparts hrefs fun d hd hlocal => ?_
    refine List.mem_filter.mpr ⟨List.mem_flatMap.mpr ⟨f, hf, callees_fnUses hd⟩, ?_⟩
    simp [hlocal]
  have hstub : ∀ {d : DefId} {fd : FunDef}, RefsAre tcx s.didId fd.refs (stubUses tcx d) →
      ((∀ r ∈ fd.refs, r.Defined p) ↔ ∀ u ∈ stubUses tcx d, u.Defined tcx v) := fun hrefs =>
    hp.refs_defined_iff hparts hrefs (by simp [callees_stubUses])
  simp only [St.Symbols.Closed, St.Symbols.refs, ItemVisitor.uses, List.forall_mem_append,
    List.forall_mem_flatMap]
  constructor
  · rintro ⟨hsorts, hfns⟩
    refine ⟨⟨fun d hd => ?_, fun f hf => ?_⟩, fun d hd => ?_⟩
    · obtain ⟨sort, hmem, himg⟩ := hp.sort d hd
      exact (hsort himg).mp (hsorts sort hmem)
    · obtain ⟨fd, hmem, -, hrefs⟩ := hp.function f hf
      exact (hfn hf hrefs).mp (hfns fd hmem)
    · obtain ⟨fd, hmem, -, hrefs⟩ := hp.stub d hd
      exact (hstub hrefs).mp (hfns fd hmem)
  · rintro ⟨⟨hadts, hfns⟩, hstubs⟩
    refine ⟨fun sort hmem => ?_, fun fd hmem => ?_⟩
    · obtain ⟨d, hd, himg⟩ := hp.sorts sort hmem
      exact (hsort himg).mpr (hadts d hd)
    · rcases hp.functions fd hmem with ⟨f, hf, -, hrefs⟩ | ⟨d, hd, -, hrefs⟩
      · exact (hfn hf hrefs).mpr (hfns f hf)
      · exact (hstub hrefs).mpr (hstubs d hd)

/-- **When the program of a crate is closed.** -/
theorem symbols_closed_iff (hok : TcxOk tcx) (hparts : PartsOwned tcx) {krate : Hir.Crate}
    (hk : KrateOk tcx krate) (hbodies : BodiesOk tcx (.ofKrate tcx krate)) {s : Extraction}
    (h : processCrate tcx krate .new = .ok ((), s)) (hn : s.NoErrors) :
    (s.symbols tcx).Closed ↔
      ∀ u ∈ (ItemVisitor.ofKrate tcx krate).uses tcx, u.Defined tcx (.ofKrate tcx krate) :=
  (processCrate_programOf hok hk hbodies h hn).closed_iff hparts

/-- **Which functions the program has:** one for each function of the visitor, and one stub for each
function of another crate that a body calls. -/
theorem symbols_functions (hok : TcxOk tcx) {krate : Hir.Crate} (hk : KrateOk tcx krate)
    (hbodies : BodiesOk tcx (.ofKrate tcx krate)) {s : Extraction}
    (h : processCrate tcx krate .new = .ok ((), s)) (hn : s.NoErrors) :
    ∃ externals, externals.Nodup ∧
      (∀ d, d ∈ externals ↔ d ∈ (ItemVisitor.ofKrate tcx krate).externals tcx) ∧
      ((s.symbols tcx).functions.values.map fun fd => some fd.id).Perm
        (((ItemVisitor.ofKrate tcx krate).functions.map FnItem.defId ++ externals).map
          s.didId) := by
  obtain ⟨externals, hmem, entries, stubs, hfns, hentries, hstubs⟩ :=
    processCrate_functions hok hk hbodies h hn
  have hids : ∀ {ds : List DefId} {es : Assoc Int FunDef},
      List.Forall₂ (fun d e => s.didId d = some e.2.id) ds es →
      es.values.map (fun fd => some fd.id) = ds.map s.didId := by
    intro ds es hforall
    induction hforall with
    | nil => rfl
    | cons hd _ ih =>
      rw [Assoc.values, List.map_cons, List.map_cons, List.map_cons, hd]
      exact congrArg _ ih
  have hall : List.Forall₂ (fun d e => s.didId d = some e.2.id)
      ((ItemVisitor.ofKrate tcx krate).functions.map FnItem.defId ++ externals) s.functions := by
    rw [hfns]
    refine List.rel_append ?_ (hstubs.imp fun _ _ h => h.id)
    rw [List.forall₂_map_left_iff]
    refine hentries.imp fun f e he => ?_
    obtain ⟨-, -, p, himg⟩ := he
    exact himg.id
  obtain ⟨ops, trace, hops⟩ := processCrate_byOps krate .new () s h
  have htrace : TraceOk tcx trace s := by simpa using (TraceOk.new tcx).run ops hops
  have hnodup : externals.Nodup := by
    have hkeys := (keyed_values_nodup htrace.functions).map (Option.some_injective Int)
    have hvalues : (s.functions.values.map fun fd => some fd.id).Nodup := by
      refine List.Nodup.of_map (Option.map SymbolIdentifier.globalId) ?_
      simpa only [List.map_map, Function.comp_def, Option.map_some] using hkeys
    rw [hids hall] at hvalues
    exact (List.nodup_append.mp (hvalues.of_map _)).2.1
  refine ⟨externals, hnodup, hmem, ?_⟩
  rw [← hids hall]
  exact (symbols_perm h).2.map _

/-! ## A function with a call -/

/-- `struct S;` is `0`, and `fn f() -> S { callee() }` is `1`. -/
def callsTcx (callee : DefId) : Tcx :=
  { Tcx.empty with
    defKind := fun d => if d = ⟨0, 0⟩ then .adt else if d = ⟨0, 2⟩ then .ctor else .fn
    defPathStr := fun d => if d = ⟨0, 1⟩ then "f" else if d.isLocal then "S" else "g"
    adtDefs := [{ did := ⟨0, 0⟩, isBox := false, variants := [{ defId := ⟨0, 0⟩, fields := [] }] }]
    fnSig := fun _ => { inputs := [], output := .adt ⟨0, 0⟩ [] }
    bodyOf := fun _ =>
      { params := []
        pats := []
        value := .call (.adt ⟨0, 0⟩ []) (.fnDef callee []) [] } }

def callsKrate : Hir.Crate where
  items :=
    [{ defId := ⟨0, 0⟩, ident := { name := "S", ctxt := 0 }, kind := .struct },
      { defId := ⟨0, 1⟩, ident := { name := "f", ctxt := 0 }, kind := .fn false }]
  traitItems := []
  otherImplItems := []

section Calls

variable {c : DefId}

theorem callsTcx_adtDef {d : DefId} {a : AdtDef} (h : (callsTcx c).adtDef d = some a) :
    d = ⟨0, 0⟩ ∧ a.variants = [{ defId := ⟨0, 0⟩, fields := [] }] := by
  have hmem := Tcx.adtDef_mem h
  rw [callsTcx, List.mem_singleton] at hmem
  subst hmem
  exact ⟨(Tcx.adtDef_did h).symm, rfl⟩

theorem callsTcx_ok : TcxOk (callsTcx c) := by
  refine .of_noFields (fun _ => rfl) (fun _ => rfl) (fun _ => rfl) ?_
  intro a ha
  rw [callsTcx, List.mem_singleton] at ha
  subst ha
  exact ⟨rfl, by simp⟩

theorem callsTcx_partsOwned : PartsOwned (callsTcx c) where
  variants := fun _ _ _ _ h h' _ _ _ _ _ =>
    (callsTcx_adtDef h).1.trans (callsTcx_adtDef h').1.symm
  fields := fun _ _ _ _ h h' _ _ _ _ _ _ _ _ _ =>
    (callsTcx_adtDef h).1.trans (callsTcx_adtDef h').1.symm

theorem callsKrate_ok : KrateOk (callsTcx c) callsKrate where
  items := by decide
  fns := by decide
  idents := by simp [callsKrate]
  adt := by
    intro item hitem hadt
    rcases List.mem_pair.mp hitem with rfl | rfl
    · exact ⟨rfl, _, rfl⟩
    · simp [IsAdtItem] at hadt
  all_adts := by
    rintro d - ⟨a, ha⟩
    obtain ⟨rfl, -⟩ := callsTcx_adtDef ha
    exact ⟨_, List.mem_cons_self, rfl, .inl (.inr rfl)⟩
  fn := by
    intro d hd
    rw [show krateFns callsKrate = [⟨0, 1⟩] from rfl, List.mem_singleton] at hd
    subst hd
    exact ⟨rfl, rfl, rfl⟩

/-- The callee is a function of another crate, or the constructor of a tuple struct. -/
def IsCallee (c : DefId) : Prop := c = ⟨1, 5⟩ ∨ c = ⟨0, 2⟩

theorem callsKrate_callees (hc : IsCallee c) :
    (ItemVisitor.ofKrate (callsTcx c) callsKrate).callees (callsTcx c) = [c] := by
  rcases hc with rfl | rfl <;> rfl

theorem callsKrate_bodyOk (hc : IsCallee c) (d : DefId) : BodyOk (callsTcx c) d where
  value := by
    refine ⟨fun did substs heq => ⟨?_, ?_⟩, trivial⟩
    · intro item hitem
      cases hitem
    · obtain ⟨rfl, rfl⟩ := Ty.fnDef.inj heq
      intro hbox
      rcases hc with rfl | rfl <;> exact absurd hbox (by decide)
  bindings := by
    intro h ty ty' hty
    cases hty

theorem callsKrate_bodiesOk (hc : IsCallee c) :
    BodiesOk (callsTcx c) (.ofKrate (callsTcx c) callsKrate) where
  fns := fun _ _ => callsKrate_bodyOk hc _
  specs := fun _ _ d _ => callsKrate_bodyOk hc d
  callees := by
    rw [callsKrate_callees hc]
    rcases hc with rfl | rfl <;> simp [callsTcx, IsFnLike, Tcx.empty]

theorem tyUses_struct {d e : DefId} (h : TyUses (callsTcx c) d (.adt ⟨0, 0⟩ []) e) :
    e = ⟨0, 0⟩ := by
  cases h with
  | adt => rfl
  | adtArg _ hty => cases hty

end Calls

/--
A stub closes the program; the constructor of a tuple struct, called as a function, leaves it open.
-/
theorem symbols_closed_iff_calls :
    (∃ s, processCrate (callsTcx ⟨1, 5⟩) callsKrate .new = .ok ((), s) ∧
      (s.symbols (callsTcx ⟨1, 5⟩)).Closed) ∧
    ∃ s, processCrate (callsTcx ⟨0, 2⟩) callsKrate .new = .ok ((), s) ∧ s.NoErrors ∧
      ¬ (s.symbols (callsTcx ⟨0, 2⟩)).Closed := by
  have hexternal : IsCallee ⟨1, 5⟩ := .inl rfl
  have hctor : IsCallee ⟨0, 2⟩ := .inr rfl
  obtain ⟨s, h, hn⟩ : ∃ s, processCrate (callsTcx ⟨1, 5⟩) callsKrate .new = .ok ((), s) ∧
      s.NoErrors := ⟨_, rfl, by decide⟩
  obtain ⟨t, h', hn'⟩ : ∃ s, processCrate (callsTcx ⟨0, 2⟩) callsKrate .new = .ok ((), s) ∧
      s.NoErrors := ⟨_, rfl, by decide⟩
  refine ⟨⟨s, h, ?_⟩, t, h', hn', fun hclosed => ?_⟩
  · rw [symbols_closed_iff callsTcx_ok callsTcx_partsOwned callsKrate_ok
      (callsKrate_bodiesOk hexternal) h hn]
    have huses : (ItemVisitor.ofKrate (callsTcx ⟨1, 5⟩) callsKrate).uses (callsTcx ⟨1, 5⟩) =
        [.type ⟨0, 1⟩ (.adt ⟨0, 0⟩ []), .callee ⟨1, 5⟩, .type ⟨1, 5⟩ (.adt ⟨0, 0⟩ [])] := rfl
    rw [huses]
    intro u hu
    simp only [List.mem_cons, List.not_mem_nil, or_false] at hu
    rcases hu with rfl | rfl | rfl
    · exact fun e he => tyUses_struct he ▸ List.mem_cons_self
    · intro hlocal
      cases hlocal
    · exact fun e he => tyUses_struct he ▸ List.mem_cons_self
  · rw [symbols_closed_iff callsTcx_ok callsTcx_partsOwned callsKrate_ok
      (callsKrate_bodiesOk hctor) h' hn'] at hclosed
    have huse : BodyUse.callee ⟨0, 2⟩ ∈
        (ItemVisitor.ofKrate (callsTcx ⟨0, 2⟩) callsKrate).uses (callsTcx ⟨0, 2⟩) :=
      List.mem_cons_of_mem _ List.mem_cons_self
    exact absurd (hclosed _ huse rfl) (by decide)

/-- The function and the stub of its callee. -/
theorem symbols_functions_calls :
    ∃ s, processCrate (callsTcx ⟨1, 5⟩) callsKrate .new = .ok ((), s) ∧
      ∃ externals, externals.Nodup ∧ (∀ d, d ∈ externals ↔ d ∈ [DefId.mk 1 5]) ∧
        ((s.symbols (callsTcx ⟨1, 5⟩)).functions.values.map fun fd => some fd.id).Perm
          ((⟨0, 1⟩ :: externals).map s.didId) := by
  obtain ⟨s, h, hn⟩ : ∃ s, processCrate (callsTcx ⟨1, 5⟩) callsKrate .new = .ok ((), s) ∧
      s.NoErrors := ⟨_, rfl, by decide⟩
  exact ⟨s, h, symbols_functions callsTcx_ok callsKrate_ok (callsKrate_bodiesOk (.inl rfl)) h hn⟩

end Stainless
