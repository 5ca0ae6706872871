import RustStainless.Extraction.ByRules
import RustStainless.Macros.SpecOrder

/-!
# Every spec at its function

In a crate whose spec attributes were expanded, each function is extracted with its own specs, each
of them once, as long as the methods with specs have names in the root context and no other function
out of an expansion has the name of a spec function.
-/

namespace StainlessMacros

open Stainless Rustc St Lib

/-! ## Crates with spec attributes -/

/-- All functions of an item, as the extractor sees them. -/
def itemFnItems (item : Hir.Item) : List FnItem :=
  match item.kind with
  | .fn fromExpansion => [FnItem.new item.defId item.ident fromExpansion]
  | .impl items => (assocFns items).values
  | _ => []

def krateFnItems (krate : Hir.Crate) : List FnItem := krate.items.flatMap itemFnItems

/-- The body of the function of a measure: the expression with a `;`, maybe in scopes. -/
inductive MeasureBody : Hair.Expr → Prop
  | block {ty e} : MeasureBody (.block ty true [.expr e] none)
  | scope {ty e} : MeasureBody e → MeasureBody (.scope ty e)
  | neverToAny {ty e} : MeasureBody e → MeasureBody (.neverToAny ty e)

/--
The functions that were written in the crate, each with its spec attributes. Every other function of
the crate is the spec function of an attribute.
-/
structure SpecdKrate (tcx : Tcx) (krate : Hir.Crate) (fns : List SpecdFn) : Prop where
  distinct : (fns.map SpecdFn.defId).Nodup
  routes : ∀ f ∈ fns, Route tcx krate f
  all : ∀ g ∈ krateFnItems krate,
    (∃ f ∈ fns, g.defId = f.defId) ∨ ∃ f ∈ fns, ∃ a ∈ f.attrs, g.defId = a.specFn
  measures : ∀ f ∈ fns, ∀ d ∈ f.specsOf .measure, MeasureBody (tcx.bodyOf d).value

/-- When the two routes find the specs: a method with specs has its name in the root context, and no
function that was written is out of an expansion and has the name of a spec function. -/
structure SpecsFindable (krate : Hir.Crate) (fns : List SpecdFn) : Prop where
  root : ∀ f ∈ fns, f.hasSelf = true → f.attrs ≠ [] → f.ident.ctxt = 0
  plain : ∀ g ∈ krateFnItems krate, (∃ f ∈ fns, g.defId = f.defId) → g.isSpecFn = false

/--
`Ensuring(Require(Decreases(body)))`. A layer is there if the function has a spec of its kind, and
its predicates are the bodies of the function's own specs, each once; the measure is the expression
in the body of its spec.
-/
structure Layered (tcx : Tcx) (w : View) (f : SpecdFn) (fd : FunDef) (p : FnParts) : Prop where
  fullBody : p.Layers fd.fullBody
  body : BodyImage tcx w (tcx.bodyOf f.defId) { txtcx := p.txtcx, vars := [] } p.vars p.bodyExpr
  pre : ∃ ds, ds.Perm (f.specsOf .pre) ∧
    List.Forall₂ (SpecImage tcx w p.txtcx fd.params none) ds p.preExprs
  post : ∃ ds, ds.Perm (f.specsOf .post) ∧
    List.Forall₂ (SpecImage tcx w p.txtcx fd.params (some p.returnVar)) ds p.postExprs
  measure : (f.specsOf .measure = [] ∧ p.measure = none) ∨
    ∃ d t, f.specsOf .measure = [d] ∧
      SpecImage tcx w p.txtcx fd.params none d (.block [t] .unitLiteral) ∧
      p.measure = some (.block [] t)

/-! ## What is found is what was written -/

variable {tcx : Tcx} {krate : Hir.Crate} {fns : List SpecdFn}

theorem itemFns_eq (item : Hir.Item) : itemFns item = (itemFnItems item).map FnItem.defId := by
  unfold itemFns itemFnItems
  cases item.kind <;> simp

/-- A function of the crate is known by its `DefId`. -/
theorem krateFnItems_inj (hk : KrateOk tcx krate) {g g' : FnItem} (hg : g ∈ krateFnItems krate)
    (hg' : g' ∈ krateFnItems krate) (h : g.defId = g'.defId) : g = g' := by
  have hnd : ((krateFnItems krate).map FnItem.defId).Nodup := by
    have := hk.fns
    rwa [krateFns, show itemFns = fun item => (itemFnItems item).map FnItem.defId from
      funext itemFns_eq, ← List.map_flatMap] at this
  exact List.inj_on_of_nodup_map hnd hg hg' h

/-- A nested spec function is an item of its own. -/
theorem exists_nestedItem {f : SpecdFn} {a : SpecAttr} (ha : a ∈ f.attrs) :
    ∃ item ∈ f.nestedItems, item.kind = .fn true ∧
      FnItem.new item.defId item.ident true = a.fnItem f.ident.name := by
  have hmem : a.fnItem f.ident.name ∈
      (attrIdents f.ident.name 0 f.attrs).map fun p => FnItem.new p.1 p.2 true := by
    rw [fnItem_attrIdents]
    exact List.mem_map.mpr ⟨a, ha, rfl⟩
  obtain ⟨p, hp, heq⟩ := List.mem_map.mp hmem
  exact ⟨_, List.mem_map.mpr ⟨p, hp, rfl⟩, rfl, heq⟩

/-- A spec function is a function of the crate. -/
theorem Route.fnItem_mem {f : SpecdFn} (h : Route tcx krate f) {a : SpecAttr} (ha : a ∈ f.attrs) :
    a.fnItem f.ident.name ∈ krateFnItems krate := by
  cases h with
  | nested _ _ hitems _ =>
    obtain ⟨item, hitem, hkind, heq⟩ := exists_nestedItem ha
    refine List.mem_flatMap.mpr ⟨item, hitems.subset hitem, ?_⟩
    rw [itemFnItems, hkind]
    exact List.mem_singleton.mpr heq.symm
  | sibling _ hitem hkind hsub =>
    refine List.mem_flatMap.mpr ⟨_, hitem, ?_⟩
    rw [itemFnItems, hkind]
    exact (fnItem_mem_values hsub).subset (List.mem_map.mpr ⟨a, ha, rfl⟩)

section Found

variable (hk : KrateOk tcx krate) (hs : SpecdKrate tcx krate fns) (hfind : SpecsFindable krate fns)

include hk hs hfind

/-- A spec function of the crate is one of an attribute. -/
theorem exists_attr {g : FnItem} (hg : g ∈ krateFnItems krate) (hspec : g.isSpecFn = true) :
    ∃ f ∈ fns, ∃ a ∈ f.attrs, g = a.fnItem f.ident.name := by
  rcases hs.all g hg with huser | ⟨f, hf, a, ha, hd⟩
  · rw [hfind.plain g hg huser] at hspec
    cases hspec
  · exact ⟨f, hf, a, ha, krateFnItems_inj hk hg ((hs.routes f hf).fnItem_mem ha) hd⟩

theorem mem_specsOf_of_mem_itemSpecs {item : Hir.Item} (hitem : item ∈ krate.items) {f : SpecdFn}
    (hf : f ∈ fns) {t : SpecType} {e : DefId} (he : e ∈ itemSpecs tcx t f.defId item) :
    e ∈ f.specsOf t := by
  have hsame : ∀ f' ∈ fns, f'.defId = f.defId → f' = f :=
    fun f' hf' h => List.inj_on_of_nodup_map hs.distinct hf' hf h
  have hspecs : ∀ {a : SpecAttr}, a ∈ f.attrs → a.typ = t → a.specFn ∈ f.specsOf t :=
    fun ha ht => List.mem_map.mpr ⟨_, List.mem_filter.mpr ⟨ha, by simpa using ht⟩, rfl⟩
  have hfn := itemSpecs_subset hk hitem he
  cases hkind : item.kind with
  | fn fromExpansion =>
    rw [itemSpecs, hkind] at he
    obtain ⟨g, hg, rfl⟩ := List.mem_map.mp he
    obtain ⟨hg, hp⟩ := List.mem_filter.mp hg
    simp only [Bool.and_eq_true, decide_eq_true_eq] at hp
    have hmem : g ∈ krateFnItems krate :=
      List.mem_flatMap.mpr ⟨item, hitem, by rw [itemFnItems, hkind]; exact hg⟩
    obtain ⟨f', hf', a, ha, rfl⟩ := exists_attr hk hs hfind hmem hp.1
    cases hs.routes f' hf' with
    | nested _ _ _ hparent =>
      have hd : some f'.defId = some f.defId := (hparent a ha).symm.trans hp.2.1
      obtain rfl := hsame f' hf' (Option.some.inj hd)
      exact hspecs ha (Option.some.inj hp.2.2)
    | @sibling item' items' _ _ hitem' hkind' hsub' =>
      -- A sibling does not stand in an item of its own.
      have hfn' : a.specFn ∈ itemFns item' := by
        rw [itemFns, hkind']
        exact List.mem_map.mpr
          ⟨_, (fnItem_mem_values hsub').subset (List.mem_map.mpr ⟨a, ha, rfl⟩), rfl⟩
      rw [item_of_fn hk hitem hitem' hfn hfn', hkind'] at hkind
      cases hkind
  | impl items =>
    rw [itemSpecs_impl hk hitem hkind] at he
    obtain ⟨g, hg, rfl⟩ := List.mem_map.mp he
    obtain ⟨hg, hp⟩ := List.mem_filter.mp hg
    rw [tcx.iterOrder.mem_iter] at hg
    have hmem : g ∈ krateFnItems krate :=
      List.mem_flatMap.mpr ⟨item, hitem, by rw [itemFnItems, hkind]; exact hg⟩
    obtain ⟨hspec, hfor⟩ := Bool.and_eq_true_iff.mp hp
    obtain ⟨f', hf', a, ha, rfl⟩ := exists_attr hk hs hfind hmem hspec
    cases hs.routes f' hf' with
    | nested _ _ hitems _ =>
      -- A nested function does not stand in an impl.
      obtain ⟨item', hitem', hkind', heq⟩ := exists_nestedItem ha
      have hfn' : a.specFn ∈ itemFns item' := by
        rw [itemFns, hkind', ← FnItem.new_defId item'.defId item'.ident true, heq]
        exact List.mem_singleton.mpr rfl
      rw [item_of_fn hk hitem (hitems.subset hitem') hfn hfn', hkind'] at hkind
      cases hkind
    | @sibling item' items' _ hself hitem' hkind' hsub' =>
      have hfn' : a.specFn ∈ itemFns item' := by
        rw [itemFns, hkind']
        exact List.mem_map.mpr
          ⟨_, (fnItem_mem_values hsub').subset (List.mem_map.mpr ⟨a, ha, rfl⟩), rfl⟩
      obtain rfl := item_of_fn hk hitem hitem' hfn hfn'
      obtain rfl : items = items' := by
        rw [hkind] at hkind'
        injection hkind'
      have hroot := hfind.root f' hf' hself (List.ne_nil_of_mem ha)
      obtain ⟨ht, hd⟩ := (isSpecFor_root hk hitem hkind hsub' hroot t f.defId a).mp hfor
      obtain rfl := hsame f' hf' hd
      exact hspecs ha ht
  | enum | struct | externCrate | use _ | other => simp [itemSpecs, hkind] at he

/-- **The specs that are found for a function are its own.** -/
theorem mem_specIds_iff {f : SpecdFn} (hf : f ∈ fns) {t : SpecType} {e : DefId} :
    e ∈ (ItemVisitor.ofKrate tcx krate).specIds t f.defId ↔ e ∈ f.specsOf t := by
  constructor
  · intro he
    rw [ofKrate_specIds] at he
    obtain ⟨item, hitem, he⟩ := List.mem_flatMap.mp he
    exact mem_specsOf_of_mem_itemSpecs hk hs hfind hitem hf he
  · intro he
    cases hs.routes f hf with
    | nested _ _ hitems hparent => exact (specsOf_sublist_nested hitems hparent t).subset he
    | @sibling item items _ hself hitem hkind hsub =>
      obtain ⟨a, ha, -⟩ := List.mem_map.mp he
      have hroot := hfind.root f hf hself (List.ne_nil_of_mem (List.mem_filter.mp ha).1)
      have himpl := (specsOf_sublist_impl hk hitem hkind hsub hroot t).subset he
      rw [ofKrate_specIds]
      refine List.mem_flatMap.mpr ⟨item, hitem, ?_⟩
      rw [itemSpecs_impl hk hitem hkind]
      refine (((tcx.iterOrder.perm _ _).filter _).map _).mem_iff.mpr himpl

end Found

/-- The spec functions of a function are different ones. -/
theorem specsOf_nodup (hk : KrateOk tcx krate) {f : SpecdFn} (h : Route tcx krate f)
    (t : SpecType) : (f.specsOf t).Nodup := by
  have hall : (f.attrs.map SpecAttr.specFn).Nodup := by
    have hattrs : f.attrs.map SpecAttr.specFn =
        (f.attrs.map (SpecAttr.fnItem f.ident.name)).map FnItem.defId := by
      rw [List.map_map]
      rfl
    rw [hattrs]
    cases h with
    | nested _ _ hitems _ =>
      rw [← fnItem_attrIdents f.ident.name 0 f.attrs, List.map_map]
      have hnested := (hitems.map Hir.Item.defId)
      rw [SpecdFn.nestedItems, List.map_map] at hnested
      have hdefs : (FnItem.defId ∘ fun p : DefId × Hir.Ident => FnItem.new p.1 p.2 true) =
          Prod.fst := funext fun p => FnItem.new_defId _ _ _
      rw [hdefs]
      exact hk.items.sublist hnested
    | sibling _ hitem hkind hsub =>
      have hfns := (List.nodup_flatMap.mp hk.fns).1 _ hitem
      rw [itemFns, hkind] at hfns
      exact hfns.sublist ((fnItem_mem_values hsub).map _)
  exact hall.sublist (List.filter_sublist.map _)

/-- The functions that were written are visited as functions. -/
theorem mem_functions (hk : KrateOk tcx krate) (hs : SpecdKrate tcx krate fns)
    (hfind : SpecsFindable krate fns) {f : SpecdFn} (hf : f ∈ fns) :
    ∃ g ∈ (ItemVisitor.ofKrate tcx krate).functions, g.defId = f.defId := by
  obtain ⟨item, hitem, hmem⟩ := List.mem_flatMap.mp (hs.routes f hf).mem_krateFns
  rw [itemFns_eq] at hmem
  obtain ⟨g, hg, hd⟩ := List.mem_map.mp hmem
  have hplain := hfind.plain g (List.mem_flatMap.mpr ⟨item, hitem, hg⟩) ⟨f, hf, hd⟩
  refine ⟨g, ?_, hd⟩
  rw [ofKrate_functions]
  refine List.mem_flatMap.mpr ⟨item, hitem, ?_⟩
  rw [itemFnItems] at hg
  rw [visitedFns]
  cases hkind : item.kind with
  | fn fromExpansion =>
    rw [hkind] at hg
    exact List.mem_filter.mpr ⟨hg, by simp [FnItem.isUserFn, hplain]⟩
  | impl items =>
    rw [hkind] at hg
    refine List.mem_filter.mpr ⟨(implFns_perm hk hitem hkind).mem_iff.mpr hg, ?_⟩
    rw [hplain]
    rfl
  | enum | struct | externCrate | use _ | other => simp [hkind] at hg

/-! ## Measures -/

/-- The function of a measure is extracted to a block that ends in the unit literal. -/
theorem MeasureBody.extracts {ids : Ids} {ctx : BodyCtxt} {e : Hair.Expr} (h : MeasureBody e) :
    ∀ {t : St.Expr}, ExprExtracts tcx ids ctx e t → ∃ t', t = .block [t'] .unitLiteral := by
  induction h with
  | block =>
    rintro t ⟨h⟩
    cases h with
    | block hlast hstmts =>
      cases hlast
      cases hstmts with
      | @expr _ t' _ _ _ _ _ hrest =>
        cases hrest
        exact ⟨t', rfl⟩
  | scope _ ih =>
    rintro t ⟨h⟩
    cases h with
    | scope h => exact ih h
  | neverToAny _ ih =>
    rintro t ⟨h⟩
    cases h with
    | neverToAny h => exact ih h

/-! ## The functions of the crate -/

/--
**No spec is lost, duplicated or attached to another function**: in a crate that is extracted
without an error, each function is `Ensuring(Require(Decreases(body)))` with the predicates of its
own specs.
-/
theorem layered_of_processCrate (hok : TcxOk tcx) (hk : KrateOk tcx krate)
    (hs : SpecdKrate tcx krate fns) (hfind : SpecsFindable krate fns) {s : Extraction}
    (hrun : processCrate tcx krate .new = .ok ((), s)) (hn : s.NoErrors) {f : SpecdFn}
    (hf : f ∈ fns) :
    (∃ e ∈ s.functions, s.didId f.defId = some e.2.id) ∧
      ∀ e ∈ s.functions, s.didId f.defId = some e.2.id → ∃ p, Layered tcx s.view f e.2 p := by
  have hroute := hs.routes f hf
  have hperm : ∀ t, ((ItemVisitor.ofKrate tcx krate).specIds t f.defId).Perm (f.specsOf t) :=
    fun t => (List.perm_ext_iff_of_nodup (specIds_nodup hk t f.defId)
      (specsOf_nodup hk hroute t)).mpr fun e => mem_specIds_iff hk hs hfind hf
  refine ⟨?_, fun e he hid => ?_⟩
  · obtain ⟨-, hex⟩ := processCrate_ok hok hk hrun hn
    obtain ⟨externals, entries, stubs, hfunctions, hentries, -, -⟩ := hex.functions
    obtain ⟨g, hg, hd⟩ := mem_functions hk hs hfind hf
    obtain ⟨e, he, -, -, p, himg⟩ := forall₂_mem_left hentries hg
    rw [hd] at himg
    exact ⟨e, by rw [hfunctions]; exact List.mem_append_left _ he, himg.id⟩
  · obtain ⟨p, himg, hone⟩ := fnImage_of_processCrate hok hk hrun hn hroute.mem_krateFns he hid
    have hlayers : p.Layers e.2.fullBody := himg.fullBody ▸ p.layers
    refine ⟨p, hlayers, himg.body, ⟨_, hperm .pre, himg.pre⟩, ⟨_, hperm .post, himg.post⟩, ?_⟩
    rcases hfound : (ItemVisitor.ofKrate tcx krate).specIds .measure f.defId with
      _ | ⟨d, _ | ⟨_, _⟩⟩
    · have hown := hperm .measure
      rw [hfound] at hown himg
      exact .inl ⟨hown.symm.eq_nil, himg.noMeasure rfl⟩
    · have hown := hperm .measure
      rw [hfound] at hown himg
      have hown := List.perm_singleton.mp hown.symm
      obtain ⟨t, hspec, hmeasure⟩ := himg.measure d rfl
      have hbody := hs.measures f hf d (by rw [hown]; exact List.mem_singleton.mpr rfl)
      obtain ⟨ctx, vars, hctx, hvalue⟩ := hspec
      obtain ⟨t', rfl⟩ := hbody.extracts (exprImage_extracts _ _ hvalue.expr)
      exact .inr ⟨d, t', hown, ⟨ctx, vars, hctx, hvalue⟩, (Except.ok.inj hmeasure).symm⟩
    · rw [hfound] at hone
      simp at hone

theorem twoPres_specdKrate (nested : Bool) :
    SpecdKrate (twoPresTcx nested) (twoPresKrate nested) [twoPres nested] where
  distinct := List.nodup_singleton _
  routes := by
    intro f hf
    rw [List.mem_singleton.mp hf]
    cases nested with
    | true => exact twoPres_nested
    | false => exact twoPres_sibling
  all := by cases nested <;> decide
  measures := by
    intro f hf d hd
    rw [List.mem_singleton.mp hf] at hd
    cases hd

/-- The function with two preconditions has a layer for them, and no other one. -/
def TwoPresLayered (nested : Bool) : Prop :=
  ∃ s, processCrate (twoPresTcx nested) (twoPresKrate nested) .new = .ok ((), s) ∧
    ∃ e ∈ s.functions, ∃ p, Layered (twoPresTcx nested) s.view (twoPres nested) e.2 p ∧
      ∃ t u, e.2.fullBody = .require (.and [t, u]) p.bodyExpr

/-- With the spec functions in the body of the function, and next to it. -/
theorem layered_twoPres : TwoPresLayered true ∧ TwoPresLayered false := by
  have hlayered : ∀ nested, TwoPresLayered nested := by
    intro nested
    obtain ⟨s, hrun, hn⟩ : ∃ s, processCrate (twoPresTcx nested) (twoPresKrate nested) .new =
        .ok ((), s) ∧ s.NoErrors := by
      cases nested <;> exact ⟨_, rfl, by decide⟩
    obtain ⟨⟨e, he, hid⟩, hall⟩ := layered_of_processCrate (twoPresTcx_ok nested)
      (twoPresKrate_ok nested) (twoPres_specdKrate nested)
      ⟨by cases nested <;> decide, by cases nested <;> decide⟩ hrun hn (List.mem_singleton.mpr rfl)
    obtain ⟨p, h⟩ := hall e he hid
    refine ⟨s, hrun, e, he, p, h, ?_⟩
    obtain ⟨ds, hds, hpre⟩ := h.pre
    obtain ⟨es, hes, hpost⟩ := h.post
    have hpres : p.preExprs.length = 2 := hpre.length_eq.symm.trans hds.length_eq
    have hposts : p.postExprs = [] :=
      List.length_eq_zero_iff.mp (hpost.length_eq.symm.trans hes.length_eq)
    have hmeasure : p.measure = none := by
      rcases h.measure with ⟨-, hnone⟩ | ⟨d, t, hd, -⟩
      · exact hnone
      · cases hd
    obtain ⟨t, u, hts⟩ := List.length_eq_two.mp hpres
    exact ⟨t, u, p.eq_require h.fullBody hmeasure hts hposts⟩
  exact ⟨hlayered true, hlayered false⟩

/-- The method `m` of `struct S`, out of a macro of the crate. -/
def macroMethod : SpecdFn :=
  { twoPres false with ident := { name := "m", ctxt := 2 } }

def macroMethodKrate : Hir.Crate where
  items :=
    [{ defId := ⟨0, 0⟩, ident := { name := "S", ctxt := 0 }, kind := .struct },
      { defId := ⟨0, 1⟩
        ident := { name := "", ctxt := 0 }
        kind := .impl (macroMethod.siblingItems true) }]
  traitItems := []
  otherImplItems := []

/-- With a name out of a macro, a method is extracted without its specs. -/
theorem not_layered_macroMethod :
    SpecdKrate (twoPresTcx false) macroMethodKrate [macroMethod] ∧
      ∃ s fd v, processCrate (twoPresTcx false) macroMethodKrate .new = .ok ((), s) ∧
        s.NoErrors ∧ s.functions.values = [fd] ∧ fd.fullBody = .variable v := by
  refine ⟨⟨List.nodup_singleton _, ?_, by decide, ?_⟩, _, _, _, rfl, by decide, rfl, rfl⟩
  · intro f hf
    rw [List.mem_singleton.mp hf]
    exact .sibling rfl (List.mem_cons_of_mem _ List.mem_cons_self) rfl (List.Sublist.refl _)
  · intro f hf d hd
    rw [List.mem_singleton.mp hf] at hd
    cases hd

end StainlessMacros
