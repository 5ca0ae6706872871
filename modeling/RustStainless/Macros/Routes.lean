import Mathlib.Data.List.Flatten
import RustStainless.Extraction.KrateImage
import RustStainless.Extraction.OrderedVisitor
import RustStainless.Macros.SpecNames

/-!
# Two routes from a spec to its function

A spec function that is nested in its function is found by its parent, one that is a sibling by the
name that is parsed from its own. What the visitor finds for a function is described item by item,
and compared with the spec attributes that the function was written with.
-/

namespace Stainless

open Rustc St Lib

variable {tcx : Tcx}

/-! ## The specs that are found -/

/-- The specs of a type that an item adds for the function `d`. -/
def itemSpecs (tcx : Tcx) (t : SpecType) (d : DefId) (item : Hir.Item) : List DefId :=
  match item.kind with
  | .fn fromExpansion =>
    ([FnItem.new item.defId item.ident fromExpansion].filter fun g =>
      g.isSpecFn && (tcx.parent g.defId = some d && g.specType = some t)).map FnItem.defId
  | .impl items =>
    (((implFns tcx item.defId items).filter FnItem.isSpecFn).filter
      (FnItem.isSpecFor (fnsByIdentifier items []) t d)).map FnItem.defId
  | _ => []

theorem visitFn_specIds (v : ItemVisitor) (g : FnItem) (t : SpecType) (d : DefId) :
    (v.visitFn tcx g).specIds t d = v.specIds t d ++
      ([g].filter fun g =>
        g.isSpecFn && (tcx.parent g.defId = some d && g.specType = some t)).map FnItem.defId := by
  unfold ItemVisitor.visitFn
  cases hp : tcx.parent g.defId with
  | none =>
    simp only [List.filter_singleton, hp, reduceCtorEq, decide_false, Bool.false_and,
      Bool.and_false, cond_false, List.map_nil, List.append_nil]
    rfl
  | some parent =>
    by_cases hs : g.isSpecFn = true
    · simp only [hs, if_true]
      rw [pushSpec_specIds]
      by_cases hd : parent = d <;> by_cases ht : g.specType = some t <;> simp [hs, hp, hd, ht]
    · simp only [hs, List.filter_singleton, Bool.false_and, cond_false, List.map_nil,
        List.append_nil]
      rfl

theorem visit_specIds (v : ItemVisitor) (item : Hir.Item) (t : SpecType) (d : DefId) :
    (v.visit tcx item).specIds t d = v.specIds t d ++ itemSpecs tcx t d item := by
  unfold ItemVisitor.visit itemSpecs
  cases hk : item.kind with
  | fn fromExpansion => exact visitFn_specIds v _ t d
  | impl items =>
    simp only [ItemVisitor.visitImpl, List.partition_eq_filter_filter]
    rw [foldl_matchSpec_specIds]
    rfl
  | enum | struct | externCrate | use _ | other => exact (List.append_nil _).symm

/-- **The specs of a function are those of the items, in their order.** -/
theorem ofKrate_specIds (krate : Hir.Crate) (t : SpecType) (d : DefId) :
    (ItemVisitor.ofKrate tcx krate).specIds t d = krate.items.flatMap (itemSpecs tcx t d) := by
  have key : ∀ (items : List Hir.Item) (v : ItemVisitor),
      (items.foldl (ItemVisitor.visit tcx) v).specIds t d =
        v.specIds t d ++ items.flatMap (itemSpecs tcx t d) := by
    intro items
    induction items with
    | nil => simp
    | cons item items ih =>
      intro v
      rw [List.foldl_cons, ih, visit_specIds, List.flatMap_cons, List.append_assoc]
  rw [ItemVisitor.ofKrate, key]
  exact List.nil_append _

/-! ## The items that add a spec -/

section Items

variable {krate : Hir.Crate} (hk : KrateOk tcx krate) {item : Hir.Item}

include hk

theorem implFns_perm (hitem : item ∈ krate.items) {items : List Hir.AssocItem}
    (hkind : item.kind = .impl items) :
    (implFns tcx item.defId items).Perm (assocFns items).values := by
  have h := fnsByIdentifier_eq (m := []) items
    (by simpa [Assoc.keys] using hk.idents item hitem items hkind)
  rw [implFns, h]
  exact tcx.iterOrder.perm _ _

theorem fnsByIdentifier_assocFns (hitem : item ∈ krate.items) {items : List Hir.AssocItem}
    (hkind : item.kind = .impl items) : fnsByIdentifier items [] = assocFns items := by
  have h := fnsByIdentifier_eq (m := []) items
    (by simpa [Assoc.keys] using hk.idents item hitem items hkind)
  rw [h, List.nil_append]

/-- The specs that an item adds are some of its functions. -/
theorem itemSpecs_subset {t : SpecType} {d : DefId} (hitem : item ∈ krate.items) :
    itemSpecs tcx t d item ⊆ itemFns item := by
  intro e he
  unfold itemSpecs at he
  unfold itemFns
  cases hkind : item.kind with
  | fn fromExpansion =>
    rw [hkind] at he
    obtain ⟨g, hg, rfl⟩ := List.mem_map.mp he
    rw [List.mem_singleton.mp (List.mem_filter.mp hg).1]
    simp
  | impl items =>
    rw [hkind] at he
    obtain ⟨g, hg, rfl⟩ := List.mem_map.mp he
    have hg := (List.mem_filter.mp (List.mem_filter.mp hg).1).1
    exact List.mem_map.mpr ⟨g, (implFns_perm hk hitem hkind).mem_iff.mp hg, rfl⟩
  | enum | struct | externCrate | use _ | other => simp [hkind] at he

theorem itemSpecs_nodup {t : SpecType} {d : DefId} (hitem : item ∈ krate.items) :
    (itemSpecs tcx t d item).Nodup := by
  unfold itemSpecs
  cases hkind : item.kind with
  | fn fromExpansion =>
    exact (List.nodup_singleton _).sublist
      ((List.filter_sublist (l := [FnItem.new item.defId item.ident fromExpansion])).map _)
  | impl items =>
    have hfns := (List.nodup_flatMap.mp hk.fns).1 item hitem
    rw [itemFns, hkind] at hfns
    refine List.Nodup.sublist ((List.filter_sublist.trans List.filter_sublist).map _) ?_
    exact (((implFns_perm hk hitem hkind).map FnItem.defId).nodup_iff).mpr hfns
  | enum | struct | externCrate | use _ | other => exact List.nodup_nil

/-- No spec is found twice. -/
theorem specIds_nodup (t : SpecType) (d : DefId) :
    ((ItemVisitor.ofKrate tcx krate).specIds t d).Nodup := by
  rw [ofKrate_specIds]
  refine List.nodup_flatMap.mpr ⟨fun item hitem => itemSpecs_nodup hk hitem, ?_⟩
  have hpair := (List.nodup_flatMap.mp hk.fns).2
  refine (List.Pairwise.and_mem.mp hpair).imp ?_
  rintro i j ⟨hi, hj, hdisj⟩
  exact fun e he he' => hdisj (itemSpecs_subset hk hi he) (itemSpecs_subset hk hj he')

/-- A function stands in one item only. -/
theorem item_of_fn {item' : Hir.Item} {e : DefId} (hitem : item ∈ krate.items)
    (hitem' : item' ∈ krate.items) (he : e ∈ itemFns item) (he' : e ∈ itemFns item') :
    item = item' := by
  by_contra hne
  have hsymm : Std.Symm (Function.onFun List.Disjoint itemFns) :=
    ⟨fun _ _ h => List.disjoint_symm h⟩
  exact (List.nodup_flatMap.mp hk.fns).2.forall hitem hitem' hne he he'

end Items

theorem assocFns_sublist {items items' : List Hir.AssocItem} (h : items.Sublist items') :
    (assocFns items).Sublist (assocFns items') := by
  induction h with
  | slnil => exact .slnil
  | cons item _ ih =>
    cases item with
    | fn d ident fromExpansion => exact ih.cons _
    | other => exact ih
  | cons_cons item _ ih =>
    cases item with
    | fn d ident fromExpansion => exact ih.cons_cons _
    | other => exact ih

end Stainless

namespace StainlessMacros

open Stainless Rustc St Lib

/-! ## Functions with spec attributes -/

/-- A spec attribute, as it is expanded: its type, the spec function, and the syntax context of the
name that the macro has made. -/
structure SpecAttr where
  typ : SpecType
  specFn : DefId
  ctxt : Nat
deriving DecidableEq

/-- A function with its spec attributes, in the order in which they are written. -/
structure SpecdFn where
  defId : DefId
  ident : Hir.Ident
  hasSelf : Bool
  attrs : List SpecAttr
deriving DecidableEq

/-- The spec functions of a type, in the order of the attributes. -/
def SpecdFn.specsOf (f : SpecdFn) (t : SpecType) : List DefId :=
  (f.attrs.filter fun a => a.typ = t).map SpecAttr.specFn

/-- The spec functions with their names. The first attribute has the index `i`. -/
def attrIdents (fnName : String) : Nat → List SpecAttr → List (DefId × Hir.Ident)
  | _, [] => []
  | i, a :: attrs =>
    (a.specFn, { name := specText a.typ (i + 1) fnName, ctxt := a.ctxt }) ::
      attrIdents fnName (i + 1) attrs

/-- The spec functions as items of a body. -/
def SpecdFn.nestedItems (f : SpecdFn) : List Hir.Item :=
  (attrIdents f.ident.name 0 f.attrs).map fun p =>
    { defId := p.1, ident := p.2, kind := .fn true }

/-- The spec functions and the function as items of an impl. -/
def SpecdFn.siblingItems (f : SpecdFn) (fromExpansion : Bool) : List Hir.AssocItem :=
  (attrIdents f.ident.name 0 f.attrs).map (fun p => .fn p.1 p.2 true) ++
    [.fn f.defId f.ident fromExpansion]

/-- Where the macro has put the spec functions: into the body of a function without a receiver, in
front of the others. Spec functions of the body have the function as their parent. -/
inductive Route (tcx : Tcx) (krate : Hir.Crate) (f : SpecdFn) : Prop
  | nested : f.hasSelf = false → f.defId ∈ krateFns krate → f.nestedItems.Sublist krate.items →
      (∀ a ∈ f.attrs, tcx.parent a.specFn = some f.defId) → Route tcx krate f
  | sibling {item : Hir.Item} {items : List Hir.AssocItem} {fromExpansion : Bool} :
      f.hasSelf = true → item ∈ krate.items → item.kind = .impl items →
      (f.siblingItems fromExpansion).Sublist items → Route tcx krate f

/-- The item that the extractor makes of a spec function. -/
def SpecAttr.fnItem (fnName : String) (a : SpecAttr) : FnItem where
  defId := a.specFn
  fromExpansion := true
  specType := some a.typ
  specFnName := some (identFromStr fnName)

theorem fnItem_attrIdents (fnName : String) : ∀ (i : Nat) (attrs : List SpecAttr),
    (attrIdents fnName i attrs).map (fun p => FnItem.new p.1 p.2 true) =
      attrs.map (SpecAttr.fnItem fnName)
  | _, [] => rfl
  | i, a :: attrs => by
    rw [attrIdents, List.map_cons, fnItem_attrIdents fnName (i + 1) attrs, FnItem.new,
      parse_specText]
    rfl

@[simp] theorem fnItem_isSpecFn (fnName : String) (a : SpecAttr) :
    (a.fnItem fnName).isSpecFn = true := rfl

/-! ## Nested specs -/

section

variable {tcx : Tcx} {krate : Hir.Crate} {f : SpecdFn}

/-- The specs of a function among the items of its body. -/
theorem nestedItems_specs (hparent : ∀ a ∈ f.attrs, tcx.parent a.specFn = some f.defId)
    (t : SpecType) : f.nestedItems.flatMap (itemSpecs tcx t f.defId) = f.specsOf t := by
  have hitems : f.nestedItems.flatMap (itemSpecs tcx t f.defId) =
      (((attrIdents f.ident.name 0 f.attrs).map fun p => FnItem.new p.1 p.2 true).filter fun g =>
        g.isSpecFn && (tcx.parent g.defId = some f.defId && g.specType = some t)).map
          FnItem.defId := by
    rw [SpecdFn.nestedItems]
    induction attrIdents f.ident.name 0 f.attrs with
    | nil => rfl
    | cons p ps ih =>
      rw [List.map_cons, List.flatMap_cons, ih, List.map_cons]
      show _ = List.map _ (List.filter _ ([FnItem.new p.1 p.2 true] ++ _))
      rw [List.filter_append, List.map_append]
      rfl
  rw [hitems, fnItem_attrIdents, List.filter_map, List.map_map, SpecdFn.specsOf]
  congr 1
  refine List.filter_congr fun a ha => ?_
  simp [SpecAttr.fnItem, FnItem.isSpecFn, hparent a ha]

/-- Nested specs are found in the order of the attributes. -/
theorem specsOf_sublist_nested (hitems : f.nestedItems.Sublist krate.items)
    (hparent : ∀ a ∈ f.attrs, tcx.parent a.specFn = some f.defId) (t : SpecType) :
    (f.specsOf t).Sublist ((ItemVisitor.ofKrate tcx krate).specIds t f.defId) := by
  rw [ofKrate_specIds, ← nestedItems_specs hparent t]
  exact hitems.flatMap _

/-! ## Siblings -/

theorem assocFns_siblingItems (fromExpansion : Bool) :
    (assocFns (f.siblingItems fromExpansion)).values = f.attrs.map (SpecAttr.fnItem f.ident.name) ++
      [FnItem.new f.defId f.ident fromExpansion] := by
  rw [← fnItem_attrIdents f.ident.name 0 f.attrs, SpecdFn.siblingItems]
  induction attrIdents f.ident.name 0 f.attrs with
  | nil => rfl
  | cons p ps ih =>
    rw [List.map_cons, List.cons_append, List.map_cons, List.cons_append, ← ih]
    rfl

theorem mem_assocFns_siblingItems (fromExpansion : Bool) :
    (f.ident, FnItem.new f.defId f.ident fromExpansion) ∈
      assocFns (f.siblingItems fromExpansion) := by
  rw [SpecdFn.siblingItems]
  induction attrIdents f.ident.name 0 f.attrs with
  | nil => exact List.mem_cons_self
  | cons p ps ih => exact List.mem_cons_of_mem _ ih

/-- The spec functions of the attributes are functions of the impl. -/
theorem fnItem_mem_values {items : List Hir.AssocItem} {fromExpansion : Bool}
    (hsub : (f.siblingItems fromExpansion).Sublist items) :
    (f.attrs.map (SpecAttr.fnItem f.ident.name)).Sublist (assocFns items).values := by
  have h : (assocFns (f.siblingItems fromExpansion)).values.Sublist (assocFns items).values :=
    (assocFns_sublist hsub).map Prod.snd
  rw [assocFns_siblingItems] at h
  exact (List.sublist_append_left _ _).trans h

section Siblings

variable (hk : KrateOk tcx krate) {item : Hir.Item} {items : List Hir.AssocItem}
  {fromExpansion : Bool} (hitem : item ∈ krate.items) (hkind : item.kind = .impl items)

include hk hitem hkind

/-- An entry of an impl is known by its function. -/
theorem assocFns_inj {e e' : Hir.Ident × FnItem} (he : e ∈ assocFns items)
    (he' : e' ∈ assocFns items) (h : e.2.defId = e'.2.defId) : e = e' := by
  have hfns := (List.nodup_flatMap.mp hk.fns).1 item hitem
  rw [itemFns, hkind] at hfns
  have hfns : ((assocFns items).map fun e => e.2.defId).Nodup := by
    simpa [Assoc.values, List.map_map, Function.comp_def] using hfns
  exact List.inj_on_of_nodup_map hfns he he' h

/-- In the root context, the name of the function is looked up as the function. -/
theorem isSpecFor_root (hsub : (f.siblingItems fromExpansion).Sublist items)
    (hroot : f.ident.ctxt = 0) (t : SpecType) (d : DefId) (a : SpecAttr) :
    (a.fnItem f.ident.name).isSpecFor (assocFns items) t d ↔ a.typ = t ∧ f.defId = d := by
  have hmem := (assocFns_sublist hsub).subset (mem_assocFns_siblingItems (f := f) fromExpansion)
  have hident : identFromStr f.ident.name = f.ident := by rw [identFromStr, ← hroot]
  have hname : (assocFns items).get? (identFromStr f.ident.name) =
      some (FnItem.new f.defId f.ident fromExpansion) := by
    rw [hident]
    exact Assoc.get?_of_mem (hk.idents item hitem items hkind) hmem
  rw [FnItem.isSpecFor, Bool.and_eq_true, decide_eq_true_iff, decide_eq_true_iff]
  show some a.typ = some t ∧ ((assocFns items).get? (identFromStr f.ident.name)).map FnItem.defId =
    some d ↔ _
  rw [hname, Option.map_some, FnItem.new_defId, Option.some_inj, Option.some_inj]

/-- Is the item found as a spec for its function? -/
theorem isSpecFor_iff (hsub : (f.siblingItems fromExpansion).Sublist items) (t : SpecType)
    (a : SpecAttr) : (a.fnItem f.ident.name).isSpecFor (assocFns items) t f.defId ↔
      a.typ = t ∧ f.ident.ctxt = 0 := by
  constructor
  · intro h
    rw [FnItem.isSpecFor, Bool.and_eq_true, decide_eq_true_iff, decide_eq_true_iff] at h
    obtain ⟨g, hg, hd⟩ := Option.map_eq_some_iff.mp h.2
    have hmem := (assocFns_sublist hsub).subset (mem_assocFns_siblingItems (f := f) fromExpansion)
    have he := assocFns_inj hk hitem hkind (Assoc.mem_of_get? hg) hmem (by simpa using hd)
    exact ⟨Option.some_inj.mp h.1, (congrArg (fun e => e.1.ctxt) he).symm⟩
  · rintro ⟨ht, hroot⟩
    exact (isSpecFor_root hk hitem hkind hsub hroot t f.defId a).mpr ⟨ht, rfl⟩

/-- The siblings that an impl adds for the function, in the order of its hash map. -/
theorem itemSpecs_impl (t : SpecType) (d : DefId) : itemSpecs tcx t d item =
    ((tcx.iterOrder.iter (.fnsByIdentifier item.defId) (assocFns items).values).filter fun g =>
      g.isSpecFn && g.isSpecFor (assocFns items) t d).map FnItem.defId := by
  have hfns := fnsByIdentifier_assocFns hk hitem hkind
  simp only [itemSpecs, hkind, implFns, hfns, List.filter_filter, Bool.and_comm]

/-- The spec functions of the attributes, as they stand in the impl. -/
theorem specsOf_sublist_impl (hsub : (f.siblingItems fromExpansion).Sublist items)
    (hroot : f.ident.ctxt = 0) (t : SpecType) :
    (f.specsOf t).Sublist (((assocFns items).values.filter fun g =>
      g.isSpecFn && g.isSpecFor (assocFns items) t f.defId).map FnItem.defId) := by
  have hfilter : (f.attrs.map (SpecAttr.fnItem f.ident.name)).filter
      (fun g => g.isSpecFn && g.isSpecFor (assocFns items) t f.defId) =
      (f.attrs.filter fun a => a.typ = t).map (SpecAttr.fnItem f.ident.name) := by
    rw [List.filter_map]
    congr 1
    refine List.filter_congr fun a _ => ?_
    have := isSpecFor_iff hk hitem hkind hsub t a
    simp only [Function.comp, fnItem_isSpecFn, Bool.true_and]
    rw [Bool.eq_iff_iff, this, decide_eq_true_eq, and_iff_left hroot]
  have h := ((fnItem_mem_values hsub).filter
    fun g => g.isSpecFn && g.isSpecFor (assocFns items) t f.defId).map
    FnItem.defId
  rw [hfilter, List.map_map] at h
  exact h

end Siblings

end

/-- A function with spec attributes is a function of the crate. -/
theorem Route.mem_krateFns {tcx : Tcx} {krate : Hir.Crate} {f : SpecdFn} (h : Route tcx krate f) :
    f.defId ∈ krateFns krate := by
  cases h with
  | nested _ hf _ _ => exact hf
  | sibling _ hitem hkind hsub =>
    refine List.mem_flatMap.mpr ⟨_, hitem, ?_⟩
    have hmem := (assocFns_sublist hsub).subset (mem_assocFns_siblingItems (f := f) _)
    rw [itemFns, hkind]
    exact List.mem_map.mpr ⟨_, List.mem_map.mpr ⟨_, hmem, rfl⟩, FnItem.new_defId _ _ _⟩

/-! ## The functions of a run -/

section Run

variable {tcx : Tcx} {krate : Hir.Crate} (hok : TcxOk tcx) (hk : KrateOk tcx krate)

include hok hk

/-- A function of the crate is extracted with the specs that the visitor has found for it. -/
theorem fnImage_of_processCrate {s : Extraction} (hrun : processCrate tcx krate .new = .ok ((), s))
    (hn : s.NoErrors) {d : DefId} (hd : d ∈ krateFns krate) {e : Int × FunDef}
    (he : e ∈ s.functions) (hid : s.didId d = some e.2.id) :
    ∃ p, FnImage tcx s.view d ((ItemVisitor.ofKrate tcx krate).specIds .pre d)
      ((ItemVisitor.ofKrate tcx krate).specIds .post d)
      ((ItemVisitor.ofKrate tcx krate).specIds .measure d).head? e.2 p ∧
      ((ItemVisitor.ofKrate tcx krate).specIds .measure d).length ≤ 1 := by
  obtain ⟨-, hex⟩ := processCrate_ok hok hk hrun hn
  obtain ⟨externals, entries, stubs, hfunctions, hentries, hstubs, hexternals⟩ := hex.functions
  have hsame : ∀ {d'}, s.didId d' = some e.2.id → d' = d :=
    fun {d'} hd' => hex.inv.ids.did_inj d' d _ _ hd' hid rfl
  rw [hfunctions] at he
  rcases List.mem_append.mp he with he | he
  · obtain ⟨g, hg, hentry⟩ := forall₂_mem_right hentries he
    obtain ⟨-, hmeasures, p, himg⟩ := hentry
    obtain rfl := hsame himg.id
    exact ⟨p, himg, hmeasures⟩
  · obtain ⟨d', hd', -, hstub⟩ := forall₂_mem_right hstubs he
    obtain rfl := hsame hstub.id
    have hlocal := (hk.fn d' hd).1
    rw [((hexternals d').mp hd').2] at hlocal
    cases hlocal

end Run

end StainlessMacros
