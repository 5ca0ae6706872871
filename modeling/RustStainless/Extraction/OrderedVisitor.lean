import RustStainless.Extraction.OrderedFns
import RustStainless.Extraction.Visitor

/-!
# The visitor in two iteration orders

The functions of an impl come in the order of a hash map. With at most one normal function, and at
most one spec of each type for it, the visitor collects the same for every function.
-/

namespace Stainless

open Rustc St Lib Extraction

variable {tcx : Tcx}

/-! ## The specs of a function -/

/-- The specs of a type that were found for a function. -/
def ItemVisitor.specIds (v : ItemVisitor) (t : SpecType) (d : DefId) : List DefId :=
  specsOfType t ((v.specs.get? d).getD [])

/-- Is this a spec of the type for the function, as far as the functions of an impl tell? -/
def FnItem.isSpecFor (fns : Assoc Hir.Ident FnItem) (t : SpecType) (d : DefId) (f : FnItem) :
    Bool :=
  f.specType = some t && (f.specFnName.bind fns.get?).map FnItem.defId = some d

theorem pushSpec_specIds (v : ItemVisitor) (e : DefId) (spec : FnItem) (t : SpecType) (d : DefId) :
    (v.pushSpec e spec).specIds t d = v.specIds t d ++
      if spec.specType = some t ∧ e = d then [spec.defId] else [] := by
  unfold ItemVisitor.specIds ItemVisitor.pushSpec
  rw [Assoc.get?_insert]
  by_cases he : e = d
  · subst he
    by_cases ht : spec.specType = some t <;> simp [specsOfType, ht]
  · rw [if_neg he, if_neg (fun h => he h.2), List.append_nil]

theorem matchSpec_specIds (fns : Assoc Hir.Ident FnItem) (v : ItemVisitor) (spec : FnItem)
    (t : SpecType) (d : DefId) : (v.matchSpec fns spec).specIds t d =
      v.specIds t d ++ ([spec].filter (FnItem.isSpecFor fns t d)).map FnItem.defId := by
  unfold ItemVisitor.matchSpec
  cases hs : spec.specFnName.bind fns.get? with
  | none => simp [FnItem.isSpecFor, hs]
  | some f =>
    rw [pushSpec_specIds]
    by_cases ht : spec.specType = some t <;> by_cases hd : f.defId = d <;>
      simp [FnItem.isSpecFor, hs, ht, hd]

theorem foldl_matchSpec_specIds (fns : Assoc Hir.Ident FnItem) (t : SpecType) (d : DefId) :
    ∀ (specs : List FnItem) (v : ItemVisitor),
    (specs.foldl (ItemVisitor.matchSpec fns) v).specIds t d =
      v.specIds t d ++ (specs.filter (FnItem.isSpecFor fns t d)).map FnItem.defId
  | [], v => by simp
  | spec :: specs, v => by
    rw [List.foldl_cons, foldl_matchSpec_specIds fns t d specs, matchSpec_specIds,
      List.append_assoc, ← List.map_append, ← List.filter_append]
    rfl

/-! ## Impls -/

/--
An impl: at most one function is not a spec, and at most one spec of a type is for a function.
-/
structure ImplCalm (items : List Hir.AssocItem) : Prop where
  fns : ((fnsByIdentifier items []).values.filter fun f => !f.isSpecFn).length ≤ 1
  specs : ∀ t d, (((fnsByIdentifier items []).values.filter FnItem.isSpecFn).filter
    (FnItem.isSpecFor (fnsByIdentifier items []) t d)).length ≤ 1

/-- What two visitors have collected is the same, but for the order in the map of the specs. -/
structure VisitorAlike (v w : ItemVisitor) : Prop where
  adts : w.adts = v.adts
  functions : w.functions = v.functions
  specIds : ∀ t d, w.specIds t d = v.specIds t d

theorem VisitorAlike.fnSpecs {v w : ItemVisitor} (h : VisitorAlike v w) (d : DefId) :
    w.fnSpecs d = v.fnSpecs d := by
  have hspec : ∀ u : ItemVisitor, u.fnSpecs d =
      ⟨u.specIds .measure d, u.specIds .pre d, u.specIds .post d⟩ := fun _ => rfl
  rw [hspec, hspec, h.specIds, h.specIds, h.specIds]

/-- Lists in another order have the same filtered list, if that has at most one element. -/
theorem filter_eq_of_perm {α : Type} {l l' : List α} {p : α → Bool} (h : l.Perm l')
    (hlen : (l.filter p).length ≤ 1) : l'.filter p = l.filter p := by
  have hp := h.filter p
  match hl : l.filter p, hlen with
  | [], _ =>
    rw [hl] at hp
    exact hp.symm.eq_nil
  | [a], _ =>
    rw [hl] at hp
    exact List.perm_singleton.mp hp.symm

variable (o : IterOrder HashSite)

theorem VisitorAlike.visitFn {v w : ItemVisitor} (h : VisitorAlike v w) (f : FnItem) :
    VisitorAlike (v.visitFn tcx f) (w.visitFn (tcx.withOrder o) f) := by
  have hparent : (tcx.withOrder o).parent = tcx.parent := rfl
  unfold ItemVisitor.visitFn
  rw [hparent]
  cases tcx.parent f.defId with
  | none => exact ⟨h.adts, by simp [h.functions], h.specIds⟩
  | some parent =>
    dsimp only
    split
    · exact ⟨h.adts, h.functions, fun t d => by rw [pushSpec_specIds, pushSpec_specIds, h.specIds]⟩
    · exact ⟨h.adts, by simp [h.functions], h.specIds⟩

theorem VisitorAlike.visitImpl {v w : ItemVisitor} (h : VisitorAlike v w) (impl : DefId)
    {items : List Hir.AssocItem} (hcalm : ImplCalm items) :
    VisitorAlike (v.visitImpl tcx impl items) (w.visitImpl (tcx.withOrder o) impl items) := by
  have hperm : (implFns tcx impl items).Perm (fnsByIdentifier items []).values :=
    tcx.iterOrder.perm _ _
  have hperm' : (implFns (tcx.withOrder o) impl items).Perm (fnsByIdentifier items []).values :=
    o.perm _ _
  have hfns : (implFns (tcx.withOrder o) impl items).filter (fun f => !f.isSpecFn) =
      (implFns tcx impl items).filter fun f => !f.isSpecFn := by
    rw [filter_eq_of_perm hperm.symm hcalm.fns, filter_eq_of_perm hperm'.symm hcalm.fns]
  have hspecs : ∀ t d, ((implFns (tcx.withOrder o) impl items).filter FnItem.isSpecFn).filter
      (FnItem.isSpecFor (fnsByIdentifier items []) t d) =
      ((implFns tcx impl items).filter FnItem.isSpecFn).filter
        (FnItem.isSpecFor (fnsByIdentifier items []) t d) := by
    intro t d
    rw [filter_eq_of_perm (hperm.symm.filter _) (hcalm.specs t d),
      filter_eq_of_perm (hperm'.symm.filter _) (hcalm.specs t d)]
  simp only [ItemVisitor.visitImpl, List.partition_eq_filter_filter]
  refine ⟨by simp [h.adts], ?_, fun t d => ?_⟩
  · rw [foldl_matchSpec_functions, foldl_matchSpec_functions]
    show w.functions ++ (implFns (tcx.withOrder o) impl items).filter (fun f => !f.isSpecFn) =
      v.functions ++ (implFns tcx impl items).filter fun f => !f.isSpecFn
    rw [h.functions, hfns]
  · rw [foldl_matchSpec_specIds, foldl_matchSpec_specIds]
    show w.specIds t d ++ (((implFns (tcx.withOrder o) impl items).filter FnItem.isSpecFn).filter
      _).map _ = v.specIds t d ++ (((implFns tcx impl items).filter FnItem.isSpecFn).filter
      _).map _
    rw [h.specIds, hspecs]

/-- All impls of the crate are calm. -/
def ImplsCalm (krate : Hir.Crate) : Prop :=
  ∀ item ∈ krate.items, ∀ items, item.kind = .impl items → ImplCalm items

theorem ofKrate_alike {krate : Hir.Crate} (hcalm : ImplsCalm krate) :
    VisitorAlike (.ofKrate tcx krate) (.ofKrate (tcx.withOrder o) krate) := by
  have key : ∀ (items : List Hir.Item) (v w : ItemVisitor), VisitorAlike v w →
      (∀ item ∈ items, ∀ assoc, item.kind = .impl assoc → ImplCalm assoc) →
      VisitorAlike (items.foldl (ItemVisitor.visit tcx) v)
        (items.foldl (ItemVisitor.visit (tcx.withOrder o)) w) := by
    intro items
    induction items with
    | nil => exact fun v w h _ => h
    | cons item items ih =>
      intro v w h hitems
      refine ih _ _ ?_ fun i hi => hitems i (List.mem_cons_of_mem _ hi)
      unfold ItemVisitor.visit
      cases hk : item.kind with
      | enum | struct => exact ⟨by simp [h.adts], h.functions, h.specIds⟩
      | fn fromExpansion => exact h.visitFn o _
      | impl assoc => exact h.visitImpl o _ (hitems item List.mem_cons_self assoc hk)
      | externCrate | use _ | other => exact h
  exact key krate.items .new .new ⟨rfl, rfl, fun _ _ => rfl⟩ hcalm

/-! ## The visit -/

variable {ids : KnownIds}

theorem visitItems_follows : ∀ (items : List Hir.Item) (v w : ItemVisitor),
    FollowsIn tcx ids (visitItems tcx items v) (visitItems (tcx.withOrder o) items w)
      fun _ _ => True
  | [], _, _ => .pure trivial
  | item :: items, v, w => by
    rw [visitItems, visitItems]
    refine Run.Follows.bind (Q := fun _ _ => True) ?_
      (fun v => (visitItems_byOps items v).grows) fun v w _ => visitItems_follows items v w
    unfold visitItem
    split
    · exact .pure trivial
    · split
      · exact .pure trivial
      · exact .pure trivial
      · exact .pure trivial
      · exact .pure trivial
      · exact (unsupported_follows _).bind_eq fun _ => .pure trivial

theorem reportAll_follows (msg : String) : ∀ ds : List DefId,
    FollowsIn tcx ids (reportAll msg ds) (reportAll msg ds) Eq
  | [] => .pure rfl
  | _ :: ds => (unsupported_follows msg).bind_eq fun _ => reportAll_follows msg ds

/-- Whatever the reports, the visit returns what the visitor collects. -/
theorem visitAllItemLikes_follows (krate : Hir.Crate) :
    FollowsIn tcx ids (visitAllItemLikes tcx krate) (visitAllItemLikes (tcx.withOrder o) krate)
      fun v w => v = .ofKrate tcx krate ∧ w = .ofKrate (tcx.withOrder o) krate := by
  have hvisit : FollowsIn tcx ids (visitAllItemLikes tcx krate)
      (visitAllItemLikes (tcx.withOrder o) krate) fun _ _ => True := by
    unfold visitAllItemLikes
    refine (visitItems_follows o krate.items .new .new).bind (fun v => ?_) fun v w _ => ?_
    · have hreports : ByOps tcx (do
          reportAll "Trait item" krate.traitItems
          reportAll "Impl item other than function" krate.otherImplItems
          pure v) :=
        .bind (reportAll_byOps _ _) fun _ => .bind (reportAll_byOps _ _) fun _ => .pure _
      exact hreports.grows
    · exact (reportAll_follows _ _).bind_eq fun _ => (reportAll_follows _ _).bind_eq fun _ =>
        .pure trivial
  refine (hvisit.both (fun _ _ _ h => (visitAllItemLikes_ok h).1)
    fun _ _ _ h => (visitAllItemLikes_ok h).1).mono fun _ _ h => h.2

end Stainless
