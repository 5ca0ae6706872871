import RustStainless.Extraction.Frontend
import RustStainless.Macros.Routes

/-!
# The order of the specs of a function

Nested specs are found in the order of the attributes. The specs of a method come out of a hash map
of the impl, in any order, so that only a single precondition and a single postcondition are safe.
-/

namespace StainlessMacros

open Stainless Rustc St Lib

/-- The members of `own` stand in `found` in their own order. -/
def InOrder (own found : List DefId) : Prop := (found.filter (· ∈ own)).Sublist own

/-- The preconditions and the postconditions that are found for a function keep the order of its
attributes. -/
def KeepsAttrOrder (tcx : Tcx) (krate : Hir.Crate) (f : SpecdFn) : Prop :=
  ∀ t ∈ [SpecType.pre, .post],
    InOrder (f.specsOf t) ((ItemVisitor.ofKrate tcx krate).specIds t f.defId)

/-- The attributes of a function cannot get out of order: its specs are nested, or not found at all
since its name is not in the root context, or there are not two of a type. -/
def OrderSafe (f : SpecdFn) : Prop :=
  f.hasSelf = false ∨ f.ident.ctxt ≠ 0 ∨
    ((f.specsOf .pre).length ≤ 1 ∧ (f.specsOf .post).length ≤ 1)

instance (f : SpecdFn) : Decidable (OrderSafe f) := inferInstanceAs (Decidable (_ ∨ _ ∨ _ ∧ _))

/--
The conjuncts under `Require` and in the lambda of `Ensuring` are the predicates of the specs that
are found, and these keep the order of the attributes.
-/
def ConjunctsInOrder (tcx : Tcx) (krate : Hir.Crate) (w : View) (f : SpecdFn) (fd : FunDef) :
    Prop :=
  KeepsAttrOrder tcx krate f ∧
    ∃ measure p, FnImage tcx w f.defId ((ItemVisitor.ofKrate tcx krate).specIds .pre f.defId)
      ((ItemVisitor.ofKrate tcx krate).specIds .post f.defId) measure fd p

variable {tcx : Tcx} {krate : Hir.Crate} {f : SpecdFn}

theorem KrateOk.withOrder (h : KrateOk tcx krate) (o : IterOrder HashSite) :
    KrateOk (tcx.withOrder o) krate :=
  ⟨h.items, h.fns, h.idents, h.adt, h.all_adts, h.fn⟩

section Siblings

variable (hk : KrateOk tcx krate) {item : Hir.Item} {items : List Hir.AssocItem}
  {fromExpansion : Bool} (hitem : item ∈ krate.items) (hkind : item.kind = .impl items)
  (hsub : (f.siblingItems fromExpansion).Sublist items)

include hk hitem hkind hsub

/-- Outside of the root context, a name is not looked up as itself. -/
theorem not_mem_specIds (hroot : f.ident.ctxt ≠ 0) {t t' : SpecType} {e : DefId}
    (he : e ∈ f.specsOf t) : e ∉ (ItemVisitor.ofKrate tcx krate).specIds t' f.defId := by
  intro hfound
  obtain ⟨a, ha, rfl⟩ := List.mem_map.mp he
  obtain ⟨n, hn⟩ : ∃ n, (n, a.fnItem f.ident.name) ∈ assocFns items := by
    have hmem := (fnItem_mem_values hsub).subset
      (List.mem_map.mpr ⟨a, (List.mem_filter.mp ha).1, rfl⟩)
    obtain ⟨⟨n, g⟩, hg, rfl⟩ := List.mem_map.mp hmem
    exact ⟨n, hg⟩
  have hfn : a.specFn ∈ itemFns item := by
    rw [itemFns, hkind]
    exact List.mem_map.mpr ⟨_, List.mem_map.mpr ⟨_, hn, rfl⟩, rfl⟩
  -- The impl is the only item that adds the spec function.
  rw [ofKrate_specIds] at hfound
  obtain ⟨item', hitem', hfound⟩ := List.mem_flatMap.mp hfound
  obtain rfl := item_of_fn hk hitem' hitem (itemSpecs_subset hk hitem' hfound) hfn
  rw [itemSpecs_impl hk hitem hkind] at hfound
  obtain ⟨g, hg, hd⟩ := List.mem_map.mp hfound
  obtain ⟨hg, hfor⟩ := List.mem_filter.mp hg
  rw [tcx.iterOrder.mem_iter] at hg
  obtain ⟨⟨n', g'⟩, hentry, rfl⟩ := List.mem_map.mp hg
  have heq := assocFns_inj hk hitem hkind hentry hn hd
  obtain ⟨rfl, rfl⟩ := Prod.mk.inj heq
  have hfor := (Bool.and_eq_true_iff.mp hfor).2
  exact hroot ((isSpecFor_iff hk hitem hkind hsub t' a).mp hfor).2

/-- In the reverse order of the hash map, the specs come in reverse. -/
theorem reverse_sublist_specIds (hroot : f.ident.ctxt = 0) (t : SpecType) :
    (f.specsOf t).reverse.Sublist
      ((ItemVisitor.ofKrate (tcx.withOrder .reversed) krate).specIds t f.defId) := by
  have hk' := KrateOk.withOrder hk .reversed
  have himpl := specsOf_sublist_impl hk hitem hkind hsub hroot t
  rw [ofKrate_specIds]
  refine List.Sublist.trans ?_ ((List.singleton_sublist.mpr hitem).flatMap _)
  rw [List.flatMap_singleton, itemSpecs_impl hk' hitem hkind]
  show List.Sublist _ (((assocFns items).values.reverse.filter _).map FnItem.defId)
  rw [List.filter_reverse, List.map_reverse]
  exact himpl.reverse

end Siblings

/-- **The specs of a function keep the order of its attributes, in every order of the hash maps, iff
they are nested, or not found, or there are not two of a type.** -/
theorem keepsAttrOrder_iff (hk : KrateOk tcx krate) (hroute : Route tcx krate f) :
    (∀ o, KeepsAttrOrder (tcx.withOrder o) krate f) ↔ OrderSafe f := by
  constructor
  · intro h
    cases hroute with
    | nested hself => exact .inl hself
    | sibling hself hitem hkind hsub =>
      by_cases hroot : f.ident.ctxt = 0
      · have hle : ∀ t ∈ [SpecType.pre, .post], (f.specsOf t).length ≤ 1 := by
          intro t ht
          have hrev := reverse_sublist_specIds hk hitem hkind hsub hroot t
          have hnd := specIds_nodup (KrateOk.withOrder hk .reversed) t f.defId
          have hin := h .reversed t ht
          have hmem : (fun e => decide (e ∈ f.specsOf t)) =
              fun e => decide (e ∈ (f.specsOf t).reverse) := by
            simp only [List.mem_reverse]
          rw [InOrder, hmem, filter_mem_of_sublist hrev hnd] at hin
          exact length_le_one_of_reverse_sublist (List.nodup_reverse.mp (hnd.sublist hrev)) hin
        exact .inr (.inr ⟨hle .pre (by simp), hle .post (by simp)⟩)
      · exact .inr (.inl hroot)
  · rintro hsafe o t ht
    have hk' := KrateOk.withOrder hk o
    have hnd := specIds_nodup hk' t f.defId
    cases hroute with
    | nested _ _ hitems hparent =>
      have hsub : (f.specsOf t).Sublist
          ((ItemVisitor.ofKrate (tcx.withOrder o) krate).specIds t f.defId) :=
        @specsOf_sublist_nested (tcx.withOrder o) krate f hitems hparent t
      rw [InOrder, filter_mem_of_sublist hsub hnd]
    | sibling hself hitem hkind hsub =>
      rcases hsafe with hno | hroot | hlen
      · rw [hself] at hno
        cases hno
      · have hnone : ((ItemVisitor.ofKrate (tcx.withOrder o) krate).specIds t f.defId).filter
            (· ∈ f.specsOf t) = [] := by
          refine List.filter_eq_nil_iff.mpr fun e he h => ?_
          exact not_mem_specIds hk' hitem hkind hsub hroot (of_decide_eq_true h) he
        rw [InOrder, hnone]
        exact List.nil_sublist _
      · refine filter_mem_sublist_of_length_le_one ?_ hnd
        rcases List.mem_cons.mp ht with rfl | ht
        · exact hlen.1
        · rw [List.mem_singleton.mp ht]
          exact hlen.2

/--
`struct S;` is `0`. A function `#[pre(a)] #[pre(b)] fn m(s: S, a: bool, b: bool) -> bool { a }` is
`4` and its spec functions are `2` and `3`: nested, or in the impl `1`.
-/
def twoPresTcx (nested : Bool) : Tcx :=
  { Tcx.empty with
    defKind := fun d => if d.index = 0 then .adt else .fn
    defPathStr := fun d => if d.index = 0 then "S" else "m"
    adtDefs := [{ did := ⟨0, 0⟩, isBox := false, variants := [{ defId := ⟨0, 0⟩, fields := [] }] }]
    genericsOf := fun d =>
      if nested || d.index ≤ 1 then .root [] else .child ⟨0, 1⟩ (.root []) []
    parent := fun _ => some (if nested then ⟨0, 4⟩ else ⟨0, 1⟩)
    fnSig := fun _ => { inputs := [.adt ⟨0, 0⟩ [], .bool, .bool], output := .bool }
    bodyOf := fun d =>
      { params :=
          [.binding ⟨d, 0⟩ "s" (some (.byValue .not)) (.adt ⟨0, 0⟩ []) none,
            .binding ⟨d, 1⟩ "a" (some (.byValue .not)) .bool none,
            .binding ⟨d, 2⟩ "b" (some (.byValue .not)) .bool none]
        pats := []
        value := .varRef .bool ⟨d, if d.index = 3 then 2 else 1⟩ } }

def twoPres (nested : Bool) : SpecdFn where
  defId := ⟨0, 4⟩
  ident := { name := "m", ctxt := 0 }
  hasSelf := !nested
  attrs :=
    [{ typ := .pre, specFn := ⟨0, 2⟩, ctxt := 1 }, { typ := .pre, specFn := ⟨0, 3⟩, ctxt := 1 }]

/-- The items of the crate. -/
def twoPresKrate (nested : Bool) : Hir.Crate where
  items := { defId := ⟨0, 0⟩, ident := { name := "S", ctxt := 0 }, kind := .struct } ::
    if nested then
      { defId := ⟨0, 4⟩, ident := { name := "m", ctxt := 0 }, kind := .fn false } ::
        (twoPres true).nestedItems
    else
      [{ defId := ⟨0, 1⟩
         ident := { name := "", ctxt := 0 }
         kind := .impl ((twoPres false).siblingItems false) }]
  traitItems := []
  otherImplItems := []

theorem twoPresTcx_ok (nested : Bool) : TcxOk (twoPresTcx nested) :=
  .of_noFields (fun _ => rfl)
    (fun d => by cases nested <;> by_cases h : d.index ≤ 1 <;>
      simp [twoPresTcx, allGenericParamsOf, allGenericParams, h])
    (fun _ => rfl) (by simp [twoPresTcx])

theorem mem_nestedItems {item : Hir.Item} (h : item ∈ (twoPresKrate true).items) :
    item = { defId := ⟨0, 0⟩, ident := { name := "S", ctxt := 0 }, kind := .struct } ∨
      item = { defId := ⟨0, 4⟩, ident := { name := "m", ctxt := 0 }, kind := .fn false } ∨
      item = { defId := ⟨0, 2⟩, ident := { name := "__pre_1_m", ctxt := 1 }, kind := .fn true } ∨
      item =
        { defId := ⟨0, 3⟩, ident := { name := "__pre_2_m", ctxt := 1 }, kind := .fn true } := by
  rcases List.mem_cons.mp h with rfl | h
  · exact .inl rfl
  · rcases List.mem_cons.mp h with rfl | h
    · exact .inr (.inl rfl)
    · rcases List.mem_cons.mp h with rfl | h
      · exact .inr (.inr (.inl rfl))
      · exact .inr (.inr (.inr (List.mem_singleton.mp h)))

theorem mem_methodItems {item : Hir.Item} (h : item ∈ (twoPresKrate false).items) :
    item = { defId := ⟨0, 0⟩, ident := { name := "S", ctxt := 0 }, kind := .struct } ∨
      item = { defId := ⟨0, 1⟩
               ident := { name := "", ctxt := 0 }
               kind := .impl ((twoPres false).siblingItems false) } := by
  rcases List.mem_cons.mp h with rfl | h
  · exact .inl rfl
  · exact .inr (List.mem_singleton.mp h)

/--
The only item that is an ADT is `S`, and the only impl has its methods under names of their own.
-/
theorem twoPresItems_ok {nested : Bool} {item : Hir.Item} (h : item ∈ (twoPresKrate nested).items) :
    (IsAdtItem item → item.defId = ⟨0, 0⟩) ∧
      ∀ items, item.kind = .impl items → (assocFns items).keys.Nodup := by
  cases nested with
  | true => rcases mem_nestedItems h with rfl | rfl | rfl | rfl <;> simp [IsAdtItem]
  | false =>
    rcases mem_methodItems h with rfl | rfl
    · simp
    · refine ⟨by simp [IsAdtItem], fun items hitems => ?_⟩
      obtain rfl := Hir.ItemKind.impl.inj hitems
      decide

theorem twoPresKrate_ok (nested : Bool) : KrateOk (twoPresTcx nested) (twoPresKrate nested) where
  items := by cases nested <;> decide
  fns := by cases nested <;> decide
  idents := fun item hitem => (twoPresItems_ok hitem).2
  adt := by
    intro item hitem hadt
    rw [(twoPresItems_ok hitem).1 hadt]
    exact ⟨rfl, _, rfl⟩
  all_adts := by
    intro d _ ⟨a, ha⟩
    have hmem := Tcx.adtDef_mem ha
    rw [twoPresTcx, List.mem_singleton] at hmem
    refine ⟨_, List.mem_cons_self, ?_, .inl (.inr rfl)⟩
    rw [← Tcx.adtDef_did ha, hmem]
  fn := by
    intro d hd
    have hd : d ∈ [DefId.mk 0 2, ⟨0, 3⟩, ⟨0, 4⟩] := by cases nested <;> revert d <;> decide
    rcases List.mem_cons.mp hd with rfl | hd
    · exact ⟨rfl, rfl, rfl⟩
    · rcases List.mem_cons.mp hd with rfl | hd
      · exact ⟨rfl, rfl, rfl⟩
      · rw [List.mem_singleton.mp hd]
        exact ⟨rfl, rfl, rfl⟩

theorem twoPres_nested : Route (twoPresTcx true) (twoPresKrate true) (twoPres true) :=
  .nested rfl (by decide) ((List.sublist_cons_self _ _).trans (List.sublist_cons_self _ _))
    (by decide)

theorem twoPres_sibling : Route (twoPresTcx false) (twoPresKrate false) (twoPres false) :=
  .sibling rfl (List.mem_cons_of_mem _ List.mem_cons_self) rfl (List.Sublist.refl _)

end StainlessMacros
