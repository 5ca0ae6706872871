import RustStainless.Extraction.Krate
import RustStainless.Extraction.Image

/-!
# What the visitor collects

The visit of a crate that reports no error changes nothing in the state, and what it collects is a
function of the items. The ADTs are those of the crate; every function comes from an item or from an
impl.
-/

namespace Stainless

open Rustc St Lib Extraction

/-! ## The crate -/

/-- The functions of an impl by their identifier, in the order of the items. -/
def assocFns : List Hir.AssocItem → Assoc Hir.Ident FnItem
  | [] => []
  | .fn d ident fromExpansion :: rest => (ident, FnItem.new d ident fromExpansion) :: assocFns rest
  | .other :: rest => assocFns rest

/-- The functions that an item defines. -/
def itemFns (item : Hir.Item) : List DefId :=
  match item.kind with
  | .fn _ => [item.defId]
  | .impl items => (assocFns items).values.map FnItem.defId
  | _ => []

def krateFns (krate : Hir.Crate) : List DefId := krate.items.flatMap itemFns

def IsAdtItem (item : Hir.Item) : Prop := item.kind = .enum ∨ item.kind = .struct

instance (item : Hir.Item) : Decidable (IsAdtItem item) := inferInstanceAs (Decidable (_ ∨ _))

/-- What rustc guarantees for the items of a crate. A local ADT that is no enum is a struct or a
union. -/
structure KrateOk (tcx : Tcx) (krate : Hir.Crate) : Prop where
  items : (krate.items.map Hir.Item.defId).Nodup
  fns : (krateFns krate).Nodup
  idents : ∀ item ∈ krate.items, ∀ items, item.kind = .impl items → (assocFns items).keys.Nodup
  adt : ∀ item ∈ krate.items, IsAdtItem item →
    item.defId.isLocal = true ∧ ∃ a, tcx.adtDef item.defId = some a
  all_adts : ∀ d, d.isLocal = true → (∃ a, tcx.adtDef d = some a) →
    ∃ item ∈ krate.items, item.defId = d ∧ (IsAdtItem item ∨ item.kind = .other)
  fn : ∀ d ∈ krateFns krate,
    d.isLocal = true ∧ tcx.defKind d = .fn ∧ tcx.isClosure d = false

/-! ## The visitor -/

/-- What the visitor collects from an item that is supported. -/
def ItemVisitor.visit (tcx : Tcx) (v : ItemVisitor) (item : Hir.Item) : ItemVisitor :=
  match item.kind with
  | .enum | .struct => { v with adts := v.adts ++ [item.defId] }
  | .fn fromExpansion => v.visitFn tcx (FnItem.new item.defId item.ident fromExpansion)
  | .impl items => v.visitImpl tcx item.defId items
  | _ => v

/-- What the visitor collects from a crate. -/
def ItemVisitor.ofKrate (tcx : Tcx) (krate : Hir.Crate) : ItemVisitor :=
  krate.items.foldl (ItemVisitor.visit tcx) .new

variable {tcx : Tcx}

theorem visitItem_ok {v v' : ItemVisitor} {item : Hir.Item} {s s' : Extraction}
    (h : visitItem tcx v item s = .ok (v', s')) :
    v' = v.visit tcx item ∧ BodyMoves tcx s s' ∧ (s'.NoErrors → s' = s ∧ item.kind ≠ .other) := by
  unfold visitItem at h
  split at h
  · next hig =>
    obtain ⟨rfl, rfl⟩ := Run.pure_ok.mp h
    unfold shouldIgnore at hig
    unfold ItemVisitor.visit
    cases hk : item.kind <;> simp [hk] at hig ⊢ <;> exact .refl s
  · unfold ItemVisitor.visit
    cases hk : item.kind with
    | enum | struct | fn _ | impl _ =>
      rw [hk] at h
      obtain ⟨rfl, rfl⟩ := Run.pure_ok.mp h
      exact ⟨rfl, .refl s, fun _ => ⟨rfl, by simp⟩⟩
    | externCrate | use _ | other =>
      rw [hk] at h
      obtain ⟨_, s₁, h1, h2⟩ := Run.bind_ok.mp h
      obtain ⟨rfl, rfl⟩ := Run.pure_ok.mp h2
      exact ⟨rfl, unsupported_bodyMoves h1, fun hn => absurd hn (unsupported_not_fine h1)⟩

theorem visitItems_ok : ∀ (items : List Hir.Item) {v v' : ItemVisitor} {s s' : Extraction},
    visitItems tcx items v s = .ok (v', s') →
    v' = items.foldl (ItemVisitor.visit tcx) v ∧ BodyMoves tcx s s' ∧
      (s'.NoErrors → s' = s ∧ ∀ item ∈ items, item.kind ≠ .other) := by
  intro items
  induction items with
  | nil =>
    intro v v' s s' h
    obtain ⟨rfl, rfl⟩ := Run.pure_ok.mp h
    exact ⟨rfl, .refl s, fun _ => ⟨rfl, by simp⟩⟩
  | cons item items ih =>
    intro v v' s s' h
    rw [visitItems] at h
    obtain ⟨v₁, s₁, h1, h2⟩ := Run.bind_ok.mp h
    obtain ⟨rfl, hg₁, hn₁⟩ := visitItem_ok h1
    obtain ⟨rfl, hg₂, hn₂⟩ := ih h2
    refine ⟨rfl, hg₁.trans hg₂, fun hn => ?_⟩
    obtain ⟨rfl, hrest⟩ := hn₂ hn
    obtain ⟨rfl, hitem⟩ := hn₁ hn
    exact ⟨rfl, by simpa using ⟨hitem, hrest⟩⟩

theorem reportAll_ok {msg : String} : ∀ (ds : List DefId) {u : Unit} {s s' : Extraction},
    reportAll msg ds s = .ok (u, s') → BodyMoves tcx s s' ∧ (s'.NoErrors → s' = s) := by
  intro ds
  induction ds with
  | nil =>
    intro u s s' h
    obtain ⟨-, rfl⟩ := Run.pure_ok.mp h
    exact ⟨.refl s, fun _ => rfl⟩
  | cons d ds ih =>
    intro u s s' h
    rw [reportAll] at h
    obtain ⟨_, s₁, h1, h2⟩ := Run.bind_ok.mp h
    obtain ⟨hg, -⟩ := ih h2
    exact ⟨(unsupported_bodyMoves h1).trans hg,
      fun hn => absurd (hg.grows.noErrors hn) (unsupported_not_fine h1)⟩

/-- Without an error, the visit changes nothing and has seen only items that are supported. -/
theorem visitAllItemLikes_ok {krate : Hir.Crate} {v : ItemVisitor} {s s' : Extraction}
    (h : visitAllItemLikes tcx krate s = .ok (v, s')) :
    v = .ofKrate tcx krate ∧ BodyMoves tcx s s' ∧
      (s'.NoErrors → s' = s ∧ ∀ item ∈ krate.items, item.kind ≠ .other) := by
  unfold visitAllItemLikes at h
  obtain ⟨v₁, s₁, h1, h⟩ := Run.bind_ok.mp h
  obtain ⟨_, s₂, h2, h⟩ := Run.bind_ok.mp h
  obtain ⟨_, s₃, h3, h⟩ := Run.bind_ok.mp h
  obtain ⟨rfl, rfl⟩ := Run.pure_ok.mp h
  obtain ⟨rfl, hg₁, hn₁⟩ := visitItems_ok _ h1
  obtain ⟨hg₂, hn₂⟩ := reportAll_ok _ h2
  obtain ⟨hg₃, hn₃⟩ := reportAll_ok _ h3
  refine ⟨rfl, hg₁.trans (hg₂.trans hg₃), fun hn => ?_⟩
  obtain rfl := hn₃ hn
  obtain rfl := hn₂ hn
  exact hn₁ hn

/-! ## What is visited -/

@[simp] theorem pushSpec_adts (v : ItemVisitor) (d : DefId) (spec : FnItem) :
    (v.pushSpec d spec).adts = v.adts := rfl

@[simp] theorem pushSpec_functions (v : ItemVisitor) (d : DefId) (spec : FnItem) :
    (v.pushSpec d spec).functions = v.functions := rfl

section Visit

variable (v : ItemVisitor)

@[simp] theorem matchSpec_adts (fns : Assoc Hir.Ident FnItem) (spec : FnItem) :
    (v.matchSpec fns spec).adts = v.adts := by
  unfold ItemVisitor.matchSpec
  split <;> rfl

@[simp] theorem matchSpec_functions (fns : Assoc Hir.Ident FnItem) (spec : FnItem) :
    (v.matchSpec fns spec).functions = v.functions := by
  unfold ItemVisitor.matchSpec
  split <;> rfl

@[simp] theorem foldl_matchSpec_adts (fns : Assoc Hir.Ident FnItem) (specs : List FnItem) :
    (specs.foldl (ItemVisitor.matchSpec fns) v).adts = v.adts := by
  induction specs generalizing v with
  | nil => rfl
  | cons spec specs ih => rw [List.foldl_cons, ih, matchSpec_adts]

@[simp] theorem foldl_matchSpec_functions (fns : Assoc Hir.Ident FnItem) (specs : List FnItem) :
    (specs.foldl (ItemVisitor.matchSpec fns) v).functions = v.functions := by
  induction specs generalizing v with
  | nil => rfl
  | cons spec specs ih => rw [List.foldl_cons, ih, matchSpec_functions]

/-- The normal functions and the spec functions of an impl, in the order of its hash map. -/
def implFns (tcx : Tcx) (impl : DefId) (items : List Hir.AssocItem) : List FnItem :=
  tcx.iterOrder.iter (.fnsByIdentifier impl) (fnsByIdentifier items []).values

/-- Is the item a function of its own, and not the spec of another one? -/
def FnItem.isUserFn (tcx : Tcx) (f : FnItem) : Bool :=
  !(f.isSpecFn && (tcx.parent f.defId).isSome)

/-- The functions that an item adds. -/
def visitedFns (tcx : Tcx) (item : Hir.Item) : List FnItem :=
  match item.kind with
  | .fn fromExpansion =>
    [FnItem.new item.defId item.ident fromExpansion].filter (FnItem.isUserFn tcx)
  | .impl items => (implFns tcx item.defId items).filter fun f => !f.isSpecFn
  | _ => []

@[simp] theorem FnItem.new_defId (d : DefId) (ident : Hir.Ident) (fromExpansion : Bool) :
    (FnItem.new d ident fromExpansion).defId = d := by
  unfold FnItem.new
  split <;> rfl

@[simp] theorem visitFn_adts (f : FnItem) : (v.visitFn tcx f).adts = v.adts := by
  unfold ItemVisitor.visitFn
  split
  · split <;> rfl
  · rfl

theorem visitFn_functions (f : FnItem) :
    (v.visitFn tcx f).functions = v.functions ++ [f].filter (FnItem.isUserFn tcx) := by
  unfold ItemVisitor.visitFn
  cases hp : tcx.parent f.defId with
  | none => simp [FnItem.isUserFn, hp]
  | some parent =>
    cases hs : f.isSpecFn <;> simp [FnItem.isUserFn, hp, hs]

theorem visit_adts (item : Hir.Item) :
    (v.visit tcx item).adts = v.adts ++ if IsAdtItem item then [item.defId] else [] := by
  unfold ItemVisitor.visit
  cases hk : item.kind <;> simp [IsAdtItem, hk, ItemVisitor.visitImpl]

theorem visit_functions (item : Hir.Item) :
    (v.visit tcx item).functions = v.functions ++ visitedFns tcx item := by
  unfold ItemVisitor.visit visitedFns
  cases hk : item.kind with
  | fn fromExpansion => exact visitFn_functions v _
  | impl items =>
    simp [ItemVisitor.visitImpl, implFns, List.partition_eq_filter_filter, Function.comp_def]
  | _ => simp

end Visit

/--
**The ADTs of the visitor are the enums and structs of the crate, in the order of the items.**
-/
theorem ofKrate_adts (krate : Hir.Crate) : (ItemVisitor.ofKrate tcx krate).adts =
    (krate.items.filter IsAdtItem).map Hir.Item.defId := by
  have key : ∀ (items : List Hir.Item) (v : ItemVisitor),
      (items.foldl (ItemVisitor.visit tcx) v).adts =
        v.adts ++ (items.filter IsAdtItem).map Hir.Item.defId := by
    intro items
    induction items with
    | nil => simp
    | cons item items ih =>
      intro v
      rw [List.foldl_cons, ih, visit_adts]
      by_cases hk : IsAdtItem item <;> simp [hk]
  rw [ItemVisitor.ofKrate, key, ItemVisitor.new, List.nil_append]

/-- **The functions of the visitor are those of the items, in their order.** -/
theorem ofKrate_functions (krate : Hir.Crate) : (ItemVisitor.ofKrate tcx krate).functions =
    krate.items.flatMap (visitedFns tcx) := by
  have key : ∀ (items : List Hir.Item) (v : ItemVisitor),
      (items.foldl (ItemVisitor.visit tcx) v).functions =
        v.functions ++ items.flatMap (visitedFns tcx) := by
    intro items
    induction items with
    | nil => simp
    | cons item items ih =>
      intro v
      rw [List.foldl_cons, ih, visit_functions, List.flatMap_cons, List.append_assoc]
  rw [ItemVisitor.ofKrate, key, ItemVisitor.new, List.nil_append]

/-! ## The functions of an impl -/

/-- With an identifier for each function, the map holds them all. -/
theorem fnsByIdentifier_eq : ∀ (items : List Hir.AssocItem) {m : Assoc Hir.Ident FnItem},
    (m.keys ++ (assocFns items).keys).Nodup → fnsByIdentifier items m = m ++ assocFns items := by
  intro items
  induction items with
  | nil => simp [fnsByIdentifier, assocFns]
  | cons item items ih =>
    intro m hnd
    cases item with
    | other => exact ih hnd
    | fn d ident fromExpansion =>
      have hn : m.get? ident = none := by
        rw [Assoc.get?_eq_none_iff]
        intro hm
        exact (List.nodup_append.mp hnd).2.2 ident hm ident (by simp [assocFns, Assoc.keys]) rfl
      rw [fnsByIdentifier, Assoc.insert_of_get?_none hn, ih]
      · simp [assocFns]
      · simpa [Assoc.keys, assocFns] using hnd

theorem mem_implFns {impl : DefId} {items : List Hir.AssocItem}
    (hnd : (assocFns items).keys.Nodup) {f : FnItem} :
    f ∈ implFns tcx impl items ↔ f ∈ (assocFns items).values := by
  rw [implFns, tcx.iterOrder.mem_iter, fnsByIdentifier_eq items (by simpa [Assoc.keys] using hnd),
    List.nil_append]

theorem visitedFns_itemFns {krate : Hir.Crate} (hok : KrateOk tcx krate) {item : Hir.Item}
    (hitem : item ∈ krate.items) {f : FnItem} (hf : f ∈ visitedFns tcx item) :
    f.defId ∈ itemFns item := by
  unfold visitedFns at hf
  unfold itemFns
  cases hk : item.kind with
  | fn fromExpansion =>
    rw [hk] at hf
    obtain rfl := List.mem_singleton.mp (List.mem_filter.mp hf).1
    simp
  | impl items =>
    rw [hk] at hf
    have hmem := (mem_implFns (hok.idents item hitem items hk)).mp (List.mem_filter.mp hf).1
    exact List.mem_map.mpr ⟨f, hmem, rfl⟩
  | _ => simp [hk] at hf

/-- The visitor finds no function that is not in the crate. -/
theorem ofKrate_functions_mem {krate : Hir.Crate} (hok : KrateOk tcx krate) {f : FnItem}
    (hf : f ∈ (ItemVisitor.ofKrate tcx krate).functions) : f.defId ∈ krateFns krate := by
  rw [ofKrate_functions] at hf
  obtain ⟨item, hitem, hf⟩ := List.mem_flatMap.mp hf
  exact List.mem_flatMap.mpr ⟨item, hitem, visitedFns_itemFns hok hitem hf⟩

end Stainless
