import Mathlib.Data.List.Nodup
import RustStainless.Lib.Lists
import RustStainless.Lib.TwoWay
import RustStainless.Rustc.Tcx

/-!
# Collecting the standard items

`StdItems::collect` fills two tables: an array with the definition of every standard item, and a
hash map back. The lang items are asked for, the others are found by scanning the definitions of the
crate of the panics and of the crate `stainless` for their names.
-/

namespace Rustc

/-! ## The standard items -/

/-- The lang items that are looked for. -/
inductive LangItem where
  | fnTraitLangItem
  | fnMutTraitLangItem
  | fnOnceTraitLangItem
  | sizedTraitLangItem
  | beginPanicFnLangItem
deriving DecidableEq

def numStdItems : Nat := 14

def StdItem.name : StdItem → String
  | .fnTrait => "Fn"
  | .fnMutTrait => "FnMut"
  | .fnOnceTrait => "FnOnce"
  | .sizedTrait => "Sized"
  | .beginPanicFn => "begin_panic"
  | .beginPanicFmtFn => "begin_panic_fmt"
  | .setType => "Set"
  | .setAddFn => "add"
  | .setDifferenceFn => "difference"
  | .setIntersectionFn => "intersection"
  | .setUnionFn => "union"
  | .subsetOfFn => "is_subset_of"
  | .setEmptyFn => "empty"
  | .setSingletonFn => "singleton"

def StdItem.langItem : StdItem → Option LangItem
  | .fnTrait => some .fnTraitLangItem
  | .fnMutTrait => some .fnMutTraitLangItem
  | .fnOnceTrait => some .fnOnceTraitLangItem
  | .sizedTrait => some .sizedTraitLangItem
  | .beginPanicFn => some .beginPanicFnLangItem
  | _ => none

def rustLangItems : List StdItem :=
  [.fnTrait, .fnMutTrait, .fnOnceTrait, .sizedTrait, .beginPanicFn]

def stainlessItems : List StdItem :=
  [.setType, .setAddFn, .setDifferenceFn, .setIntersectionFn, .setUnionFn, .subsetOfFn, .setEmptyFn,
    .setSingletonFn]

theorem StdItem.index_lt (item : StdItem) : item.index < numStdItems := by
  cases item <;> decide

theorem StdItem.index_inj {i j : StdItem} (h : i.index = j.index) : i = j := by
  cases i <;> cases j <;> first | rfl | simp [StdItem.index] at h

end Rustc

namespace Stainless

open Rustc Lib

/-! ## Collecting -/

/--
What `collect` asks rustc for: the lang items, the crates with their names, and for each crate the
last names in the paths of its definitions. The path of a crate itself is empty.
-/
structure DefTables where
  requireLangItem : LangItem → Option DefId
  crates : List Nat
  crateName : Nat → String
  defNames : Nat → List (Option String)

inductive CollectError where
  /-- a lang item is missing -/
  | missingLangItem
  /-- `item.lang_item().unwrap()` -/
  | noLangItem
  /-- "Couldn't find stainless library." -/
  | noStainless
  /-- rustc has no definition with so large an index -/
  | noDefinition
deriving DecidableEq

/-- The two tables while they are being filled. -/
structure StdItemTables where
  itemToDef : Vector DefId numStdItems
  defToItem : Assoc DefId StdItem

def StdItemTables.itemToDefOf (t : StdItemTables) (item : StdItem) : DefId :=
  t.itemToDef.get ⟨item.index, item.index_lt⟩

/-- `item_to_def[item.index()] = def_id` and `def_to_item.insert(def_id, item)`. -/
def StdItemTables.register (t : StdItemTables) (item : StdItem) (d : DefId) : StdItemTables where
  itemToDef := t.itemToDef.set item.index d (item.index_lt)
  defToItem := t.defToItem.insert d item

def registerItemsFromLangItems (tables : DefTables) :
    List StdItem → StdItemTables → Except CollectError StdItemTables
  | [], t => .ok t
  | item :: items, t =>
    match item.langItem with
    | none => .error .noLangItem
    | some lang =>
      match tables.requireLangItem lang with
      | none => .error .missingLangItem
      | some d => registerItemsFromLangItems tables items (t.register item d)

/-- The items to look for, by their names. -/
def itemsByName (items : List StdItem) : Assoc String StdItem :=
  items.foldl (fun m item => m.insert (item.name) item) []

/-- The scan of the definitions of a crate from the index `index` on. -/
def registerItemsFromDefs (krate : Nat) :
    List (Option String) → Nat → Assoc String StdItem → StdItemTables →
      Except CollectError StdItemTables
  | [], _, items, t => if items.isEmpty then .ok t else .error .noDefinition
  | name :: names, index, items, t =>
    if items.isEmpty then .ok t
    else
      match name with
      | none => registerItemsFromDefs krate names (index + 1) items t
      | some name =>
        match items.get? name with
        | none => registerItemsFromDefs krate names (index + 1) items t
        | some item =>
          registerItemsFromDefs krate names (index + 1) (items.remove name)
            (t.register item { krate := krate, index := index })

def registerItemsFromCrate (tables : DefTables) (items : List StdItem) (krate : Nat)
    (t : StdItemTables) : Except CollectError StdItemTables :=
  registerItemsFromDefs krate (tables.defNames krate) 0 (itemsByName items) t

/-- The tables at the start. The dummy stands for every item. -/
def StdItemTables.new : StdItemTables where
  itemToDef := Vector.replicate numStdItems { krate := 0, index := 0 }
  defToItem := []

def collect (tables : DefTables) : Except CollectError StdItemTables := do
  let t ← registerItemsFromLangItems tables rustLangItems .new
  let stdKrate := (t.itemToDefOf .beginPanicFn).krate
  let t ← registerItemsFromCrate tables [.beginPanicFmtFn] stdKrate t
  match tables.crates.find? fun krate => tables.crateName krate = "stainless" with
  | none => .error .noStainless
  | some stainlessKrate => registerItemsFromCrate tables stainlessItems stainlessKrate t

/-- The tables as the extractor reads them. -/
def StdItemTables.toStdItems (t : StdItemTables) : StdItems where
  itemToDef := t.itemToDefOf
  defToItem := t.defToItem

/-! ## The tables are filled from both ends -/

/-- The array as a function. -/
def StdItemTables.view (t : StdItemTables) : TwoWay StdItem DefId where
  table := t.itemToDefOf
  back := t.defToItem

/-- Every item has a place of its own in the array. -/
theorem view_register (t : StdItemTables) (item : StdItem) (d : DefId) :
    (t.register item d).view = t.view.register item d := by
  have hto : (t.register item d).itemToDefOf = Function.update t.itemToDefOf item d := by
    funext j
    by_cases hj : j = item
    · subst hj
      rw [Function.update_self]
      exact Vector.getElem_set_self j.index_lt
    · rw [Function.update_of_ne hj]
      exact Vector.getElem_set_ne item.index_lt j.index_lt fun h => hj (StdItem.index_inj h.symm)
  rw [StdItemTables.view, hto]
  rfl

theorem registerItemsFromLangItems_ok {tables : DefTables} {defOf : StdItem → DefId} :
    ∀ (items : List StdItem) (t : StdItemTables),
    (∀ item ∈ items, ∃ lang, item.langItem = some lang ∧
      tables.requireLangItem lang = some (defOf item)) →
    ∃ t', registerItemsFromLangItems tables items t = .ok t' ∧
      t'.view = t.view.registerAll (items.map fun item => (item, defOf item))
  | [], t, _ => ⟨t, rfl, rfl⟩
  | item :: items, t, h => by
    obtain ⟨lang, hlang, hd⟩ := h item List.mem_cons_self
    obtain ⟨t', hrun, hview⟩ := registerItemsFromLangItems_ok items (t.register item (defOf item))
      fun item' hitem' => h item' (List.mem_cons_of_mem _ hitem')
    refine ⟨t', ?_, ?_⟩
    · rw [registerItemsFromLangItems, hlang]
      simp only [hd]
      exact hrun
    · rw [hview, view_register]
      rfl

/-- The scan takes each name where it is first. What is left to look for is further on. -/
theorem registerItemsFromDefs_ok (krate : Nat) : ∀ (names : List (Option String)) (index : Nat)
    {items : Assoc String StdItem} (t : StdItemTables), items.keys.Nodup →
    (∀ e ∈ items, some e.1 ∈ names) →
    ∃ t' es, registerItemsFromDefs krate names index items t = .ok t' ∧
      t'.view = t.view.registerAll es ∧
      es.Perm (items.map fun e =>
        (e.2, { krate := krate, index := index + names.idxOf (some e.1) })) := by
  intro names
  induction names with
  | nil =>
    intro index items t _ hmem
    obtain rfl : items = [] :=
      List.eq_nil_iff_forall_not_mem.mpr fun e he => by simpa using hmem e he
    exact ⟨t, [], rfl, rfl, .nil⟩
  | cons name names ih =>
    intro index items t hkeys hmem
    by_cases hempty : items = []
    · subst hempty
      exact ⟨t, [], rfl, rfl, .nil⟩
    · -- An item that is not at the head is found in the rest, one further on.
      have hlater : ∀ items' : Assoc String StdItem, (∀ e ∈ items', e ∈ items ∧ name ≠ some e.1) →
          (∀ e ∈ items', some e.1 ∈ names) ∧
          (items'.map fun e => (e.2, ({ krate := krate
                                        index := index + 1 + names.idxOf (some e.1) } : DefId))) =
            items'.map fun e =>
              (e.2, { krate := krate, index := index + (name :: names).idxOf (some e.1) }) := by
        intro items' hitems'
        refine ⟨fun e he => ?_, List.map_congr_left fun e he => ?_⟩
        · obtain ⟨he, hne⟩ := hitems' e he
          exact (List.mem_cons.mp (hmem e he)).resolve_left (Ne.symm hne)
        · rw [List.idxOf_cons_ne _ (hitems' e he).2, Nat.succ_eq_add_one, Nat.add_right_comm,
            Nat.add_assoc]
      have hskip : (∀ e ∈ items, name ≠ some e.1) →
          ∃ t' es, registerItemsFromDefs krate names (index + 1) items t = .ok t' ∧
            t'.view = t.view.registerAll es ∧ es.Perm (items.map fun e =>
              (e.2, { krate := krate, index := index + (name :: names).idxOf (some e.1) })) := by
        intro hne
        obtain ⟨hmem', hmap⟩ := hlater items fun e he => ⟨he, hne e he⟩
        rw [← hmap]
        exact ih (index + 1) t hkeys hmem'
      cases name with
      | none =>
        rw [registerItemsFromDefs, if_neg (by simpa using hempty)]
        exact hskip fun e _ => by simp
      | some name =>
        cases hitem : items.get? name with
        | none =>
          rw [registerItemsFromDefs, if_neg (by simpa using hempty)]
          simp only [hitem]
          refine hskip fun e he heq => ?_
          obtain rfl := Option.some.inj heq
          exact Assoc.get?_eq_none_iff.mp hitem (List.mem_map.mpr ⟨e, he, rfl⟩)
        | some item =>
          have hrest : ∀ e ∈ items.remove name, e ∈ items ∧ some name ≠ some e.1 := by
            intro e he
            obtain ⟨he, hne⟩ := List.mem_filter.mp he
            exact ⟨he, fun heq => of_decide_eq_true hne (Option.some.inj heq).symm⟩
          obtain ⟨hmem', hmap⟩ := hlater (items.remove name) hrest
          have hkeys' : (items.remove name).keys.Nodup :=
            hkeys.sublist (List.filter_sublist.map Prod.fst)
          obtain ⟨t', es, hrun, hview, hperm⟩ := ih (index + 1)
            (t.register item { krate := krate, index := index }) hkeys' hmem'
          refine ⟨t', (item, { krate := krate, index := index }) :: es, ?_, ?_, ?_⟩
          · rw [registerItemsFromDefs, if_neg (by simpa using hempty)]
            simp only [hitem]
            exact hrun
          · rw [hview, view_register]
            rfl
          · refine ((hmap ▸ hperm).cons _).trans ?_
            have hall := (Assoc.perm_cons_remove hkeys hitem).map fun e =>
              (e.2, ({ krate := krate
                       index := index + (some name :: names).idxOf (some e.1) } : DefId))
            rw [List.map_cons, List.idxOf_cons_self] at hall
            exact hall.symm

/-- The first definition of a crate with a name. -/
def DefTables.firstNamed (tables : DefTables) (krate : Nat) (name : String) : DefId where
  krate := krate
  index := (tables.defNames krate).idxOf (some name)

theorem registerItemsFromCrate_ok {tables : DefTables} {items : List StdItem} (krate : Nat)
    (t : StdItemTables) (hitems : itemsByName items = items.map fun item => (item.name, item))
    (hnodup : (items.map StdItem.name).Nodup)
    (hmem : ∀ item ∈ items, some item.name ∈ tables.defNames krate) :
    ∃ t' es, registerItemsFromCrate tables items krate t = .ok t' ∧
      t'.view = t.view.registerAll es ∧
      es.Perm (items.map fun item => (item, tables.firstNamed krate item.name)) := by
  have hkeys : (itemsByName items).keys.Nodup := by
    rw [hitems, Assoc.keys, List.map_map]
    exact hnodup
  have hnames : ∀ e ∈ itemsByName items, some e.1 ∈ tables.defNames krate := by
    intro e he
    rw [hitems] at he
    obtain ⟨item, hitem, rfl⟩ := List.mem_map.mp he
    exact hmem item hitem
  obtain ⟨t', es, hrun, hview, hperm⟩ :=
    registerItemsFromDefs_ok krate (tables.defNames krate) 0 t hkeys hnames
  refine ⟨t', es, hrun, hview, ?_⟩
  rw [hitems, List.map_map] at hperm
  simpa only [Function.comp_def, Nat.zero_add, DefTables.firstNamed] using hperm

/-! ## Both tables -/

/-- The lang items and the crate `stainless` are there, and every name that is looked for occurs. -/
structure DefTables.Complete (tables : DefTables) (lang : LangItem → DefId) (stainlessKrate : Nat) :
    Prop where
  langItem : ∀ l, tables.requireLangItem l = some (lang l)
  stainless : tables.crates.find? (fun krate => tables.crateName krate = "stainless") =
    some stainlessKrate
  panicName : some StdItem.beginPanicFmtFn.name ∈
    tables.defNames (lang .beginPanicFnLangItem).krate
  names : ∀ item ∈ stainlessItems, some item.name ∈ tables.defNames stainlessKrate

/-- The crate in which an item that is no lang item is looked for. -/
def scannedKrate (lang : LangItem → DefId) (stainlessKrate : Nat) (item : StdItem) : Nat :=
  if item = .beginPanicFmtFn then (lang .beginPanicFnLangItem).krate else stainlessKrate

/-- The definition of a standard item. -/
def DefTables.defOf (tables : DefTables) (lang : LangItem → DefId) (stainlessKrate : Nat)
    (item : StdItem) : DefId :=
  match item.langItem with
  | some l => lang l
  | none => tables.firstNamed (scannedKrate lang stainlessKrate item) item.name

/-- All standard items, in the order in which they are looked for. -/
def allStdItems : List StdItem := rustLangItems ++ [.beginPanicFmtFn] ++ stainlessItems

theorem mem_allStdItems (item : StdItem) : item ∈ allStdItems := by
  cases item <;> decide

/-- Items that are looked for in different ways or under different names are different. -/
theorem scannedNames_inj {i j : StdItem} (hi : i.langItem = none) (hj : j.langItem = none)
    (h : i.name = j.name) : i = j := by
  cases i <;> cases hi <;> cases j <;> cases hj <;> first | rfl | exact absurd h (by decide)

theorem langItem_inj {i j : StdItem} {l : LangItem} (hi : i.langItem = some l)
    (hj : j.langItem = some l) : i = j := by
  cases i <;> cases hi <;> cases j <;> cases hj <;> rfl

section Collect

variable {tables : DefTables} {lang : LangItem → DefId} {stainlessKrate : Nat}
  (h : tables.Complete lang stainlessKrate)

include h

theorem scannedName_mem {item : StdItem} (hitem : item.langItem = none) :
    some item.name ∈ tables.defNames (scannedKrate lang stainlessKrate item) := by
  unfold scannedKrate
  split
  · next heq => exact heq ▸ h.panicName
  · next hne =>
    refine h.names item ?_
    cases item <;> first | decide | exact absurd rfl hne | cases hitem

/-- Different items have different definitions. -/
theorem defOf_inj (hlang : Function.Injective lang)
    (hapart : ∀ l item, item.langItem = none → lang l ≠ tables.defOf lang stainlessKrate item)
    {i j : StdItem}
    (heq : tables.defOf lang stainlessKrate i = tables.defOf lang stainlessKrate j) : i = j := by
  cases hi : i.langItem with
  | some l =>
    have hdi : tables.defOf lang stainlessKrate i = lang l := by rw [DefTables.defOf, hi]
    cases hj : j.langItem with
    | some l' =>
      have hdj : tables.defOf lang stainlessKrate j = lang l' := by rw [DefTables.defOf, hj]
      obtain rfl := hlang (hdi.symm.trans (heq.trans hdj))
      exact langItem_inj hi hj
    | none => exact absurd (hdi.symm.trans heq) (hapart l j hj)
  | none =>
    cases hj : j.langItem with
    | some l' =>
      have hdj : tables.defOf lang stainlessKrate j = lang l' := by rw [DefTables.defOf, hj]
      exact absurd (hdj.symm.trans heq.symm) (hapart l' i hi)
    | none =>
      rw [DefTables.defOf, DefTables.defOf, hi, hj] at heq
      obtain ⟨hkrate, hindex⟩ := DefId.mk.inj heq
      rw [← hkrate] at hindex
      have hname := (List.idxOf_inj (scannedName_mem h hi)).mp hindex
      exact scannedNames_inj hi hj (Option.some.inj hname)

/-- `collect` returns, and has registered every item under its definition. -/
theorem collect_ok : ∃ t es, collect tables = .ok t ∧
    t.view = StdItemTables.new.view.registerAll es ∧
    es.Perm (allStdItems.map fun item => (item, tables.defOf lang stainlessKrate item)) := by
  have hlang : ∀ item ∈ rustLangItems, ∃ l, item.langItem = some l ∧
      tables.requireLangItem l = some (tables.defOf lang stainlessKrate item) := by
    intro item hitem
    cases hl : item.langItem with
    | none => exact absurd hl (by revert hitem; cases item <;> decide)
    | some l => exact ⟨l, rfl, by rw [h.langItem l, DefTables.defOf, hl]⟩
  obtain ⟨t₁, hrun₁, hview₁⟩ := registerItemsFromLangItems_ok rustLangItems .new hlang
  have hstd : (t₁.itemToDefOf .beginPanicFn).krate = (lang .beginPanicFnLangItem).krate := by
    have htable : t₁.view.table .beginPanicFn = lang .beginPanicFnLangItem := by
      rw [hview₁]
      rfl
    exact congrArg DefId.krate htable
  have hpanic : ∀ item ∈ [StdItem.beginPanicFmtFn],
      some item.name ∈ tables.defNames (t₁.itemToDefOf .beginPanicFn).krate := by
    intro item hitem
    rw [List.mem_singleton.mp hitem, hstd]
    exact h.panicName
  obtain ⟨t₂, es₂, hrun₂, hview₂, hperm₂⟩ :=
    registerItemsFromCrate_ok (t₁.itemToDefOf .beginPanicFn).krate t₁ rfl (by decide) hpanic
  obtain ⟨t₃, es₃, hrun₃, hview₃, hperm₃⟩ := registerItemsFromCrate_ok stainlessKrate t₂ rfl
    (by decide) h.names
  refine ⟨t₃, rustLangItems.map (fun item => (item, tables.defOf lang stainlessKrate item)) ++
    es₂ ++ es₃, ?_, ?_, ?_⟩
  · unfold collect
    rw [hrun₁]
    show (registerItemsFromCrate tables [.beginPanicFmtFn]
        (t₁.itemToDefOf .beginPanicFn).krate t₁ >>=
      _) = _
    rw [hrun₂]
    show (match tables.crates.find? _ with | none => _ | some k => _) = _
    rw [h.stainless]
    exact hrun₃
  · rw [hview₃, hview₂, hview₁, TwoWay.registerAll_append, TwoWay.registerAll_append]
  · rw [allStdItems, List.map_append, List.map_append]
    refine (List.Perm.append_left _ ?_).append ?_
    · rwa [hstd] at hperm₂
    · exact hperm₃

/--
**The two tables are inverse.** When everything is there and no definition is wanted twice, every
item has its definition in both tables, and one that is found by name has the first of that name.
-/
theorem collect_inverse (hlang : Function.Injective lang)
    (hapart : ∀ l item, item.langItem = none → lang l ≠ tables.defOf lang stainlessKrate item) :
    ∃ t, collect tables = .ok t ∧
      (∀ d item, t.toStdItems.defToItemOpt d = some item ↔ t.toStdItems.itemToDef item = d) ∧
      (∀ item l, item.langItem = some l → t.toStdItems.itemToDef item = lang l) ∧
      (∀ item, item.langItem = none → ∃ i, t.toStdItems.itemToDef item =
          { krate := scannedKrate lang stainlessKrate item, index := i } ∧
        (tables.defNames (scannedKrate lang stainlessKrate item))[i]? = some (some item.name) ∧
        ∀ j < i, (tables.defNames (scannedKrate lang stainlessKrate item))[j]? ≠
          some (some item.name)) ∧
      ∀ d items, t.toStdItems.isOneOf d items = true ↔
        ∃ item ∈ items, t.toStdItems.defToItemOpt d = some item := by
  obtain ⟨t, es, hrun, hview, hperm⟩ := collect_ok h
  have hkeys : (es.map Prod.fst).Nodup := by
    have hall : (allStdItems.map fun item => item).Nodup := by decide
    rw [(hperm.map Prod.fst).nodup_iff, List.map_map]
    exact hall
  have hvalues : (es.map Prod.snd).Nodup := by
    rw [(hperm.map Prod.snd).nodup_iff, List.map_map]
    exact List.Nodup.map (fun _ _ heq => defOf_inj h hlang hapart heq) (by decide)
  have hmem : ∀ item, (item, tables.defOf lang stainlessKrate item) ∈ es := fun item =>
    hperm.mem_iff.mpr (List.mem_map.mpr ⟨item, mem_allStdItems item, rfl⟩)
  have htable : ∀ item, t.toStdItems.itemToDef item = tables.defOf lang stainlessKrate item := by
    intro item
    show t.view.table item = _
    rw [hview]
    exact TwoWay.registerAll_table hkeys (hmem item)
  have hinverse : ∀ d item,
      t.toStdItems.defToItemOpt d = some item ↔ t.toStdItems.itemToDef item = d := by
    intro d item
    have hdone : item ∈ es.map Prod.fst := List.mem_map.mpr ⟨_, hmem item, rfl⟩
    have hinv := TwoWay.inverse_of_empty (t := StdItemTables.new.view) rfl hkeys hvalues
    rw [← hview] at hinv
    exact (hinv d item).trans (and_iff_right hdone)
  refine ⟨t, hrun, hinverse, fun item l hl => ?_, fun item hitem => ?_, fun d items => ?_⟩
  · rw [htable, DefTables.defOf, hl]
  · refine ⟨_, by rw [htable, DefTables.defOf, hitem]; rfl, ?_, fun j hj => ?_⟩
    · exact List.getElem?_idxOf (scannedName_mem h hitem)
    · exact getElem?_ne_of_lt_idxOf hj
  · rw [StdItems.isOneOf, List.any_eq_true]
    simp only [hinverse, decide_eq_true_eq]

end Collect

/-! ## A crate graph with repeated names -/

/--
Crate 1 has the lang items and, behind other definitions, two functions `begin_panic_fmt`. Crate 2
is `stainless`, with two functions `add`.
-/
def repeatedNames : DefTables where
  requireLangItem := fun l =>
    some { krate := 1, index := match l with
      | .fnTraitLangItem => 1
      | .fnMutTraitLangItem => 2
      | .fnOnceTraitLangItem => 3
      | .sizedTraitLangItem => 4
      | .beginPanicFnLangItem => 5 }
  crates := [1, 2]
  crateName := fun krate => if krate = 2 then "stainless" else "std"
  defNames := fun krate =>
    if krate = 2 then
      [none, some "singleton", some "add", some "Set", some "empty", some "add", some "union",
        some "difference", some "is_subset_of", some "intersection"]
    else
      [none, some "Fn", some "FnMut", some "FnOnce", some "Sized", some "begin_panic",
        some "begin_panic_fmt", some "begin_panic_fmt"]

theorem collect_inverse_repeatedNames :
    ∃ t, collect repeatedNames = .ok t ∧
      (∀ d item, t.toStdItems.defToItemOpt d = some item ↔ t.toStdItems.itemToDef item = d) ∧
      t.toStdItems.itemToDef .setAddFn = { krate := 2, index := 2 } := by
  let lang : LangItem → DefId := fun l =>
    (repeatedNames.requireLangItem l).getD { krate := 0, index := 0 }
  have h : repeatedNames.Complete lang 2 :=
    { langItem := fun l => rfl
      stainless := rfl
      panicName := by decide
      names := by decide }
  have hlang : Function.Injective lang := by
    intro l l' heq
    cases l <;> cases l' <;> first | rfl | exact absurd heq (by decide)
  have hapart : ∀ l item, item.langItem = none → lang l ≠ repeatedNames.defOf lang 2 item := by
    intro l item hitem
    cases l <;> cases item <;> first | decide | cases hitem
  obtain ⟨t, hrun, hinverse, -, -, -⟩ := collect_inverse h hlang hapart
  refine ⟨t, hrun, hinverse, ?_⟩
  cases hrun
  rfl

end Stainless
