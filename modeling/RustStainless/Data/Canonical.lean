import RustStainless.Lib.SortKey
import RustStainless.Rust.BigInt
import RustStainless.Data.ToTree

/-!
# The canonical encoding of symbols

`Symbols::serialize` collects the values of two hash maps, which come in any order, and sorts them.
What is written depends only on which definitions were stored.
-/

namespace St

open Lib

/-- The hash maps of the symbols. -/
inductive SymbolMap where
  | sorts
  | functions
deriving DecidableEq

/-- The table of a hash map that gives its entries in another order. -/
def Table.iterIn {D : Type} {key : D → Int} (o : IterOrder SymbolMap) (map : SymbolMap)
    (t : Table key) : Table key where
  entries := o.iter map t.entries
  keyed := fun e he => t.keyed e (o.mem_iter.mp he)
  nodup := ((o.perm map t.entries).map Prod.fst).nodup_iff.mpr t.nodup

def Symbols.iterIn (o : IterOrder SymbolMap) (x : Symbols) : Symbols where
  sorts := x.sorts.iterIn o .sorts
  functions := x.functions.iterIn o .functions

/-- `Symbols::serialize`, when the maps give their entries in the order `o`. -/
def Symbols.serializeIn (toSignedBytesBe : Int → List UInt8) (o : IterOrder SymbolMap)
    (x : Symbols) : Ser := (x.iterIn o).serialize toSignedBytesBe

/-! ## Sorting by id -/

section

variable {D : Type} {key : D → Int} {defs : List D}

theorem sortById_eq : sortById key defs = sortKey key defs := rfl

/-- Stored in any order and collected in any order, the definitions are sorted alike. -/
theorem sortById_ofList (o : IterOrder SymbolMap) (map : SymbolMap) (hnodup : (defs.map key).Nodup)
    {defs' : List D} (hperm : defs'.Perm defs) :
    sortById key ((Table.ofList defs' : Table key).iterIn o map).values = sortById key defs := by
  have hnodup' : (defs'.map key).Nodup := (hperm.map key).nodup_iff.mpr hnodup
  have hvalues : ((Table.ofList defs' : Table key).iterIn o map).values.Perm defs := by
    have hiter := (o.perm map (Table.ofList defs' : Table key).entries).map Prod.snd
    rw [← Table.values_ofList hnodup'] at hperm
    exact hiter.trans hperm
  rw [sortById_eq, sortById_eq]
  exact (sortKey_eq_of_perm hvalues.symm hnodup).symm

/-- The definitions in the order in which they are written: each once, by increasing `globalId`. -/
structure InIdOrder (key : D → Int) (defs sorted : List D) : Prop where
  perm : sorted.Perm defs
  increasing : sorted.Pairwise fun d e => key d < key e

theorem sortById_inIdOrder (hnodup : (defs.map key).Nodup) :
    InIdOrder key defs (sortById key defs) :=
  ⟨sortKey_perm key defs, sortKey_strict hnodup⟩

end

/-! ## What is written -/

/-- The bytes of a sequence, with those of its elements. -/
def seqBytes (elems : List (List UInt8)) : List UInt8 :=
  2 :: (lengthBytes elems.length ++ elems.flatten)

/-- What is serialized to the bytes, on its own. -/
def Serializes (x : Ser) (bytes : List UInt8) : Prop := x [] = .ok ((), bytes)

/--
The output for some functions and sorts: a buffer with a pair of sequences, in which each definition
stands as it is serialized on its own, one after the other.
-/
def Encodes (toSignedBytesBe : Int → List UInt8) (functions : List FunDef) (sorts : List ADTSort)
    (output : List UInt8) : Prop :=
  ∃ fs ss inner,
    List.Forall₂ (fun fd bytes => Serializes (fd.serialize toSignedBytesBe) bytes) functions fs ∧
    List.Forall₂ (fun sort bytes => Serializes (ADTSort.serialize sort) bytes) sorts ss ∧
    functions.length ≤ i32Max ∧ sorts.length ≤ i32Max ∧
    inner = 6 :: 2 :: (seqBytes fs ++ seqBytes ss) ∧
    output = 7 :: (bufferHeader inner.length ++ inner)

/-- Definitions that are written as trees are serialized if the trees pass the assertions. -/
theorem forall₂_serializes {α : Type} {serialize : α → Ser} {toTree : α → Tree}
    (h : ∀ v, serialize v = (toTree v).write) : ∀ (vs : List α) (bs : List (List UInt8)),
    List.Forall₂ (fun v bytes => Serializes (serialize v) bytes) vs bs ↔
      (∀ v ∈ vs, (toTree v).All Tree.Asserted) ∧ bs = vs.map fun v => (toTree v).bytes := by
  intro vs
  induction vs with
  | nil => simp
  | cons v vs ih =>
    intro bs
    have hone : ∀ bytes, Serializes (serialize v) bytes ↔
        (toTree v).All Tree.Asserted ∧ bytes = (toTree v).bytes := by
      intro bytes
      rw [Serializes, h, (toTree v).writes [] () bytes, List.nil_append]
    rw [List.forall₂_cons_left_iff, List.forall_mem_cons, List.map_cons]
    constructor
    · rintro ⟨b, bs, hb, hbs, rfl⟩
      obtain ⟨hv, rfl⟩ := (hone b).mp hb
      obtain ⟨hvs, rfl⟩ := (ih bs).mp hbs
      exact ⟨⟨hv, hvs⟩, rfl⟩
    · rintro ⟨⟨hv, hvs⟩, rfl⟩
      exact ⟨_, _, (hone _).mpr ⟨hv, rfl⟩, (ih _).mpr ⟨hvs, rfl⟩, rfl⟩

section

variable {toSignedBytesBe : Int → List UInt8} {x y : Symbols}

theorem Symbols.innerTree_bytes (x : Symbols) : (x.innerTree toSignedBytesBe).bytes = 6 :: 2 ::
    (seqBytes (x.sortedFunctions.map fun fd => (fd.toTree toSignedBytesBe).bytes) ++
      seqBytes (x.sortedSorts.map fun sort => sort.toTree.bytes)) := by
  simp [innerTree, seqBytes, Tree.bytes, Tree.allBytes, Tree.allBytes_eq, List.flatMap_def,
    Function.comp_def]

theorem Symbols.innerTree_asserted (x : Symbols) :
    (x.innerTree toSignedBytesBe).All Tree.Asserted ↔
      (x.sortedFunctions.length ≤ i32Max ∧
        ∀ fd ∈ x.sortedFunctions, (fd.toTree toSignedBytesBe).All Tree.Asserted) ∧
      x.sortedSorts.length ≤ i32Max ∧ ∀ sort ∈ x.sortedSorts, sort.toTree.All Tree.Asserted := by
  simp [innerTree, Tree.All, Tree.AllOf, Tree.Asserted, Tree.allOf_iff]

theorem Symbols.encodes_iff {x : Symbols} {bytes : List UInt8} :
    Encodes toSignedBytesBe x.sortedFunctions x.sortedSorts bytes ↔
      (x.innerTree toSignedBytesBe).All Tree.Asserted ∧
        bytes = 7 :: (bufferHeader (x.innerTree toSignedBytesBe).bytes.length ++
          (x.innerTree toSignedBytesBe).bytes) := by
  have hfuns := forall₂_serializes (FunDef.serialize_eq toSignedBytesBe) x.sortedFunctions
  have hsorts := forall₂_serializes ADTSort.serialize_eq x.sortedSorts
  rw [innerTree_asserted, innerTree_bytes]
  constructor
  · rintro ⟨fs, ss, inner, hf, hs, hflen, hslen, rfl, rfl⟩
    obtain ⟨hfall, rfl⟩ := (hfuns fs).mp hf
    obtain ⟨hsall, rfl⟩ := (hsorts ss).mp hs
    exact ⟨⟨⟨hflen, hfall⟩, hslen, hsall⟩, rfl⟩
  · rintro ⟨⟨⟨hflen, hf⟩, hslen, hs⟩, rfl⟩
    exact ⟨_, _, _, (hfuns _).mpr ⟨hf, rfl⟩, (hsorts _).mpr ⟨hs, rfl⟩, hflen, hslen, rfl, rfl⟩

/-- **`Symbols::serialize` writes the sorted definitions**, unless an assertion stops it. -/
theorem Symbols.serialize_iff {buffer output : List UInt8} :
    x.serialize toSignedBytesBe buffer = .ok ((), output) ↔
      ∃ bytes, Encodes toSignedBytesBe x.sortedFunctions x.sortedSorts bytes ∧
        output = buffer ++ bytes := by
  have hinner := (x.innerTree toSignedBytesBe).writes []
  rw [← Symbols.serializeInner_eq] at hinner
  simp only [Symbols.encodes_iff]
  unfold Symbols.serialize
  cases h : x.serializeInner toSignedBytesBe [] with
  | error p =>
    have hno : ¬ (x.innerTree toSignedBytesBe).All Tree.Asserted := by
      intro hall
      have hok := (hinner () _).mpr ⟨hall, rfl⟩
      rw [h] at hok
      cases hok
    simp [hno]
  | ok r =>
    obtain ⟨u, inner⟩ := r
    obtain ⟨hall, hbytes⟩ := (hinner u inner).mp h
    rw [List.nil_append] at hbytes
    subst hbytes
    show serializeBuffer _ buffer = _ ↔ _
    rw [writes_buffer _ buffer () output]
    simp [hall]

theorem Symbols.sortedFunctions_nil (h : x.functions.values = []) : x.sortedFunctions = [] := by
  rw [sortedFunctions, h, sortById, List.mergeSort_nil]

theorem Symbols.sortedSorts_singleton {sort : ADTSort} (h : x.sorts.values = [sort]) :
    x.sortedSorts = [sort] := by
  rw [sortedSorts, h, sortById, List.mergeSort_singleton]

/-- What is written depends on the sorted definitions alone. -/
theorem Symbols.serialize_congr (hf : x.sortedFunctions = y.sortedFunctions)
    (hs : x.sortedSorts = y.sortedSorts) :
    x.serialize toSignedBytesBe = y.serialize toSignedBytesBe := by
  unfold serialize serializeInner
  rw [hf, hs]

end

/-! ## Symbols -/

section

variable {sorts sorts' : List ADTSort} {functions functions' : List FunDef}
  (hsorts : (sorts.map fun sort => sort.id.globalId).Nodup)
  (hfunctions : (functions.map fun fd => fd.id.globalId).Nodup)

include hsorts in
theorem sortedSorts_new (o : IterOrder SymbolMap) (hperm : sorts'.Perm sorts) :
    ((Symbols.new sorts' functions').iterIn o).sortedSorts =
      sortById (fun sort => sort.id.globalId) sorts :=
  sortById_ofList o .sorts hsorts hperm

include hfunctions in
theorem sortedFunctions_new (o : IterOrder SymbolMap) (hperm : functions'.Perm functions) :
    ((Symbols.new sorts' functions').iterIn o).sortedFunctions =
      sortById (fun fd => fd.id.globalId) functions :=
  sortById_ofList o .functions hfunctions hperm

include hsorts hfunctions in
/-- However the definitions are stored and collected, the same is written. -/
theorem serializeIn_new (toSignedBytesBe : Int → List UInt8) (hs : sorts'.Perm sorts)
    (hf : functions'.Perm functions) {sorts'' : List ADTSort} {functions'' : List FunDef}
    (hs' : sorts''.Perm sorts) (hf' : functions''.Perm functions) (o o' : IterOrder SymbolMap) :
    (Symbols.new sorts' functions').serializeIn toSignedBytesBe o =
      (Symbols.new sorts'' functions'').serializeIn toSignedBytesBe o' := by
  refine Symbols.serialize_congr ?_ ?_
  · rw [sortedFunctions_new hfunctions o hf, sortedFunctions_new hfunctions o' hf']
  · rw [sortedSorts_new hsorts o hs, sortedSorts_new hsorts o' hs']

end

/--
**Symbols have a canonical encoding**: however they were stored and collected, the same bytes are
written, those of the functions and then those of the sorts, each in the order of their ids.
-/
theorem serialize_canonical (toSignedBytesBe : Int → List UInt8) {sorts : List ADTSort}
    {functions : List FunDef} (hsorts : (sorts.map fun sort => sort.id.globalId).Nodup)
    (hfunctions : (functions.map fun fd => fd.id.globalId).Nodup) :
    ∃ fs ss, InIdOrder (fun fd => fd.id.globalId) functions fs ∧
      InIdOrder (fun sort => sort.id.globalId) sorts ss ∧
      ∀ sorts' functions', sorts'.Perm sorts → functions'.Perm functions → ∀ o,
        (Symbols.new sorts' functions').serializeIn toSignedBytesBe o =
          (Symbols.new sorts functions).serialize toSignedBytesBe ∧
        ∀ buffer output,
          (Symbols.new sorts' functions').serializeIn toSignedBytesBe o buffer = .ok ((), output) ↔
            ∃ bytes, Encodes toSignedBytesBe fs ss bytes ∧ output = buffer ++ bytes := by
  refine ⟨_, _, sortById_inIdOrder hfunctions, sortById_inIdOrder hsorts, ?_⟩
  intro sorts' functions' hs hf o
  refine ⟨?_, fun buffer output => ?_⟩
  · exact serializeIn_new hsorts hfunctions toSignedBytesBe hs hf (.refl _) (.refl _) o .insertion
  · rw [Symbols.serializeIn, Symbols.serialize_iff, sortedFunctions_new hfunctions o hf,
      sortedSorts_new hsorts o hs]

/-- Two functions and two sorts, each in the wrong order. -/
theorem serialize_canonical_swapped :
    let id (n : Int) : SymbolIdentifier :=
      { id := { name := "x", globalId := n, id := n }, symbolPath := ["x"] }
    let sort (n : Int) : ADTSort := { id := id n, tparams := [], constructors := [], flags := [] }
    let fd (n : Int) : FunDef :=
      { id := id n, tparams := [], params := [], returnType := .unitType, fullBody := .unitLiteral
        flags := [] }
    ∃ fs ss, InIdOrder (fun fd => fd.id.globalId) [fd 3, fd 2] fs ∧
      InIdOrder (fun sort => sort.id.globalId) [sort 1, sort 0] ss ∧
      ∀ sorts' functions', sorts'.Perm [sort 1, sort 0] → functions'.Perm [fd 3, fd 2] → ∀ o,
        (Symbols.new sorts' functions').serializeIn Rust.toSignedBytesBe o =
          (Symbols.new [sort 1, sort 0] [fd 3, fd 2]).serialize Rust.toSignedBytesBe ∧
        ∀ buffer output,
          (Symbols.new sorts' functions').serializeIn Rust.toSignedBytesBe o buffer =
              .ok ((), output) ↔
            ∃ bytes, Encodes Rust.toSignedBytesBe fs ss bytes ∧ output = buffer ++ bytes :=
  serialize_canonical Rust.toSignedBytesBe (by decide) (by decide)

end St
