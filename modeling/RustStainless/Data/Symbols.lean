import RustStainless.Lib.Assoc
import RustStainless.Data.Ast

/-!
# The symbols of a program

`stainless_data::ast::Symbols` holds the definitions in two hash maps whose keys are compared by
`globalId` alone. A definition whose id has the `globalId` of another one replaces it.
-/

namespace St

open Lib

/-- Definitions stored under their keys, one for each key. -/
structure Table {D : Type} (key : D → Int) where
  entries : Assoc Int D
  keyed : ∀ e ∈ entries, e.1 = key e.2
  nodup : entries.keys.Nodup

namespace Table

variable {D : Type} {key : D → Int}

def empty : Table key where
  entries := []
  keyed := by simp
  nodup := by simp [Assoc.keys]

def insert (t : Table key) (d : D) : Table key where
  entries := t.entries.insert (key d) d
  keyed := by
    intro e he
    rcases Assoc.mem_of_mem_insert he with rfl | he
    · rfl
    · exact t.keyed e he
  nodup := Assoc.nodup_keys_insert t.nodup _ _

/-- Store the definitions one after the other. -/
def ofList (defs : List D) : Table key := defs.foldl insert empty

def values (t : Table key) : List D := t.entries.values

def get? (t : Table key) (k : Int) : Option D := t.entries.get? k

theorem get?_eq_some_iff {t : Table key} {k : Int} {d : D} :
    t.get? k = some d ↔ d ∈ t.values ∧ key d = k := by
  constructor
  · intro h
    have hmem := Assoc.mem_of_get? h
    exact ⟨List.mem_map.mpr ⟨(k, d), hmem, rfl⟩, (t.keyed _ hmem).symm⟩
  · rintro ⟨hd, rfl⟩
    obtain ⟨e, he, rfl⟩ := List.mem_map.mp hd
    refine Assoc.get?_of_mem t.nodup ?_
    rw [← t.keyed e he]
    exact he

theorem values_foldl_insert : ∀ (defs : List D) (t : Table key),
    (t.entries.keys ++ defs.map key).Nodup →
    (defs.foldl insert t).values = t.values ++ defs
  | [], t, _ => (List.append_nil _).symm
  | d :: defs, t, h => by
    have hnone : t.entries.get? (key d) = none := by
      rw [Assoc.get?_eq_none_iff]
      intro hk
      exact (List.nodup_append.mp h).2.2 _ hk _ (by simp) rfl
    have hrest : ((t.insert d).entries.keys ++ defs.map key).Nodup := by
      rw [insert, Assoc.keys_insert_of_none hnone, List.append_assoc]
      exact h
    rw [List.foldl_cons, values_foldl_insert defs _ hrest]
    simp [insert, values, Assoc.values, Assoc.insert_of_get?_none hnone]

theorem mem_values_foldl_insert {d : D} : ∀ (defs : List D) (t : Table key),
    d ∈ (defs.foldl insert t).values → d ∈ t.values ∨ d ∈ defs
  | [], _, h => .inl h
  | d' :: defs, t, h => by
    rcases mem_values_foldl_insert defs (t.insert d') h with h | h
    · obtain ⟨e, he, rfl⟩ := List.mem_map.mp h
      rcases Assoc.mem_of_mem_insert he with rfl | he
      · exact .inr List.mem_cons_self
      · exact .inl (List.mem_map.mpr ⟨e, he, rfl⟩)
    · exact .inr (List.mem_cons_of_mem _ h)

/-- A table holds nothing but what was stored. -/
theorem mem_of_mem_ofList {defs : List D} {d : D} (h : d ∈ (ofList defs : Table key).values) :
    d ∈ defs := by
  rcases mem_values_foldl_insert defs empty h with h | h
  · simp [empty, values, Assoc.values] at h
  · exact h

/-- With keys apart, the table has one entry for each definition and drops none. -/
theorem values_ofList {defs : List D} (h : (defs.map key).Nodup) :
    (ofList defs : Table key).values = defs := by
  rw [ofList, values_foldl_insert defs empty (by simpa [empty, Assoc.keys] using h)]
  rfl

end Table

structure Symbols where
  sorts : Table fun sort : ADTSort => sort.id.globalId
  functions : Table fun fd : FunDef => fd.id.globalId

/-- `Symbols::new`. -/
def Symbols.new (sorts : List ADTSort) (functions : List FunDef) : Symbols where
  sorts := .ofList sorts
  functions := .ofList functions

end St
