import Mathlib.Data.List.Perm.Subperm
import RustStainless.Lib.SortKey
import RustStainless.Data.Ser
import RustStainless.Data.Symbols

/-!
# Equality and hashing of nodes

Most nodes derive `PartialEq` and `Hash`. Definitions and identifiers compare and hash by their
`globalId` only, and the two nodes that hold a hash map, `LargeArray` and `Symbols`, sort what they
hash.
-/

namespace St

open Lib

/-- What is fed to a hasher by one call of it. -/
inductive Token where
  | u8 (v : Nat)
  | u32 (v : Nat)
  | i32 (v : Int)
  | str (bytes : List UInt8)
  /-- The length of a `Vec`. -/
  | length (n : Nat)
  /-- The discriminant of an enum. -/
  | variant (n : Nat)
  /-- What the digits and the sign of a big integer feed. -/
  | bigInt (data : List Nat)
deriving DecidableEq

/-- The nodes that compare and hash by their identifier. -/
inductive DefinitionKind where
  | adtSort
  | classDef
  | funDef
  | typeParameterDef
  | valDef
  | typeParameter
  | adtConstructor
deriving DecidableEq

/-- The nodes, and the values of their fields. The keys of a map stand in the order of iteration. -/
inductive Datum where
  | boolean (v : Bool)
  | char (c : Char)
  | int (v : Int)
  | string (v : String)
  | bigInt (v : Int)
  | absent
  | present (value : Datum)
  | seq (elems : List Datum)
  | tuple (elems : List Datum)
  /-- `Expr`, `Type` and the other enums, with the node of the variant. -/
  | enum (variant : Nat) (node : Datum)
  | struct (fields : List Datum)
  | identifier (i : Identifier)
  | symbolIdentifier (i : SymbolIdentifier)
  | definition (kind : DefinitionKind) (id : SymbolIdentifier) (rest : List Datum)
  | largeArray (keys : List Int) (nodup : keys.Nodup) (elem : Int → Datum)
    (default size base : Datum)

/-- Two maps with these keys have the same length, and one has every key of the other. -/
def sameKeys (keys keys' : List Int) : Bool :=
  keys.length == keys'.length && keys.all fun k => keys'.contains k

mutual

/-- `PartialEq::eq`, of two nodes of one type. -/
def Datum.eq : Datum → Datum → Bool
  | .boolean v, .boolean w => v == w
  | .char v, .char w => v == w
  | .int v, .int w => v == w
  | .string v, .string w => v == w
  | .bigInt v, .bigInt w => v == w
  | .absent, .absent => true
  | .present v, .present w => Datum.eq v w
  | .seq vs, .seq ws | .tuple vs, .tuple ws | .struct vs, .struct ws => Datum.eqAll vs ws
  | .enum n v, .enum m w => n == m && Datum.eq v w
  | .identifier i, .identifier j => i.globalId == j.globalId
  | .symbolIdentifier i, .symbolIdentifier j => i.id.globalId == j.id.globalId
  | .definition k i _, .definition l j _ => k == l && i.id.globalId == j.id.globalId
  | .largeArray keys _ elem default size base, .largeArray keys' _ elem' default' size' base' =>
    sameKeys keys keys' && keys.all (fun k => Datum.eq (elem k) (elem' k)) &&
      Datum.eq default default' && Datum.eq size size' && Datum.eq base base'
  | _, _ => false

def Datum.eqAll : List Datum → List Datum → Bool
  | [], [] => true
  | v :: vs, w :: ws => Datum.eq v w && Datum.eqAll vs ws
  | _, _ => false

end

section

variable (hashBigInt : Int → List Token)

mutual

/-- `Hash::hash`: what is fed to the hasher. -/
def Datum.hash : Datum → List Token
  | .boolean v => [.u8 v.toNat]
  | .char c => [.u32 c.toNat]
  | .int v => [.i32 v]
  | .string v => [.str (asBytes v)]
  | .bigInt v => hashBigInt v
  | .absent => [.variant 0]
  | .present v => .variant 1 :: Datum.hash v
  | .seq vs => .length vs.length :: Datum.hashAll vs
  | .tuple vs | .struct vs => Datum.hashAll vs
  | .enum n v => .variant n :: Datum.hash v
  | .identifier i => [.i32 i.globalId]
  | .symbolIdentifier i => [.i32 i.id.globalId]
  | .definition _ i _ => [.i32 i.id.globalId]
  | .largeArray keys _ elem default size base =>
    (sortKey id keys).flatMap (fun k => .i32 k :: Datum.hash (elem k)) ++
      Datum.hash default ++ Datum.hash size ++ Datum.hash base

def Datum.hashAll : List Datum → List Token
  | [] => []
  | v :: vs => Datum.hash v ++ Datum.hashAll vs

end

/-! ## Symbols -/

/-- A map from identifiers to definitions: the ids of its keys in the order of iteration, and the
definition behind each of them. -/
structure DefMap (D : Type) where
  keys : List Int
  nodup : keys.Nodup
  value : Int → D

section

variable {D : Type} (key : D → Int)

/-- Equality of maps whose definitions compare by the key. -/
def DefMap.eq (m n : DefMap D) : Bool :=
  sameKeys m.keys n.keys && m.keys.all fun k => key (m.value k) == key (n.value k)

/-- `map.values()`, in the order of iteration. -/
def DefMap.values (m : DefMap D) : List D := m.keys.map m.value

/-- The sorted values, hashed one after the other. -/
def DefMap.hash (m : DefMap D) : List Token :=
  (sortKey key m.values).map fun d => .i32 (key d)

end

/-- The fields of `Symbols` are public: a map may hold any definition behind a key. -/
structure SymbolMaps where
  sorts : DefMap ADTSort
  functions : DefMap FunDef

def SymbolMaps.eq (x y : SymbolMaps) : Bool :=
  x.sorts.eq (fun sort => sort.id.id.globalId) y.sorts &&
    x.functions.eq (fun fd => fd.id.id.globalId) y.functions

/-- `Hash for Symbols`. -/
def SymbolMaps.hash (x : SymbolMaps) : List Token :=
  x.sorts.hash (fun sort => sort.id.id.globalId) ++
    x.functions.hash fun fd => fd.id.id.globalId

/-! ## Equal values are hashed alike -/

theorem perm_of_sameKeys {keys keys' : List Int} (hnodup : keys.Nodup)
    (h : sameKeys keys keys' = true) : keys.Perm keys' := by
  simp only [sameKeys, Bool.and_eq_true, beq_iff_eq, List.all_eq_true, List.contains_iff_mem] at h
  exact (hnodup.subperm h.2).perm_of_length_le h.1.ge

/-- The order in which a hasher sees the keys does not depend on the order of iteration. -/
theorem sortKey_eq_of_sameKeys {keys keys' : List Int} (hnodup : keys.Nodup)
    (h : sameKeys keys keys' = true) : sortKey id keys = sortKey id keys' :=
  sortKey_eq_of_perm (perm_of_sameKeys hnodup h) (by rwa [List.map_id])

theorem DefMap.hash_eq {D : Type} {key : D → Int} {m n : DefMap D} (h : m.eq key n = true) :
    m.hash key = n.hash key := by
  obtain ⟨hsame, hall⟩ := Bool.and_eq_true_iff.mp h
  have hkeys : m.values.map key = m.keys.map fun k => key (n.value k) := by
    rw [values, List.map_map]
    exact List.map_congr_left fun k hk => by simpa using List.all_eq_true.mp hall k hk
  have hperm : (m.values.map key).Perm (n.values.map key) := by
    rw [hkeys, values, List.map_map]
    exact (perm_of_sameKeys m.nodup hsame).map _
  have hsorted := map_sortKey_eq_of_perm hperm
  unfold DefMap.hash
  calc (sortKey key m.values).map (fun d => Token.i32 (key d))
      = ((sortKey key m.values).map key).map Token.i32 := by rw [List.map_map]; rfl
    _ = ((sortKey key n.values).map key).map Token.i32 := by rw [hsorted]
    _ = (sortKey key n.values).map (fun d => Token.i32 (key d)) := by rw [List.map_map]; rfl

mutual

theorem Datum.hash_eq : ∀ v w : Datum, v.eq w = true → v.hash hashBigInt = w.hash hashBigInt
  | .boolean v, w, h => by cases w <;> simp_all [Datum.eq, Datum.hash]
  | .char v, w, h => by cases w <;> simp_all [Datum.eq, Datum.hash]
  | .int v, w, h => by cases w <;> simp_all [Datum.eq, Datum.hash]
  | .string v, w, h => by cases w <;> simp_all [Datum.eq, Datum.hash]
  | .bigInt v, w, h => by cases w <;> simp_all [Datum.eq, Datum.hash]
  | .absent, w, h => by cases w <;> simp_all [Datum.eq, Datum.hash]
  | .present v, w, h => by
    cases w <;> simp only [Datum.eq, Bool.false_eq_true] at h
    rw [Datum.hash, Datum.hash, Datum.hash_eq v _ h]
  | .seq vs, w, h => by
    cases w <;> simp only [Datum.eq, Bool.false_eq_true] at h
    obtain ⟨hlength, hhash⟩ := Datum.hashAll_eq vs _ h
    rw [Datum.hash, Datum.hash, hlength, hhash]
  | .tuple vs, w, h | .struct vs, w, h => by
    cases w <;> simp only [Datum.eq, Bool.false_eq_true] at h
    rw [Datum.hash, Datum.hash, (Datum.hashAll_eq vs _ h).2]
  | .enum n v, w, h => by
    cases w <;> simp only [Datum.eq, Bool.false_eq_true, Bool.and_eq_true, beq_iff_eq] at h
    rw [Datum.hash, Datum.hash, h.1, Datum.hash_eq v _ h.2]
  | .identifier i, w, h | .symbolIdentifier i, w, h => by
    cases w <;> simp_all [Datum.eq, Datum.hash]
  | .definition kind i rest, w, h => by cases w <;> simp_all [Datum.eq, Datum.hash]
  | .largeArray keys nodup elem default size base, w, h => by
    cases w <;> simp only [Datum.eq, Bool.false_eq_true, Bool.and_eq_true] at h
    obtain ⟨⟨⟨⟨hsame, hall⟩, hdefault⟩, hsize⟩, hbase⟩ := h
    have helems : ∀ k ∈ keys, Token.i32 k :: (elem k).hash hashBigInt = _ := fun k hk =>
      congrArg (Token.i32 k :: ·) (Datum.hash_eq (elem k) _ (List.all_eq_true.mp hall k hk))
    rw [Datum.hash, Datum.hash, Datum.hash_eq default _ hdefault, Datum.hash_eq size _ hsize,
      Datum.hash_eq base _ hbase, ← sortKey_eq_of_sameKeys nodup hsame,
      List.flatMap_congr fun k hk => helems k (mem_sortKey.mp hk)]

theorem Datum.hashAll_eq : ∀ vs ws : List Datum, Datum.eqAll vs ws = true →
    vs.length = ws.length ∧ Datum.hashAll hashBigInt vs = Datum.hashAll hashBigInt ws
  | [], [], _ => ⟨rfl, rfl⟩
  | v :: vs, w :: ws, h => by
    simp only [Datum.eqAll, Bool.and_eq_true] at h
    obtain ⟨hlength, hhash⟩ := Datum.hashAll_eq vs ws h.2
    rw [List.length_cons, List.length_cons, hlength, Datum.hashAll, Datum.hashAll,
      Datum.hash_eq v w h.1, hhash]
    exact ⟨rfl, rfl⟩
  | [], _ :: _, h | _ :: _, [], h => by simp [Datum.eqAll] at h

end

/-- **Hashing agrees with equality**: equal symbols, and equal nodes, feed the same to a hasher. -/
theorem hash_agrees : (∀ x y : SymbolMaps, x.eq y = true → x.hash = y.hash) ∧
    ∀ v w : Datum, v.eq w = true → v.hash hashBigInt = w.hash hashBigInt := by
  refine ⟨fun x y h => ?_, Datum.hash_eq hashBigInt⟩
  obtain ⟨hsorts, hfunctions⟩ := Bool.and_eq_true_iff.mp h
  rw [SymbolMaps.hash, SymbolMaps.hash, DefMap.hash_eq hsorts, DefMap.hash_eq hfunctions]

end

/-! ## Two orders -/

/-- A map with two functions, in this order. -/
def twoFunctions (keys : List Int) (nodup : keys.Nodup) : SymbolMaps :=
  { sorts := ⟨[], List.nodup_nil, fun k => ⟨⟨⟨"S", k, k⟩, []⟩, [], [], []⟩⟩
    functions :=
      ⟨keys, nodup, fun k => ⟨⟨⟨"f", k, k⟩, []⟩, [], [], .unitType, .noTree .unitType, []⟩⟩ }

/-- An array with two elements, in this order. -/
def twoElems (keys : List Int) (nodup : keys.Nodup) : Datum :=
  .largeArray keys nodup .int (.int 0) (.int 2) .absent

theorem hash_agrees_reversed :
    let hashBigInt : Int → List Token := fun v => [.bigInt [v.natAbs]]
    (twoFunctions [1, 2] (by decide)).hash = (twoFunctions [2, 1] (by decide)).hash ∧
      (twoElems [1, 2] (by decide)).hash hashBigInt =
        (twoElems [2, 1] (by decide)).hash hashBigInt := by
  intro hashBigInt
  obtain ⟨hsymbols, hnodes⟩ := hash_agrees hashBigInt
  exact ⟨hsymbols _ _ (by decide), hnodes _ _ (by decide)⟩

end St
