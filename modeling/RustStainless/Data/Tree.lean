import RustStainless.Data.Ast
import RustStainless.Data.Ser

/-!
# The shape of the serialized form

What the serializer writes is a tree: primitive values, options, sequences and tuples, and nodes of
a known kind with as many fields as the kind has. `Tree.write` writes any such tree, and what it
writes can be split off whatever follows.
-/

namespace St

open Lib

/-! ## Kinds of nodes -/

/-- The node kinds of the trees that the extractor builds. -/
inductive NodeKind where
  | identifier
  | symbolIdentifier
  | valDef
  | typeParameterDef
  | adtSort
  | adtConstructor
  | funDef
  | matchCase
  | flag (flag : Flag)
  | untyped
  | booleanType
  | unitType
  | integerType
  | stringType
  | bvType
  | typeParameter
  | tupleType
  | setType
  | functionType
  | adtType
  | wildcardPattern
  | adtPattern
  | tuplePattern
  | literalPattern
  | bvLiteral
  | booleanLiteral
  | stringLiteral
  | unitLiteral
  | unary (op : UnaryOperator)
  | binary (op : BinaryOperator)
  | variable
  | letIn
  | lambda
  | functionInvocation
  | ifExpr
  | adt
  | adtSelector
  | and
  | or
  | bvWideningCast
  | tuple
  | tupleSelect
  | finiteSet
  | noTree
  | error
  | require
  | ensuring
  | matchExpr
  | decreases
  | block

def Flag.marker : Flag → Nat
  | .external => 139
  | .isPure => 230
  | .isMutable => 199
  | .isVar => 198
  | .law => 150

def UnaryOperator.marker : UnaryOperator → Nat
  | .not => 33
  | .uMinus => 39
  | .bvNot => 48

def BinaryOperator.marker : BinaryOperator → Nat
  | .equals => 30
  | .plus => 37
  | .minus => 38
  | .times => 40
  | .division => 41
  | .remainder => 42
  | .lessThan => 44
  | .greaterThan => 45
  | .lessEquals => 46
  | .greaterEquals => 47
  | .bvAnd => 49
  | .bvOr => 50
  | .bvXor => 51
  | .bvShiftLeft => 52
  | .bvAShiftRight => 53
  | .bvLShiftRight => 54
  | .setAdd => 60
  | .subsetOf => 62
  | .setIntersection => 63
  | .setUnion => 64
  | .setDifference => 65

def NodeKind.marker : NodeKind → Nat
  | .variable => 11
  | .letIn => 12
  | .lambda => 14
  | .functionInvocation => 17
  | .ifExpr => 18
  | .bvLiteral => 20
  | .booleanLiteral => 23
  | .stringLiteral => 24
  | .unitLiteral => 25
  | .adt => 27
  | .adtSelector => 29
  | .and => 31
  | .or => 32
  | .unary op => op.marker
  | .binary op => op.marker
  | .bvWideningCast => 56
  | .tuple => 57
  | .tupleSelect => 58
  | .finiteSet => 59
  | .untyped => 75
  | .booleanType => 76
  | .unitType => 77
  | .integerType => 79
  | .stringType => 81
  | .bvType => 82
  | .typeParameter => 83
  | .tupleType => 84
  | .setType => 85
  | .functionType => 88
  | .adtType => 89
  | .identifier => 90
  | .valDef => 94
  | .typeParameterDef => 95
  | .adtSort => 96
  | .adtConstructor => 97
  | .funDef => 98
  | .noTree => 120
  | .error => 121
  | .require => 122
  | .ensuring => 124
  | .matchExpr => 126
  | .matchCase => 127
  | .wildcardPattern => 128
  | .adtPattern => 129
  | .tuplePattern => 130
  | .literalPattern => 131
  | .symbolIdentifier => 145
  | .decreases => 180
  | .block => 188
  | .flag f => f.marker

/-- How many fields a node has. -/
def NodeKind.arity : NodeKind → Nat
  | .untyped | .booleanType | .unitType | .integerType | .stringType | .unitLiteral | .flag _ => 0
  | .identifier | .symbolIdentifier | .valDef | .typeParameterDef | .tupleType | .setType
  | .wildcardPattern | .bvLiteral | .booleanLiteral | .stringLiteral | .unary _ | .and | .or
  | .tuple | .noTree => 1
  | .bvType | .typeParameter | .functionType | .adtType | .tuplePattern | .literalPattern
  | .binary _ | .lambda | .adtSelector | .bvWideningCast | .tupleSelect | .finiteSet | .error
  | .require | .ensuring | .matchExpr | .decreases | .block => 2
  | .adtConstructor | .matchCase | .variable | .letIn | .functionInvocation | .ifExpr | .adt => 3
  | .adtSort | .adtPattern => 4
  | .funDef => 6

/-- The kind that a marker stands for. -/
def NodeKind.ofMarker : Nat → Option NodeKind
  | 11 => some .variable
  | 12 => some .letIn
  | 14 => some .lambda
  | 17 => some .functionInvocation
  | 18 => some .ifExpr
  | 20 => some .bvLiteral
  | 23 => some .booleanLiteral
  | 24 => some .stringLiteral
  | 25 => some .unitLiteral
  | 27 => some .adt
  | 29 => some .adtSelector
  | 30 => some (.binary .equals)
  | 31 => some .and
  | 32 => some .or
  | 33 => some (.unary .not)
  | 37 => some (.binary .plus)
  | 38 => some (.binary .minus)
  | 39 => some (.unary .uMinus)
  | 40 => some (.binary .times)
  | 41 => some (.binary .division)
  | 42 => some (.binary .remainder)
  | 44 => some (.binary .lessThan)
  | 45 => some (.binary .greaterThan)
  | 46 => some (.binary .lessEquals)
  | 47 => some (.binary .greaterEquals)
  | 48 => some (.unary .bvNot)
  | 49 => some (.binary .bvAnd)
  | 50 => some (.binary .bvOr)
  | 51 => some (.binary .bvXor)
  | 52 => some (.binary .bvShiftLeft)
  | 53 => some (.binary .bvAShiftRight)
  | 54 => some (.binary .bvLShiftRight)
  | 56 => some .bvWideningCast
  | 57 => some .tuple
  | 58 => some .tupleSelect
  | 59 => some .finiteSet
  | 60 => some (.binary .setAdd)
  | 62 => some (.binary .subsetOf)
  | 63 => some (.binary .setIntersection)
  | 64 => some (.binary .setUnion)
  | 65 => some (.binary .setDifference)
  | 75 => some .untyped
  | 76 => some .booleanType
  | 77 => some .unitType
  | 79 => some .integerType
  | 81 => some .stringType
  | 82 => some .bvType
  | 83 => some .typeParameter
  | 84 => some .tupleType
  | 85 => some .setType
  | 88 => some .functionType
  | 89 => some .adtType
  | 90 => some .identifier
  | 94 => some .valDef
  | 95 => some .typeParameterDef
  | 96 => some .adtSort
  | 97 => some .adtConstructor
  | 98 => some .funDef
  | 120 => some .noTree
  | 121 => some .error
  | 122 => some .require
  | 124 => some .ensuring
  | 126 => some .matchExpr
  | 127 => some .matchCase
  | 128 => some .wildcardPattern
  | 129 => some .adtPattern
  | 130 => some .tuplePattern
  | 131 => some .literalPattern
  | 139 => some (.flag .external)
  | 145 => some .symbolIdentifier
  | 150 => some (.flag .law)
  | 180 => some .decreases
  | 188 => some .block
  | 198 => some (.flag .isVar)
  | 199 => some (.flag .isMutable)
  | 230 => some (.flag .isPure)
  | _ => none

theorem NodeKind.ofMarker_marker (k : NodeKind) : ofMarker k.marker = some k := by
  cases k with
  | flag f => cases f <;> rfl
  | unary op => cases op <;> rfl
  | binary op => cases op <;> rfl
  | _ => rfl

theorem NodeKind.marker_inj {k k' : NodeKind} (h : k.marker = k'.marker) : k = k' := by
  have hk := ofMarker_marker k
  rw [h, ofMarker_marker k'] at hk
  exact (Option.some.inj hk).symm

/-- The markers of nodes are behind those of the containers. -/
theorem NodeKind.marker_bounds (k : NodeKind) : 7 < k.marker ∧ k.marker < 255 := by
  cases k with
  | flag f => cases f <;> decide
  | unary op => cases op <;> decide
  | binary op => cases op <;> decide
  | _ => decide

/-! ## Trees -/

inductive Tree where
  | boolean (v : Bool)
  | int (v : Int)
  | string (bytes : List UInt8)
  | bigInt (bytes : List UInt8)
  | none
  | some (value : Tree)
  | seq (elems : List Tree)
  | tuple (elems : List Tree)
  | node (kind : NodeKind) (fields : List Tree)

mutual

/-- Write a tree, as the `Serializable` impls do. -/
def Tree.write : Tree → Ser
  | .boolean v => serializeBoolean v
  | .int v => serializeInt v
  | .string bytes => do
    writeMarker 5
    writeU8 8
    writeU32 bytes.length
    St.write bytes
  | .bigInt bytes => serializeBigInt bytes
  | .none => serializeOption .none
  | .some value => serializeOption (.some (Tree.write value))
  | .seq elems => serializeSeq elems.length (Tree.writeAll elems)
  | .tuple elems => serializeTuple elems.length (Tree.writeAll elems)
  | .node kind fields => do
    writeMarker kind.marker
    Tree.writeAll fields

def Tree.writeAll : List Tree → Ser
  | [] => pure ()
  | t :: ts => do
    Tree.write t
    Tree.writeAll ts

end

mutual

/-- What is written for a tree. -/
def Tree.bytes : Tree → List UInt8
  | .boolean v => [5, 0, UInt8.ofNat v.toNat]
  | .int v => 5 :: 4 :: beBytes 4 (v % 2 ^ 32).toNat
  | .string bytes => 5 :: 8 :: (beBytes 4 bytes.length ++ bytes)
  | .bigInt bytes => 5 :: 9 :: (beBytes 4 bytes.length ++ bytes)
  | .none => [1, 0]
  | .some value => 1 :: 1 :: Tree.bytes value
  | .seq elems => 2 :: (lengthBytes elems.length ++ Tree.allBytes elems)
  | .tuple elems => 6 :: UInt8.ofNat elems.length :: Tree.allBytes elems
  | .node kind fields => UInt8.ofNat kind.marker :: Tree.allBytes fields

def Tree.allBytes : List Tree → List UInt8
  | [] => []
  | t :: ts => Tree.bytes t ++ Tree.allBytes ts

end

/-! ## Conditions on every node of a tree -/

mutual

/-- Every node of the tree has the property. -/
def Tree.All (p : Tree → Prop) : Tree → Prop
  | .some value => p (.some value) ∧ Tree.All p value
  | .seq elems => p (.seq elems) ∧ Tree.AllOf p elems
  | .tuple elems => p (.tuple elems) ∧ Tree.AllOf p elems
  | .node kind fields => p (.node kind fields) ∧ Tree.AllOf p fields
  | t => p t

def Tree.AllOf (p : Tree → Prop) : List Tree → Prop
  | [] => True
  | t :: ts => Tree.All p t ∧ Tree.AllOf p ts

end

/-- Numbers are of type `i32`, and the lengths of bytes are of type `u32`. -/
def Tree.InType : Tree → Prop
  | .int v => -2 ^ 31 ≤ v ∧ v < 2 ^ 31
  | .string bytes | .bigInt bytes => bytes.length < 2 ^ 32
  | _ => True

/-- What `write_length` asserts. -/
def Tree.Asserted : Tree → Prop
  | .seq elems => elems.length ≤ i32Max
  | _ => True

/-- Tuples are short, and nodes have the fields of their kind. -/
def Tree.Shaped : Tree → Prop
  | .tuple elems => elems.length < 256
  | .node kind fields => fields.length = kind.arity
  | _ => True

/-! ## Writing -/

mutual

/-- A tree is written as its bytes, unless a sequence is too long. -/
theorem Tree.writes : ∀ t : Tree, Writes t.write (t.All Asserted) t.bytes
  | .boolean v =>
    ((writes_marker (by decide)).bind ((Writes.write _).bind (.write _))).congr
      (by simp [All, Asserted]) rfl
  | .int v => (writes_int v).congr (by simp [All, Asserted]) rfl
  | .string bytes | .bigInt bytes =>
    ((writes_marker (by decide)).bind ((Writes.write _).bind
      ((Writes.write _).bind (.write bytes)))).congr (by simp [All, Asserted]) rfl
  | .none => ((writes_marker (by decide)).bind (.write _)).congr (by simp [All, Asserted]) rfl
  | .some value =>
    ((writes_marker (by decide)).bind ((Writes.write _).bind (Tree.writes value))).congr
      (by simp [All, Asserted]) rfl
  | .seq elems =>
    ((writes_marker (by decide)).bind ((writes_length _).bind (Tree.writes_all elems))).congr
      (by simp [All, Asserted]) rfl
  | .tuple elems =>
    ((writes_marker (by decide)).bind ((Writes.write _).bind (Tree.writes_all elems))).congr
      (by simp [All, Asserted]) rfl
  | .node kind fields =>
    ((writes_marker kind.marker_bounds.2).bind (Tree.writes_all fields)).congr
      (by simp [All, Asserted]) rfl

theorem Tree.writes_all : ∀ ts : List Tree,
    Writes (writeAll ts) (AllOf Asserted ts) (allBytes ts)
  | [] => Writes.pure
  | t :: ts => (Tree.writes t).bind (Tree.writes_all ts)

end

/-! ## Splitting -/

/-- A tree that is written, of values in their types. -/
def Tree.Good (t : Tree) : Prop := t.InType ∧ t.Asserted ∧ t.Shaped

theorem lengthBytes_splits : Splits (fun n => n ≤ i32Max) lengthBytes := by
  intro n hn m r s hm h
  unfold i32Max at hn hm
  unfold lengthBytes at h
  by_cases h1 : n < 255 <;> by_cases h2 : m < 255
  · rw [if_pos h1, if_pos h2] at h
    simp only [List.cons_append, List.nil_append, List.cons.injEq] at h
    have := congrArg UInt8.toNat h.1
    rw [UInt8.toNat_ofNat', UInt8.toNat_ofNat'] at this
    exact ⟨by omega, h.2⟩
  · -- A short length is not the byte 255.
    rw [if_pos h1, if_neg h2] at h
    simp only [List.cons_append, List.nil_append, List.cons.injEq] at h
    have := congrArg UInt8.toNat h.1
    rw [UInt8.toNat_ofNat'] at this
    simp at this
    omega
  · rw [if_neg h1, if_pos h2] at h
    simp only [List.cons_append, List.nil_append, List.cons.injEq] at h
    have := congrArg UInt8.toNat h.1
    rw [UInt8.toNat_ofNat'] at this
    simp at this
    omega
  · rw [if_neg h1, if_neg h2] at h
    simp only [List.cons_append, List.cons.injEq, true_and] at h
    exact splits_beBytes 4 n (by omega) m r s (by omega) h

theorem framed_splits {b b' r s : List UInt8} (hb : b.length < 2 ^ 32) (hb' : b'.length < 2 ^ 32)
    (h : beBytes 4 b.length ++ b ++ r = beBytes 4 b'.length ++ b' ++ s) : b = b' ∧ r = s :=
  (splits_beBytes 4).framed b hb b' r s hb' h

theorem i32_splits : Splits (fun v : Int => -2 ^ 31 ≤ v ∧ v < 2 ^ 31)
    fun v => beBytes 4 (v % 2 ^ 32).toNat := by
  refine .of_length (fun v _ => length_beBytes 4 _) ?_
  intro v w hv hw h
  have := beBytes_inj (by omega) (by omega) h
  omega

theorem kind_of_byte {k k' : NodeKind} (h : UInt8.ofNat k.marker = UInt8.ofNat k'.marker) :
    k = k' := by
  have hk := k.marker_bounds
  have hk' := k'.marker_bounds
  apply NodeKind.marker_inj
  have := congrArg UInt8.toNat h
  rw [UInt8.toNat_ofNat', UInt8.toNat_ofNat'] at this
  omega

/-- The first byte tells a node from anything else. -/
theorem kind_byte_ne (k : NodeKind) {m : UInt8} (hm : m.toNat ≤ 7) : UInt8.ofNat k.marker ≠ m := by
  rintro rfl
  have hk := k.marker_bounds
  rw [UInt8.toNat_ofNat'] at hm
  omega

theorem ofNat_short_inj {n m : Nat} (hn : n < 256) (hm : m < 256)
    (h : UInt8.ofNat n = UInt8.ofNat m) : n = m := by
  have := congrArg UInt8.toNat h
  rw [UInt8.toNat_ofNat', UInt8.toNat_ofNat'] at this
  omega

/-- The elements of a list, seen one by one. -/
theorem Tree.allBytes_eq : ∀ ts : List Tree, allBytes ts = ts.flatMap bytes
  | [] => rfl
  | t :: ts => by rw [allBytes, allBytes_eq ts, List.flatMap_cons]

theorem Tree.allOf_iff {p : Tree → Prop} : ∀ ts : List Tree, AllOf p ts ↔ ∀ t ∈ ts, t.All p
  | [] => by simp [AllOf]
  | t :: ts => by simp [AllOf, allOf_iff ts]

mutual

/-- **What is written for a tree can be split off whatever follows.** -/
theorem Tree.splits : ∀ t : Tree, t.All Good → SplitsAt (All Good) bytes t
  | .boolean v, _, y, r, s, _, h => by
    cases y with
    | boolean w =>
      simp only [bytes, List.cons_append, List.nil_append, List.cons.injEq, true_and] at h
      have hvw := ofNat_short_inj (Nat.lt_of_le_of_lt v.toNat_le (by decide))
        (Nat.lt_of_le_of_lt w.toNat_le (by decide)) h.1
      cases v <;> cases w <;> simp at hvw ⊢ <;> exact h.2
    | node k => exact absurd (List.cons.inj h).1.symm (kind_byte_ne k (by decide))
    | _ => simp [bytes] at h
  | .int v, hv, y, r, s, hy, h => by
    cases y with
    | int w =>
      obtain ⟨rfl, hrs⟩ := i32_splits v hv.1 w r s hy.1 (by simpa [bytes] using h)
      exact ⟨rfl, hrs⟩
    | node k => exact absurd (List.cons.inj h).1.symm (kind_byte_ne k (by decide))
    | _ => simp [bytes] at h
  | .string b, hb, y, r, s, hy, h => by
    cases y with
    | string b' =>
      obtain ⟨rfl, hrs⟩ := framed_splits hb.1 hy.1 (by simpa [bytes] using h)
      exact ⟨rfl, hrs⟩
    | node k => exact absurd (List.cons.inj h).1.symm (kind_byte_ne k (by decide))
    | _ => simp [bytes] at h
  | .bigInt b, hb, y, r, s, hy, h => by
    cases y with
    | bigInt b' =>
      obtain ⟨rfl, hrs⟩ := framed_splits hb.1 hy.1 (by simpa [bytes] using h)
      exact ⟨rfl, hrs⟩
    | node k => exact absurd (List.cons.inj h).1.symm (kind_byte_ne k (by decide))
    | _ => simp [bytes] at h
  | .none, _, y, r, s, _, h => by
    cases y with
    | none => simpa [bytes] using h
    | node k => exact absurd (List.cons.inj h).1.symm (kind_byte_ne k (by decide))
    | _ => simp [bytes] at h
  | .some value, hv, y, r, s, hy, h => by
    cases y with
    | some value' =>
      obtain ⟨rfl, hrs⟩ := Tree.splits value hv.2 value' r s hy.2 (by simpa [bytes] using h)
      exact ⟨rfl, hrs⟩
    | node k => exact absurd (List.cons.inj h).1.symm (kind_byte_ne k (by decide))
    | _ => simp [bytes] at h
  | .seq elems, he, y, r, s, hy, h => by
    cases y with
    | seq elems' =>
      obtain ⟨rfl, hrs⟩ := splits_counted lengthBytes_splits he.1.2.1 hy.1.2.1
        (Tree.splits_mem elems he.2) ((allOf_iff _).mp hy.2)
        (by simpa [bytes, allBytes_eq] using h)
      exact ⟨rfl, hrs⟩
    | node k => exact absurd (List.cons.inj h).1.symm (kind_byte_ne k (by decide))
    | _ => simp [bytes] at h
  | .tuple elems, he, y, r, s, hy, h => by
    cases y with
    | tuple elems' =>
      simp only [bytes, List.cons_append, List.cons.injEq, true_and] at h
      have hn := ofNat_short_inj he.1.2.2 hy.1.2.2 h.1
      obtain ⟨rfl, hrs⟩ := splits_flatMap hn (Tree.splits_mem elems he.2) ((allOf_iff _).mp hy.2)
        (by simpa [allBytes_eq] using h.2)
      exact ⟨rfl, hrs⟩
    | node k => exact absurd (List.cons.inj h).1.symm (kind_byte_ne k (by decide))
    | _ => simp [bytes] at h
  | .node kind fields, hf, y, r, s, hy, h => by
    cases y with
    | node kind' fields' =>
      simp only [bytes, List.cons_append, List.cons.injEq] at h
      obtain rfl := kind_of_byte h.1
      -- The kind says how many fields there are.
      have hn : fields.length = fields'.length := hf.1.2.2.trans hy.1.2.2.symm
      obtain ⟨rfl, hrs⟩ := splits_flatMap hn (Tree.splits_mem fields hf.2) ((allOf_iff _).mp hy.2)
        (by simpa [allBytes_eq] using h.2)
      exact ⟨rfl, hrs⟩
    | _ => exact absurd (List.cons.inj h).1 (kind_byte_ne kind (by decide))

theorem Tree.splits_mem : ∀ ts : List Tree, AllOf Good ts →
    ∀ t ∈ ts, SplitsAt (All Good) bytes t
  | [], _, t, ht => by simp at ht
  | u :: us, hu, t, ht => by
    rcases List.mem_cons.mp ht with htu | ht
    · rw [htu]
      exact Tree.splits u hu.1
    · exact Tree.splits_mem us hu.2 t ht

end

end St
