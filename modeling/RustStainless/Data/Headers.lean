import Mathlib.Data.List.Infix
import RustStainless.Data.ToTree

/-!
# Length headers

All values that can be serialized, with the length header that each kind writes and what follows it.
The header of a sequence, a set or a map is guarded by an assertion; the headers of strings, of big
integers and of the buffer of the symbols are not.
-/

namespace St

open Lib

/-! ## Values -/

/-- The containers that are written alike. -/
inductive Container where
  | seq
  | set
  | map

def Container.marker : Container → Nat
  | .seq => 2
  | .set => 3
  | .map => 4

/-- The values that can be serialized. The elements of a set and the entries of a map stand in the
order in which they are written. -/
inductive Val where
  | boolean (v : Bool)
  | char (c : Char)
  | int (v : Int)
  | string (bytes : List UInt8)
  | bigInt (bytes : List UInt8)
  | absent
  | present (value : Val)
  | container (kind : Container) (elems : List Val)
  /-- An entry of a map. -/
  | entry (key value : Val)
  | tuple (elems : List Val)
  | buffer (bytes : List UInt8)
  /-- `Symbols`, with the pair that goes to the inner serializer. -/
  | symbols (inner : Val)
  | node (marker : Nat) (fields : List Val)

/-- `s.write(bytes)` behind `bytes.len() as u32`. -/
def serializeBytes (primitive : Nat) (bytes : List UInt8) : Ser := do
  writeMarker 5
  writeU8 primitive
  writeU32 bytes.length
  write bytes

mutual

/-- The `Serializable` impls. -/
def Val.serialize : Val → Ser
  | .boolean v => serializeBoolean v
  | .char c => do
    writeMarker 5
    writeU8 1
    -- `(*self) as u16`
    write (beBytes 2 c.toNat)
  | .int v => serializeInt v
  | .string bytes => serializeBytes 8 bytes
  | .bigInt bytes => serializeBigInt bytes
  | .absent => serializeOption none
  | .present value => serializeOption (some (Val.serialize value))
  | .container kind elems => do
    writeMarker kind.marker
    writeLength elems.length
    Val.serializeAll elems
  | .entry key value => do
    Val.serialize key
    Val.serialize value
  | .tuple elems => serializeTuple elems.length (Val.serializeAll elems)
  | .buffer bytes => serializeBuffer bytes
  | .symbols inner =>
    match Val.serialize inner [] with
    | .ok (_, bytes) => serializeBuffer bytes
    | .error p => Run.panic p
  | .node marker fields => do
    writeMarker marker
    Val.serializeAll fields

def Val.serializeAll : List Val → Ser
  | [] => pure ()
  | v :: vs => do
    Val.serialize v
    Val.serializeAll vs

end

mutual

/-- What is written for a value. -/
def Val.bytes : Val → List UInt8
  | .boolean v => [5, 0, UInt8.ofNat v.toNat]
  | .char c => 5 :: 1 :: beBytes 2 c.toNat
  | .int v => 5 :: 4 :: beBytes 4 (v % 2 ^ 32).toNat
  | .string bytes => 5 :: 8 :: (beBytes 4 bytes.length ++ bytes)
  | .bigInt bytes => 5 :: 9 :: (beBytes 4 bytes.length ++ bytes)
  | .absent => [1, 0]
  | .present value => 1 :: 1 :: Val.bytes value
  | .container kind elems =>
    UInt8.ofNat kind.marker :: (lengthBytes elems.length ++ Val.allBytes elems)
  | .entry key value => Val.bytes key ++ Val.bytes value
  | .tuple elems => 6 :: UInt8.ofNat elems.length :: Val.allBytes elems
  | .buffer bytes => 7 :: (bufferHeader bytes.length ++ bytes)
  | .symbols inner => 7 :: (bufferHeader (Val.bytes inner).length ++ Val.bytes inner)
  | .node marker fields => UInt8.ofNat marker :: Val.allBytes fields

def Val.allBytes : List Val → List UInt8
  | [] => []
  | v :: vs => Val.bytes v ++ Val.allBytes vs

end

mutual

/-- Every value inside the value has the property. -/
def Val.All (p : Val → Prop) : Val → Prop
  | .present value => p (.present value) ∧ Val.All p value
  | .container kind elems => p (.container kind elems) ∧ Val.AllOf p elems
  | .entry key value => p (.entry key value) ∧ Val.All p key ∧ Val.All p value
  | .tuple elems => p (.tuple elems) ∧ Val.AllOf p elems
  | .symbols inner => p (.symbols inner) ∧ Val.All p inner
  | .node marker fields => p (.node marker fields) ∧ Val.AllOf p fields
  | v => p v

def Val.AllOf (p : Val → Prop) : List Val → Prop
  | [] => True
  | v :: vs => Val.All p v ∧ Val.AllOf p vs

end

/-- What `write_length` and `write_marker` assert. -/
def Val.Asserted : Val → Prop
  | .container _ elems => elems.length ≤ i32Max
  | .node marker _ => marker < 255
  | _ => True

/-! ## Writing -/

theorem writes_containerMarker (kind : Container) :
    Writes (writeMarker kind.marker) True [UInt8.ofNat kind.marker] :=
  writes_marker (by cases kind <;> decide)

mutual

/-- A value is written as its bytes, unless an assertion stops it. -/
theorem Val.writes : ∀ v : Val, Writes v.serialize (v.All Asserted) v.bytes
  | .boolean v =>
    ((writes_marker (by decide)).bind ((Writes.write _).bind (.write _))).congr
      (by simp [All, Asserted]) rfl
  | .char c =>
    ((writes_marker (by decide)).bind ((Writes.write _).bind (.write _))).congr
      (by simp [All, Asserted]) rfl
  | .int v => (writes_int v).congr (by simp [All, Asserted]) rfl
  | .string bytes | .bigInt bytes =>
    ((writes_marker (by decide)).bind ((Writes.write _).bind
      ((Writes.write _).bind (.write bytes)))).congr (by simp [All, Asserted]) rfl
  | .absent => ((writes_marker (by decide)).bind (.write _)).congr (by simp [All, Asserted]) rfl
  | .present value =>
    ((writes_marker (by decide)).bind ((Writes.write _).bind (Val.writes value))).congr
      (by simp [All, Asserted]) rfl
  | .container kind elems =>
    ((writes_containerMarker kind).bind ((writes_length _).bind (Val.writes_all elems))).congr
      (by simp [All, Asserted]) rfl
  | .entry key value =>
    ((Val.writes key).bind (Val.writes value)).congr (by simp [All, Asserted]) rfl
  | .tuple elems =>
    ((writes_marker (by decide)).bind ((Writes.write _).bind (Val.writes_all elems))).congr
      (by simp [All, Asserted]) rfl
  | .buffer bytes => (writes_buffer bytes).congr (by simp [All, Asserted]) rfl
  | .symbols inner => by
    have ih := Val.writes inner
    rw [Val.serialize, Val.bytes]
    cases hinner : inner.serialize [] with
    | error p =>
      refine (Writes.panic _).congr ?_ rfl
      simp only [All, Asserted, true_and, false_iff]
      intro hall
      have hok := (ih [] () _).mpr ⟨hall, rfl⟩
      rw [hinner] at hok
      cases hok
    | ok r =>
      obtain ⟨u, bytes⟩ := r
      obtain ⟨hall, rfl⟩ := (ih [] u bytes).mp hinner
      exact (writes_buffer _).congr (by simp [All, Asserted, hall]) rfl
  | .node marker fields => by
    by_cases h : marker < 255
    · exact ((writes_marker h).bind (Val.writes_all fields)).congr
        (by simp [All, Asserted, h]) rfl
    · have hpanic : writeMarker marker = Run.panic .marker := if_neg h
      intro s u s'
      rw [Val.serialize, hpanic]
      simp [All, Asserted, h, Run.bind_ok]

theorem Val.writes_all : ∀ vs : List Val,
    Writes (serializeAll vs) (AllOf Asserted vs) (allBytes vs)
  | [] => Writes.pure
  | v :: vs => (Val.writes v).bind (Val.writes_all vs)

end

/-! ## Reading a header back -/

/-- The four encodings of a length header. Strings and big integers share one. -/
inductive HeaderKind where
  | length
  | u32
  | int

/-- The `i32` of four bytes. -/
def readI32 (bytes : List UInt8) : Int :=
  if ofBeBytes bytes < 2 ^ 31 then ofBeBytes bytes else ofBeBytes bytes - 2 ^ 32

/-- The number in a header, in the integer type in which it was written. -/
def HeaderKind.read : HeaderKind → List UInt8 → Option Int
  | .u32, bytes => some (ofBeBytes bytes)
  | .int, 5 :: 4 :: bytes => some (readI32 bytes)
  | .length, [b] => some b.toNat
  | .length, 255 :: 5 :: 4 :: bytes => some (readI32 bytes)
  | _, _ => none

/-- A header, and the elements or bytes that follow it. -/
structure Header where
  kind : HeaderKind
  bytes : List UInt8
  parts : List (List UInt8)

/-- The header says how many parts follow. -/
def Header.True (h : Header) : Prop := h.kind.read h.bytes = some (h.parts.length : Int)

def bytewise (bytes : List UInt8) : List (List UInt8) := bytes.map fun b => [b]

/-- The header of a value itself. -/
def Val.header : Val → Option Header
  | .string bytes | .bigInt bytes => some ⟨.u32, beBytes 4 bytes.length, bytewise bytes⟩
  | .container _ elems => some ⟨.length, lengthBytes elems.length, elems.map Val.bytes⟩
  | .buffer bytes => some ⟨.int, bufferHeader bytes.length, bytewise bytes⟩
  | .symbols inner => some ⟨.int, bufferHeader inner.bytes.length, bytewise inner.bytes⟩
  | _ => none

/-- Each header of the value stands in the output in front of its parts, and says their number. -/
def HeadersTrue (v : Val) (output : List UInt8) : Prop :=
  v.All fun w => ∀ h, w.header = some h → h.bytes ++ h.parts.flatten <:+: output ∧ h.True

/-- When the value is serialized completely, no header lies. -/
def NoHeaderLies (v : Val) : Prop :=
  ∀ s u s', v.serialize s = .ok (u, s') → HeadersTrue v s'

/-! ## Where they stand -/

theorem flatten_bytewise (bytes : List UInt8) : (bytewise bytes).flatten = bytes := by
  induction bytes with
  | nil => rfl
  | cons b bytes ih =>
    rw [bytewise, List.map_cons, List.flatten_cons]
    exact congrArg (b :: ·) ih

theorem length_bytewise (bytes : List UInt8) : (bytewise bytes).length = bytes.length :=
  List.length_map _

theorem Val.allBytes_eq : ∀ vs : List Val, allBytes vs = (vs.map bytes).flatten
  | [] => rfl
  | v :: vs => by rw [allBytes, List.map_cons, List.flatten_cons, Val.allBytes_eq vs]

/-- The header follows the first bytes of the value, and its parts follow the header. -/
theorem Val.header_suffix {v : Val} {h : Header} (hheader : v.header = some h) :
    h.bytes ++ h.parts.flatten <:+ v.bytes := by
  cases v with
  | string bytes | bigInt bytes =>
    cases hheader
    exact ⟨[5, _], by rw [flatten_bytewise]; rfl⟩
  | container kind elems =>
    cases hheader
    exact ⟨[UInt8.ofNat kind.marker], by rw [← allBytes_eq]; rfl⟩
  | buffer bytes =>
    cases hheader
    exact ⟨[7], by rw [flatten_bytewise]; rfl⟩
  | symbols inner =>
    cases hheader
    exact ⟨[7], by rw [flatten_bytewise, Val.bytes]; rfl⟩
  | _ => cases hheader

mutual

/-- A value is written inside what is written for a value around it. -/
theorem Val.all_infix : ∀ (v : Val) (output : List UInt8), v.bytes <:+: output →
    v.All fun w => w.bytes <:+: output
  | .boolean _, _, h | .char _, _, h | .int _, _, h | .string _, _, h | .bigInt _, _, h
  | .absent, _, h | .buffer _, _, h => h
  | .present value, output, h =>
    ⟨h, Val.all_infix value output (.trans (.trans (List.suffix_cons 1 _).isInfix
      (List.suffix_cons 1 _).isInfix) h)⟩
  | .container _ elems, output, h =>
    ⟨h, Val.all_infix_of elems output (.trans (.trans (List.suffix_append _ _).isInfix
      (List.suffix_cons _ _).isInfix) h)⟩
  | .entry key value, output, h =>
    ⟨h, Val.all_infix key output (.trans (List.prefix_append _ _).isInfix h),
      Val.all_infix value output (.trans (List.suffix_append _ _).isInfix h)⟩
  | .tuple elems, output, h =>
    ⟨h, Val.all_infix_of elems output (.trans (.trans (List.suffix_cons _ _).isInfix
      (List.suffix_cons 6 _).isInfix) h)⟩
  | .symbols inner, output, h =>
    ⟨h, Val.all_infix inner output (.trans (.trans (List.suffix_append _ _).isInfix
      (List.suffix_cons 7 _).isInfix) h)⟩
  | .node _ fields, output, h =>
    ⟨h, Val.all_infix_of fields output (.trans (List.suffix_cons _ _).isInfix h)⟩

theorem Val.all_infix_of : ∀ (vs : List Val) (output : List UInt8), allBytes vs <:+: output →
    AllOf (fun w => w.bytes <:+: output) vs
  | [], _, _ => trivial
  | v :: vs, output, h =>
    ⟨Val.all_infix v output (.trans (List.prefix_append _ _).isInfix h),
      Val.all_infix_of vs output (.trans (List.suffix_append _ _).isInfix h)⟩

end

mutual

theorem Val.All.mp {p q r : Val → Prop} (h : ∀ w, p w → q w → r w) : ∀ {v : Val}, v.All p →
    v.All q → v.All r
  | .boolean _, hp, hq | .char _, hp, hq | .int _, hp, hq | .string _, hp, hq
  | .bigInt _, hp, hq | .absent, hp, hq | .buffer _, hp, hq => h _ hp hq
  | .present _, hp, hq => ⟨h _ hp.1 hq.1, Val.All.mp h hp.2 hq.2⟩
  | .container _ _, hp, hq => ⟨h _ hp.1 hq.1, Val.AllOf.mp h hp.2 hq.2⟩
  | .entry _ _, hp, hq =>
    ⟨h _ hp.1 hq.1, Val.All.mp h hp.2.1 hq.2.1, Val.All.mp h hp.2.2 hq.2.2⟩
  | .tuple _, hp, hq => ⟨h _ hp.1 hq.1, Val.AllOf.mp h hp.2 hq.2⟩
  | .symbols _, hp, hq => ⟨h _ hp.1 hq.1, Val.All.mp h hp.2 hq.2⟩
  | .node _ _, hp, hq => ⟨h _ hp.1 hq.1, Val.AllOf.mp h hp.2 hq.2⟩

theorem Val.AllOf.mp {p q r : Val → Prop} (h : ∀ w, p w → q w → r w) : ∀ {vs : List Val},
    AllOf p vs → AllOf q vs → AllOf r vs
  | [], _, _ => trivial
  | _ :: _, hp, hq => ⟨Val.All.mp h hp.1 hq.1, Val.AllOf.mp h hp.2 hq.2⟩

end

/-! ## What they say -/

mutual

/-- How many bytes a value takes. -/
def Val.size : Val → Nat
  | .boolean _ => 3
  | .char _ => 4
  | .int _ => 6
  | .string bytes | .bigInt bytes => 6 + bytes.length
  | .absent => 2
  | .present value => 2 + Val.size value
  | .container _ elems => (if elems.length < 255 then 2 else 8) + Val.sizeAll elems
  | .entry key value => Val.size key + Val.size value
  | .tuple elems => 2 + Val.sizeAll elems
  | .buffer bytes => 7 + bytes.length
  | .symbols inner => 7 + Val.size inner
  | .node _ fields => 1 + Val.sizeAll fields

def Val.sizeAll : List Val → Nat
  | [] => 0
  | v :: vs => Val.size v + Val.sizeAll vs

end

theorem length_lengthBytes (len : Nat) : (lengthBytes len).length = if len < 255 then 1 else 7 := by
  unfold lengthBytes
  split
  · rfl
  · simp [length_beBytes]

theorem length_bufferHeader (len : Nat) : (bufferHeader len).length = 6 := by
  simp [bufferHeader, length_beBytes]

mutual

theorem Val.length_bytes : ∀ v : Val, v.bytes.length = v.size
  | .boolean _ => rfl
  | .char _ => by simp [bytes, size, length_beBytes]
  | .int _ => by simp [bytes, size, length_beBytes]
  | .string _ | .bigInt _ => by
    simp [bytes, size, length_beBytes]
    omega
  | .absent => rfl
  | .present value => by
    simp [bytes, size, Val.length_bytes value]
    omega
  | .container kind elems => by
    simp only [bytes, size, List.length_cons, List.length_append, length_lengthBytes,
      Val.length_allBytes elems]
    split <;> omega
  | .entry key value => by
    simp [bytes, size, Val.length_bytes key, Val.length_bytes value]
  | .tuple elems => by
    simp [bytes, size, Val.length_allBytes elems]
    omega
  | .buffer bytes => by
    simp [Val.bytes, size, length_bufferHeader]
    omega
  | .symbols inner => by
    simp [bytes, size, length_bufferHeader, Val.length_bytes inner]
    omega
  | .node _ fields => by
    simp [bytes, size, Val.length_allBytes fields]
    omega

theorem Val.length_allBytes : ∀ vs : List Val, (allBytes vs).length = sizeAll vs
  | [] => rfl
  | v :: vs => by
    simp [allBytes, sizeAll, Val.length_bytes v, Val.length_allBytes vs]

end

/-- The lengths that no assertion guards fit into their headers. -/
def Val.Fits : Val → Prop
  | .string bytes | .bigInt bytes => bytes.length < 2 ^ 32
  | .buffer bytes => bytes.length < 2 ^ 31
  | .symbols inner => inner.size < 2 ^ 31
  | _ => True

theorem readU32_beBytes (len : Nat) : ofBeBytes (beBytes 4 len) = len ↔ len < 2 ^ 32 := by
  rw [ofBeBytes_beBytes, show 256 ^ 4 = 2 ^ 32 by decide]
  omega

theorem readI32_beBytes (len : Nat) : readI32 (beBytes 4 len) = (len : Int) ↔ len < 2 ^ 31 := by
  unfold readI32
  rw [ofBeBytes_beBytes, show 256 ^ 4 = 2 ^ 32 by decide]
  split <;> omega

/-- Also with a negative number in it, the header holds the lowest four bytes of the length. -/
theorem bufferHeader_eq (len : Nat) : bufferHeader len = 5 :: 4 :: beBytes 4 len := by
  have hmod : ((len : Int) % 2 ^ 32).toNat = len % 256 ^ 4 := by omega
  rw [bufferHeader, hmod, beBytes_mod len (Nat.le_refl 4)]

theorem u32_true_iff (bytes : List UInt8) :
    Header.True ⟨.u32, beBytes 4 bytes.length, bytewise bytes⟩ ↔ bytes.length < 2 ^ 32 := by
  rw [Header.True, length_bytewise, ← readU32_beBytes]
  simp [HeaderKind.read]

theorem int_true_iff (bytes : List UInt8) :
    Header.True ⟨.int, bufferHeader bytes.length, bytewise bytes⟩ ↔ bytes.length < 2 ^ 31 := by
  rw [Header.True, length_bytewise, ← readI32_beBytes, bufferHeader_eq]
  simp [HeaderKind.read]

/-- A length that passes the assertion is in its header, on both sides of 255. -/
theorem length_true {elems : List Val} (h : elems.length ≤ i32Max) :
    Header.True ⟨.length, lengthBytes elems.length, elems.map Val.bytes⟩ := by
  rw [Header.True, List.length_map, lengthBytes]
  split
  case isTrue hshort =>
    simp only [HeaderKind.read, UInt8.toNat_ofNat', Option.some.injEq]
    omega
  case isFalse hlong =>
    have hread := (readI32_beBytes elems.length).mpr (by unfold i32Max at h; omega)
    simpa [HeaderKind.read] using hread

/-- The header of a value that passes the assertions is true exactly if its length fits. -/
theorem Val.header_true_iff {v : Val} (hassert : v.Asserted) :
    (∀ h, v.header = some h → h.True) ↔ v.Fits := by
  cases v with
  | string bytes | bigInt bytes => simpa [header, Fits] using u32_true_iff bytes
  | container kind elems => simpa [header, Fits] using length_true hassert
  | buffer bytes => simpa [header, Fits] using int_true_iff bytes
  | symbols inner =>
    rw [Fits, ← length_bytes, ← int_true_iff]
    simp [header]
  | _ => simp [header, Fits]

theorem fits_of_noHeaderLies {v : Val} (h : NoHeaderLies v) (hassert : v.All Val.Asserted) :
    v.All Val.Fits := by
  have htrue := h [] () _ ((v.writes [] () _).mpr ⟨hassert, rfl⟩)
  exact hassert.mp (fun w ha hw => (Val.header_true_iff ha).mp fun hd hhd => (hw hd hhd).2) htrue

/--
**No length header lies** exactly if the value is refused or the lengths that are not checked fit:
strings and big integers are shorter than 2³² bytes and buffers than 2³¹.
-/
theorem noHeaderLies_iff (v : Val) : NoHeaderLies v ↔ (v.All Val.Asserted → v.All Val.Fits) := by
  refine ⟨fits_of_noHeaderLies, fun h s u s' hrun => ?_⟩
  obtain ⟨hassert, rfl⟩ := (v.writes s u s').mp hrun
  have hinfix : v.All fun w => w.bytes <:+: s ++ v.bytes :=
    v.all_infix _ (List.suffix_append s _).isInfix
  have htrue : v.All fun w => ∀ hd, w.header = some hd → hd.True :=
    hassert.mp (fun w ha hfits => (Val.header_true_iff ha).mpr hfits) (h hassert)
  refine hinfix.mp (fun w hw ht hd hhd => ⟨?_, ht hd hhd⟩) htrue
  exact (Val.header_suffix hhd).isInfix.trans hw

/-- A string of 2³² bytes says that it is empty. -/
theorem not_noHeaderLies_longString :
    ¬NoHeaderLies (.string (List.replicate (2 ^ 32) 0)) := by
  intro h
  have hfits : (List.replicate (2 ^ 32) (0 : UInt8)).length < 2 ^ 32 :=
    fits_of_noHeaderLies h trivial
  rw [List.length_replicate] at hfits
  exact absurd hfits (by decide)

/-! ## The trees of the extractor -/

mutual

/-- A tree, as a value that is serialized. -/
def Tree.toVal : Tree → Val
  | .boolean v => .boolean v
  | .int v => .int v
  | .string bytes => .string bytes
  | .bigInt bytes => .bigInt bytes
  | .none => .absent
  | .some value => .present (Tree.toVal value)
  | .seq elems => .container .seq (Tree.allToVal elems)
  | .tuple elems => .tuple (Tree.allToVal elems)
  | .node kind fields => .node kind.marker (Tree.allToVal fields)

def Tree.allToVal : List Tree → List Val
  | [] => []
  | t :: ts => Tree.toVal t :: Tree.allToVal ts

end

mutual

theorem Tree.serialize_toVal : ∀ t : Tree, t.toVal.serialize = t.write
  | .boolean _ | .int _ | .string _ | .bigInt _ | .none => rfl
  | .some value => by rw [toVal, Val.serialize, Tree.write, Tree.serialize_toVal value]
  | .seq elems => by
    rw [toVal, Val.serialize, Tree.write, (Tree.serialize_allToVal elems).1,
      (Tree.serialize_allToVal elems).2]
    rfl
  | .tuple elems => by
    rw [toVal, Val.serialize, Tree.write, (Tree.serialize_allToVal elems).1,
      (Tree.serialize_allToVal elems).2]
  | .node kind fields => by
    rw [toVal, Val.serialize, Tree.write, (Tree.serialize_allToVal fields).1]

theorem Tree.serialize_allToVal : ∀ ts : List Tree,
    Val.serializeAll (allToVal ts) = writeAll ts ∧ (allToVal ts).length = ts.length
  | [] => ⟨rfl, rfl⟩
  | t :: ts => by
    obtain ⟨hwrite, hlength⟩ := Tree.serialize_allToVal ts
    rw [allToVal, Val.serializeAll, writeAll, Tree.serialize_toVal t, hwrite, List.length_cons,
      List.length_cons, hlength]
    exact ⟨rfl, rfl⟩

end

/-- The symbols of an extraction are such a value, with all that is nested in their buffer. -/
theorem Symbols.serialize_toVal (toSignedBytesBe : Int → List UInt8) (x : Symbols) :
    (Val.symbols (x.innerTree toSignedBytesBe).toVal).serialize = x.serialize toSignedBytesBe := by
  rw [Val.serialize, Tree.serialize_toVal, ← Symbols.serializeInner_eq]
  rfl

end St
