import RustStainless.Lib.Run
import RustStainless.Lib.PrefixCode

/-!
# The serializer

The raw writing operations of `stainless_data::ser` and the `Serializable` impls of the types that
are not trees. Serialization appends to a buffer, which does not fail, and stops only where an
assertion does.
-/

namespace St

open Lib

/-- The assertions of the serializer. -/
inductive SerPanic where
  /-- `id < 255` -/
  | marker
  /-- `len <= (std::i32::MAX as usize)` -/
  | length
deriving DecidableEq

/-- What is written so far is the state. -/
abbrev Ser := Run SerPanic (List UInt8) Unit

def i32Max : Nat := 2 ^ 31 - 1

/-! ## Raw writing -/

def write (data : List UInt8) : Ser := modify fun buffer => buffer ++ data

/-- `v as u8`. -/
def writeU8 (v : Nat) : Ser := write [UInt8.ofNat v]

/-- `v as u32`. -/
def writeU32 (v : Nat) : Ser := write (beBytes 4 v)

def writeI32 (v : Int) : Ser := write (beBytes 4 (v % 2 ^ 32).toNat)

def writeBool (v : Bool) : Ser := writeU8 v.toNat

def writeMarker (marker : Nat) : Ser :=
  if marker < 255 then writeU8 marker else Run.panic .marker

/-! ## Primitive values -/

def serializeBoolean (v : Bool) : Ser := do
  writeMarker 5
  writeU8 0
  writeBool v

def serializeInt (v : Int) : Ser := do
  writeMarker 5
  writeU8 4
  writeI32 v

/-- The bytes of a string, which are its UTF-8 encoding. -/
def asBytes (v : String) : List UInt8 := v.toByteArray.data.toList

def serializeString (v : String) : Ser := do
  writeMarker 5
  writeU8 8
  writeU32 (asBytes v).length
  write (asBytes v)

/-- A big integer, given by its `to_signed_bytes_be`. -/
def serializeBigInt (bytes : List UInt8) : Ser := do
  writeMarker 5
  writeU8 9
  writeU32 bytes.length
  write bytes

/-! ## Containers -/

/-- A way of writing lengths biased towards small values. -/
def writeLength (len : Nat) : Ser :=
  if len ≤ i32Max then
    if len < 255 then writeU8 len
    else do
      writeU8 255
      serializeInt len
  else Run.panic .length

/-- An option of which the value, if there is one, is serialized by `value`. -/
def serializeOption (value : Option Ser) : Ser := do
  writeMarker 1
  match value with
  | none => writeU8 0
  | some value => do
    writeU8 1
    value

/-- A sequence of `len` elements that are serialized by `elems`. -/
def serializeSeq (len : Nat) (elems : Ser) : Ser := do
  writeMarker 2
  writeLength len
  elems

def serializeAll {α : Type} (serialize : α → Ser) : List α → Ser
  | [] => pure ()
  | v :: vs => do
    serialize v
    serializeAll serialize vs

/-- A tuple of `len` elements that are serialized by `elems`. -/
def serializeTuple (len : Nat) (elems : Ser) : Ser := do
  writeMarker 6
  writeU8 len
  elems

/-- `SerializationBuffer`. -/
def serializeBuffer (buffer : List UInt8) : Ser := do
  writeMarker 7
  serializeInt buffer.length
  write buffer

/-! ## What is written -/

/-- The computation passes its assertions if `A`, and then has written the bytes. -/
def Writes (x : Ser) (A : Prop) (bytes : List UInt8) : Prop :=
  ∀ s u s', x s = .ok (u, s') ↔ A ∧ s' = s ++ bytes

theorem Writes.pure : Writes (pure ()) True [] := by
  intro s u s'
  rw [Run.pure_ok, List.append_nil]
  exact ⟨fun h => ⟨trivial, h.2.symm⟩, fun h => ⟨rfl, h.2.symm⟩⟩

theorem Writes.write (data : List UInt8) : Writes (write data) True data := by
  intro s u s'
  rw [St.write, Run.modify_ok]
  simp

theorem Writes.bind {x y : Ser} {A A' : Prop} {b b' : List UInt8} (hx : Writes x A b)
    (hy : Writes y A' b') : Writes (x >>= fun _ => y) (A ∧ A') (b ++ b') := by
  intro s u s''
  rw [Run.bind_ok]
  constructor
  · rintro ⟨a, s', h1, h2⟩
    obtain ⟨ha, rfl⟩ := (hx s a s').mp h1
    obtain ⟨ha', rfl⟩ := (hy _ u s'').mp h2
    exact ⟨⟨ha, ha'⟩, List.append_assoc s b b'⟩
  · rintro ⟨⟨ha, ha'⟩, rfl⟩
    exact ⟨(), s ++ b, (hx s () _).mpr ⟨ha, rfl⟩,
      (hy _ u _).mpr ⟨ha', (List.append_assoc s b b').symm⟩⟩

theorem Writes.congr {x : Ser} {A A' : Prop} {b b' : List UInt8} (h : Writes x A b)
    (hA : A ↔ A') (hb : b = b') : Writes x A' b' := by
  intro s u s'
  rw [h s u s', hA, hb]

theorem Writes.panic {p : SerPanic} (b : List UInt8) : Writes (Run.panic p) False b := by
  intro s u s'
  simp

/-- A marker below 255 is one byte. -/
theorem writes_marker {marker : Nat} (h : marker < 255) :
    Writes (writeMarker marker) True [UInt8.ofNat marker] := by
  rw [writeMarker, if_pos h]
  exact .write _

theorem writes_int (v : Int) :
    Writes (serializeInt v) True (5 :: 4 :: beBytes 4 (v % 2 ^ 32).toNat) :=
  ((writes_marker (by decide)).bind ((Writes.write _).bind (.write _))).congr (by simp) rfl

/-- The bytes of a length. -/
def lengthBytes (len : Nat) : List UInt8 :=
  if len < 255 then [UInt8.ofNat len] else 255 :: 5 :: 4 :: beBytes 4 len

theorem writes_length (len : Nat) :
    Writes (writeLength len) (len ≤ i32Max) (lengthBytes len) := by
  unfold writeLength lengthBytes
  by_cases h : len ≤ i32Max
  · rw [if_pos h]
    split
    · exact (Writes.write _).congr (by simp [h]) rfl
    · have hlen : ((len : Int) % 2 ^ 32).toNat = len := by
        unfold i32Max at h
        omega
      refine ((Writes.write _).bind (writes_int len)).congr (by simp [h]) ?_
      rw [hlen]
      rfl
  · rw [if_neg h]
    exact (Writes.panic _).congr (by simp [h]) rfl

/-- The bytes of `buffer.len() as Int`. -/
def bufferHeader (len : Nat) : List UInt8 := 5 :: 4 :: beBytes 4 ((len : Int) % 2 ^ 32).toNat

theorem writes_buffer (bytes : List UInt8) :
    Writes (serializeBuffer bytes) True (7 :: (bufferHeader bytes.length ++ bytes)) :=
  ((writes_marker (by decide)).bind ((writes_int _).bind (.write _))).congr (by simp) rfl

end St
