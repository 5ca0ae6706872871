import Mathlib.Algebra.Order.Ring.Int

/-!
# Codes that can be split off a stream

An encoding splits when it tells by itself where it ends: from an encoded value with anything behind
it, the value and the rest can be told. Encodings of a fixed length split, and so do encodings that
are put together from such ones, one after the other or behind a count.
-/

namespace Lib

variable {α β B : Type}

/-- Among the values with `P`, only `x` can stand in front of a stream that starts with `x`. -/
def SplitsAt (P : α → Prop) (enc : α → List B) (x : α) : Prop :=
  ∀ y r s, P y → enc x ++ r = enc y ++ s → x = y ∧ r = s

/-- Every value with `P` can be split off. -/
def Splits (P : α → Prop) (enc : α → List B) : Prop := ∀ x, P x → SplitsAt P enc x

variable {P : α → Prop} {enc : α → List B}

/-- An injective encoding of a fixed length splits. -/
theorem Splits.of_length {n : Nat} (hlen : ∀ x, P x → (enc x).length = n)
    (hinj : ∀ x y, P x → P y → enc x = enc y → x = y) : Splits P enc := by
  intro x hx y r s hy h
  obtain ⟨henc, hrest⟩ := List.append_inj h (by rw [hlen x hx, hlen y hy])
  exact ⟨hinj x y hx hy henc, hrest⟩

/-- Data behind its length. -/
theorem Splits.framed {len : Nat → List B} {Q : Nat → Prop} (hlen : Splits Q len) :
    Splits (fun data : List B => Q data.length) fun data => len data.length ++ data := by
  intro x hx y r s hy h
  rw [List.append_assoc, List.append_assoc] at h
  obtain ⟨hn, h⟩ := hlen _ hx _ _ _ hy h
  obtain ⟨hd, hr⟩ := List.append_inj h hn
  exact ⟨hd, hr⟩

/-! ## Lists -/

/-- As many values as there are on the other side, one behind the other. -/
theorem splits_flatMap : ∀ {xs ys : List α} {r s : List B}, xs.length = ys.length →
    (∀ x ∈ xs, SplitsAt P enc x) → (∀ y ∈ ys, P y) →
    xs.flatMap enc ++ r = ys.flatMap enc ++ s → xs = ys ∧ r = s
  | [], [], r, s, _, _, _, h => ⟨rfl, h⟩
  | [], y :: ys, r, s, hl, _, _, _ => by simp at hl
  | x :: xs, [], r, s, hl, _, _, _ => by simp at hl
  | x :: xs, y :: ys, r, s, hl, hx, hy, h => by
    rw [List.flatMap_cons, List.flatMap_cons, List.append_assoc, List.append_assoc] at h
    obtain ⟨hxy, h⟩ := hx x List.mem_cons_self y _ _ (hy y List.mem_cons_self) h
    obtain ⟨hxys, hrs⟩ := splits_flatMap (by simpa using hl)
      (fun z hz => hx z (List.mem_cons_of_mem _ hz))
      (fun z hz => hy z (List.mem_cons_of_mem _ hz)) h
    exact ⟨by rw [hxy, hxys], hrs⟩

/-- Values behind their count. -/
theorem splits_counted {len : Nat → List B} {Q : Nat → Prop} (hlen : Splits Q len)
    {xs ys : List α} {r s : List B} (hxs : Q xs.length) (hys : Q ys.length)
    (hx : ∀ x ∈ xs, SplitsAt P enc x) (hy : ∀ y ∈ ys, P y)
    (h : len xs.length ++ (xs.flatMap enc ++ r) = len ys.length ++ (ys.flatMap enc ++ s)) :
    xs = ys ∧ r = s := by
  obtain ⟨hn, h⟩ := hlen _ hxs _ _ _ hys h
  exact splits_flatMap hn hx hy h

/-! ## Numbers -/

/-- The lowest `n` bytes of a number, the highest of them first. -/
def beBytes : Nat → Nat → List UInt8
  | 0, _ => []
  | n + 1, v => UInt8.ofNat (v / 256 ^ n) :: beBytes n v

theorem length_beBytes : ∀ n v : Nat, (beBytes n v).length = n
  | 0, _ => rfl
  | n + 1, v => by rw [beBytes, List.length_cons, length_beBytes n v]

/-- Only the lowest bytes matter. -/
theorem beBytes_mod : ∀ {n m : Nat} (v : Nat), n ≤ m → beBytes n (v % 256 ^ m) = beBytes n v
  | 0, _, _, _ => rfl
  | n + 1, m, v, h => by
    rw [beBytes, beBytes, beBytes_mod v (Nat.le_of_succ_le h)]
    congr 1
    -- The byte at position `n` is below the bytes that are cut off.
    obtain ⟨k, rfl⟩ := Nat.exists_eq_add_of_le h
    have hmod : v % 256 ^ (n + 1 + k) / 256 ^ n = v / 256 ^ n % 256 ^ (k + 1) := by
      rw [show n + 1 + k = n + (k + 1) by omega, Nat.pow_add, Nat.mod_mul_right_div_self]
    apply UInt8.toNat.inj
    rw [hmod, UInt8.toNat_ofNat', UInt8.toNat_ofNat', Nat.pow_succ']
    exact Nat.mod_mul_right_mod _ 256 (256 ^ k)

theorem beBytes_inj : ∀ {n a b : Nat}, a < 256 ^ n → b < 256 ^ n → beBytes n a = beBytes n b →
    a = b
  | 0, a, b, ha, hb, _ => by
    rw [Nat.pow_zero] at ha hb
    omega
  | n + 1, a, b, ha, hb, h => by
    rw [beBytes, beBytes, List.cons.injEq] at h
    have hpos : 0 < 256 ^ n := Nat.pow_pos (by omega)
    have hdiv : ∀ {v : Nat}, v < 256 ^ (n + 1) → v / 256 ^ n < 256 := fun hv =>
      (Nat.div_lt_iff_lt_mul hpos).mpr (by rwa [Nat.mul_comm, ← Nat.pow_succ])
    have hhigh : a / 256 ^ n = b / 256 ^ n := by
      have := congrArg UInt8.toNat h.1
      rw [UInt8.toNat_ofNat', UInt8.toNat_ofNat', Nat.mod_eq_of_lt (hdiv ha),
        Nat.mod_eq_of_lt (hdiv hb)] at this
      exact this
    have hlow : a % 256 ^ n = b % 256 ^ n :=
      beBytes_inj (Nat.mod_lt a hpos) (Nat.mod_lt b hpos)
        (by rw [beBytes_mod a (Nat.le_refl n), beBytes_mod b (Nat.le_refl n), h.2])
    rw [← Nat.div_add_mod a (256 ^ n), ← Nat.div_add_mod b (256 ^ n), hhigh, hlow]

/-- The number that bytes stand for, the highest of them first. -/
def ofBeBytes : List UInt8 → Nat
  | [] => 0
  | b :: bytes => b.toNat * 256 ^ bytes.length + ofBeBytes bytes

/-- Reading back loses what was cut off. -/
theorem ofBeBytes_beBytes : ∀ n v : Nat, ofBeBytes (beBytes n v) = v % 256 ^ n
  | 0, v => by rw [beBytes, ofBeBytes, Nat.pow_zero, Nat.mod_one]
  | n + 1, v => by
    have hmod : v % 256 ^ (n + 1) = v % 256 ^ n + 256 ^ n * (v / 256 ^ n % 256) := Nat.mod_pow_succ
    rw [beBytes, ofBeBytes, length_beBytes, ofBeBytes_beBytes n v, UInt8.toNat_ofNat', hmod,
      Nat.mul_comm, Nat.add_comm]

theorem splits_beBytes (n : Nat) : Splits (fun v => v < 256 ^ n) (beBytes n) :=
  .of_length (fun v _ => length_beBytes n v) fun _ _ ha hb => beBytes_inj ha hb

end Lib
