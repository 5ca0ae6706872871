import Mathlib.Logic.Function.Basic
import RustStainless.Lib.Assoc

/-!
# Two-way tables

A table that has a value for every key, next to a hash map from values to keys. Entries are
registered in both. As long as neither a key nor a value is registered twice, the two are inverse to
each other on the keys that were registered.
-/

namespace Lib

/-- A table of the keys, and a hash map back. -/
structure TwoWay (K V : Type) where
  table : K → V
  back : Assoc V K

namespace TwoWay

variable {K V : Type} [DecidableEq K] [DecidableEq V]

/-- Register an entry in both. -/
def register (t : TwoWay K V) (k : K) (v : V) : TwoWay K V where
  table := Function.update t.table k v
  back := t.back.insert v k

/-- Register entries from left to right. -/
def registerAll (t : TwoWay K V) : List (K × V) → TwoWay K V
  | [] => t
  | e :: es => (t.register e.1 e.2).registerAll es

theorem registerAll_append (t : TwoWay K V) (es es' : List (K × V)) :
    t.registerAll (es ++ es') = (t.registerAll es).registerAll es' := by
  induction es generalizing t with
  | nil => rfl
  | cons e es ih => exact ih (t.register e.1 e.2)

/-- The hash map knows the keys of `done`, each under its value in the table. -/
def Inverse (t : TwoWay K V) (done : K → Prop) : Prop :=
  ∀ v k, t.back.get? v = some k ↔ done k ∧ t.table k = v

omit [DecidableEq K] in
theorem Inverse.congr {t : TwoWay K V} {done done' : K → Prop} (h : t.Inverse done)
    (heq : ∀ k, done k ↔ done' k) : t.Inverse done' := by
  intro v k
  rw [h v k, heq k]

/-- One more entry, whose key and value are new. -/
theorem Inverse.register {t : TwoWay K V} {done : K → Prop} (h : t.Inverse done) {k : K} {v : V}
    (hk : ¬ done k) (hv : t.back.get? v = none) :
    (t.register k v).Inverse fun j => j = k ∨ done j := by
  intro w j
  show (t.back.insert v k).get? w = some j ↔ _ ∧ Function.update t.table k v j = w
  rw [Assoc.get?_insert]
  by_cases hj : j = k
  · subst hj
    rw [Function.update_self]
    by_cases hvw : v = w
    · simp [hvw]
    · -- The key was not known before, under no value.
      have hnot : ¬ t.back.get? w = some j := fun hw => hk ((h w j).mp hw).1
      simp [hvw, hnot]
  · rw [Function.update_of_ne hj]
    by_cases hvw : v = w
    · subst hvw
      have hnot : ¬ (done j ∧ t.table j = v) := by
        intro hd
        rw [(h v j).mpr hd] at hv
        cases hv
      simp only [if_true, Option.some.injEq, Ne.symm hj, false_iff, hj, false_or]
      exact hnot
    · rw [if_neg hvw, h w j]
      simp [hj]

theorem registerAll_inverse : ∀ {es : List (K × V)} {t : TwoWay K V} {done : K → Prop},
    t.Inverse done → (es.map Prod.fst).Nodup → (es.map Prod.snd).Nodup →
    (∀ e ∈ es, ¬ done e.1 ∧ t.back.get? e.2 = none) →
    (t.registerAll es).Inverse fun k => done k ∨ k ∈ es.map Prod.fst
  | [], t, done, h, _, _, _ => h.congr fun k => by simp
  | e :: es, t, done, h, hkeys, hvalues, hnew => by
    obtain ⟨hk, hkeys⟩ := List.nodup_cons.mp hkeys
    obtain ⟨hv, hvalues⟩ := List.nodup_cons.mp hvalues
    obtain ⟨hek, hev⟩ := hnew e List.mem_cons_self
    have hnext : ∀ e' ∈ es, ¬ (e'.1 = e.1 ∨ done e'.1) ∧
        (t.register e.1 e.2).back.get? e'.2 = none := by
      intro e' he'
      obtain ⟨hek', hev'⟩ := hnew e' (List.mem_cons_of_mem _ he')
      have hne : e.2 ≠ e'.2 := fun heq => hv (heq ▸ List.mem_map.mpr ⟨e', he', rfl⟩)
      refine ⟨?_, ?_⟩
      · rintro (heq | hd)
        · exact hk (heq ▸ List.mem_map.mpr ⟨e', he', rfl⟩)
        · exact hek' hd
      · show (t.back.insert e.2 e.1).get? e'.2 = none
        rw [Assoc.get?_insert, if_neg hne, hev']
    refine (registerAll_inverse (h.register hek hev) hkeys hvalues hnext).congr fun k => ?_
    rw [List.map_cons, List.mem_cons, or_assoc, or_left_comm]

theorem registerAll_table_of_notMem : ∀ {es : List (K × V)} {t : TwoWay K V} {k : K},
    k ∉ es.map Prod.fst → (t.registerAll es).table k = t.table k
  | [], _, _, _ => rfl
  | e :: es, t, k, hk => by
    rw [List.map_cons, List.mem_cons, not_or] at hk
    rw [registerAll, registerAll_table_of_notMem hk.2]
    exact Function.update_of_ne hk.1 _ _

/-- A key that is registered once keeps its value. -/
theorem registerAll_table : ∀ {es : List (K × V)} {t : TwoWay K V} {e : K × V},
    (es.map Prod.fst).Nodup → e ∈ es → (t.registerAll es).table e.1 = e.2
  | e' :: es, t, e, hkeys, he => by
    obtain ⟨hk, hkeys⟩ := List.nodup_cons.mp hkeys
    rw [registerAll]
    rcases List.mem_cons.mp he with rfl | he
    · rw [registerAll_table_of_notMem hk]
      exact Function.update_self _ _ _
    · exact registerAll_table hkeys he

/-- **Entries that are all apart are registered both ways.** -/
theorem inverse_of_empty {es : List (K × V)} {t : TwoWay K V} (hempty : t.back = [])
    (hkeys : (es.map Prod.fst).Nodup) (hvalues : (es.map Prod.snd).Nodup) :
    (t.registerAll es).Inverse (· ∈ es.map Prod.fst) := by
  have hnone : t.Inverse fun _ => False := by
    intro v k
    rw [hempty]
    simp
  refine (registerAll_inverse hnone hkeys hvalues fun e _ => ⟨id, ?_⟩).congr fun k => by simp
  rw [hempty]
  rfl

end TwoWay

end Lib
