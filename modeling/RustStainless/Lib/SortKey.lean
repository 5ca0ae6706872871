import Mathlib.Data.List.Nodup
import Mathlib.Order.Lattice

/-!
# Sorting by a key

A list that is sorted by a key is determined by what it contains: the keys always, and the elements
too if their keys are apart.
-/

namespace Lib

variable {D K : Type} [LinearOrder K] {key : D → K} {xs ys : List D}

/-- Sorted by the key, elements of one key in the order in which they were. -/
def sortKey (key : D → K) (xs : List D) : List D := xs.mergeSort fun d e => key d ≤ key e

theorem sortKey_perm (key : D → K) (xs : List D) : (sortKey key xs).Perm xs :=
  List.mergeSort_perm xs _

@[simp] theorem mem_sortKey {d : D} : d ∈ sortKey key xs ↔ d ∈ xs := (sortKey_perm key xs).mem_iff

theorem sortKey_pairwise (key : D → K) (xs : List D) :
    (sortKey key xs).Pairwise fun d e => key d ≤ key e := by
  have htrans : ∀ a b c : D, decide (key a ≤ key b) = true → decide (key b ≤ key c) = true →
      decide (key a ≤ key c) = true := fun a b c hab hbc =>
    decide_eq_true (le_trans (of_decide_eq_true hab) (of_decide_eq_true hbc))
  have htotal : ∀ a b : D, (decide (key a ≤ key b) || decide (key b ≤ key a)) = true := by
    intro a b
    simpa using le_total (key a) (key b)
  exact (List.pairwise_mergeSort htrans htotal xs).imp of_decide_eq_true

/-- With keys apart, the keys increase strictly. -/
theorem sortKey_strict (h : (xs.map key).Nodup) :
    (sortKey key xs).Pairwise fun d e => key d < key e := by
  have hnodup : ((sortKey key xs).map key).Nodup :=
    ((sortKey_perm key xs).map key).nodup_iff.mpr h
  have hne := List.pairwise_map.mp hnodup
  exact ((sortKey_pairwise key xs).and hne).imp fun h => lt_of_le_of_ne h.1 h.2

/-- With keys apart, the order before does not matter. -/
theorem sortKey_eq_of_perm (h : xs.Perm ys) (hnodup : (xs.map key).Nodup) :
    sortKey key xs = sortKey key ys := by
  have hperm : (sortKey key xs).Perm (sortKey key ys) :=
    (sortKey_perm key xs).trans (h.trans (sortKey_perm key ys).symm)
  refine hperm.eq_of_pairwise (fun a b ha hb hab hba => ?_) (sortKey_pairwise key xs)
    (sortKey_pairwise key ys)
  have hkey : key a = key b := le_antisymm hab hba
  exact List.inj_on_of_nodup_map hnodup (mem_sortKey.mp ha) (h.mem_iff.mpr (mem_sortKey.mp hb)) hkey

/-- The sorted keys depend only on which keys there are. -/
theorem map_sortKey_eq_of_perm (h : (xs.map key).Perm (ys.map key)) :
    (sortKey key xs).map key = (sortKey key ys).map key := by
  have hperm : ((sortKey key xs).map key).Perm ((sortKey key ys).map key) :=
    ((sortKey_perm key xs).map key).trans (h.trans ((sortKey_perm key ys).map key).symm)
  refine hperm.eq_of_pairwise (fun a b _ _ hab hba => le_antisymm hab hba) ?_ ?_
  · exact List.pairwise_map.mpr (sortKey_pairwise key xs)
  · exact List.pairwise_map.mpr (sortKey_pairwise key ys)

end Lib
