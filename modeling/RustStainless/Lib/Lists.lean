import Mathlib.Data.List.Forall2
import Mathlib.Data.List.Nodup

/-!
# Lists that match element by element, and lists in an order

Members of two lists that are related by `List.Forall₂`. The elements of a list that belong to
another one, and whether they stand in its order.
-/

namespace Lib

variable {α β : Type} {R : α → β → Prop}

theorem forall₂_mem_right {as : List α} {bs : List β} (h : List.Forall₂ R as bs) {b : β}
    (hb : b ∈ bs) : ∃ a ∈ as, R a b := by
  induction h with
  | nil => simp at hb
  | cons hab _ ih =>
    rcases List.mem_cons.mp hb with rfl | hb
    · exact ⟨_, List.mem_cons_self, hab⟩
    · obtain ⟨a, ha, hr⟩ := ih hb
      exact ⟨a, List.mem_cons_of_mem _ ha, hr⟩

theorem forall₂_mem_left {as : List α} {bs : List β} (h : List.Forall₂ R as bs) {a : α}
    (ha : a ∈ as) : ∃ b ∈ bs, R a b :=
  forall₂_mem_right h.flip ha

theorem forall₂_getElem? {as : List α} {bs : List β} (h : List.Forall₂ R as bs) {i : Nat} {b : β}
    (hb : bs[i]? = some b) : ∃ a, as[i]? = some a ∧ R a b := by
  induction h generalizing i with
  | nil => simp at hb
  | cons hab _ ih =>
    cases i with
    | zero =>
      simp only [List.getElem?_cons_zero, Option.some.injEq] at hb
      exact ⟨_, rfl, hb ▸ hab⟩
    | succ i => simpa using ih (by simpa using hb)

/-- An element does not occur before its first index. -/
theorem getElem?_ne_of_lt_idxOf [BEq α] [LawfulBEq α] {l : List α} {a : α} {j : Nat}
    (hj : j < l.idxOf a) : l[j]? ≠ some a := by
  intro h
  obtain ⟨hlt, hget⟩ := List.getElem?_eq_some_iff.mp h
  have hne : ¬ (l[j] == a) = true := by
    have hfind := List.not_of_lt_findIdx hj
    simpa using hfind
  exact hne (by rw [hget, beq_self_eq_true])

/-- Parts of the same lengths match one by one if they match all in a row. -/
theorem forall₂_append_iff {as as' : List α} {bs bs' : List β} (h : as.length = bs.length) :
    List.Forall₂ R (as ++ as') (bs ++ bs') ↔ List.Forall₂ R as bs ∧ List.Forall₂ R as' bs' := by
  induction as generalizing bs with
  | nil =>
    rw [List.length_nil, eq_comm, List.length_eq_zero_iff] at h
    subst h
    simp
  | cons a as ih =>
    obtain ⟨b, bs, rfl⟩ := List.exists_cons_of_length_eq_add_one h.symm
    simp only [List.cons_append, List.forall₂_cons, ih (Nat.succ.inj h), and_assoc]

theorem forall₂_flatMap_iff {γ δ : Type} {f : γ → List α} {g : δ → List β} {cs : List γ}
    {ds : List δ} (h : List.Forall₂ (fun c d => (f c).length = (g d).length) cs ds) :
    List.Forall₂ R (cs.flatMap f) (ds.flatMap g) ↔
      List.Forall₂ (fun c d => List.Forall₂ R (f c) (g d)) cs ds := by
  induction h with
  | nil => simp
  | cons hlength _ ih =>
    rw [List.flatMap_cons, List.flatMap_cons, forall₂_append_iff hlength, ih, List.forall₂_cons]

/-! ## The order of another list -/

section Order

variable [DecidableEq α]

/-- The elements of a part of a list are found in its order. -/
theorem filter_mem_of_sublist {own l : List α} (h : own.Sublist l) (hnd : l.Nodup) :
    l.filter (· ∈ own) = own := by
  induction h with
  | slnil => rfl
  | cons a h ih =>
    obtain ⟨ha, hnd⟩ := List.nodup_cons.mp hnd
    rw [List.filter_cons_of_neg (by simpa using fun hm => ha (h.subset hm)), ih hnd]
  | @cons_cons own l a h ih =>
    obtain ⟨ha, hnd⟩ := List.nodup_cons.mp hnd
    rw [List.filter_cons_of_pos (by simp)]
    refine congrArg (a :: ·) ?_
    refine Eq.trans (List.filter_congr fun b hb => ?_) (ih hnd)
    have hne : b ≠ a := by
      rintro rfl
      exact ha hb
    simp [hne]

/-- A single element is always in order. -/
theorem filter_mem_sublist_of_length_le_one {own l : List α} (hlen : own.length ≤ 1)
    (hnd : l.Nodup) : (l.filter (· ∈ own)).Sublist own := by
  rcases own with _ | ⟨a, _ | ⟨b, own⟩⟩
  · simp
  · by_cases ha : a ∈ l
    · rw [filter_mem_of_sublist (List.singleton_sublist.mpr ha) hnd]
    · have hnone : l.filter (· ∈ [a]) = [] := by
        refine List.filter_eq_nil_iff.mpr fun b hb h => ha ?_
        rwa [← List.mem_singleton.mp (of_decide_eq_true h)]
      rw [hnone]
      exact List.nil_sublist _
  · simp at hlen

omit [DecidableEq α] in
theorem length_le_one_of_reverse_sublist {own : List α} (hnd : own.Nodup)
    (h : own.reverse.Sublist own) : own.length ≤ 1 := by
  have heq : own.reverse = own := h.eq_of_length List.length_reverse
  rcases own with _ | ⟨a, _ | ⟨b, own⟩⟩
  · simp
  · simp
  · have hlast : (b :: own).getLast? = some a := by
      rw [← List.getLast?_cons_cons (a := a), ← List.head?_reverse, heq, List.head?_cons]
    exact absurd (List.mem_of_getLast? hlast) (List.nodup_cons.mp hnd).1
end Order

end Lib
