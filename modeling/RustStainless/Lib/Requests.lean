import Mathlib.Data.List.Basic
import RustStainless.Lib.Run

/-!
# Requests that are served once

A request is served when it comes for the first time and found afterwards. So what a list of
requests does depends on the order in which they come first, and two lists may be put in either
order when their first requests come in the same order, as far as the shorter list goes.
-/

namespace Lib

variable {α β : Type} [DecidableEq α]

/-! ## First occurrences -/

/-- The elements of a list in the order in which they occur first. -/
def firsts : List α → List α
  | [] => []
  | a :: l => a :: (firsts l).filter (· ≠ a)

@[simp] theorem mem_firsts {l : List α} {b : α} : b ∈ firsts l ↔ b ∈ l := by
  induction l with
  | nil => rfl
  | cons a l ih =>
    rw [firsts, List.mem_cons, List.mem_cons, List.mem_filter, ih]
    by_cases h : b = a <;> simp [h]

theorem nodup_firsts (l : List α) : (firsts l).Nodup := by
  induction l with
  | nil => exact .nil
  | cons a l ih =>
    rw [firsts, List.nodup_cons]
    exact ⟨by simp, ih.filter _⟩

theorem firsts_append (l l' : List α) :
    firsts (l ++ l') = firsts l ++ (firsts l').filter (· ∉ l) := by
  induction l with
  | nil => simp [firsts]
  | cons a l ih =>
    rw [List.cons_append, firsts, ih, firsts, List.cons_append, List.filter_append,
      List.filter_filter]
    congr 2
    refine List.filter_congr fun b _ => ?_
    simp

/-- What is in front already adds nothing. -/
theorem firsts_append_before {l l' : List α} (h : firsts l <+: firsts l') :
    firsts (l ++ l') = firsts l' := by
  obtain ⟨rest, hrest⟩ := h
  have hdisj : ∀ b ∈ rest, b ∉ l := by
    intro b hb hbl
    have hnd := hrest ▸ nodup_firsts l'
    exact (List.nodup_append.mp hnd).2.2 b (mem_firsts.mpr hbl) b hb rfl
  rw [firsts_append, ← hrest, List.filter_append, List.filter_eq_nil_iff.mpr (by simp),
    List.filter_eq_self.mpr (by simpa using hdisj), List.nil_append]

theorem firsts_append_behind {l l' : List α} (h : firsts l <+: firsts l') :
    firsts (l' ++ l) = firsts l' := by
  rw [firsts_append, List.filter_eq_nil_iff.mpr, List.append_nil]
  intro b hb
  have : b ∈ firsts l' := h.subset hb
  simpa using this

/-- In one of the two lists nothing comes first that does not in the other. -/
def PrefixComparable (l l' : List α) : Prop := firsts l <+: firsts l' ∨ firsts l' <+: firsts l

instance (l l' : List α) : Decidable (PrefixComparable l l') :=
  inferInstanceAs (Decidable (_ ∨ _))

theorem PrefixComparable.symm {l l' : List α} (h : PrefixComparable l l') :
    PrefixComparable l' l := Or.symm h

theorem PrefixComparable.swap {l l' : List α} (h : PrefixComparable l l') (l'' : List α) :
    firsts (l ++ (l' ++ l'')) = firsts (l' ++ (l ++ l'')) := by
  have hswap : firsts (l ++ l') = firsts (l' ++ l) := by
    rcases h with h | h
    · rw [firsts_append_before h, firsts_append_behind h]
    · rw [firsts_append_before h, firsts_append_behind h]
  rw [← List.append_assoc, ← List.append_assoc, firsts_append, firsts_append (l' ++ l), hswap]
  congr 1
  refine List.filter_congr fun b _ => ?_
  simp [and_comm]

/-- The order of the lists does not matter when every two of them are comparable. -/
theorem firsts_flatMap_perm {f : β → List α} {bs bs' : List β} (hp : bs.Perm bs') :
    bs.Pairwise (fun b c => PrefixComparable (f b) (f c)) →
    firsts (bs.flatMap f) = firsts (bs'.flatMap f) := by
  induction hp with
  | nil => exact fun _ => rfl
  | cons b _ ih =>
    intro h
    rw [List.flatMap_cons, List.flatMap_cons, firsts_append, firsts_append,
      ih (List.pairwise_cons.mp h).2]
  | swap b c bs =>
    intro h
    simp only [List.flatMap_cons]
    exact ((List.pairwise_cons.mp h).1 b (by simp)).swap _
  | trans hp₁ _ ih₁ ih₂ =>
    intro h
    exact (ih₁ h).trans (ih₂ ((hp₁.pairwise_iff fun h => h.symm).mp h))

/-- Where two lists are not comparable, they come apart behind what they share. -/
theorem exists_apart {l l' : List α} (h : ¬ l <+: l') (h' : ¬ l' <+: l) :
    ∃ c a x b y, l = c ++ a :: x ∧ l' = c ++ b :: y ∧ a ≠ b := by
  induction l generalizing l' with
  | nil => exact absurd List.nil_prefix h
  | cons a l ih =>
    cases l' with
    | nil => exact absurd List.nil_prefix h'
    | cons b l' =>
      by_cases hab : a = b
      · subst hab
        obtain ⟨c, a', x, b', y, rfl, rfl, hne⟩ := ih
          (fun hl => h (List.cons_prefix_cons.mpr ⟨rfl, hl⟩))
          (fun hl => h' (List.cons_prefix_cons.mpr ⟨rfl, hl⟩))
        exact ⟨a :: c, a', x, b', y, rfl, rfl, hne⟩
      · exact ⟨[], a, l, b, l', rfl, rfl, hab⟩

/-! ## Requests -/

/-- Requests, each of which is known once it is served. -/
structure Memo (ε σ α : Type) where
  ask : α → Run ε σ PUnit
  known : σ → α → Prop
  ask_known : ∀ {s a}, known s a → ask a s = .ok (⟨⟩, s)
  ask_knows : ∀ {s a s'}, ask a s = .ok (⟨⟩, s') → known s' a
  known_ask : ∀ {s a b s'}, known s a → ask b s = .ok (⟨⟩, s') → known s' a

namespace Memo

variable {ε σ : Type} (M : Memo ε σ α)

/-- One request after the other. -/
def askAll : List α → Run ε σ PUnit
  | [] => pure ⟨⟩
  | a :: as => M.ask a >>= fun _ => askAll as

omit [DecidableEq α] in
theorem askAll_append (as bs : List α) :
    M.askAll (as ++ bs) = M.askAll as >>= fun _ => M.askAll bs := by
  induction as with
  | nil => rfl
  | cons a as ih =>
    rw [List.cons_append, askAll, askAll, bind_assoc]
    congr 1
    funext _
    exact ih

omit [DecidableEq α] in
theorem askAll_known {as : List α} {s : σ} (h : ∀ a ∈ as, M.known s a) :
    M.askAll as s = .ok (⟨⟩, s) := by
  induction as with
  | nil => rfl
  | cons a as ih =>
    rw [askAll, Run.bind_eq (M.ask_known (h a List.mem_cons_self))]
    exact ih fun b hb => h b (List.mem_cons_of_mem _ hb)

/-- A request that is known may be left out. -/
theorem askAll_filter {a : α} (as : List α) {s : σ} (h : M.known s a) :
    M.askAll (as.filter (· ≠ a)) s = M.askAll as s := by
  induction as generalizing s with
  | nil => rfl
  | cons b as ih =>
    by_cases hb : b = a
    · subst hb
      rw [List.filter_cons_of_neg (by simp), askAll, Run.bind_eq (M.ask_known h)]
      exact ih h
    · rw [List.filter_cons_of_pos (by simpa using hb), askAll, askAll]
      cases hrun : M.ask b s with
      | error e => rw [Run.bind_error hrun, Run.bind_error hrun]
      | ok r =>
        obtain ⟨⟨⟩, s'⟩ := r
        rw [Run.bind_eq hrun, Run.bind_eq hrun]
        exact ih (M.known_ask h hrun)

/-- Only first requests count. -/
theorem askAll_firsts (as : List α) (s : σ) : M.askAll (firsts as) s = M.askAll as s := by
  induction as generalizing s with
  | nil => rfl
  | cons a as ih =>
    rw [firsts, askAll, askAll]
    cases hrun : M.ask a s with
    | error e => rw [Run.bind_error hrun, Run.bind_error hrun]
    | ok r =>
      obtain ⟨⟨⟩, s'⟩ := r
      rw [Run.bind_eq hrun, Run.bind_eq hrun, M.askAll_filter _ (M.ask_knows hrun), ih]

end Memo

end Lib
