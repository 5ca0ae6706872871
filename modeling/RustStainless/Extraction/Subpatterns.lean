import RustStainless.Lib.Assoc
import RustStainless.Extraction.IfShape
import RustStainless.Extraction.ImageExtracts

/-!
# Fields and their positions

The subpatterns of a variant and the initializers of a construction are listed in any order, and
some subpatterns may be missing. Both are extracted in the order of the fields: what stands for the
field `i` comes to the position `i`.
-/

namespace Stainless

open Rustc St Lib

section Positions

variable {m : Type → Type} [Monad m]

/-! ## The loop over the fields -/

/--
The loop of `extract_subpatterns` over the fields from the `i`-th on. The patterns that are left are
a stack with the smallest index on top, which is at the end.
-/
def popSubpatterns : Nat → Nat → List (Nat × m Pattern) → m (List Pattern)
  | _, 0, _ => pure []
  | i, numFields + 1, fieldPats =>
    match fieldPats.getLast? with
    | some (index, pattern) =>
      if index = i then do
        let next ← pattern
        let rest ← popSubpatterns (i + 1) numFields fieldPats.dropLast
        pure (next :: rest)
      else do
        let rest ← popSubpatterns (i + 1) numFields fieldPats
        pure (.wildcard none :: rest)
    | none => do
      let rest ← popSubpatterns (i + 1) numFields fieldPats
      pure (.wildcard none :: rest)

theorem popSubpatterns_reverse (numFields : Nat) : ∀ (i : Nat) (fieldPats : List (Nat × m Pattern)),
    popSubpatterns i numFields fieldPats.reverse =
      extractSubpatternsFrom i numFields fieldPats := by
  induction numFields with
  | zero => intro i fieldPats; rw [popSubpatterns, extractSubpatternsFrom]
  | succ numFields ih =>
    intro i fieldPats
    cases fieldPats with
    | nil =>
      have h := ih (i + 1) []
      rw [List.reverse_nil] at h
      simp only [popSubpatterns, extractSubpatternsFrom, List.reverse_nil, List.getLast?_nil, h]
    | cons f fieldPats =>
      obtain ⟨index, pattern⟩ := f
      simp only [popSubpatterns, List.reverse_cons, List.getLast?_concat, List.dropLast_concat,
        extractSubpatternsFrom, ih]
      rw [← List.reverse_cons, ih]

/-- The sorted patterns are reversed, and then taken off the end. -/
theorem extractSubpatterns_eq_pop (fieldPats : List (Nat × m Pattern)) (numFields : Nat) :
    extractSubpatterns fieldPats numFields =
      popSubpatterns 0 numFields (sortByIndex fieldPats).reverse :=
  (popSubpatterns_reverse numFields 0 _).symm

/-! ## Sorting by the index -/

section Sorted

variable {α : Type} {fields : List (Nat × α)}

theorem sortByIndex_pairwise (fields : List (Nat × α)) :
    (sortByIndex fields).Pairwise fun a b => a.1 ≤ b.1 := by
  have htotal : Std.Total fun a b : Nat × α => a.1 ≤ b.1 := ⟨fun a b => Nat.le_total a.1 b.1⟩
  have htrans : IsTrans (Nat × α) fun a b => a.1 ≤ b.1 := ⟨fun _ _ _ => Nat.le_trans⟩
  exact List.pairwise_insertionSort _ fields

theorem sortByIndex_perm (fields : List (Nat × α)) : (sortByIndex fields).Perm fields :=
  List.perm_insertionSort _ fields

/-- With distinct indices, the indices increase strictly. -/
theorem sortByIndex_strict (h : (fields.map Prod.fst).Nodup) :
    (sortByIndex fields).Pairwise fun a b => a.1 < b.1 := by
  have hnodup : ((sortByIndex fields).map Prod.fst).Nodup :=
    ((sortByIndex_perm fields).map Prod.fst).nodup_iff.mpr h
  have hne := List.pairwise_map.mp hnodup
  exact ((sortByIndex_pairwise fields).and hne).imp fun h => Nat.lt_of_le_of_ne h.1 h.2

/-- With an element for each of `n` fields, these are the indices in order. -/
theorem sortByIndex_indices {n : Nat} (h : (fields.map Prod.fst).Perm (List.range n)) :
    (sortByIndex fields).map Prod.fst = List.range n := by
  refine (((sortByIndex_perm fields).map Prod.fst).trans h).eq_of_pairwise
    (fun a b _ _ hab hba => Nat.le_antisymm hab hba) ?_ List.pairwise_le_range
  exact List.pairwise_map.mpr (sortByIndex_pairwise fields)

end Sorted

/-! ## What stands at a position -/

/-- The computation for the field `i`: the one for its entry, or `missing` if there is none. -/
def fieldAt {α β : Type} (fields : List (Nat × α)) (given : α → m β) (missing : m β) (i : Nat) :
    m β :=
  match Assoc.get? fields i with
  | some a => given a
  | none => missing

/-- The invariant of the loop: the patterns that are left belong to the fields that are left. -/
theorem extractSubpatternsFrom_eq [LawfulMonad m] (numFields : Nat) : ∀ (i : Nat)
    {fieldPats : List (Nat × m Pattern)} {next : Nat → m Pattern},
    fieldPats.Pairwise (fun a b => a.1 < b.1) →
    (∀ f ∈ fieldPats, i ≤ f.1 ∧ f.1 < i + numFields) →
    (∀ j, i ≤ j → next j = fieldAt fieldPats id (pure (.wildcard none)) j) →
    extractSubpatternsFrom i numFields fieldPats = (List.range' i numFields).mapM next := by
  induction numFields with
  | zero =>
    intro i fieldPats next _ _ _
    rw [extractSubpatternsFrom, List.range'_zero, List.mapM_nil]
  | succ numFields ih =>
    intro i fieldPats next hsorted hbounds hnext
    rw [List.range'_succ, List.mapM_cons, hnext i (Nat.le_refl i)]
    cases fieldPats with
    | nil =>
      have hrest := @ih (i + 1) [] next .nil (by simp) fun j hj => hnext j (by omega)
      rw [extractSubpatternsFrom, hrest]
      simp [fieldAt]
    | cons f fieldPats =>
      obtain ⟨index, pattern⟩ := f
      obtain ⟨hfirst, hsorted'⟩ := List.pairwise_cons.mp hsorted
      have hindex := hbounds (index, pattern) List.mem_cons_self
      rw [extractSubpatternsFrom]
      by_cases hi : index = i
      · subst hi
        have hrest : extractSubpatternsFrom (index + 1) numFields fieldPats =
            (List.range' (index + 1) numFields).mapM next := by
          refine ih (index + 1) hsorted' (fun f hf => ?_) fun j hj => ?_
          · have h1 := hfirst f hf
            have h2 := hbounds f (List.mem_cons_of_mem _ hf)
            simp only at h1
            omega
          · rw [hnext j (by omega), fieldAt, fieldAt, Assoc.get?_cons, if_neg (by omega)]
        rw [if_pos rfl, hrest]
        simp [fieldAt]
      · -- The field has no pattern: the patterns that are left have larger indices.
        have hlt : i < index := by
          have := hindex.1
          simp only at this
          omega
        have hnone : Assoc.get? ((index, pattern) :: fieldPats) i = none := by
          rw [Assoc.get?_eq_none_iff]
          intro hmem
          obtain ⟨f, hf, hfi⟩ := List.mem_map.mp hmem
          rcases List.mem_cons.mp hf with rfl | hf
          · exact hi hfi
          · have := hfirst f hf
            simp only at this
            omega
        have hrest : extractSubpatternsFrom (i + 1) numFields ((index, pattern) :: fieldPats) =
            (List.range' (i + 1) numFields).mapM next := by
          refine ih (i + 1) hsorted (fun f hf => ?_) fun j hj => hnext j (by omega)
          have h1 := hbounds f hf
          rcases List.mem_cons.mp hf with rfl | hf
          · simp only at h1 ⊢
            omega
          · have h2 := hfirst f hf
            simp only at h2
            omega
        rw [if_neg hi, hrest, fieldAt, hnone]
        simp

/-- With distinct indices below `numFields`, the fields are gone through in order. -/
theorem extractSubpatterns_eq [LawfulMonad m] {fieldPats : List (Nat × m Pattern)} {numFields : Nat}
    (hnodup : (fieldPats.map Prod.fst).Nodup) (hlt : ∀ f ∈ fieldPats, f.1 < numFields) :
    extractSubpatterns fieldPats numFields =
      (List.range numFields).mapM (fieldAt fieldPats id (pure (.wildcard none))) := by
  rw [extractSubpatterns, List.range_eq_range']
  refine extractSubpatternsFrom_eq numFields 0 (sortByIndex_strict hnodup) (fun f hf => ?_)
    fun j _ => ?_
  · have := hlt f (mem_sortByIndex.mp hf)
    omega
  · rw [fieldAt, fieldAt, Assoc.get?_perm (sortByIndex_perm fieldPats).symm hnodup]

omit [Monad m] in
theorem fieldAt_map {α β γ : Type} (f : α → β) (fields : List (Nat × α)) (given : β → m γ)
    (missing : m γ) (i : Nat) : fieldAt (fields.map fun a => (a.1, f a.2)) given missing i =
      fieldAt fields (fun a => given (f a)) missing i := by
  induction fields with
  | nil => rfl
  | cons a fields ih =>
    simp only [fieldAt, List.map_cons, Assoc.get?_cons] at ih ⊢
    by_cases hi : a.1 = i
    · rw [if_pos hi, if_pos hi]
    · rw [if_neg hi, if_neg hi]
      exact ih

theorem extractAll_eq [LawfulMonad m] {α : Type} (f : α → m St.Expr) :
    ∀ as : List α, extractAll (as.map f) = as.mapM f
  | [] => by rw [List.map_nil, extractAll, List.mapM_nil]
  | a :: as => by rw [List.map_cons, extractAll, List.mapM_cons, extractAll_eq f as]

/-- With an initializer for each of `n` fields, the fields are gone through in order. -/
theorem sortedInitializers_eq [LawfulMonad m] {α : Type} {fields : List (Nat × α)} {n : Nat}
    (h : (fields.map Prod.fst).Perm (List.range n)) (f : α → m St.Expr) (missing : m St.Expr) :
    extractAll (((sortByIndex fields).map Prod.snd).map f) =
      (List.range n).mapM (fieldAt fields f missing) := by
  have hnodup : (fields.map Prod.fst).Nodup := h.nodup_iff.mpr List.nodup_range
  have hactions : ((sortByIndex fields).map Prod.snd).map f =
      (List.range n).map (fieldAt fields f missing) := by
    rw [← sortByIndex_indices h, List.map_map, List.map_map]
    refine List.map_congr_left fun a ha => ?_
    show f a.2 = fieldAt fields f missing a.1
    rw [fieldAt, Assoc.get?_of_mem hnodup (mem_sortByIndex.mp ha)]
  rw [hactions, extractAll_eq]

end Positions

/-! ## What a run returns -/

/-- There is one result for each of `n` fields: `given` for the fields with an entry, `missing` for
the others, and every entry has its result. -/
structure OnFields {α β : Type} (n : Nat) (fields : List (Nat × α)) (given : α → β → Prop)
    (missing : β → Prop) (results : List β) : Prop where
  length : results.length = n
  given : ∀ i a, (i, a) ∈ fields → ∃ b, results[i]? = some b ∧ given a b
  missing : ∀ i < n, i ∉ fields.map Prod.fst → ∃ b, results[i]? = some b ∧ missing b

theorem onFields_of_mapM {α β : Type} {n : Nat} {fields : List (Nat × α)} {given : α → Xtor β}
    {missing : Xtor β} (hnodup : (fields.map Prod.fst).Nodup) (hlt : ∀ f ∈ fields, f.1 < n)
    {s s' : Extraction} {results : List β}
    (h : (List.range n).mapM (fieldAt fields given missing) s = .ok (results, s')) :
    OnFields n fields (fun a b => Run.CanReturn (given a) b) (Run.CanReturn missing) results := by
  have hall := Run.mapM_ok h
  have hat : ∀ i < n, ∃ b, results[i]? = some b ∧
      Run.CanReturn (fieldAt fields given missing i) b := by
    intro i hi
    have hrange : (List.range n)[i]? = some i := by simp [hi]
    exact forall₂_getElem? hall.flip hrange
  refine ⟨?_, fun i a ha => ?_, fun i hi hmem => ?_⟩
  · rw [← hall.length_eq, List.length_range]
  · have hi := hat i (hlt (i, a) ha)
    rwa [fieldAt, Assoc.get?_of_mem hnodup ha] at hi
  · have hi := hat i hi
    rwa [fieldAt, Assoc.get?_eq_none_iff.mpr hmem] at hi

section Fields

variable {tcx : Tcx} {ctx : BodyCtxt}

/-- **Subpatterns and initializers land on their fields**, in whatever order they are given. -/
theorem extractSubpatterns_onFields {n : Nat} {pats : List (Nat × Hair.Pat)}
    (hnodup : (pats.map Prod.fst).Nodup) (hlt : ∀ f ∈ pats, f.1 < n)
    {fields : List (Nat × Hair.Expr)} (hfields : (fields.map Prod.fst).Perm (List.range n)) :
    (extractSubpatterns (patternActions (xtorOps tcx ctx) pats) n = (List.range n).mapM
      (fieldAt pats (fun p => extractPattern (xtorOps tcx ctx) p none) (pure (.wildcard none)))) ∧
    (∀ s ps s', extractSubpatterns (patternActions (xtorOps tcx ctx) pats) n s = .ok (ps, s') →
      OnFields n pats (fun p q => Run.CanReturn (extractPattern (xtorOps tcx ctx) p none) q)
        (· = .wildcard none) ps) ∧
    ∀ ty did variantIndex substs s t s',
      extractExpr tcx ctx (.adt ty did variantIndex substs fields false) s = .ok (t, s') →
      ∃ id tps args s₁, t = .adt id tps args ∧
        (List.range n).mapM (fieldAt fields (extractExpr tcx ctx) (Run.panic .assertion)) s₁ =
          .ok (args, s') ∧
        OnFields n fields (fun e a => Run.CanReturn (extractExpr tcx ctx e) a) (fun _ => False)
          args := by
  have hpats : extractSubpatterns (patternActions (xtorOps tcx ctx) pats) n = (List.range n).mapM
      (fieldAt pats (fun p => extractPattern (xtorOps tcx ctx) p none)
        (pure (.wildcard none))) := by
    rw [patternActions_eq, extractSubpatterns_eq]
    · exact congrArg (fun f => (List.range n).mapM f)
        (funext fun i => fieldAt_map (fun p => extractPattern (xtorOps tcx ctx) p none) pats id _ i)
    · rwa [List.map_map]
    · intro f hf
      obtain ⟨p, hp, rfl⟩ := List.mem_map.mp hf
      exact hlt p hp
  refine ⟨hpats, fun s ps s' h => ?_, fun ty did variantIndex substs s t s' h => ?_⟩
  · rw [hpats] at h
    have hon := onFields_of_mapM hnodup hlt h
    refine ⟨hon.length, hon.given, fun i hi hmem => ?_⟩
    obtain ⟨q, hq, u, u', hrun⟩ := hon.missing i hi hmem
    exact ⟨q, hq, (Run.pure_ok.mp hrun).1.symm⟩
  · rw [extractExpr, extractExprWith, if_neg (by simp)] at h
    obtain ⟨sort, s₁, -, h⟩ := Run.bind_ok.mp h
    cases hcons : sort[variantIndex]? with
    | none => simp [hcons, xtorOps] at h
    | some constructor =>
      rw [hcons] at h
      obtain ⟨tps, s₂, -, h⟩ := Run.bind_ok.mp h
      obtain ⟨args, s₃, hargs, h⟩ := Run.bind_ok.mp h
      obtain ⟨rfl, rfl⟩ := Run.pure_ok.mp h
      rw [sortedFieldActions_eq, sortedInitializers_eq hfields _ (Run.panic .assertion)] at hargs
      refine ⟨constructor.id, tps, args, s₂, rfl, hargs, ?_⟩
      have hmem : ∀ f ∈ fields, f.1 < n := fun f hf =>
        List.mem_range.mp (hfields.mem_iff.mp (List.mem_map.mpr ⟨f, hf, rfl⟩))
      have hon := onFields_of_mapM (hfields.nodup_iff.mpr List.nodup_range) hmem hargs
      refine ⟨hon.length, hon.given, fun i hi hmem => ?_⟩
      exact absurd (hfields.mem_iff.mpr (List.mem_range.mpr hi)) hmem

end Fields

/-- `Bar3 { d: true, .. }`, where `d` is the second field. -/
theorem extractSubpatterns_onFields_bar3 :
    let pats : List (Nat × Hair.Pat) := [(1, .constant .bool (boolConst true))]
    let ps : List Pattern := [.wildcard none, .literal none (.boolean true)]
    extractSubpatterns (patternActions (xtorOps .empty noVars) pats) 2 .new = .ok (ps, .new) ∧
      OnFields 2 pats (fun p q => Run.CanReturn (extractPattern (xtorOps .empty noVars) p none) q)
        (· = .wildcard none) ps := by
  intro pats ps
  have hrun : extractSubpatterns (patternActions (xtorOps .empty noVars) pats) 2 .new =
      .ok (ps, .new) := rfl
  have hfields : (([(1, boolExpr true), (0, boolExpr false)] : List (Nat × Hair.Expr)).map
      Prod.fst).Perm (List.range 2) := by decide
  have hon := @extractSubpatterns_onFields .empty noVars 2 pats (by decide) (by decide) _ hfields
  exact ⟨hrun, hon.2.1 _ _ _ hrun⟩

end Stainless
