import Mathlib.Data.Nat.Basic

/-!
# Recursion by fuel

A partial function that is the limit of its layers. A layer may ask for results of the function, and
has more results if it gets more answers; so more fuel keeps the results there are.
-/

namespace Lib

variable {α β : Type}

/-- `g` has all results that `f` has. -/
def Extends (f g : α → Option β) : Prop := ∀ a b, f a = some b → g a = some b

variable {f g h : α → Option β}

theorem Extends.refl (f : α → Option β) : Extends f f := fun _ _ h => h

theorem Extends.trans (hfg : Extends f g) (hgh : Extends g h) : Extends f h :=
  fun a b hf => hgh a b (hfg a b hf)

/-- A result of a composition stays if both parts keep theirs. -/
theorem bind_extends {α β : Type} {o o' : Option α} {f g : α → Option β} {b : β}
    (h : o.bind f = some b) (ho : ∀ a, o = some a → o' = some a) (hfg : Extends f g) :
    o'.bind g = some b := by
  obtain ⟨a, ha, hb⟩ := Option.bind_eq_some_iff.mp h
  rw [ho a ha]
  exact hfg a b hb

theorem map_extends {α β : Type} {o o' : Option α} {f : α → β} {b : β} (h : o.map f = some b)
    (ho : ∀ a, o = some a → o' = some a) : o'.map f = some b := by
  obtain ⟨a, ha, rfl⟩ := Option.map_eq_some_iff.mp h
  rw [ho a ha]
  rfl

/-- The results for all members of a list stay. -/
theorem mapM_extends {as : List α} {bs : List β} (hfg : Extends f g) (h : as.mapM f = some bs) :
    as.mapM g = some bs := by
  induction as generalizing bs with
  | nil => exact h
  | cons a as ih =>
    rw [List.mapM_cons] at h ⊢
    obtain ⟨b, hb, h⟩ := Option.bind_eq_some_iff.mp h
    obtain ⟨bs', hbs, h⟩ := Option.bind_eq_some_iff.mp h
    show (g a).bind _ = some bs
    rw [hfg a b hb, Option.bind_some]
    show (as.mapM g).bind _ = some bs
    rw [ih hbs, Option.bind_some]
    exact h

/-- A layer has more results if it gets more answers. -/
def Layer (step : (α → Option β) → α → Option β) : Prop :=
  ∀ f g, Extends f g → Extends (step f) (step g)

section Fuel

variable (step : (α → Option β) → α → Option β)

/-- The function that its layers make, where each takes one unit of fuel. -/
def fuelled : Nat → α → Option β
  | 0 => fun _ => none
  | n + 1 => step (fuelled n)

variable {step}

theorem fuelled_succ (hstep : Layer step) : ∀ n, Extends (fuelled step n) (fuelled step (n + 1))
  | 0 => nofun
  | n + 1 => hstep _ _ (fuelled_succ hstep n)

/-- More fuel keeps the results. -/
theorem fuelled_mono (hstep : Layer step) {m n : Nat} (h : m ≤ n) :
    Extends (fuelled step m) (fuelled step n) := by
  induction h with
  | refl => exact .refl _
  | step _ ih => exact ih.trans (fuelled_succ hstep _)

/-- **Layers that keep a relation make functions that are related**, if the empty functions are. -/
theorem fuelled_related {α' β' : Type} {step' : (α' → Option β') → α' → Option β'}
    {R : (α → Option β) → (α' → Option β') → Prop} (hnone : R (fun _ => none) (fun _ => none))
    (hlayer : ∀ n, R (fuelled step n) (fuelled step' n) →
      R (step (fuelled step n)) (step' (fuelled step' n))) :
    ∀ n, R (fuelled step n) (fuelled step' n)
  | 0 => hnone
  | n + 1 => hlayer n (fuelled_related hnone hlayer n)

/-- Layers with more results each make a function with more results. -/
theorem fuelled_extends {step' : (α → Option β) → α → Option β}
    (hlayer : ∀ f g, Extends f g → Extends (step f) (step' g)) (n : Nat) :
    Extends (fuelled step n) (fuelled step' n) :=
  fuelled_related (fun _ _ h => h) (fun _ h => hlayer _ _ h) n

end Fuel

end Lib
