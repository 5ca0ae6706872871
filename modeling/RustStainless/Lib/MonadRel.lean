import RustStainless.Lib.Lists

/-!
# Relations between computations in two monads

A program that is written for every monad behaves alike in any two of them that are related: a
relation that holds between `pure a` and `pure a` and is kept by `>>=` holds between the two
readings of the program, as long as it holds between the operations that the program calls.
-/

namespace Lib

/-- A relation between computations that `pure` and `>>=` keep. -/
structure MonadRel (m n : Type → Type) [Monad m] [Monad n] where
  rel : {α : Type} → m α → n α → Prop
  pure : ∀ {α : Type} (a : α), rel (pure a) (pure a)
  bind : ∀ {α β : Type} {x : m α} {y : n α} {f : α → m β} {g : α → n β}, rel x y →
    (∀ a, rel (f a) (g a)) → rel (x >>= f) (y >>= g)

namespace MonadRel

variable {m n : Type → Type} [Monad m] [Monad n] (R : MonadRel m n) {α : Type}

theorem ite {c : Prop} [Decidable c] {x x' : m α} {y y' : n α} (hx : c → R.rel x y)
    (hx' : ¬ c → R.rel x' y') : R.rel (if c then x else x') (if c then y else y') := by
  by_cases hc : c
  · rw [if_pos hc, if_pos hc]
    exact hx hc
  · rw [if_neg hc, if_neg hc]
    exact hx' hc

/-- Two lists of computations, related one by one. -/
def all (xs : List (m α)) (ys : List (n α)) : Prop := List.Forall₂ R.rel xs ys

/-- The same for computations with an index, which has to be the same. -/
def each (xs : List (Nat × m α)) (ys : List (Nat × n α)) : Prop :=
  List.Forall₂ (fun x y => x.1 = y.1 ∧ R.rel x.2 y.2) xs ys

theorem each.all {xs : List (Nat × m α)} {ys : List (Nat × n α)} (h : R.each xs ys) :
    R.all (xs.map Prod.snd) (ys.map Prod.snd) := by
  induction h with
  | nil => exact .nil
  | cons hxy _ ih => exact .cons hxy.2 ih

end MonadRel

end Lib
