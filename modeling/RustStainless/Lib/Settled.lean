import RustStainless.Lib.MonadRel
import RustStainless.Lib.Run

/-!
# Computations that agree from some states on

Two computations agree from the states with a property when they give the same result there, also
the same panic, and never a certain panic. Along the steps of the first one the property is kept, so
computations that are put together from such ones agree as well.
-/

namespace Lib

namespace Run

variable {ε σ α β : Type}

/-- From the states with `pre`, `y` does the same as `x`, and does not panic with `e`. -/
structure Agrees (R : σ → σ → Prop) (pre : σ → Prop) (e : ε) (x y : Run ε σ α) : Prop where
  moves : Moves R x
  same : ∀ s, pre s → x s = y s
  avoids : ∀ s, pre s → x s ≠ .error e

namespace Agrees

variable {R : σ → σ → Prop} {pre : σ → Prop} {e : ε} {x y : Run ε σ α}

theorem pure (hrefl : ∀ s, R s s) (a : α) : Agrees R pre e (pure a) (pure a) where
  moves := Moves.pure hrefl a
  same := fun _ _ => rfl
  avoids := fun s _ h => by cases (show Except.ok (a, s) = Except.error e from h)

theorem panic {e' : ε} (h : e' ≠ e) : Agrees R pre e (panic e' : Run ε σ α) (Run.panic e') where
  moves := Moves.panic e'
  same := fun _ _ => rfl
  avoids := fun _ _ heq => h (Except.error.inj heq)

/-- A computation agrees with itself if it does not panic so. -/
theorem self (hmoves : Moves R x) (havoids : ∀ s, x s ≠ .error e) : Agrees R pre e x x where
  moves := hmoves
  same := fun _ _ => rfl
  avoids := fun s _ => havoids s

theorem bind (htrans : ∀ {a b c}, R a b → R b c → R a c) (hpre : ∀ s s', R s s' → pre s → pre s')
    {f g : α → Run ε σ β} (hx : Agrees R pre e x y) (hf : ∀ a, Agrees R pre e (f a) (g a)) :
    Agrees R pre e (x >>= f) (y >>= g) where
  moves := Moves.bind (R := R) htrans hx.moves fun a => (hf a).moves
  same := by
    intro s hs
    have hsame := hx.same s hs
    cases hrun : x s with
    | error e' => rw [bind_error hrun, bind_error (hsame.symm.trans hrun)]
    | ok r =>
      obtain ⟨a, s'⟩ := r
      rw [bind_eq hrun, bind_eq (hsame.symm.trans hrun)]
      exact (hf a).same s' (hpre s s' (hx.moves s a s' hrun) hs)
  avoids := by
    intro s hs
    cases hrun : x s with
    | error e' =>
      rw [bind_error hrun]
      intro h
      exact hx.avoids s hs (hrun.trans (congrArg Except.error (Except.error.inj h)))
    | ok r =>
      obtain ⟨a, s'⟩ := r
      rw [bind_eq hrun]
      exact (hf a).avoids s' (hpre s s' (hx.moves s a s' hrun) hs)

end Agrees

/-- Agreement, as a relation that programs keep. -/
def agrees (ε : Type) {σ : Type} {R : σ → σ → Prop} {pre : σ → Prop} (e : ε) (hrefl : ∀ s, R s s)
    (htrans : ∀ {a b c}, R a b → R b c → R a c) (hpre : ∀ s s', R s s' → pre s → pre s') :
    MonadRel (Run ε σ) (Run ε σ) where
  rel := Agrees R pre e
  pure := Agrees.pure hrefl
  bind := fun hx hf => Agrees.bind (R := R) htrans hpre hx hf

end Run

end Lib
