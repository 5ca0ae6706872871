import Mathlib.Data.Set.Basic
import RustStainless.Lib.Run

/-!
# Graded steps

A program that asks for things while it runs moves its state by a relation that knows what was
asked for: `rel w s s'` says that getting from `s` to `s'` served exactly the requests `w`. Doing
one thing after another joins the requests. `MovesBy` is `Moves` with that bookkeeping.
-/

namespace Lib

/-- Relations between states, indexed by the requests served on the way. -/
structure GradedRel (ι σ : Type) where
  rel : Set ι → σ → σ → Prop
  refl : ∀ s, rel ∅ s s
  trans : ∀ {v w s s' s''}, rel v s s' → rel w s' s'' → rel (v ∪ w) s s''

namespace Run

variable {ε σ α β ι : Type}

/-- Every successful run of `x` serves the requests `w`. -/
def MovesBy (R : GradedRel ι σ) (w : Set ι) (x : Run ε σ α) : Prop :=
  ∀ s a s', x s = .ok (a, s') → R.rel w s s'

/-- Every run from a state with `pre` returns, keeps `pre`, and its result has `post`. -/
def Returns (pre : σ → Prop) (x : Run ε σ α) (post : α → Prop) : Prop :=
  ∀ s, pre s → ∃ a s', x s = .ok (a, s') ∧ pre s' ∧ post a

variable {R : GradedRel ι σ}

theorem MovesBy.pure (a : α) : MovesBy R ∅ (pure a : Run ε σ α) := by
  intro s b s' h
  obtain ⟨-, rfl⟩ := pure_ok.mp h
  exact R.refl s

theorem MovesBy.bind {v w u : Set ι} {x : Run ε σ α} {f : α → Run ε σ β} (hx : MovesBy R v x)
    (hf : ∀ a, MovesBy R w (f a)) (hu : u = v ∪ w := by simp) : MovesBy R u (x >>= f) := by
  intro s b s'' h
  obtain ⟨a, s', h1, h2⟩ := bind_ok.mp h
  rw [hu]
  exact R.trans (hx s a s' h1) (hf a s' b s'' h2)

theorem MovesBy.panic (w : Set ι) (e : ε) : MovesBy R w (Run.panic e : Run ε σ α) := by
  intro s a s' h
  simp at h

variable {pre : σ → Prop}

theorem Returns.pure {post : α → Prop} {a : α} (h : post a) :
    Returns pre (pure a : Run ε σ α) post := fun s hs => ⟨a, s, rfl, hs, h⟩

theorem Returns.bind {post : α → Prop} {post' : β → Prop} {x : Run ε σ α} {f : α → Run ε σ β}
    (hx : Returns pre x post) (hf : ∀ a, post a → Returns pre (f a) post') :
    Returns pre (x >>= f) post' := by
  intro s hs
  obtain ⟨a, s', h1, hs', ha⟩ := hx s hs
  obtain ⟨b, s'', h2, hs'', hb⟩ := hf a ha s' hs'
  exact ⟨b, s'', by rw [bind_eq h1, h2], hs'', hb⟩

end Run

end Lib
