import RustStainless.Lib.MonadRel
import RustStainless.Lib.Run

/-!
# Reading a result back from a later view

A traversal that runs over a state may have a result that depends on the state only through what
stays visible later: identifiers that were handed out, names that were assigned. Then the result of
a successful run is a function of any later view. `ReadsBack` is that statement, with the rules to
prove it along a `do` block; what is proved about the function afterwards needs no state.
-/

namespace Lib

/--
States with an invariant, the steps between them, the ends that count as fine, and which views a
state is seen by. Being fine and being seen are inherited by earlier states.
-/
structure Readback (σ ι : Type) where
  inv : σ → Prop
  move : σ → σ → Prop
  fine : σ → Prop
  sees : σ → ι → Prop
  refl : ∀ s, move s s
  trans : ∀ {s s' s''}, move s s' → move s' s'' → move s s''
  inv_of_move : ∀ {s s'}, move s s' → inv s → inv s'
  fine_of_move : ∀ {s s'}, move s s' → fine s' → fine s
  sees_of_move : ∀ {s s' i}, move s s' → sees s' i → sees s i

namespace Run

variable {ε σ ι α β : Type} {R : Readback σ ι}

/--
Every successful run moves the state, and if it ends fine, every view of the end reads its result.
-/
def ReadsBack (R : Readback σ ι) (x : Run ε σ α) (g : ι → Option α) : Prop :=
  ∀ s a s', R.inv s → x s = .ok (a, s') →
    R.move s s' ∧ (R.fine s' → ∀ i, R.sees s' i → g i = some a)

theorem ReadsBack.pure (a : α) : ReadsBack R (pure a : Run ε σ α) fun _ => some a := by
  intro s b s' _ h
  obtain ⟨rfl, rfl⟩ := pure_ok.mp h
  exact ⟨R.refl s, fun _ _ _ => rfl⟩

theorem ReadsBack.bind {x : Run ε σ α} {f : α → Run ε σ β} {g : ι → Option α}
    {k : α → ι → Option β} (hx : ReadsBack R x g) (hf : ∀ a, ReadsBack R (f a) (k a)) :
    ReadsBack R (x >>= f) fun i => g i >>= fun a => k a i := by
  intro s b s'' hs h
  obtain ⟨a, s', h1, h2⟩ := bind_ok.mp h
  obtain ⟨hmove₁, hread₁⟩ := hx s a s' hs h1
  obtain ⟨hmove₂, hread₂⟩ := hf a s' b s'' (R.inv_of_move hmove₁ hs) h2
  refine ⟨R.trans hmove₁ hmove₂, fun hfine i hsees => ?_⟩
  show (g i >>= fun a => k a i) = some b
  rw [hread₁ (R.fine_of_move hmove₂ hfine) i (R.sees_of_move hmove₂ hsees)]
  exact hread₂ hfine i hsees

theorem ReadsBack.panic (e : ε) (g : ι → Option α) : ReadsBack R (Run.panic e) g := by
  intro s a s' _ h
  simp at h

/-- Being read back, as a relation between runs and computations that read a view. -/
def readsBack (ε : Type) (R : Readback σ ι) : MonadRel (Run ε σ) (ReaderT ι Option) where
  rel := ReadsBack R
  pure := ReadsBack.pure
  bind := ReadsBack.bind

/-! ## Runs that do not panic in some way -/

/-- No run stops with the panic `e`. -/
def Avoids (e : ε) (x : Run ε σ α) : Prop := ∀ s, x s ≠ .error e

theorem Avoids.bind {e : ε} {x : Run ε σ α} {f : α → Run ε σ β} (hx : Avoids e x)
    (hf : ∀ a, Avoids e (f a)) : Avoids e (x >>= f) := by
  intro s h
  have h' : (x s).bind (fun p => f p.1 p.2) = .error e := h
  cases hxs : x s with
  | error e' =>
    rw [hxs] at h'
    exact hx s (hxs.trans (congrArg Except.error (Except.error.inj h')))
  | ok p =>
    rw [hxs] at h'
    exact hf p.1 p.2 h'

theorem Avoids.pure (e : ε) (a : α) : Avoids e (pure a : Run ε σ α) := by
  intro s h
  simp at h

/-- Avoiding a panic, as a relation to computations that do nothing. -/
def avoids (σ : Type) (e : ε) : MonadRel (Run ε σ) Id where
  rel := fun x _ => Avoids e x
  pure := fun a => Avoids.pure e a
  bind := Avoids.bind

end Run

end Lib
