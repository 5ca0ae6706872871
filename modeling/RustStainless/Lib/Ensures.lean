import RustStainless.Lib.Run
import RustStainless.Lib.MonadRel

/-!
# What holds of a run that ends well

Some computations do not stop where something goes wrong: they note it in the state and go on with
a placeholder. Of such a computation one can only say something when nothing was noted up to its
end. `Ensures` is that statement, for an invariant of the states and a property of the results.

`Outcomes` collects the results that a program may have, so that a program written for every monad
can be looked at without its state.
-/

namespace Lib

/--
States that grow, some of which are still in order. What was in order at the end was so before.
-/
structure Horizon (σ : Type) where
  grows : σ → σ → Prop
  refl : ∀ s, grows s s
  trans : ∀ {s s' s''}, grows s s' → grows s' s'' → grows s s''
  good : σ → Prop
  good_of_grows : ∀ {s s'}, grows s s' → good s' → good s

/-- An invariant of the states in order. -/
structure Watch (σ : Type) extends Horizon σ where
  inv : σ → Prop

namespace Run

variable {ε σ α β : Type} {W : Watch σ}

/-- If the run ends in order and `H`, then it keeps the invariant and its result has `P`. -/
def Ensures (W : Watch σ) (H : Prop) (x : Run ε σ α) (P : α → Prop) : Prop :=
  ∀ s a s', x s = .ok (a, s') → W.grows s s' ∧ (W.good s' → H → W.inv s → W.inv s' ∧ P a)

variable {H H' : Prop} {P Q : α → Prop} {x : Run ε σ α}

theorem Ensures.pure {a : α} (h : H → P a) : Ensures W H (pure a : Run ε σ α) P := by
  intro s b s' hs
  obtain ⟨rfl, rfl⟩ := pure_ok.mp hs
  exact ⟨W.refl s, fun _ hH hi => ⟨hi, h hH⟩⟩

/-- What is known of the first result may be used behind it. -/
theorem Ensures.bind {f : α → Run ε σ β} {Q : β → Prop} (hx : Ensures W H x P)
    (hf : ∀ a, Ensures W (H ∧ P a) (f a) Q) : Ensures W H (x >>= f) Q := by
  intro s b s'' h
  obtain ⟨a, s', h1, h2⟩ := bind_ok.mp h
  obtain ⟨hg, hp⟩ := hx s a s' h1
  obtain ⟨hg', hq⟩ := hf a s' b s'' h2
  refine ⟨W.trans hg hg', fun hgood hH hi => ?_⟩
  obtain ⟨hi', ha⟩ := hp (W.good_of_grows hg' hgood) hH hi
  exact hq hgood ⟨hH, ha⟩ hi'

theorem Ensures.mono (h : Ensures W H x P) (hH : H' → H) (hP : ∀ a, H' → P a → Q a) :
    Ensures W H' x Q := by
  intro s a s' hs
  obtain ⟨hg, hp⟩ := h s a s' hs
  refine ⟨hg, fun hgood hH' hi => ?_⟩
  obtain ⟨hi', ha⟩ := hp hgood (hH hH') hi
  exact ⟨hi', hP a hH' ha⟩

/-- Knowing more does not harm. -/
theorem Ensures.given (h : Ensures W H x P) (hH : H' → H) : Ensures W H' x P :=
  h.mono hH fun _ _ hp => hp

theorem Ensures.of_true (h : Ensures W True x P) : Ensures W H x P :=
  h.given fun _ => trivial

theorem Ensures.panic (e : ε) : Ensures W H (Run.panic e : Run ε σ α) P := by
  intro s a s' h
  simp at h

/-- Behind what never ends in order, anything goes on. -/
theorem Ensures.bail {f : α → Run ε σ β} {Q : β → Prop} (hx : Ensures W H x fun _ => False)
    (hf : ∀ a, Ensures W False (f a) Q) : Ensures W H (x >>= f) Q :=
  hx.bind fun a => (hf a).mono (fun h => h.2) fun _ _ hq => hq

end Run

/-! ## Outcomes -/

/-- The results that a program may have. -/
def Outcomes (α : Type) : Type := α → Prop

namespace Outcomes

instance : Monad Outcomes where
  pure := fun a b => b = a
  bind := fun X f b => ∃ a, X a ∧ f a b

variable {α β : Type}

/-- No result. -/
def none : Outcomes α := fun _ => False

/-- Every outcome has the property. -/
def All (X : Outcomes α) (P : α → Prop) : Prop := ∀ a, X a → P a

variable {P : α → Prop} {X : Outcomes α}

theorem All.pure {a : α} (h : P a) : All (Pure.pure a : Outcomes α) P := by
  rintro b rfl
  exact h

theorem All.bind {f : α → Outcomes β} {Q : β → Prop} (hX : X.All P)
    (hf : ∀ a, P a → (f a).All Q) : (X >>= f).All Q := by
  rintro b ⟨a, ha, hb⟩
  exact hf a (hX a ha) b hb

theorem All.none : (Outcomes.none : Outcomes α).All P := fun _ h => h.elim

end Outcomes

/-- A run whose result, if it ends in order and `H`, is one of the outcomes. -/
def Run.hasOutcomes (ε : Type) {σ : Type} (W : Watch σ) (H : Prop) :
    MonadRel (Run ε σ) Outcomes where
  rel := fun x X => Run.Ensures W H x X
  pure := fun _ => .pure fun _ => rfl
  bind := by
    intro α β x X f F hx hf
    refine (hx.bind fun a => (hf a).mono (fun h => h.1) fun b h hb => ?_)
    exact ⟨a, h.2, hb⟩

end Lib
