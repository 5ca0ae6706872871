import RustStainless.Lib.Ensures

/-!
# A run that follows another one

Two programs that run from alike states: the second follows the first if, whenever the first ends
in order, the second ends too, in an alike state and with a related result.
-/

namespace Lib

/-- States that look alike to two programs. -/
structure Pairing (σ : Type) extends Horizon σ where
  alike : σ → σ → Prop

namespace Run

variable {ε σ α β : Type} {W : Pairing σ}

/-- If `x` ends in order, then `y` does the same from every alike state. -/
def Follows (W : Pairing σ) (x y : Run ε σ α) (Q : α → α → Prop) : Prop :=
  ∀ s a s', x s = .ok (a, s') → W.grows s s' ∧ (W.good s' → ∀ t, W.alike s t →
    ∃ b t', y t = .ok (b, t') ∧ W.alike s' t' ∧ Q a b)

variable {x y : Run ε σ α} {Q Q' : α → α → Prop}

theorem Follows.pure {a b : α} (h : Q a b) :
    Follows W (pure a : Run ε σ α) (pure b : Run ε σ α) Q := by
  intro s c s' hs
  obtain ⟨rfl, rfl⟩ := pure_ok.mp hs
  exact ⟨W.refl s, fun _ t ht => ⟨b, t, pure_eq, ht, h⟩⟩

/-- A run that panics has nothing to be followed in. -/
theorem Follows.panic (e : ε) : Follows W (Run.panic e : Run ε σ α) y Q := by
  intro s a s' h
  simp at h

theorem Follows.mono (h : Follows W x y Q) (hQ : ∀ a b, Q a b → Q' a b) : Follows W x y Q' := by
  intro s a s' hs
  obtain ⟨hgrow, hx⟩ := h s a s' hs
  refine ⟨hgrow, fun hgood t ht => ?_⟩
  obtain ⟨b, t', hy, ht', hab⟩ := hx hgood t ht
  exact ⟨b, t', hy, ht', hQ a b hab⟩

/-- What every run of `x` and every run of `y` ensures is known of their results. -/
theorem Follows.both {P P' : α → Prop} (h : Follows W x y Q)
    (hP : ∀ s a s', x s = .ok (a, s') → P a) (hP' : ∀ t b t', y t = .ok (b, t') → P' b) :
    Follows W x y fun a b => Q a b ∧ P a ∧ P' b := by
  intro s a s' hs
  obtain ⟨hgrow, hx⟩ := h s a s' hs
  refine ⟨hgrow, fun hgood t ht => ?_⟩
  obtain ⟨b, t', hy, ht', hab⟩ := hx hgood t ht
  exact ⟨b, t', hy, ht', hab, hP s a s' hs, hP' t b t' hy⟩

theorem Follows.ensured {P : α → Prop} (h : Follows W x y Q)
    (hP : ∀ s a s', x s = .ok (a, s') → P a) : Follows W x y fun a b => Q a b ∧ P a :=
  (h.both hP fun _ _ _ _ => trivial).mono fun _ _ hab => ⟨hab.1, hab.2.1⟩

/-- Behind a good run, what is known of the results may be used, as the rest is known to grow. -/
theorem Follows.bind {f g : α → Run ε σ β} {R : β → β → Prop} (hxy : Follows W x y Q)
    (hgrow : ∀ a, Moves W.grows (f a)) (hfg : ∀ a b, Q a b → Follows W (f a) (g b) R) :
    Follows W (x >>= f) (y >>= g) R := by
  intro s c s'' h
  obtain ⟨a, s', h1, h2⟩ := bind_ok.mp h
  obtain ⟨hgrow₁, hx⟩ := hxy s a s' h1
  have hgrow₂ := hgrow a s' c s'' h2
  refine ⟨W.trans hgrow₁ hgrow₂, fun hgood t ht => ?_⟩
  obtain ⟨b, t', hy, ht', hQ⟩ := hx (W.good_of_grows hgrow₂ hgood) t ht
  obtain ⟨d, t'', hg, ht'', hR⟩ := (hfg a b hQ s' c s'' h2).2 hgood t' ht'
  exact ⟨d, t'', (bind_eq hy).trans hg, ht'', hR⟩

/-- Behind `x`, what all its runs ensure may be assumed. -/
theorem Follows.bind_post {P : α → Prop} {f g : α → Run ε σ β} {R : β → β → Prop}
    (hxy : Follows W x y Eq) (hP : ∀ s a s', x s = .ok (a, s') → P a)
    (hfg : ∀ a, P a → Follows W (f a) (g a) R) : Follows W (x >>= f) (y >>= g) R := by
  intro s c s'' h
  obtain ⟨a, s', h1, h2⟩ := bind_ok.mp h
  obtain ⟨hgrow₁, hx⟩ := hxy s a s' h1
  obtain ⟨hgrow₂, hf⟩ := hfg a (hP s a s' h1) s' c s'' h2
  refine ⟨W.trans hgrow₁ hgrow₂, fun hgood t ht => ?_⟩
  obtain ⟨b, t', hy, ht', rfl⟩ := hx (W.good_of_grows hgrow₂ hgood) t ht
  obtain ⟨d, t'', hg, ht'', hR⟩ := hf hgood t' ht'
  exact ⟨d, t'', (bind_eq hy).trans hg, ht'', hR⟩

theorem Follows.bind_eq {f g : α → Run ε σ β} {R : β → β → Prop} (hxy : Follows W x y Eq)
    (hfg : ∀ a, Follows W (f a) (g a) R) : Follows W (x >>= f) (y >>= g) R :=
  hxy.bind_post (P := fun _ => True) (fun _ _ _ _ => trivial) fun a _ => hfg a

/-- To be followed in equal results is a relation between programs. -/
def follows (ε : Type) (W : Pairing σ) : MonadRel (Run ε σ) (Run ε σ) where
  rel := fun x y => Follows W x y Eq
  pure := fun _ => .pure rfl
  bind := by
    intro α β x y f g hxy hfg
    exact hxy.bind_eq hfg

end Run

end Lib
