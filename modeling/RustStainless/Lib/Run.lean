import RustStainless.Lib.Lists

/-!
# State-passing computations that may panic

`Run ε σ α` threads a state `σ` and either returns or stops with a panic `ε`. A panic loses the
state: nothing that runs afterwards can observe it.

Every lemma about a `do` block goes through the inversion lemmas below: from a successful run of a
bind one gets the two successful runs it is made of, so no proof unfolds the monad itself.
-/

namespace Lib

/-- A computation over a state `σ` that returns an `α` or panics with an `ε`. -/
abbrev Run (ε σ α : Type) := StateT σ (Except ε) α

namespace Run

variable {ε σ α β : Type}

/-- Stop with a panic. -/
def panic (e : ε) : Run ε σ α := fun _ => .error e

/-! ## Inversion of successful runs -/

theorem bind_ok {x : Run ε σ α} {f : α → Run ε σ β} {s s'' : σ} {b : β} :
    (x >>= f) s = .ok (b, s'') ↔ ∃ a s', x s = .ok (a, s') ∧ f a s' = .ok (b, s'') := by
  show (x s).bind (fun p => f p.1 p.2) = .ok (b, s'') ↔ _
  cases hx : x s with
  | error e => simp [Except.bind]
  | ok p =>
    obtain ⟨a, s'⟩ := p
    simp only [Except.bind, Except.ok.injEq, Prod.mk.injEq]
    constructor
    · exact fun h => ⟨a, s', ⟨rfl, rfl⟩, h⟩
    · rintro ⟨_, _, ⟨rfl, rfl⟩, h⟩
      exact h

theorem pure_ok {s s' : σ} {a b : α} :
    (pure a : Run ε σ α) s = .ok (b, s') ↔ a = b ∧ s = s' := by
  show Except.ok (a, s) = Except.ok (b, s') ↔ _
  simp

theorem map_ok {x : Run ε σ α} {f : α → β} {s s' : σ} {b : β} :
    (f <$> x) s = .ok (b, s') ↔ ∃ a, x s = .ok (a, s') ∧ f a = b := by
  show (x s).bind (fun p => Except.ok (f p.1, p.2)) = .ok (b, s') ↔ _
  cases hx : x s with
  | error e => simp [Except.bind]
  | ok p => obtain ⟨a, t⟩ := p; simp [Except.bind]; grind

theorem get_ok {s s' : σ} {a : σ} :
    (get : Run ε σ σ) s = .ok (a, s') ↔ a = s ∧ s' = s := by
  show Except.ok (s, s) = Except.ok (a, s') ↔ _
  simp [eq_comm]

theorem modify_ok {f : σ → σ} {s s' : σ} {u : PUnit} :
    (modify f : Run ε σ PUnit) s = .ok (u, s') ↔ s' = f s := by
  show Except.ok (PUnit.unit, f s) = Except.ok (u, s') ↔ _
  simp [eq_comm]

@[simp] theorem panic_ok {e : ε} {s s' : σ} {a : α} :
    (panic e : Run ε σ α) s = .ok (a, s') ↔ False := by
  simp [panic]

/-- Some run of the computation returns `a`. -/
def CanReturn (x : Run ε σ α) (a : α) : Prop := ∃ s s', x s = .ok (a, s')

/-- The results of a list of computations, each of a run of its own. -/
theorem mapM_ok {f : α → Run ε σ β} : ∀ {as : List α} {bs : List β} {s s' : σ},
    as.mapM f s = .ok (bs, s') → List.Forall₂ (fun a b => CanReturn (f a) b) as bs
  | [], bs, s, s', h => by
    rw [List.mapM_nil] at h
    obtain ⟨rfl, -⟩ := pure_ok.mp h
    exact .nil
  | a :: as, bs, s, s', h => by
    rw [List.mapM_cons] at h
    obtain ⟨b, s₁, hb, h⟩ := bind_ok.mp h
    obtain ⟨bs', s₂, hbs, h⟩ := bind_ok.mp h
    obtain ⟨rfl, -⟩ := pure_ok.mp h
    exact .cons ⟨s, s₁, hb⟩ (mapM_ok hbs)

/-! ## Evaluation

The same facts read forwards, for showing that a computation does return. -/

theorem bind_eq {x : Run ε σ α} {f : α → Run ε σ β} {s s' : σ} {a : α} (h : x s = .ok (a, s')) :
    (x >>= f) s = f a s' := by
  show (x s).bind (fun p => f p.1 p.2) = _
  rw [h]; rfl

theorem bind_error {x : Run ε σ α} {f : α → Run ε σ β} {s : σ} {e : ε} (h : x s = .error e) :
    (x >>= f) s = .error e := by
  show (x s).bind (fun p => f p.1 p.2) = _
  rw [h]; rfl

@[simp] theorem pure_eq {s : σ} {a : α} : (pure a : Run ε σ α) s = .ok (a, s) := rfl

@[simp] theorem get_eq {s : σ} : (get : Run ε σ σ) s = .ok (s, s) := rfl

@[simp] theorem modify_eq {f : σ → σ} {s : σ} :
    (modify f : Run ε σ PUnit) s = .ok (PUnit.unit, f s) := rfl

/-! ## What every successful run does to the state -/

/-- Every successful run of `x` relates its start to its end by `R`. -/
def Moves (R : σ → σ → Prop) (x : Run ε σ α) : Prop :=
  ∀ s a s', x s = .ok (a, s') → R s s'

section Moves

variable {R : σ → σ → Prop}

theorem Moves.pure (hrefl : ∀ s, R s s) (a : α) : Moves R (pure a : Run ε σ α) := by
  intro s b s' h
  obtain ⟨-, rfl⟩ := pure_ok.mp h
  exact hrefl s

theorem Moves.bind (htrans : ∀ {a b c}, R a b → R b c → R a c) {x : Run ε σ α}
    {f : α → Run ε σ β} (hx : Moves R x) (hf : ∀ a, Moves R (f a)) : Moves R (x >>= f) := by
  intro s b s'' h
  obtain ⟨a, s', h1, h2⟩ := bind_ok.mp h
  exact htrans (hx s a s' h1) (hf a s' b s'' h2)

theorem Moves.ite {p : Prop} [Decidable p] {x y : Run ε σ α} (hx : Moves R x) (hy : Moves R y) :
    Moves R (if p then x else y) := by
  split
  · exact hx
  · exact hy

theorem Moves.panic (e : ε) : Moves R (panic e : Run ε σ α) := by
  intro s a s' h
  simp at h

end Moves

end Run

end Lib
