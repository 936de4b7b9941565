import Mathlib

set_option autoImplicit false

/-! Fuel for loops that need not stop, in the error-and-state monad `EStateM`. A
program whose loops take fuel reports a distinguished error `stop` when it runs out.
`Extends stop x y` says that `y` gives what `x` gives wherever `x` did not run out;
a program with more fuel extends the one with less, so a result found with some fuel
is the result. The combinators of such programs keep the relation. -/
namespace TomoChain.Lib

variable {ε σ α β : Type} (stop : ε)

/-- `y` gives what `x` gives on every state from which `x` does not stop. -/
def Extends (x y : EStateM ε σ α) : Prop :=
  ∀ s, (∀ s', x.run s ≠ .error stop s') → y.run s = x.run s

/-- Runs `x` and returns its outcome, its error included, as Go's `v, err := f()`. -/
def attempt (x : EStateM ε σ α) : EStateM ε σ (Except ε α) :=
  tryCatch (Except.ok <$> x) fun err => pure (Except.error err)

theorem run_attempt (x : EStateM ε σ α) (s : σ) :
    (attempt x).run s = match x.run s with
      | .ok a s' => .ok (.ok a) s'
      | .error e s' => .ok (.error e) s' := by
  show EStateM.tryCatch (EStateM.map Except.ok x) (fun err => EStateM.pure (Except.error err)) s = _
  simp only [EStateM.tryCatch, EStateM.map, EStateM.run]
  cases x s <;> rfl

variable {stop}

theorem Extends.refl (x : EStateM ε σ α) : Extends stop x x := fun _ _ => rfl

theorem Extends.trans {x y z : EStateM ε σ α} (first : Extends stop x y) (second : Extends stop y z) :
    Extends stop x z := by
  intro s running
  have same := first s running
  rw [second s (by rw [same]; exact running), same]

/-- A program that always stops is extended by every program. -/
theorem extends_of_stops {x : EStateM ε σ α} (y : EStateM ε σ α) (stops : ∀ s, ∃ s', x.run s = .error stop s') :
    Extends stop x y := by
  intro s running
  obtain ⟨s', stopped⟩ := stops s
  exact absurd stopped (running s')

theorem extends_throw (y : EStateM ε σ α) : Extends stop (throw stop) y :=
  extends_of_stops y fun s => ⟨s, rfl⟩

theorem Extends.bind {x x' : EStateM ε σ α} {f f' : α → EStateM ε σ β}
    (first : Extends stop x x') (rest : ∀ a, Extends stop (f a) (f' a)) :
    Extends stop (x >>= f) (x' >>= f') := by
  intro s running
  simp only [EStateM.run_bind] at running ⊢
  cases ran : x.run s with
  | ok a s₁ =>
    have same := first s (by intro s'; rw [ran]; exact nofun)
    rw [same, ran]
    rw [ran] at running
    exact rest a s₁ running
  | error e s₁ =>
    -- `x` failed with another error, which the longer run repeats
    have other : e ≠ stop := by
      rintro rfl
      rw [ran] at running
      exact running s₁ rfl
    have same := first s (by
      intro s' stopped
      rw [ran] at stopped
      exact other (EStateM.Result.error.inj stopped).1)
    rw [same, ran]

/-- The outcome of `x` handed to the rest: the rest stops on `stop` itself, so a
longer run of `x` changes nothing where the shorter one ran out. -/
theorem Extends.attempt_bind {x x' : EStateM ε σ α} {k k' : Except ε α → EStateM ε σ β}
    (first : Extends stop x x') (rest : ∀ r, Extends stop (k r) (k' r))
    (stops : ∀ s, ∃ s', (k (.error stop)).run s = .error stop s') :
    Extends stop (attempt x >>= k) (attempt x' >>= k') := by
  intro s running
  simp only [EStateM.run_bind, run_attempt] at running ⊢
  cases ran : x.run s with
  | ok a s₁ =>
    have same := first s (by intro s'; rw [ran]; exact nofun)
    rw [same, ran]
    rw [ran] at running
    exact rest (.ok a) s₁ running
  | error e s₁ =>
    have other : e ≠ stop := by
      rintro rfl
      rw [ran] at running
      obtain ⟨s', stopped⟩ := stops s₁
      exact running s' stopped
    have same := first s (by
      intro s' stopped
      rw [ran] at stopped
      exact other (EStateM.Result.error.inj stopped).1)
    rw [same, ran]
    rw [ran] at running
    exact rest (.error e) s₁ running

end TomoChain.Lib
