import Mathlib.Data.Nat.Notation

/-!
# Attempts

Something is tried, at most a given number of times; each attempt begins with what the one
before has left. What an attempt establishes holds at the end, if it is enough to begin
another attempt whenever there is another one (`attempts_invariant`).
-/

set_option autoImplicit false

namespace HashArchive

universe u

variable {σ : Type u}

/-- At most `limit` attempts, until one need not be followed by another. -/
def attempts (attempt : σ → σ) (again : σ → Bool) : ℕ → σ → σ
  | 0, state => state
  | limit + 1, state =>
    if again (attempt state) then attempts attempt again limit (attempt state) else attempt state

section Rules

variable {attempt : σ → σ} {again : σ → Bool}

/-- **What holds at the end**: what every attempt establishes. -/
theorem attempts_invariant {Before After : σ → Prop}
    (step : ∀ state, Before state → After (attempt state))
    (retry : ∀ state, After state → again state = true → Before state) (limit : ℕ) (state : σ)
    (start : Before state) : After (attempts attempt again (limit + 1) state) := by
  induction limit generalizing state with
  | zero =>
      have tried : After (attempt state) := step state start
      simp only [attempts]
      split <;> exact tried
  | succ limit ih =>
      have tried : After (attempt state) := step state start
      rw [attempts]
      split
      next repeated => exact ih (attempt state) (retry (attempt state) tried repeated)
      next => exact tried

variable {count : σ → ℕ} (counted : ∀ state, count (attempt state) = count state + 1)

include counted

/-- No more attempts are made than the limit says. -/
theorem count_attempts_le (limit : ℕ) (state : σ) :
    count (attempts attempt again limit state) ≤ count state + limit := by
  induction limit generalizing state with
  | zero => exact Nat.le_refl _
  | succ limit ih =>
      rw [attempts]
      split
      next =>
        have rest := ih (attempt state)
        rw [counted] at rest
        omega
      next =>
        rw [counted]
        omega

/-- If another attempt is needed at the end, the limit was reached. -/
theorem count_attempts_of_again (limit : ℕ) (state : σ)
    (unfinished : again (attempts attempt again limit state) = true) :
    count (attempts attempt again limit state) = count state + limit := by
  induction limit generalizing state with
  | zero => rfl
  | succ limit ih =>
      rw [attempts] at unfinished ⊢
      split
      next repeated =>
        rw [if_pos repeated] at unfinished
        rw [ih (attempt state) unfinished, counted]
        omega
      next finished =>
        rw [if_neg finished] at unfinished
        exact absurd unfinished finished

end Rules

end HashArchive
