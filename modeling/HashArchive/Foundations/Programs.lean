import HashArchive.Foundations.CProgram

/-!
# Programs with loops

A program reads and writes a state, and its loops may go on forever. It is run with
some fuel: the number of rounds that each of its loops may take. Without enough of it there is
no outcome; an outcome that there is stays the same with more fuel, which is part of what a
program is (`Program.settled`).

`Program.Ends` says that a program ends, without a fault, in a state of which something holds.
There is one rule for each way to build a program. That of a loop, `Ends.loop`, takes one
round off it: what is left to prove is about the state after the round, so that a proof about
a loop is an induction on whatever the rounds use up.
-/

set_option autoImplicit false

namespace HashArchive

/-- **A program over a state**, with what it gives for an amount of fuel: nothing, a failure,
or a value and a state. -/
structure Program (σ α : Type) where
  run : ℕ → σ → Result (Option (α × σ))
  /-- More fuel does not change an outcome. -/
  settled : ∀ fuel s, run fuel s ≠ .ok none → run (fuel + 1) s = run fuel s

namespace Program

variable {σ α β : Type}

/-! ## Building programs -/

/-- A step of which the outcome is known. -/
def step (outcome : σ → Result (α × σ)) : Program σ α where
  run _ s := (outcome s).map some
  settled _ _ _ := rfl

/-- One program after the other. -/
def andThen (first : Program σ α) (next : α → Program σ β) : Program σ β where
  run fuel s :=
    match first.run fuel s with
    | .error failure => .error failure
    | .ok none => .ok none
    | .ok (some (a, between)) => (next a).run fuel between
  settled fuel s ended := by
    cases outcome : first.run fuel s with
    | error failure =>
        rw [first.settled fuel s (by rw [outcome]; simp), outcome]
    | ok value =>
        rw [outcome] at ended
        cases value with
        | none => exact absurd rfl ended
        | some result =>
            rw [first.settled fuel s (by rw [outcome]; simp), outcome]
            exact (next result.1).settled fuel result.2 ended

instance : Monad (Program σ) where
  pure a := step fun s => .ok (a, s)
  bind := andThen

/-- The state. -/
def get : Program σ σ := step fun s => .ok (s, s)

/-- A change of the state. -/
def modify (change : σ → σ) : Program σ Unit := step fun s => .ok ((), change s)

/-- A fault. -/
def fail (fault : Fault) : Program σ α := step fun _ => .error (.fault fault)

/-- At most so many rounds of a loop. A round ends with what the next one begins with, or with
what the loop gives. -/
def rounds (body : α → Program σ (α ⊕ β)) : ℕ → α → Program σ β
  | 0, _ => ⟨fun _ _ => .ok none, fun _ _ _ => rfl⟩
  | count + 1, a => body a >>= fun
    | .inl a => rounds body count a
    | .inr b => pure b

/-- One more round does not change an outcome. -/
theorem rounds_succ (body : α → Program σ (α ⊕ β)) (count fuel : ℕ) (a : α) (s : σ)
    (ended : (rounds body count a).run fuel s ≠ .ok none) :
    (rounds body (count + 1) a).run fuel s = (rounds body count a).run fuel s := by
  induction count generalizing a s with
  | zero => exact absurd rfl ended
  | succ count ih =>
      rw [rounds]
      conv_rhs => rw [rounds]
      rw [rounds] at ended
      simp only [bind, andThen] at ended ⊢
      cases outcome : (body a).run fuel s with
      | error failure => rfl
      | ok value =>
          rw [outcome] at ended
          cases value with
          | none => rfl
          | some result =>
              obtain ⟨next, between⟩ := result
              cases next with
              | inl a => exact ih a between ended
              | inr b => rfl

/-- `for(;;)`. -/
def loop (body : α → Program σ (α ⊕ β)) (a : α) : Program σ β where
  run fuel s := (rounds body fuel a).run fuel s
  settled fuel s ended := by
    have more := (rounds body fuel a).settled fuel s ended
    rw [rounds_succ body fuel (fuel + 1) a s (by rw [more]; exact ended), more]

/-! ## Programs that end -/

/-- An outcome stays with any amount of more fuel. -/
theorem run_of_le (program : Program σ α) {fuel more : ℕ} {s : σ} (le : fuel ≤ more)
    (ended : program.run fuel s ≠ .ok none) : program.run more s = program.run fuel s := by
  induction more, le using Nat.le_induction with
  | base => rfl
  | succ more _ ih => rw [program.settled more s (by rw [ih]; exact ended), ih]

theorem rounds_of_le (body : α → Program σ (α ⊕ β)) {count more fuel : ℕ} {a : α} {s : σ}
    (le : count ≤ more) (ended : (rounds body count a).run fuel s ≠ .ok none) :
    (rounds body more a).run fuel s = (rounds body count a).run fuel s := by
  induction more, le using Nat.le_induction with
  | base => rfl
  | succ more _ ih => rw [rounds_succ body more fuel a s (by rw [ih]; exact ended), ih]

/-- **A program ends** with a value and in a state. -/
def Returns (program : Program σ α) (s : σ) (a : α) (after : σ) : Prop :=
  ∃ fuel, program.run fuel s = .ok (some (a, after))

/-- **A program ends** with a value and in a state of which something holds. -/
def Ends (program : Program σ α) (s : σ) (post : α → σ → Prop) : Prop :=
  ∃ a after, program.Returns s a after ∧ post a after

theorem Returns.eventually {program : Program σ α} {s after : σ} {a : α}
    (ended : program.Returns s a after) :
    ∃ enough, ∀ fuel, enough ≤ fuel → program.run fuel s = .ok (some (a, after)) := by
  obtain ⟨enough, outcome⟩ := ended
  refine ⟨enough, fun fuel le => ?_⟩
  rw [program.run_of_le le (by rw [outcome]; simp), outcome]

/-- There is only one end. -/
theorem Returns.unique {program : Program σ α} {s after other : σ} {a b : α}
    (ended : program.Returns s a after) (again : program.Returns s b other) :
    a = b ∧ after = other := by
  obtain ⟨enough, all⟩ := ended.eventually
  obtain ⟨enough', all'⟩ := again.eventually
  have same := (all _ (le_max_left enough enough')).symm.trans (all' _ (le_max_right _ _))
  simpa using same

section Rules

variable {s : σ} {post : β → σ → Prop}

theorem Ends.mono {program : Program σ α} {post post' : α → σ → Prop}
    (ended : program.Ends s post) (weaker : ∀ a after, post a after → post' a after) :
    program.Ends s post' := by
  obtain ⟨a, after, returns, holds⟩ := ended
  exact ⟨a, after, returns, weaker a after holds⟩

theorem Ends.step {outcome : σ → Result (α × σ)} {a : α} {after : σ} {post : α → σ → Prop}
    (done : outcome s = .ok (a, after)) (holds : post a after) : (step outcome).Ends s post :=
  ⟨a, after, ⟨0, congrArg (Except.map some) done⟩, holds⟩

theorem Ends.pure {b : β} (holds : post b s) : (pure b : Program σ β).Ends s post :=
  Ends.step rfl holds

theorem Ends.get {post : σ → σ → Prop} (holds : post s s) : get.Ends s post :=
  Ends.step rfl holds

theorem Ends.modify {change : σ → σ} {post : Unit → σ → Prop} (holds : post () (change s)) :
    (modify change).Ends s post :=
  Ends.step rfl holds

theorem Returns.bind {first : Program σ α} {next : α → Program σ β} {a : α} {b : β}
    {between after : σ} (ended : first.Returns s a between)
    (later : (next a).Returns between b after) : (first >>= next).Returns s b after := by
  obtain ⟨enough, all⟩ := ended.eventually
  obtain ⟨enough', all'⟩ := later.eventually
  refine ⟨max enough enough', ?_⟩
  show (andThen first next).run _ s = _
  simp only [andThen, all _ (le_max_left _ _)]
  exact all' _ (le_max_right _ _)

theorem Ends.bind {first : Program σ α} {next : α → Program σ β}
    (ended : first.Ends s fun a between => (next a).Ends between post) :
    (first >>= next).Ends s post := by
  obtain ⟨a, between, returns, b, after, later, holds⟩ := ended
  exact ⟨b, after, returns.bind later, holds⟩

/-- One program after another, when the first is known. -/
theorem Ends.next {first : Program σ α} {next : α → Program σ β} {between : α → σ → Prop}
    (ended : first.Ends s between) (later : ∀ a s', between a s' → (next a).Ends s' post) :
    (first >>= next).Ends s post :=
  Ends.bind (ended.mono later)

/-- **A round of a loop**, and the loop from there. -/
theorem Ends.loop {body : α → Program σ (α ⊕ β)} {a : α}
    (ended : (body a).Ends s fun result between =>
      match result with
      | .inl a => (loop body a).Ends between post
      | .inr b => post b between) :
    (loop body a).Ends s post := by
  obtain ⟨result, between, returns, holds⟩ := ended
  obtain ⟨enough, all⟩ := returns.eventually
  cases result with
  | inr b =>
      refine ⟨b, between, ⟨enough + 1, ?_⟩, holds⟩
      show (rounds body (enough + 1) a).run (enough + 1) s = _
      rw [rounds]
      simp only [Bind.bind, andThen, all _ (Nat.le_succ _)]
      rfl
  | inl a' =>
      obtain ⟨b, after, ⟨fuel, outcome⟩, holds⟩ := holds
      refine ⟨b, after, ⟨max enough fuel + 1, ?_⟩, holds⟩
      have fits : fuel ≤ max enough fuel := le_max_right _ _
      have more : (Program.loop body a').run (max enough fuel + 1) between =
          .ok (some (b, after)) := by
        rw [run_of_le _ (fits.trans (Nat.le_succ _)) (by rw [outcome]; simp), outcome]
      have sooner : (rounds body fuel a').run (max enough fuel + 1) between =
          .ok (some (b, after)) := by
        rw [run_of_le _ (fits.trans (Nat.le_succ _)), ← outcome]
        · rfl
        · show (Program.loop body a').run fuel between ≠ _
          rw [outcome]
          simp
      show (rounds body (max enough fuel + 1) a).run (max enough fuel + 1) s = _
      rw [rounds]
      simp only [Bind.bind, andThen, all _ ((le_max_left enough fuel).trans (Nat.le_succ _))]
      rw [rounds_of_le body fits (by rw [sooner]; simp), sooner]

end Rules

end Program

end HashArchive
