import Mathlib.Logic.Basic

/-!
# Runs of a labelled machine

A labelled machine has a start state and a partial step function: an action is
enabled in a state when the step function answers, and leads to the state it
answers. A run is a sequence of enabled actions.

Many statements about a system are about the runs whose steps all meet a
condition: the clock never runs backwards, no operation fails, every key that is
inserted lies beyond a cursor. The condition may look at the state before the
step and at the action. `Leads` and `Reaches` carry it as a parameter, so that
one induction (`Leads.invariant`) serves all of them, and `run` executes a list
of actions while checking it (`reaches_of_run`).
-/

set_option autoImplicit false

namespace HashArchive

universe u v

/-- A start state and, for every state and action, the state the action leads
to when it is enabled. -/
structure Machine (State : Type u) (Action : Type v) where
  start : State
  step : State → Action → Option State

namespace Machine

variable {State : Type u} {Action : Type v} {machine : Machine State Action}
  {allowed stricter : State → Action → Prop}

/-- One state leads to another through steps that are all allowed. -/
inductive Leads (machine : Machine State Action) (allowed : State → Action → Prop) :
    State → State → Prop where
  | refl (state : State) : Leads machine allowed state state
  | tail {first middle last : State} {action : Action} :
      Leads machine allowed first middle → allowed middle action →
        machine.step middle action = some last → Leads machine allowed first last

/-- The states that allowed steps lead to from the start. -/
def Reaches (machine : Machine State Action) (allowed : State → Action → Prop)
    (state : State) : Prop :=
  Leads machine allowed machine.start state

/-- Every step is allowed. -/
def anyStep : State → Action → Prop := fun _ _ => True

instance (state : State) (action : Action) : Decidable (anyStep state action) := .isTrue trivial

theorem Leads.single {first last : State} {action : Action} (permitted : allowed first action)
    (step : machine.step first action = some last) : Leads machine allowed first last :=
  .tail (.refl first) permitted step

theorem Leads.trans {first middle last : State} (earlier : Leads machine allowed first middle)
    (later : Leads machine allowed middle last) : Leads machine allowed first last := by
  induction later with
  | refl => exact earlier
  | tail _ permitted step ih => exact .tail ih permitted step

/-- A run under a stricter condition is a run under a weaker one. -/
theorem Leads.mono (weaker : ∀ state action, stricter state action → allowed state action)
    {first last : State} (run : Leads machine stricter first last) :
    Leads machine allowed first last := by
  induction run with
  | refl => exact .refl _
  | tail _ permitted step ih => exact .tail ih (weaker _ _ permitted) step

/-- **The invariant rule.** What every allowed step preserves, every run of
allowed steps preserves. -/
theorem Leads.invariant {property : State → Prop}
    (preserved : ∀ state action next, property state → allowed state action →
      machine.step state action = some next → property next)
    {first last : State} (run : Leads machine allowed first last) (holds : property first) :
    property last := by
  induction run with
  | refl => exact holds
  | tail _ permitted step ih => exact preserved _ _ _ ih permitted step

theorem Reaches.mono (weaker : ∀ state action, stricter state action → allowed state action)
    {state : State} (reached : Reaches machine stricter state) : Reaches machine allowed state :=
  Leads.mono weaker reached

theorem Reaches.invariant {property : State → Prop} (start : property machine.start)
    (preserved : ∀ state action next, property state → allowed state action →
      machine.step state action = some next → property next)
    {state : State} (reached : Reaches machine allowed state) : property state :=
  Leads.invariant preserved reached start

theorem Reaches.next {state next : State} {action : Action}
    (reached : Reaches machine allowed state) (permitted : allowed state action)
    (step : machine.step state action = some next) : Reaches machine allowed next :=
  .tail reached permitted step

/-! ## Executing a list of actions -/

section Run

variable (machine allowed) [∀ state action, Decidable (allowed state action)]

/-- Take the actions in order, each as long as it is allowed and enabled. -/
def run : State → List Action → Option State
  | state, [] => some state
  | state, action :: rest =>
    if allowed state action then (machine.step state action).bind (run · rest) else none

variable {machine allowed}

/-- A run that goes through is a run of allowed steps. -/
theorem leads_of_run {first last : State} {actions : List Action}
    (completed : run machine allowed first actions = some last) :
    Leads machine allowed first last := by
  induction actions generalizing first with
  | nil =>
      simp only [run, Option.some.injEq] at completed
      exact completed ▸ .refl first
  | cons action rest ih =>
      simp only [run] at completed
      split at completed
      case isTrue permitted =>
        obtain ⟨middle, step, remaining⟩ := Option.bind_eq_some_iff.mp completed
        exact (Leads.single permitted step).trans (ih remaining)
      case isFalse => exact absurd completed (by simp)

/-- A computed run ends in a reachable state with the property it was tested
for. -/
theorem reaches_of_run {actions : List Action} {test : State → Bool}
    (computed : (run machine allowed machine.start actions).map test = some true) :
    ∃ state, Reaches machine allowed state ∧ test state = true := by
  obtain ⟨state, completed, holds⟩ := Option.map_eq_some_iff.mp computed
  exact ⟨state, leads_of_run completed, holds⟩

end Run

end Machine

end HashArchive
