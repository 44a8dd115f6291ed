import MiniWebServer.Library.Transition

/-!
# Runs that go on for ever

What must happen in an infinite run. Some of its steps are those of an agent;
if each of these makes a rank smaller, and no other step makes it larger, until
something happens, then it happens, provided that the agent goes on for ever.
-/

namespace Transition

universe u v w

variable {State : Type u} {Action : Type v} {step : State → Action → Option State}
  {guard : State → Action → Prop}

/-- An infinite run whose steps all satisfy the guard. -/
structure Forever (step : State → Action → Option State) (guard : State → Action → Prop) where
  state : ℕ → State
  action : ℕ → Action
  allowed : ∀ n, guard (state n) (action n)
  stepped : ∀ n, step (state n) (action n) = some (state (n + 1))

namespace Forever

variable (forever : Forever step guard)

/-- Steps of this kind are taken again and again. -/
def Repeats (Happens : State → Action → Prop) : Prop :=
  ∀ n, ∃ m, n ≤ m ∧ Happens (forever.state m) (forever.action m)

theorem reaches {n m : ℕ} (later : n ≤ m) :
    Reaches step guard (forever.state n) (forever.state m) := by
  induction m, later using Nat.le_induction with
  | base => exact .refl
  | succ m _ ih => exact ih.tail ⟨forever.action m, forever.allowed m, forever.stepped m⟩

/-- The steps from one moment on, as many as given. -/
def trace (n : ℕ) : ℕ → List (State × Action)
  | 0 => []
  | k + 1 => trace n k ++ [(forever.state (n + k), forever.action (n + k))]

/-- What the agent comes closer to in each of its steps, and what no other step
takes it away from, happens. -/
theorem eventually_of_rank {Rank : Type w} [Preorder Rank] [WellFoundedLT Rank] {n : ℕ}
    (rank : State → Rank) (Holds : State → Prop) (Agent Happens : State → Action → Prop)
    (repeats : forever.Repeats Agent) (atStart : Holds (forever.state n))
    (closer : ∀ {state action next}, Holds state → guard state action →
      step state action = some next → Happens state action ∨
        Holds next ∧ rank next ≤ rank state ∧ (Agent state action → rank next < rank state)) :
    ∃ m, n ≤ m ∧ Happens (forever.state m) (forever.action m) := by
  by_contra never
  have waits : ∀ m, n ≤ m → ¬Happens (forever.state m) (forever.action m) :=
    fun m later happens => never ⟨m, later, happens⟩
  have holds : ∀ m, n ≤ m → Holds (forever.state m) := by
    intro m later
    induction m, later using Nat.le_induction with
    | base => exact atStart
    | succ m later ih =>
        rcases closer ih (forever.allowed m) (forever.stepped m) with happens | ⟨kept, _⟩
        · exact absurd happens (waits m later)
        · exact kept
  have approaches : ∀ m, n ≤ m →
      rank (forever.state (m + 1)) ≤ rank (forever.state m) ∧
        (Agent (forever.state m) (forever.action m) →
          rank (forever.state (m + 1)) < rank (forever.state m)) := by
    intro m later
    rcases closer (holds m later) (forever.allowed m) (forever.stepped m) with happens | pays
    · exact absurd happens (waits m later)
    · exact pays.2
  have falls : ∀ {m k}, n ≤ m → m ≤ k → rank (forever.state k) ≤ rank (forever.state m) := by
    intro m k started later
    induction k, later using Nat.le_induction with
    | base => exact le_rfl
    | succ k later ih => exact (approaches k (started.trans later)).1.trans ih
  -- The agent moves once more after the rank has become as small as it gets.
  let values : Set Rank := { value | ∃ m, n ≤ m ∧ rank (forever.state m) = value }
  have nonempty : values.Nonempty := ⟨_, n, le_rfl, rfl⟩
  rcases (wellFounded_lt (α := Rank)).has_min values nonempty with
    ⟨_, ⟨m, later, rfl⟩, least⟩
  rcases repeats m with ⟨k, after, moves⟩
  have smaller := (approaches k (later.trans after)).2 moves
  have below := smaller.trans_le (falls later after)
  exact least _ ⟨k + 1, (later.trans after).trans k.le_succ, rfl⟩ below

/-- A run with one more step at its start. -/
def cons {start : State} {action : Action} (allowed : guard start action)
    (stepped : step start action = some (forever.state 0)) : Forever step guard where
  state
    | 0 => start
    | n + 1 => forever.state n
  action
    | 0 => action
    | n + 1 => forever.action n
  allowed
    | 0 => allowed
    | n + 1 => forever.allowed n
  stepped
    | 0 => stepped
    | n + 1 => forever.stepped n

end Forever

variable [∀ state action, Decidable (guard state action)]

theorem run_cons_eq_some {start final : State} {action : Action} {rest : List Action}
    (ran : run step guard start (action :: rest) = some final) :
    guard start action ∧ ∃ next, step start action = some next ∧
      run step guard next rest = some final := by
  simp only [run, List.foldlM_cons, Option.bind_eq_bind, Option.bind_eq_some_iff] at ran
  rcases ran with ⟨next, stepped, later⟩
  split at stepped
  · next allowed => exact ⟨allowed, next, stepped, later⟩
  · cases stepped

/-- A run that returns to its start goes on for ever. -/
theorem exists_forever_of_return {start : State} {actions : List Action}
    (ran : run step guard start actions = some start) (nonempty : actions ≠ []) :
    ∃ forever : Forever step guard, forever.state 0 = start ∧
      ∀ n, forever.action n ∈ actions := by
  -- A state of the run, and the actions that lead from it back to the start.
  let Config := { config : State × List Action // config.2 ≠ [] ∧ config.2 ⊆ actions ∧
    run step guard config.1 config.2 = some start }
  have onward : ∀ config : Config, ∃ action ∈ actions, ∃ after : Config,
      guard config.1.1 action ∧ step config.1.1 action = some after.1.1 := by
    rintro ⟨⟨state, _ | ⟨action, rest⟩⟩, more, within, back⟩
    · exact absurd rfl more
    · rcases run_cons_eq_some back with ⟨allowed, next, stepped, later⟩
      refine ⟨action, within (List.mem_cons_self ..), ?_⟩
      by_cases last : rest = []
      · subst last
        simp only [run, List.foldlM_nil, Option.pure_def, Option.some.injEq] at later
        subst later
        exact ⟨⟨(next, actions), nonempty, List.Subset.refl _, ran⟩, allowed, stepped⟩
      · have inside : rest ⊆ actions := fun _ member => within (List.mem_cons_of_mem _ member)
        exact ⟨⟨(next, rest), last, inside, later⟩, allowed, stepped⟩
  choose act member turn allowed stepped using onward
  let first : Config := ⟨(start, actions), nonempty, List.Subset.refl _, ran⟩
  refine ⟨{
    state := fun n => (turn^[n] first).1.1
    action := fun n => act (turn^[n] first)
    allowed := fun n => allowed _
    stepped := fun n => ?_ }, rfl, fun n => member _⟩
  rw [Function.iterate_succ_apply']
  exact stepped _

end Transition
