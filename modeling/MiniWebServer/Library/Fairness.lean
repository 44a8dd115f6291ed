import MiniWebServer.Library.Progress

/-!
# Agents that go on

A system may come to rest. A behaviour is a run in which time may pass between
two steps, and for ever after the last of them. An agent of the system acts again
and again in it, but for the moments in which it waits.

What must happen then is found with helpers: in each state on the way some agent
does not wait, its next act is a step forward, and nobody else makes a step back
or makes this agent wait.
-/

namespace Transition

universe u v w x

variable {State : Type u} {Action : Type v} {step : State → Action → Option State}
  {guard : State → Action → Prop}

/-- A step, or a moment in which nothing happens. -/
def orRest (step : State → Action → Option State) (state : State) : Option Action → Option State
  | none => some state
  | some action => step state action

/-- A run in which time may pass between the steps. -/
abbrev Behaviour (step : State → Action → Option State) :=
  Forever (orRest step) anyAction

theorem reaches_of_orRest {start final : State}
    (reaches : Reaches (orRest step) anyAction start final) :
    Reaches step anyAction start final := by
  induction reaches with
  | refl => exact .refl
  | tail _ last ih =>
      rcases last with ⟨_ | action, _, stepped⟩
      · cases stepped
        exact ih
      · exact ih.tail ⟨action, trivial, stepped⟩

namespace Forever

variable (forever : Forever step guard)

/-- An agent acts again and again, but for the moments in which it waits. -/
def Just (Acts : State → Action → Prop) (Waits : State → Prop) : Prop :=
  ∀ n, ∃ m, n ≤ m ∧ (Acts (forever.state m) (forever.action m) ∨ Waits (forever.state m))

/-- The run from one moment on, if its steps are of some kind from then on. -/
def onward {other : State → Action → Prop} (n : ℕ)
    (allowed : ∀ m, n ≤ m → other (forever.state m) (forever.action m)) : Forever step other where
  state k := forever.state (n + k)
  action k := forever.action (n + k)
  allowed k := allowed (n + k) (Nat.le_add_right n k)
  stepped k := forever.stepped (n + k)

theorem just_onward {other : State → Action → Prop} {n : ℕ}
    (allowed : ∀ m, n ≤ m → other (forever.state m) (forever.action m))
    {Acts : State → Action → Prop} {Waits : State → Prop} (just : forever.Just Acts Waits) :
    (forever.onward n allowed).Just Acts Waits := by
  intro k
  rcases just (n + k) with ⟨m, later, acts⟩
  refine ⟨m - n, Nat.le_sub_of_add_le' later, ?_⟩
  simpa [onward, Nat.add_sub_cancel' ((Nat.le_add_right n k).trans later)] using acts

/-- What is wanted comes about, if in each state on the way some agent helps: its
next act brings it nearer, and nothing else takes it farther away or stops the agent. -/
theorem eventually_of_helpers {Agent : Type x} {Rank : Type w} [PartialOrder Rank]
    [WellFoundedLT Rank] (rank : State → Rank) (Goal : State → Prop)
    (Helps : Agent → State → Prop) (Acts : Agent → State → Action → Prop)
    (Waits : Agent → State → Prop) (just : ∀ agent, forever.Just (Acts agent) (Waits agent))
    (awake : ∀ {agent state}, Helps agent state → ¬Waits agent state)
    (closer : ∀ {agent state action next}, Helps agent state → guard state action →
      step state action = some next → Goal next ∨
        (rank next < rank state ∧ ∃ other, Helps other next) ∨
        (rank next = rank state ∧ ¬Acts agent state action ∧ Helps agent next))
    (n : ℕ) (agent : Agent) (helps : Helps agent (forever.state n)) :
    ∃ m, n ≤ m ∧ Goal (forever.state m) := by
  induction current : rank (forever.state n) using WellFoundedLT.induction generalizing n agent with
  | ind value ih =>
      subst current
      -- Until a step forward is made, the agent goes on helping.
      have walks : ∀ m, n ≤ m → (∃ k, n ≤ k ∧ Goal (forever.state k)) ∨
          rank (forever.state m) = rank (forever.state n) ∧ Helps agent (forever.state m) := by
        intro m later
        induction m, later using Nat.le_induction with
        | base => exact .inr ⟨rfl, helps⟩
        | succ m later walked =>
            rcases walked with reached | ⟨same, helping⟩
            · exact .inl reached
            · rcases closer helping (forever.allowed m) (forever.stepped m) with
                goal | ⟨smaller, other, helped⟩ | ⟨stays, _, kept⟩
              · exact .inl ⟨m + 1, later.trans m.le_succ, goal⟩
              · rcases ih _ (same ▸ smaller) _ _ helped rfl with ⟨k, after, goal⟩
                exact .inl ⟨k, (later.trans m.le_succ).trans after, goal⟩
              · exact .inr ⟨stays.trans same, kept⟩
      rcases just agent n with ⟨m, later, acts | waits⟩
      · rcases walks m later with reached | ⟨same, helping⟩
        · exact reached
        · rcases closer helping (forever.allowed m) (forever.stepped m) with
            goal | ⟨smaller, other, helped⟩ | ⟨_, idle, _⟩
          · exact ⟨m + 1, later.trans m.le_succ, goal⟩
          · rcases ih _ (same ▸ smaller) _ _ helped rfl with ⟨k, after, goal⟩
            exact ⟨k, (later.trans m.le_succ).trans after, goal⟩
          · exact absurd acts idle
      · rcases walks m later with reached | ⟨_, helping⟩
        · exact reached
        · exact absurd waits (awake helping)

end Forever

/-- A run that comes to rest. -/
theorem exists_behaviour_of_run {start final : State} {actions : List Action}
    (ran : run step anyAction start actions = some final) :
    ∃ behaviour : Behaviour step, behaviour.state 0 = start ∧
      ∀ n, actions.length ≤ n → behaviour.state n = final := by
  induction actions generalizing start with
  | nil =>
      simp only [run, List.foldlM_nil, Option.pure_def, Option.some.injEq] at ran
      subst ran
      exact ⟨⟨fun _ => start, fun _ => none, fun _ => trivial, fun _ => rfl⟩, rfl, fun _ _ => rfl⟩
  | cons action rest ih =>
      rcases run_cons_eq_some ran with ⟨_, next, stepped, later⟩
      rcases ih later with ⟨behaviour, rfl, rests⟩
      have moved : orRest step start (some action) = some (behaviour.state 0) := stepped
      refine ⟨behaviour.cons trivial moved, rfl, ?_⟩
      rintro (_ | n) after
      · exact absurd after (Nat.not_succ_le_zero _)
      · exact rests n (Nat.le_of_succ_le_succ after)

end Transition
