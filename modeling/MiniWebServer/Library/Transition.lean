import Mathlib

/-!
# Runs of a transition system and invariants of its parts

A system is given by a partial step function on states. A run may be restricted
by a guard on the state before a step and the action taken.

`Traces` are runs that remember the states and actions they went through; what
is said of a whole run is said of its trace.

`Part` relates a system to one of its parts: what is visible of the part in a
state, which of the actions the part takes part in, and how the part moves then.
An invariant of the part alone is an invariant of every run of the system, and
so is an invariant that speaks about the part's share of the trace.
-/

namespace Transition

universe u v w x

variable {State : Type u} {Action : Type v} {Local : Type w} {Label : Type x}

/-- One step whose action satisfies the guard. -/
def Guarded (step : State → Action → Option State) (guard : State → Action → Prop)
    (state next : State) : Prop :=
  ∃ action, guard state action ∧ step state action = some next

/-- The runs whose steps all satisfy the guard. -/
abbrev Reaches (step : State → Action → Option State) (guard : State → Action → Prop) :
    State → State → Prop :=
  Relation.ReflTransGen (Guarded step guard)

/-- The guard of an unrestricted run. -/
def anyAction (_ : State) (_ : Action) : Prop :=
  True

instance (state : State) (action : Action) : Decidable (anyAction state action) :=
  inferInstanceAs (Decidable True)

/-- Take a list of actions one after the other, each of which satisfies the guard. -/
def run (step : State → Action → Option State) (guard : State → Action → Prop)
    [∀ state action, Decidable (guard state action)] (state : State) (actions : List Action) :
    Option State :=
  actions.foldlM (fun state action => if guard state action then step state action else none) state

theorem reaches_of_run {step : State → Action → Option State} {guard : State → Action → Prop}
    [∀ state action, Decidable (guard state action)] {state final : State}
    {actions : List Action} (ran : run step guard state actions = some final) :
    Reaches step guard state final := by
  induction actions generalizing state with
  | nil =>
      simp only [run, List.foldlM_nil, Option.pure_def, Option.some.injEq] at ran
      subst ran
      exact .refl
  | cons action rest ih =>
      simp only [run, List.foldlM_cons, Option.bind_eq_bind, Option.bind_eq_some_iff] at ran
      rcases ran with ⟨next, stepped, later⟩
      split at stepped
      · next allowed => exact (ih later).head ⟨action, allowed, stepped⟩
      · cases stepped

/-- What holds at the start and is kept by guarded steps holds along guarded runs. -/
theorem Reaches.invariant {step : State → Action → Option State}
    {guard : State → Action → Prop} {start final : State} (Holds : State → Prop)
    (atStart : Holds start)
    (kept : ∀ {state action next}, Holds state → guard state action →
      step state action = some next → Holds next)
    (reaches : Reaches step guard start final) : Holds final := by
  induction reaches with
  | refl => exact atStart
  | tail _ last ih =>
      rcases last with ⟨action, allowed, stepped⟩
      exact kept ih allowed stepped

/-- The same, for what is kept in states that the runs reach. -/
theorem Reaches.reachable_invariant {step : State → Action → Option State}
    {guard : State → Action → Prop} {start final : State} (Holds : State → Prop)
    (atStart : Holds start)
    (kept : ∀ {state action next}, Reaches step guard start state → Holds state →
      guard state action → step state action = some next → Holds next)
    (reaches : Reaches step guard start final) : Holds final := by
  induction reaches with
  | refl => exact atStart
  | tail earlier last ih =>
      rcases last with ⟨action, allowed, stepped⟩
      exact kept earlier ih allowed stepped

/-- A run under a guard is one under every weaker guard. -/
theorem Reaches.weaken {step : State → Action → Option State}
    {guard weaker : State → Action → Prop} {start final : State}
    (implies : ∀ state action, guard state action → weaker state action)
    (reaches : Reaches step guard start final) : Reaches step weaker start final := by
  induction reaches with
  | refl => exact .refl
  | tail _ last ih =>
      rcases last with ⟨action, allowed, stepped⟩
      exact ih.tail ⟨action, implies _ _ allowed, stepped⟩

/-- A part of the state that a step keeps, or takes along a step of its own, is one
that the part's own runs reach. -/
theorem Reaches.component {step : State → Action → Option State}
    {guard : State → Action → Prop} {localStep : Local → Label → Option Local}
    {start final : State} (view : State → Local)
    (follows : ∀ {state action next}, step state action = some next →
      view next = view state ∨ ∃ label, localStep (view state) label = some (view next))
    (reaches : Reaches step guard start final) :
    Reaches localStep anyAction (view start) (view final) := by
  induction reaches with
  | refl => exact .refl
  | tail _ last ih =>
      rcases last with ⟨action, _, stepped⟩
      rcases follows stepped with same | ⟨label, moved⟩
      · rw [same]
        exact ih
      · exact ih.tail ⟨label, trivial, moved⟩

theorem run_any_cons (step : State → Action → Option State) (state : State) (action : Action)
    (rest : List Action) :
    run step anyAction state (action :: rest) =
      (step state action).bind fun next => run step anyAction next rest := by
  simp [run, anyAction]

/-- A run is simulated when its steps are, under the same actions. -/
theorem run_simulates {step : State → Action → Option State}
    {localStep : Local → Action → Option Local} (view : State → Local)
    (follows : ∀ {state action next}, step state action = some next →
      localStep (view state) action = some (view next))
    {state final : State} {actions : List Action}
    (ran : run step anyAction state actions = some final) :
    run localStep anyAction (view state) actions = some (view final) := by
  induction actions generalizing state with
  | nil =>
      simp only [run, List.foldlM_nil, Option.pure_def, Option.some.injEq] at ran
      subst ran
      rfl
  | cons action rest ih =>
      rw [run_any_cons, Option.bind_eq_some_iff] at ran ⊢
      rcases ran with ⟨next, stepped, later⟩
      exact ⟨view next, follows stepped, ih later⟩

/-- The runs under a guard, with the steps they took. -/
inductive Traces (step : State → Action → Option State) (guard : State → Action → Prop)
    (start : State) : List (State × Action) → State → Prop where
  | nil : Traces step guard start [] start
  | snoc {trace : List (State × Action)} {state next : State} {action : Action}
      (earlier : Traces step guard start trace state) (allowed : guard state action)
      (stepped : step state action = some next) :
      Traces step guard start (trace ++ [(state, action)]) next

theorem Traces.reaches {step : State → Action → Option State} {guard : State → Action → Prop}
    {start final : State} {trace : List (State × Action)}
    (traces : Traces step guard start trace final) : Reaches step guard start final := by
  induction traces with
  | nil => exact .refl
  | snoc _ allowed stepped ih => exact ih.tail ⟨_, allowed, stepped⟩

theorem Reaches.exists_traces {step : State → Action → Option State}
    {guard : State → Action → Prop} {start final : State}
    (reaches : Reaches step guard start final) : ∃ trace, Traces step guard start trace final := by
  induction reaches with
  | refl => exact ⟨[], .nil⟩
  | tail _ stepped ih =>
      rcases ih with ⟨trace, traces⟩
      rcases stepped with ⟨action, allowed, stepped⟩
      exact ⟨_, traces.snoc allowed stepped⟩

theorem Traces.guard_of_mem {step : State → Action → Option State}
    {guard : State → Action → Prop} {start final : State} {trace : List (State × Action)}
    (traces : Traces step guard start trace final) :
    ∀ entry ∈ trace, guard entry.1 entry.2 := by
  induction traces with
  | nil => simp
  | snoc _ allowed _ ih =>
      intro entry member
      rcases List.mem_append.mp member with earlier | last
      · exact ih entry earlier
      · rw [List.mem_singleton.mp last]
        exact allowed

theorem Traces.weaken {step : State → Action → Option State}
    {guard weaker : State → Action → Prop} {start final : State} {trace : List (State × Action)}
    (implies : ∀ state action, guard state action → weaker state action)
    (traces : Traces step guard start trace final) : Traces step weaker start trace final := by
  induction traces with
  | nil => exact .nil
  | snoc _ allowed stepped ih => exact ih.snoc (implies _ _ allowed) stepped

/-- What holds of the empty trace and is kept by every step holds of every trace. -/
theorem Traces.invariant {step : State → Action → Option State} {guard : State → Action → Prop}
    {start final : State} {trace : List (State × Action)}
    (Holds : List (State × Action) → State → Prop) (atStart : Holds [] start)
    (kept : ∀ {trace state action next}, Reaches step guard start state → Holds trace state →
      guard state action → step state action = some next →
      Holds (trace ++ [(state, action)]) next)
    (traces : Traces step guard start trace final) : Holds trace final := by
  induction traces with
  | nil => exact atStart
  | snoc earlier allowed stepped ih => exact kept earlier.reaches ih allowed stepped

/-- A run whose steps all satisfy another guard is one under that guard. -/
theorem Traces.restrict {step : State → Action → Option State}
    {guard other : State → Action → Prop} {start final : State} {trace : List (State × Action)}
    (traces : Traces step guard start trace final)
    (allowed : ∀ entry ∈ trace, other entry.1 entry.2) : Traces step other start trace final := by
  induction traces with
  | nil => exact .nil
  | snoc _ _ stepped ih =>
      have earlier := ih fun entry member => allowed entry (List.mem_append_left _ member)
      exact earlier.snoc (allowed _ (List.mem_append_right _ (List.mem_singleton_self _))) stepped

/-- The states of a run, the last one included. -/
def visited (trace : List (State × Action)) (final : State) : List State :=
  trace.map Prod.fst ++ [final]

theorem mem_visited_snoc {trace : List (State × Action)} {state next other : State}
    {action : Action} :
    other ∈ visited (trace ++ [(state, action)]) next ↔
      other ∈ visited trace state ∨ other = next := by
  simp [visited, or_assoc]

/-- A run reaches each of its states. -/
theorem Traces.reaches_visited {step : State → Action → Option State}
    {guard : State → Action → Prop} {start final : State} {trace : List (State × Action)}
    (traces : Traces step guard start trace final) :
    ∀ state ∈ visited trace final, Reaches step guard start state := by
  induction traces with
  | nil =>
      intro state member
      rcases List.mem_singleton.mp member with rfl
      exact .refl
  | snoc earlier allowed stepped ih =>
      intro state member
      rcases mem_visited_snoc.mp member with before | rfl
      · exact ih state before
      · exact (earlier.snoc allowed stepped).reaches

/-- A step of a run goes from one of its states to another. -/
theorem Traces.step_of_mem {step : State → Action → Option State}
    {guard : State → Action → Prop} {start final : State} {trace : List (State × Action)}
    (traces : Traces step guard start trace final) :
    ∀ entry ∈ trace, entry.1 ∈ visited trace final ∧
      ∃ next ∈ visited trace final, step entry.1 entry.2 = some next := by
  induction traces with
  | nil =>
      intro entry member
      cases member
  | @snoc trace state next action earlier allowed stepped ih =>
      intro entry member
      rcases List.mem_append.mp member with before | last
      · rcases ih entry before with ⟨visitedFirst, later, visitedLater, steppedLater⟩
        exact ⟨mem_visited_snoc.mpr (.inl visitedFirst), later,
          mem_visited_snoc.mpr (.inl visitedLater), steppedLater⟩
      · rw [List.mem_singleton.mp last]
        refine ⟨mem_visited_snoc.mpr (.inl ?_), next, mem_visited_snoc.mpr (.inr rfl), stepped⟩
        exact List.mem_append_right _ (List.mem_singleton_self state)

/-- The trace of a list of actions. -/
def recording (step : State → Action → Option State) (state : State) :
    List Action → List (State × Action)
  | [] => []
  | action :: rest =>
      (state, action) ::
        match step state action with
        | none => []
        | some next => recording step next rest

theorem Traces.cons {step : State → Action → Option State} {guard : State → Action → Prop}
    {start next final : State} {action : Action} {trace : List (State × Action)}
    (allowed : guard start action) (stepped : step start action = some next)
    (later : Traces step guard next trace final) :
    Traces step guard start ((start, action) :: trace) final := by
  induction later with
  | nil => exact Traces.snoc .nil allowed stepped
  | snoc _ allowedLater steppedLater ih => exact ih.snoc allowedLater steppedLater

theorem traces_of_run {step : State → Action → Option State} {guard : State → Action → Prop}
    [∀ state action, Decidable (guard state action)] {state final : State}
    {actions : List Action} (ran : run step guard state actions = some final) :
    Traces step guard state (recording step state actions) final := by
  induction actions generalizing state with
  | nil =>
      simp only [run, List.foldlM_nil, Option.pure_def, Option.some.injEq] at ran
      subst ran
      exact .nil
  | cons action rest ih =>
      simp only [run, List.foldlM_cons, Option.bind_eq_bind, Option.bind_eq_some_iff] at ran
      rcases ran with ⟨next, stepped, later⟩
      split at stepped
      · next allowed =>
        simp only [recording, stepped]
        exact Traces.cons allowed stepped (ih later)
      · cases stepped

/-- A part of a system: what it shows in a state, its share of an action, and
how it moves, in the states that satisfy some invariant of the system. -/
structure Part (step : State → Action → Option State) (Local : Type w) (Label : Type x) where
  valid : State → Prop
  valid_step : ∀ {state action next}, valid state → step state action = some next → valid next
  view : State → Option Local
  label : State → Action → Option Label
  moves : Local → Label → Local → Prop
  /-- The views in which the part may appear. -/
  appears : Local → Prop
  follows : ∀ {state action next after}, valid state → step state action = some next →
    view next = some after →
    (view state = none ∧ appears after) ∨
      ∃ before, view state = some before ∧
        ((label state action = none ∧ after = before) ∨
          ∃ share, label state action = some share ∧ moves before share after)

namespace Part

variable {step : State → Action → Option State} (part : Part step Local Label)

/-- The guard on the system that a guard on one of its parts amounts to. -/
def lift (guard : Local → Label → Prop) (state : State) (action : Action) : Prop :=
  ∀ before ∈ part.view state, ∀ share ∈ part.label state action, guard before share

instance (guard : Local → Label → Prop) [∀ before share, Decidable (guard before share)]
    (state : State) (action : Action) : Decidable (part.lift guard state action) :=
  inferInstanceAs (Decidable (∀ before ∈ part.view state, ∀ share ∈ part.label state action,
    guard before share))

variable {part}

/-- An invariant of the part is one of the system. -/
theorem invariant {guard : Local → Label → Prop} (Holds : Local → Prop) {start final : State}
    (valid : part.valid start) (absent : part.view start = none)
    (atAppearance : ∀ fresh, part.appears fresh → Holds fresh)
    (kept : ∀ {before share after}, Holds before → guard before share →
      part.moves before share after → Holds after)
    (reaches : Reaches step (part.lift guard) start final) :
    ∀ visible, part.view final = some visible → Holds visible := by
  refine (reaches.invariant (fun state => part.valid state ∧
    ∀ visible, part.view state = some visible → Holds visible) ⟨valid, ?_⟩ ?_).2
  · intro visible shown
    rw [absent] at shown
    cases shown
  · rintro state action next ⟨validState, holds⟩ allowed stepped
    refine ⟨part.valid_step validState stepped, ?_⟩
    intro visible shown
    rcases part.follows validState stepped shown with
      ⟨_, appeared⟩ | ⟨before, shownBefore, moved⟩
    · exact atAppearance visible appeared
    · rcases moved with ⟨_, rfl⟩ | ⟨share, labelled, moved⟩
      · exact holds visible shownBefore
      · exact kept (holds before shownBefore) (allowed before shownBefore share labelled) moved

/-- What the part did in a trace: how it looked before each of its moves, and its share. -/
def history (part : Part step Local Label) (trace : List (State × Action)) :
    List (Local × Label) :=
  trace.filterMap fun entry =>
    (part.view entry.1).bind fun before =>
      (part.label entry.1 entry.2).map fun share => (before, share)

@[simp]
theorem history_append (trace more : List (State × Action)) :
    part.history (trace ++ more) = part.history trace ++ part.history more :=
  List.filterMap_append

/-- An invariant of the part and of what it did is one of the system. -/
theorem history_invariant {guard : Local → Label → Prop}
    (Holds : List (Local × Label) → Local → Prop) {start final : State}
    {trace : List (State × Action)} (valid : part.valid start) (absent : part.view start = none)
    (stays : ∀ {state action next}, part.valid state → step state action = some next →
      part.view next = none → part.view state = none)
    (atAppearance : ∀ fresh, part.appears fresh → Holds [] fresh)
    (kept : ∀ {past before share after}, Holds past before → guard before share →
      part.moves before share after → Holds (past ++ [(before, share)]) after)
    (traces : Traces step (part.lift guard) start trace final) :
    (∀ visible, part.view final = some visible → Holds (part.history trace) visible) ∧
      (part.view final = none → part.history trace = []) := by
  refine (traces.invariant (fun trace state => part.valid state ∧
    (∀ visible, part.view state = some visible → Holds (part.history trace) visible) ∧
    (part.view state = none → part.history trace = [])) ⟨valid, ?_, fun _ => rfl⟩ ?_).2
  · intro visible shown
    rw [absent] at shown
    cases shown
  · rintro trace state action next _ ⟨validState, holds, empty⟩ allowed stepped
    refine ⟨part.valid_step validState stepped, ?_, ?_⟩
    · intro visible shown
      rw [history_append]
      rcases part.follows validState stepped shown with
        ⟨hidden, appeared⟩ | ⟨before, shownBefore, moved⟩
      · rw [empty hidden]
        simpa [history, hidden] using atAppearance visible appeared
      · rcases moved with ⟨idle, rfl⟩ | ⟨share, labelled, moved⟩
        · simpa [history, shownBefore, idle] using holds visible shownBefore
        · have later := kept (holds before shownBefore)
            (allowed before shownBefore share labelled) moved
          simpa [history, shownBefore, labelled] using later
    · intro hiddenNext
      have hidden := stays validState stepped hiddenNext
      rw [history_append, empty hidden]
      simp [history, hidden]

end Part

end Transition
