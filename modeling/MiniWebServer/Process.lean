import MiniWebServer.SubReactor.Resets

/-!
# The process of a server and its signals

The sub-reactors of a server are threads of one process. A `write` to a socket
whose peer is gone may fail with `EPIPE`; the kernel then raises `SIGPIPE` before
`write` returns. `main` sets handlers for two other signals.
-/

namespace MiniWebServer

open Connection

inductive Signal where
  | sigint
  | sigterm
  | sigpipe
deriving DecidableEq

inductive Disposition where
  /-- `onStopSignal`. -/
  | handler
  /-- The default action, which terminates the process. -/
  | default
deriving DecidableEq

/-- The dispositions after the calls of `std::signal` in `main`. -/
def Signal.disposition : Signal → Disposition
  | .sigint => .handler
  | .sigterm => .handler
  | .sigpipe => .default

/-- The process of a server with `n` sub-reactors and `n` workers. -/
structure Process (n : ℕ) where
  subReactors : Fin n → SubReactor
  /-- Whether a signal has terminated it. -/
  killed : Bool

/-- A step of one sub-reactor and of the threads that work for it. -/
structure ProcessAction (n : ℕ) where
  sub : Fin n
  action : Action
  /-- Whether `EPIPE` is the error of a write that fails in the step. -/
  epipe : Bool

namespace Process

variable {n : ℕ}

def init (useThreadPool : Bool) : Process n where
  subReactors := fun _ => .init useThreadPool n
  killed := false

/-- A signal, or an exception that nobody catches, has ended the process. -/
def Ended (p : Process n) : Prop :=
  p.killed = true ∨ ∃ sub, (p.subReactors sub).failure.isSome = true

instance (p : Process n) : Decidable p.Ended :=
  inferInstanceAs (Decidable (_ ∨ _))

/-- Whether a worker is free, where the step needs one. -/
def mayTake (p : Process n) : Action → Bool
  | .take => ((List.finRange n).map fun sub => (p.subReactors sub).running.length).sum < n
  | _ => true

/-- Whether a write of the step raises `SIGPIPE`. -/
def raises (p : Process n) (taken : ProcessAction n) : Bool :=
  taken.epipe ∧ ∃ c ∈ (p.subReactors taken.sub).running? taken.action,
    (p.subReactors taken.sub).FailsWrite c taken.action

/-- The process after a step of a sub-reactor. -/
def move (p : Process n) (sub : Fin n) (reactor : SubReactor) : Process n :=
  { p with subReactors := Function.update p.subReactors sub reactor }

@[simp]
theorem subReactors_move_self (p : Process n) (sub : Fin n) (reactor : SubReactor) :
    (p.move sub reactor).subReactors sub = reactor :=
  Function.update_self ..

theorem subReactors_move_of_ne (p : Process n) {sub other : Fin n} (differs : other ≠ sub)
    (reactor : SubReactor) : (p.move sub reactor).subReactors other = p.subReactors other :=
  Function.update_of_ne differs ..

/-- What a signal does in a step that otherwise leads to `next`. -/
def deliver (p next : Process n) (signal : Signal) : Process n :=
  match signal.disposition with
  | .handler => next
  | .default => { p with killed := true }

def step (p : Process n) (taken : ProcessAction n) : Option (Process n) :=
  if p.Ended then none
  else if p.mayTake taken.action then
    ((p.subReactors taken.sub).step taken.action).map fun reactor =>
      if p.raises taken then p.deliver (p.move taken.sub reactor) .sigpipe
      else p.move taken.sub reactor
  else none

abbrev Reachable (useThreadPool : Bool) (p : Process n) : Prop :=
  Transition.Reaches step Transition.anyAction (init useThreadPool) p

/-- A step in which a write on a connection fails touches that connection alone:
`handleDead` runs on it, the process goes on, and the other connections and their
timers are as they were. -/
structure Contained (p : Process n) (sub : Fin n) (c : ConnId) (next : Process n) : Prop where
  died : ∃ before after, (p.subReactors sub).heap c = some before ∧
    (next.subReactors sub).heap c = some after ∧ after.deathCount = before.deathCount + 1
  running : ¬next.Ended
  others : ∀ other d, (other ≠ sub ∨ d ≠ c) →
    (next.subReactors other).heap d = (p.subReactors other).heap d ∧
      (next.subReactors other).timersOf d = (p.subReactors other).timersOf d

variable {p next : Process n} {taken : ProcessAction n} {c : ConnId}

theorem raises_of_fails (fails : (p.subReactors taken.sub).FailsWrite c taken.action) :
    p.raises taken = taken.epipe := by
  have runs := SubReactor.running?_of_fails fails
  cases epipe : taken.epipe with
  | false => simp [raises, epipe]
  | true => exact decide_eq_true ⟨epipe, c, runs, fails⟩

/-- The write that fails with `EPIPE` does not return. -/
theorem killed_of_epipe (fails : (p.subReactors taken.sub).FailsWrite c taken.action)
    (epipe : taken.epipe = true) (stepped : p.step taken = some next) : next.killed = true := by
  unfold step at stepped
  split at stepped
  · cases stepped
  · simp only [raises_of_fails fails, epipe, if_true, Option.ite_none_right_eq_some,
      Option.map_eq_some_iff] at stepped
    rcases stepped with ⟨_, reactor, _, rfl⟩
    rfl

/-- Any other error returns. -/
theorem resets_of_step (fails : (p.subReactors taken.sub).FailsWrite c taken.action)
    (returns : taken.epipe = false) (stepped : p.step taken = some next) :
    ¬p.Ended ∧ ∃ reactor, SubReactor.Resets (p.subReactors taken.sub) c taken.action reactor ∧
      next = p.move taken.sub reactor := by
  unfold step at stepped
  split at stepped
  · cases stepped
  · next alive =>
    simp only [raises_of_fails fails, returns, Bool.false_eq_true, if_false,
      Option.ite_none_right_eq_some, Option.map_eq_some_iff] at stepped
    rcases stepped with ⟨_, reactor, moved, rfl⟩
    exact ⟨alive, reactor, SubReactor.resets_of_fails fails moved, rfl⟩

/-- The error is not `EPIPE`, and no timer of another connection is under the ids
that `handleDead` deletes. -/
def Spares (p : Process n) (taken : ProcessAction n) (c : ConnId) : Prop :=
  taken.epipe = false ∧ ∀ entry ∈ (p.subReactors taken.sub).timers.entries,
    entry.1 ∈ (p.subReactors taken.sub).deletedIds c taken.action → entry.2.callBack = c

instance (p : Process n) (taken : ProcessAction n) (c : ConnId) : Decidable (p.Spares taken c) :=
  inferInstanceAs (Decidable (_ ∧ _))

/-- Every write that fails in the step does so with such an error. -/
def Harmless (p : Process n) (taken : ProcessAction n) : Prop :=
  ∀ c, (p.subReactors taken.sub).FailsWrite c taken.action → p.Spares taken c

instance (p : Process n) (taken : ProcessAction n) : Decidable (p.Harmless taken) :=
  decidable_of_iff
    (∀ c ∈ (p.subReactors taken.sub).running? taken.action,
      (p.subReactors taken.sub).FailsWrite c taken.action → p.Spares taken c)
    ⟨fun spares c fails => spares c (SubReactor.running?_of_fails fails) fails,
      fun harmless c _ => harmless c⟩

theorem killed_of_harmless (harmless : p.Harmless taken) (alive : p.killed = false)
    (stepped : p.step taken = some next) : next.killed = false := by
  have silent : p.raises taken = false := by
    by_contra raised
    rcases of_decide_eq_true (Bool.not_eq_false _ ▸ raised) with ⟨epipe, c, _, fails⟩
    exact absurd (epipe.symm.trans (harmless c fails).1) (by simp)
  unfold step at stepped
  split at stepped
  · cases stepped
  · simp only [silent, Bool.false_eq_true, if_false, Option.ite_none_right_eq_some,
      Option.map_eq_some_iff] at stepped
    rcases stepped with ⟨_, reactor, _, rfl⟩
    exact alive

theorem contained_of_spares (fails : (p.subReactors taken.sub).FailsWrite c taken.action)
    (stepped : p.step taken = some next) (spares : p.Spares taken c) :
    p.Contained taken.sub c next := by
  rcases resets_of_step fails spares.1 stepped with ⟨alive, reactor, resets, rfl⟩
  refine ⟨?_, ?_, ?_⟩
  · rw [subReactors_move_self]
    exact resets.died
  · rintro (killed | ⟨sub, failed⟩)
    · exact alive (.inl killed)
    · by_cases own : sub = taken.sub
      · subst own
        rw [subReactors_move_self, resets.failure] at failed
        exact alive (.inr ⟨_, failed⟩)
      · rw [subReactors_move_of_ne p own] at failed
        exact alive (.inr ⟨sub, failed⟩)
  · intro other d differs
    by_cases own : other = taken.sub
    · subst own
      rw [subReactors_move_self]
      have elsewhere := differs.resolve_left (absurd rfl)
      exact ⟨resets.others d elsewhere, resets.timersOf_iff.mpr spares.2 d elsewhere⟩
    · rw [subReactors_move_of_ne p own]
      exact ⟨rfl, rfl⟩

theorem spares_of_contained (fails : (p.subReactors taken.sub).FailsWrite c taken.action)
    (stepped : p.step taken = some next) (contained : p.Contained taken.sub c next) :
    p.Spares taken c := by
  cases epipe : taken.epipe with
  | true => exact (contained.running (.inl (killed_of_epipe fails epipe stepped))).elim
  | false =>
      rcases resets_of_step fails epipe stepped with ⟨_, reactor, resets, rfl⟩
      refine ⟨epipe, resets.timersOf_iff.mp ?_⟩
      intro other differs
      have same := (contained.others taken.sub other (.inr differs)).2
      rwa [subReactors_move_self] at same

/-- A failing write is contained exactly when its error is not `EPIPE` and no timer
of another connection is under the ids that `handleDead` deletes; a process in
which all failing writes are so is never terminated by a signal. -/
theorem contained_iff_spares :
    (∀ (p next : Process n) (taken : ProcessAction n) (c : ConnId),
      (p.subReactors taken.sub).FailsWrite c taken.action → p.step taken = some next →
        (p.Contained taken.sub c next ↔ p.Spares taken c)) ∧
    ∀ (useThreadPool : Bool) (p : Process n),
      Transition.Reaches step Harmless (init useThreadPool) p → p.killed = false := by
  refine ⟨?_, ?_⟩
  · intro p next taken c fails stepped
    exact ⟨spares_of_contained fails stepped, contained_of_spares fails stepped⟩
  · intro useThreadPool p reaches
    refine reaches.invariant (fun p => p.killed = false) rfl ?_
    intro state taken next alive harmless stepped
    exact killed_of_harmless harmless alive stepped

/-- The client that is to disappear sends two requests; the first is answered. -/
def answered : List (ProcessAction 1) :=
  (SubReactor.connecting false ++ SubReactor.connecting false ++
    SubReactor.reading [.delivered (ascii "GET / HTTP/1.1\r\n\r\nGET / HTTP/1.1\r\n\r\n")] ++
    [Action.resume SubReactor.acceptAll, Action.resume []]).map fun action =>
      { sub := 0, action := action, epipe := false }

/-- The write of the second response fails. -/
def refused (epipe : Bool) : ProcessAction 1 where
  sub := 0
  action := .resume [.failed .other]
  epipe := epipe

theorem exists_answered (epipe : Bool) : ∃ p next : Process 1,
    Transition.Reaches step Harmless (init false) p ∧ p.step (refused epipe) = some next ∧
      (p.subReactors 0).FailsWrite 0 (.resume [.failed .other]) ∧ p.Spares (refused false) 0 ∧
      (p.subReactors 0).heap 1 ≠ none := by
  have ran : ((Transition.run step Harmless (init false : Process 1) answered).bind fun p =>
      (p.step (refused epipe)).map fun _ =>
        (decide ((p.subReactors 0).FailsWrite 0 (.resume [.failed .other])),
          decide (p.Spares (refused false) 0), ((p.subReactors 0).heap 1).isSome)) =
        some (true, true, true) := by
    cases epipe <;> decide +kernel
  rcases Option.bind_eq_some_iff.mp ran with ⟨p, ran, looked⟩
  rcases Option.map_eq_some_iff.mp looked with ⟨next, stepped, looked⟩
  simp only [Prod.mk.injEq, decide_eq_true_eq] at looked
  refine ⟨p, next, Transition.reaches_of_run ran, stepped, looked.1, looked.2.1, ?_⟩
  exact Option.isSome_iff_ne_none.mp looked.2.2

/-- The peer has reset with an error other than `EPIPE`. -/
theorem contained_iff_spares_reset :
    ∃ p next : Process 1, p.step (refused false) = some next ∧ p.Contained 0 0 next ∧
      p.killed = false ∧ (p.subReactors 0).heap 1 ≠ none := by
  rcases exists_answered false with ⟨p, next, reaches, stepped, fails, spares, other⟩
  exact ⟨p, next, stepped, (contained_iff_spares.1 p next (refused false) 0 fails stepped).mpr spares,
    contained_iff_spares.2 false p reaches, other⟩

/-- The peer closes between two responses, and the server is gone. -/
theorem not_contained_of_epipe :
    ¬∀ (p next : Process 1) (taken : ProcessAction 1) (c : ConnId), p.Reachable false →
      (p.subReactors taken.sub).FailsWrite c taken.action → p.step taken = some next →
        p.Contained taken.sub c next := by
  intro claimed
  rcases exists_answered true with ⟨p, next, reaches, stepped, fails, _, _⟩
  have reachable : p.Reachable false := reaches.weaken fun _ _ _ => trivial
  have contained := claimed p next (refused true) 0 reachable fails stepped
  exact contained.running (.inl (killed_of_epipe fails rfl stepped))

end Process

end MiniWebServer
