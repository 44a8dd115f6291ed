import MiniWebServer.EventLoop
import MiniWebServer.Library.Transition

/-!
# The task queue of an event loop and its wake-up

Any thread may call `EventLoop::enqueueTask`. The call is three steps that
interleave with the loop: it looks at `stop`, it pushes under the lock, and it
writes to `eloopFd`. The loop polls, handles channels (one of them reads
`eloopFd`), does its timer pass, moves the whole queue out under the lock, and
runs what it has moved.

`eloopFd` is edge-triggered. A write that makes it readable leaves an edge that
a later poll reports once; whether a write to a readable descriptor leaves one
is left open.
-/

namespace MiniWebServer

/-- Where a thread is in `EventLoop::enqueueTask`. -/
inductive Enqueuing (Func : Type) where
  | idle
  /-- `stop` was false. -/
  | checked (func : Func)
  /-- The task is in the queue, and the write is still to come. -/
  | pushed
deriving DecidableEq

/-- A task in the queue, with the iteration of the loop in which it was pushed,
and whether a task of the loop pushed it. -/
structure Queued (Func : Type) where
  func : Func
  iteration : ℕ
  byTask : Bool
deriving DecidableEq

/-- Where the loop thread is in `EventLoop::loop`. -/
inductive LoopPhase (Func : Type) where
  /-- Before `epoll_wait`. -/
  | polling
  /-- In the callbacks of a poll; whether the one that reads `eloopFd` is to come. -/
  | handling (unread : Bool)
  /-- In the timer pass. -/
  | timing
  /-- In or between the tasks of `funcs`. -/
  | running (current : Option (Queued Func)) (todo : List (Queued Func))
  | exited
deriving DecidableEq

namespace LoopPhase

variable {Func : Type}

/-- The tasks of `funcs` that have not begun. -/
def todo : LoopPhase Func → List (Queued Func)
  | running _ todo => todo
  | _ => []

def isRunning : LoopPhase Func → Bool
  | running _ _ => true
  | _ => false

/-- Whether the queue has still to be moved out in the iteration. -/
def precedesDrain : LoopPhase Func → Bool
  | polling => true
  | handling _ => true
  | timing => true
  | _ => false

/-- Whether the loop thread is in a callback or in a task. -/
def inCode : LoopPhase Func → Bool
  | handling _ => true
  | timing => true
  | running current _ => current.isSome
  | _ => false

end LoopPhase

/-- An event loop with the threads that call `enqueueTask` on it. -/
structure LoopThread (Func Caller : Type) where
  stop : Bool
  tasks : List (Queued Func)
  /-- The counter of `eloopFd`. -/
  counter : ℕ
  /-- Whether a poll has still to report that `eloopFd` became readable. -/
  edge : Bool
  phase : LoopPhase Func
  iteration : ℕ
  /-- Where the callers are in `enqueueTask`; `none` is the loop thread. -/
  callers : Option Caller → Enqueuing Func
  /-- All that was pushed, and all that has begun to run, with the iteration. -/
  pushed : List (Queued Func)
  ran : List (Queued Func × ℕ)
  /-- Whether `errif` has ended the process. -/
  failed : Bool

inductive LoopAction (Func Caller : Type) where
  | check (caller : Option Caller) (func : Func)
  | push (caller : Option Caller)
  /-- The write to `eloopFd`, and whether it leaves an edge on a readable descriptor. -/
  | write (caller : Option Caller) (again : Bool)
  /-- `epoll_wait` returns, with `eloopFd` among the channels or without it. -/
  | poll (reported : Bool)
  /-- `EventLoop::readCallback`. -/
  | read
  /-- The callbacks are through. -/
  | timer
  /-- The queue is moved to `funcs`. -/
  | drain
  | start
  | finish
  | endLoop

namespace LoopThread

variable {Func Caller : Type}

/-- The constructor `EventLoop::EventLoop`. -/
def init : LoopThread Func Caller where
  stop := false
  tasks := []
  counter := 0
  edge := false
  phase := .polling
  iteration := 0
  callers := fun _ => .idle
  pushed := []
  ran := []
  failed := false

/-- The largest value of the counter of an `eventfd`. -/
def maxCounter : ℕ :=
  2 ^ 64 - 2

variable [DecidableEq Caller]

/-- A caller goes on in `enqueueTask`. -/
def moveCaller (s : LoopThread Func Caller) (caller : Option Caller) (place : Enqueuing Func) :
    LoopThread Func Caller :=
  { s with callers := Function.update s.callers caller place }

@[simp]
theorem callers_moveCaller_self (s : LoopThread Func Caller) (caller : Option Caller)
    (place : Enqueuing Func) : (s.moveCaller caller place).callers caller = place :=
  Function.update_self ..

theorem callers_moveCaller_of_ne (s : LoopThread Func Caller) {caller other : Option Caller}
    (differs : other ≠ caller) (place : Enqueuing Func) :
    (s.moveCaller caller place).callers other = s.callers other :=
  Function.update_of_ne differs ..

/-- `if (stop) return;` -/
def check (s : LoopThread Func Caller) (caller : Option Caller) (func : Func) :
    Option (LoopThread Func Caller) :=
  match s.callers caller with
  | .idle =>
      if caller = none ∧ s.phase.inCode = false then none
      else if s.stop then some s
      else some (s.moveCaller caller (.checked func))
  | _ => none

/-- `tasks.push(std::move(func))` under the lock. -/
def push (s : LoopThread Func Caller) (caller : Option Caller) :
    Option (LoopThread Func Caller) :=
  match s.callers caller with
  | .checked func =>
      let entry : Queued Func :=
        { func := func
          iteration := s.iteration
          byTask := caller = none ∧ s.phase.isRunning }
      some
        { s.moveCaller caller .pushed with
          tasks := s.tasks ++ [entry]
          pushed := s.pushed ++ [entry] }
  | _ => none

/-- `write(eloopFd, &one, sizeof(one))`, which fails on a counter that is full. -/
def write (s : LoopThread Func Caller) (caller : Option Caller) (again : Bool) :
    Option (LoopThread Func Caller) :=
  match s.callers caller with
  | .pushed =>
      if s.counter < maxCounter then
        some
          { s.moveCaller caller .idle with
            counter := s.counter + 1
            edge := s.edge || s.counter = 0 || again }
      else some { s with failed := true }
  | _ => none

/-- `Epoll::poll`. An edge of a descriptor that is not readable any more is dropped. -/
def poll (s : LoopThread Func Caller) (reported : Bool) : Option (LoopThread Func Caller) :=
  match s.phase with
  | .polling =>
      if reported then
        if s.edge ∧ 0 < s.counter then some { s with edge := false, phase := .handling true }
        else none
      else some { s with edge := s.edge && 0 < s.counter, phase := .handling false }
  | _ => none

/-- A step of the loop thread that is not in `enqueueTask`. -/
def go (stops : Func → Bool) (s : LoopThread Func Caller) :
    LoopAction Func Caller → Option (LoopThread Func Caller)
  | .poll reported => s.poll reported
  | .read =>
      match s.phase with
      | .handling true => some { s with counter := 0, phase := .handling false }
      | _ => none
  | .timer =>
      match s.phase with
      | .handling false => some { s with phase := .timing }
      | _ => none
  | .drain =>
      match s.phase with
      | .timing => some { s with tasks := [], phase := .running none s.tasks }
      | _ => none
  | .start =>
      match s.phase with
      | .running none (entry :: todo) =>
          some
            { s with
              phase := .running (some entry) todo
              ran := s.ran ++ [(entry, s.iteration)] }
      | _ => none
  | .finish =>
      match s.phase with
      | .running (some entry) todo =>
          some { s with phase := .running none todo, stop := s.stop || stops entry.func }
      | _ => none
  | .endLoop =>
      match s.phase with
      | .running none [] =>
          if s.stop then some { s with phase := .exited }
          else some { s with phase := .polling, iteration := s.iteration + 1 }
      | _ => none
  | _ => none

/-- A step of any thread. The tasks in `stops` call `stopLoop` at their end. -/
def step (stops : Func → Bool) (s : LoopThread Func Caller) (action : LoopAction Func Caller) :
    Option (LoopThread Func Caller) :=
  if s.failed then none
  else
    match action with
    | .check caller func => s.check caller func
    | .push caller => s.push caller
    | .write caller again => s.write caller again
    | action =>
        match s.callers none with
        | .idle => s.go stops action
        | _ => none

abbrev Reachable (stops : Func → Bool) (s : LoopThread Func Caller) : Prop :=
  Transition.Reaches (step stops) Transition.anyAction init s

/-- What a step does, once for all. -/
inductive Steps (stops : Func → Bool) (s : LoopThread Func Caller) :
    LoopAction Func Caller → LoopThread Func Caller → Prop where
  | check (caller : Option Caller) (func : Func) (idle : s.callers caller = .idle)
      (outside : caller = none → s.phase.inCode = true) (unstopped : s.stop = false) :
      Steps stops s (.check caller func) (s.moveCaller caller (.checked func))
  | refuse (caller : Option Caller) (func : Func) (idle : s.callers caller = .idle)
      (stopped : s.stop = true) : Steps stops s (.check caller func) s
  | push (caller : Option Caller) (func : Func) (checked : s.callers caller = .checked func)
      (entry : Queued Func) (same : entry.func = func) (iteration : entry.iteration = s.iteration)
      (byTask : entry.byTask = true → caller = none ∧ s.phase.isRunning = true) :
      Steps stops s (.push caller)
        { s.moveCaller caller .pushed with
          tasks := s.tasks ++ [entry]
          pushed := s.pushed ++ [entry] }
  | write (caller : Option Caller) (again : Bool) (pushed : s.callers caller = .pushed) :
      Steps stops s (.write caller again)
        { s.moveCaller caller .idle with
          counter := s.counter + 1
          edge := s.edge || s.counter = 0 || again }
  | fail (caller : Option Caller) (again : Bool) (pushed : s.callers caller = .pushed)
      (full : maxCounter ≤ s.counter) :
      Steps stops s (.write caller again) { s with failed := true }
  | report (outside : s.callers none = .idle) (phased : s.phase = .polling)
      (edge : s.edge = true) (readable : 0 < s.counter) :
      Steps stops s (.poll true) { s with edge := false, phase := .handling true }
  | poll (outside : s.callers none = .idle) (phased : s.phase = .polling) :
      Steps stops s (.poll false)
        { s with edge := s.edge && 0 < s.counter, phase := .handling false }
  | read (outside : s.callers none = .idle) (phased : s.phase = .handling true) :
      Steps stops s .read { s with counter := 0, phase := .handling false }
  | timer (outside : s.callers none = .idle) (phased : s.phase = .handling false) :
      Steps stops s .timer { s with phase := .timing }
  | drain (outside : s.callers none = .idle) (phased : s.phase = .timing) :
      Steps stops s .drain { s with tasks := [], phase := .running none s.tasks }
  | start (entry : Queued Func) (todo : List (Queued Func)) (outside : s.callers none = .idle)
      (phased : s.phase = .running none (entry :: todo)) :
      Steps stops s .start
        { s with
          phase := .running (some entry) todo
          ran := s.ran ++ [(entry, s.iteration)] }
  | finish (entry : Queued Func) (todo : List (Queued Func)) (outside : s.callers none = .idle)
      (phased : s.phase = .running (some entry) todo) :
      Steps stops s .finish
        { s with phase := .running none todo, stop := s.stop || stops entry.func }
  | again (outside : s.callers none = .idle) (phased : s.phase = .running none [])
      (unstopped : s.stop = false) :
      Steps stops s .endLoop { s with phase := .polling, iteration := s.iteration + 1 }
  | exit (outside : s.callers none = .idle) (phased : s.phase = .running none [])
      (stopped : s.stop = true) : Steps stops s .endLoop { s with phase := .exited }

theorem steps_of_step {stops : Func → Bool} {s next : LoopThread Func Caller}
    {action : LoopAction Func Caller} (stepped : s.step stops action = some next) :
    Steps stops s action next := by
  unfold step at stepped
  split at stepped
  · cases stepped
  · cases action with
    | check caller func =>
        simp only [check] at stepped
        split at stepped
        · next idle =>
          split at stepped
          · cases stepped
          · next outside =>
            have inside : caller = none → s.phase.inCode = true := by
              intro own
              rw [← Bool.not_eq_false]
              intro out
              exact outside ⟨own, out⟩
            split at stepped
            · next stopped =>
              cases stepped
              exact .refuse caller func idle stopped
            · next unstopped =>
              cases stepped
              exact .check caller func idle inside (Bool.not_eq_true _ ▸ unstopped)
        · cases stepped
    | push caller =>
        simp only [push] at stepped
        split at stepped
        · next func checked =>
          cases stepped
          exact .push caller func checked _ rfl rfl (by simp)
        · cases stepped
    | write caller again =>
        simp only [write] at stepped
        split at stepped
        · next pushed =>
          split at stepped
          · cases stepped
            exact .write caller again pushed
          · next full =>
            cases stepped
            exact .fail caller again pushed (not_lt.mp full)
        · cases stepped
    | poll reported =>
        simp only at stepped
        split at stepped
        · next outside =>
          simp only [go, poll] at stepped
          split at stepped
          · next phased =>
            split at stepped
            · next asked =>
              subst asked
              split at stepped
              · next ready =>
                cases stepped
                exact .report outside phased ready.1 ready.2
              · cases stepped
            · next asked =>
              rw [Bool.not_eq_true] at asked
              subst asked
              cases stepped
              exact .poll outside phased
          · cases stepped
        · cases stepped
    | read =>
        simp only at stepped
        split at stepped
        · next outside =>
          simp only [go] at stepped
          split at stepped <;> cases stepped
          exact .read outside ‹_›
        · cases stepped
    | timer =>
        simp only at stepped
        split at stepped
        · next outside =>
          simp only [go] at stepped
          split at stepped <;> cases stepped
          exact .timer outside ‹_›
        · cases stepped
    | drain =>
        simp only at stepped
        split at stepped
        · next outside =>
          simp only [go] at stepped
          split at stepped <;> cases stepped
          exact .drain outside ‹_›
        · cases stepped
    | start =>
        simp only at stepped
        split at stepped
        · next outside =>
          simp only [go] at stepped
          split at stepped <;> cases stepped
          exact .start _ _ outside ‹_›
        · cases stepped
    | finish =>
        simp only at stepped
        split at stepped
        · next outside =>
          simp only [go] at stepped
          split at stepped <;> cases stepped
          exact .finish _ _ outside ‹_›
        · cases stepped
    | endLoop =>
        simp only at stepped
        split at stepped
        · next outside =>
          simp only [go] at stepped
          split at stepped
          · next phased =>
            split at stepped
            · next stopped =>
              cases stepped
              exact .exit outside phased stopped
            · next unstopped =>
              cases stepped
              exact .again outside phased (Bool.not_eq_true _ ▸ unstopped)
          · cases stepped
        · cases stepped

/-- What holds of the queue and of what has run. -/
structure Ordered (s : LoopThread Func Caller) : Prop where
  pushed : s.pushed = s.ran.map Prod.fst ++ s.phase.todo ++ s.tasks
  queued : ∀ entry ∈ s.tasks, entry.iteration ≤ s.iteration ∧
    (entry.byTask = true → s.phase.precedesDrain = true → entry.iteration < s.iteration)
  moved : ∀ entry ∈ s.phase.todo, entry.byTask = true → entry.iteration < s.iteration
  later : ∀ entry ∈ s.ran, entry.1.byTask = true → entry.1.iteration < entry.2

omit [DecidableEq Caller] in
/-- The phases before the queue is moved out. -/
theorem Ordered.advance {s next : LoopThread Func Caller} (ordered : s.Ordered)
    (before : s.phase.precedesDrain = true) (after : next.phase.precedesDrain = true)
    (tasks : next.tasks = s.tasks) (iteration : next.iteration = s.iteration)
    (pushed : next.pushed = s.pushed) (ran : next.ran = s.ran) : next.Ordered := by
  have nothing : ∀ phase : LoopPhase Func, phase.precedesDrain = true → phase.todo = [] := by
    intro phase precedes
    cases phase <;> simp_all [LoopPhase.precedesDrain, LoopPhase.todo]
  refine ⟨?_, ?_, ?_, ?_⟩
  · rw [pushed, ran, tasks, nothing _ after, ordered.pushed, nothing _ before]
  · rw [tasks, iteration]
    intro entry member
    exact ⟨(ordered.queued entry member).1,
      fun own _ => (ordered.queued entry member).2 own before⟩
  · rw [nothing _ after]
    intro entry member
    exact by cases member
  · rw [ran]
    exact ordered.later

theorem ordered_steps {stops : Func → Bool} {s next : LoopThread Func Caller}
    {action : LoopAction Func Caller} (ordered : s.Ordered) (steps : Steps stops s action next) :
    next.Ordered := by
  have pushed := ordered.pushed
  have queued := ordered.queued
  have moved := ordered.moved
  have later := ordered.later
  cases steps with
  | check caller func idle outside unstopped => exact ⟨pushed, queued, moved, later⟩
  | refuse caller func idle stopped => exact ⟨pushed, queued, moved, later⟩
  | push caller func checked entry same iteration byTask =>
      refine ⟨?_, ?_, moved, later⟩
      · simp only [pushed, moveCaller, List.append_assoc]
      · intro other member
        rcases List.mem_append.mp member with earlier | new
        · exact queued other earlier
        · rw [List.mem_singleton.mp new]
          refine ⟨iteration.le, fun own precedes => ?_⟩
          have running := (byTask own).2
          change s.phase.precedesDrain = true at precedes
          cases phased : s.phase <;> simp_all [LoopPhase.precedesDrain, LoopPhase.isRunning]
  | write caller again owed => exact ⟨pushed, queued, moved, later⟩
  | fail caller again owed full => exact ⟨pushed, queued, moved, later⟩
  | report outside phased edge readable =>
      exact ordered.advance (by rw [phased]; rfl) rfl rfl rfl rfl rfl
  | poll outside phased => exact ordered.advance (by rw [phased]; rfl) rfl rfl rfl rfl rfl
  | read outside phased => exact ordered.advance (by rw [phased]; rfl) rfl rfl rfl rfl rfl
  | timer outside phased => exact ordered.advance (by rw [phased]; rfl) rfl rfl rfl rfl rfl
  | drain outside phased =>
      rw [phased] at pushed queued
      refine ⟨?_, fun entry member => (nomatch member), ?_, later⟩
      · simpa [LoopPhase.todo] using pushed
      · intro entry member own
        exact (queued entry member).2 own rfl
  | start entry todo outside phased =>
      rw [phased] at pushed queued moved
      refine ⟨?_, ?_, ?_, ?_⟩
      · simpa [LoopPhase.todo] using pushed
      · intro other member
        exact ⟨(queued other member).1, fun _ precedes => (nomatch precedes)⟩
      · intro other member
        exact moved other (List.mem_cons_of_mem entry member)
      · intro other member own
        rcases List.mem_append.mp member with earlier | new
        · exact later other earlier own
        · rw [List.mem_singleton.mp new] at own ⊢
          exact moved entry (List.mem_cons_self ..) own
  | finish entry todo outside phased =>
      rw [phased] at pushed queued moved
      exact ⟨pushed, fun other member =>
        ⟨(queued other member).1, fun _ precedes => (nomatch precedes)⟩, moved, later⟩
  | again outside phased unstopped =>
      rw [phased] at pushed
      refine ⟨pushed, ?_, fun entry member => (nomatch member), later⟩
      intro entry member
      have earlier := (queued entry member).1
      exact ⟨earlier.trans (Nat.le_succ _), fun _ _ => Nat.lt_succ_of_le earlier⟩
  | exit outside phased stopped =>
      rw [phased] at pushed
      exact ⟨pushed, fun other member =>
        ⟨(queued other member).1, fun _ precedes => (nomatch precedes)⟩,
        fun entry member => (nomatch member), later⟩

/-- A readable descriptor has an edge or a callback that will read it, and a
queue that is not empty has a readable descriptor or a caller before its write. -/
structure Woken (s : LoopThread Func Caller) : Prop where
  outside : s.phase.inCode = false → s.callers none = .idle
  signal : 0 < s.counter → s.edge = true ∨ s.phase = .handling true
  owed : s.phase = .polling ∨ s.phase.isRunning = true → s.tasks ≠ [] →
    0 < s.counter ∨ ∃ caller, s.callers caller = .pushed

theorem woken_steps {stops : Func → Bool} {s next : LoopThread Func Caller}
    {action : LoopAction Func Caller} (woken : s.Woken) (steps : Steps stops s action next) :
    next.Woken := by
  have signal := woken.signal
  have owed := woken.owed
  have edge : 0 < s.counter → s.phase ≠ .handling true → s.edge = true :=
    fun readable elsewhere => (signal readable).resolve_right elsewhere
  cases steps with
  | check caller func idle inside unstopped =>
      refine ⟨?_, signal, ?_⟩
      · intro out
        have other : none ≠ caller := by
          rintro rfl
          have within := inside rfl
          rw [show s.phase.inCode = false from out] at within
          cases within
        rw [callers_moveCaller_of_ne s other]
        exact woken.outside out
      · intro phased nonempty
        rcases owed phased nonempty with readable | ⟨other, pushed⟩
        · exact .inl readable
        · have differs : other ≠ caller := by
            rintro rfl
            rw [idle] at pushed
            cases pushed
          exact .inr ⟨other, (callers_moveCaller_of_ne s differs _).trans pushed⟩
  | refuse caller func idle stopped => exact woken
  | push caller func checked entry same iteration byTask =>
      refine ⟨?_, signal, fun _ _ => .inr ⟨caller, callers_moveCaller_self s caller _⟩⟩
      intro out
      have idle := woken.outside out
      have differs : none ≠ caller := by
        rintro rfl
        rw [checked] at idle
        cases idle
      exact (callers_moveCaller_of_ne s differs _).trans idle
  | write caller again pushed =>
      refine ⟨?_, ?_, fun _ _ => .inl (Nat.succ_pos _)⟩
      · intro out
        by_cases own : none = caller
        · subst own
          exact callers_moveCaller_self s none _
        · exact (callers_moveCaller_of_ne s own _).trans (woken.outside out)
      · intro _
        rcases Nat.eq_zero_or_pos s.counter with zero | readable
        · exact .inl (by simp [zero])
        · rcases signal readable with edge | phased
          · exact .inl (by simp [edge])
          · exact .inr phased
  | fail caller again pushed full => exact ⟨woken.outside, signal, owed⟩
  | report outside phased reported readable =>
      exact ⟨fun _ => outside, fun _ => .inr rfl, fun phase => by simp [LoopPhase.isRunning] at phase⟩
  | poll outside phased =>
      refine ⟨fun _ => outside, ?_, fun phase => by simp [LoopPhase.isRunning] at phase⟩
      intro readable
      exact .inl (by simpa [edge readable (by simp [phased])] using readable)
  | read outside phased =>
      exact ⟨fun _ => outside, fun readable => absurd readable (lt_irrefl 0),
        fun phase => by simp [LoopPhase.isRunning] at phase⟩
  | timer outside phased =>
      exact ⟨fun _ => outside, fun readable => .inl (edge readable (by simp [phased])),
        fun phase => by simp [LoopPhase.isRunning] at phase⟩
  | drain outside phased =>
      exact ⟨fun _ => outside, fun readable => .inl (edge readable (by simp [phased])),
        fun _ nonempty => absurd rfl nonempty⟩
  | start entry todo outside phased =>
      exact ⟨fun _ => outside, fun readable => .inl (edge readable (by simp [phased])),
        fun _ => owed (.inr (by rw [phased]; rfl))⟩
  | finish entry todo outside phased =>
      exact ⟨fun _ => outside, fun readable => .inl (edge readable (by simp [phased])),
        fun _ => owed (.inr (by rw [phased]; rfl))⟩
  | again outside phased unstopped =>
      exact ⟨fun _ => outside, fun readable => .inl (edge readable (by simp [phased])),
        fun _ => owed (.inr (by rw [phased]; rfl))⟩
  | exit outside phased stopped =>
      exact ⟨fun _ => outside, fun readable => .inl (edge readable (by simp [phased])),
        fun phase => by simp [LoopPhase.isRunning] at phase⟩

theorem ordered_of_reachable {stops : Func → Bool} {s : LoopThread Func Caller}
    (reachable : s.Reachable stops) : s.Ordered := by
  apply reachable.invariant Ordered
  · exact ⟨rfl, fun entry member => (nomatch member), fun entry member => (nomatch member),
      fun entry member => (nomatch member)⟩
  · intro state action next ordered _ stepped
    exact ordered_steps ordered (steps_of_step stepped)

theorem woken_of_reachable {stops : Func → Bool} {s : LoopThread Func Caller}
    (reachable : s.Reachable stops) : s.Woken := by
  apply reachable.invariant Woken
  · exact ⟨fun _ => rfl, fun readable => absurd readable (lt_irrefl 0),
      fun _ nonempty => absurd rfl nonempty⟩
  · intro state action next woken _ stepped
    exact woken_steps woken (steps_of_step stepped)

/-- The tasks run in the order in which they were pushed, each once, and a task
that a running task pushes runs in a later iteration. When the loop is about to
block with tasks in the queue, a poll will report `eloopFd`, or a caller has its
write before it. -/
theorem runs_in_order {stops : Func → Bool} {s : LoopThread Func Caller}
    (reachable : s.Reachable stops) :
    s.ran.map Prod.fst <+: s.pushed ∧
      s.pushed = s.ran.map Prod.fst ++ s.phase.todo ++ s.tasks ∧
      (∀ entry ∈ s.ran, entry.1.byTask = true → entry.1.iteration < entry.2) ∧
      (s.phase = .polling → s.tasks ≠ [] →
        (s.edge = true ∧ 0 < s.counter) ∨ ∃ caller : Caller, s.callers caller = .pushed) := by
  have ordered := ordered_of_reachable reachable
  have woken := woken_of_reachable reachable
  have begun : s.ran.map Prod.fst <+: s.pushed := by
    rw [ordered.pushed, List.append_assoc]
    exact List.prefix_append ..
  refine ⟨begun, ordered.pushed, ordered.later, ?_⟩
  intro blocking nonempty
  rcases woken.owed (.inl blocking) nonempty with readable | ⟨caller, pushed⟩
  · refine .inl ⟨(woken.signal readable).resolve_right ?_, readable⟩
    rw [blocking]
    simp
  · cases caller with
    | none =>
        have idle := woken.outside (by rw [blocking]; rfl)
        exact absurd (idle.symm.trans pushed) (by simp)
    | some caller => exact .inr ⟨caller, pushed⟩

/-- A task pushes another one; the loop is before the poll that will report it. -/
theorem runs_in_order_pushing :
    ∃ s : LoopThread Task (Fin 2), s.Reachable (fun func => func = .stop) ∧
      s.tasks.map Queued.func = [.removeConnection 1] ∧
      s.ran.map Prod.fst <+: s.pushed ∧
      ((s.edge = true ∧ 0 < s.counter) ∨ ∃ caller : Fin 2, s.callers caller = .pushed) := by
  have ran : ((Transition.run (step fun func : Task => func = .stop) Transition.anyAction
      (init : LoopThread Task (Fin 2))
      [.check (some 0) (.removeConnection 0), .push (some 0), .write (some 0) false, .poll true,
        .read, .timer, .drain, .start, .check none (.removeConnection 1), .push none,
        .write none false, .finish, .endLoop]).map fun s =>
          (s.phase, s.tasks.map Queued.func)) = some (.polling, [.removeConnection 1]) := by
    decide +kernel
  rcases Option.map_eq_some_iff.mp ran with ⟨s, ran, looked⟩
  rw [Prod.mk.injEq] at looked
  have reachable : s.Reachable fun func => func = .stop := Transition.reaches_of_run ran
  rcases runs_in_order reachable with ⟨begun, _, _, woken⟩
  refine ⟨s, reachable, looked.2, begun, woken looked.1 ?_⟩
  rintro empty
  rw [empty] at looked
  cases looked.2

end LoopThread

end MiniWebServer
