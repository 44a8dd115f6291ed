import MiniWebServer.Library.Transition

/-!
# The thread pool

Workers, threads that call `enqueue` and a thread that calls `stop` take steps
in any order. A section under `queue_mtx` is one step; `notify_one` and
`notify_all` are steps of their own, after the lock is released. A worker that
sleeps in `cv.wait` may wake at any time without having been notified; it then
looks at the condition again.
-/

namespace MiniWebServer

/-- Where a worker is in its loop. -/
inductive Worker (Func : Type) where
  /-- Before it looks at the condition of `cv.wait` under the lock. -/
  | looking
  /-- In `cv.wait`. -/
  | asleep
  | running (task : Func)
  | exited

instance {Func : Type} (place : Worker Func) : Decidable (place = .asleep) :=
  match place with
  | .asleep => isTrue rfl
  | .looking => isFalse nofun
  | .running _ => isFalse nofun
  | .exited => isFalse nofun

instance {Func : Type} (place : Worker Func) : Decidable (place = .exited) :=
  match place with
  | .exited => isTrue rfl
  | .looking => isFalse nofun
  | .asleep => isFalse nofun
  | .running _ => isFalse nofun

/-- Where a thread is in `ThreadPool::enqueue`. -/
inductive Submitting where
  | idle
  /-- The task is in the queue, and `notify_one` is still to come. -/
  | pushed
  /-- `enqueue on stopped ThreadPool`. -/
  | threw
deriving DecidableEq

/-- Where the thread that stops the pool is in `ThreadPool::stop`. -/
inductive Stopping where
  | idle
  /-- `stop_` is set, and `notify_all` is still to come. -/
  | stopping
  /-- The workers before this one are joined. -/
  | joining (worker : ℕ)
  | returned
deriving DecidableEq

/-- A pool of `n` workers with the threads that use it. -/
structure ThreadPool (n : ℕ) (Func Caller : Type) where
  stop_ : Bool
  tasks : List Func
  workers : Fin n → Worker Func
  callers : Caller → Submitting
  stopper : Stopping
  /-- All that was pushed, that was taken from the queue, and that has returned. -/
  pushed : List Func
  taken : List Func
  finished : Multiset Func

inductive PoolAction (n : ℕ) (Func Caller : Type) where
  | enqueue (caller : Caller) (func : Func)
  /-- `notify_one`, and the worker that it wakes. -/
  | notifyOne (caller : Caller) (woken : Option (Fin n))
  /-- A worker looks at the condition of `cv.wait`. -/
  | look (worker : Fin n)
  /-- It wakes without having been notified. -/
  | wake (worker : Fin n)
  /-- Its task returns. -/
  | finish (worker : Fin n)
  | stop
  | notifyAll
  | join

namespace ThreadPool

variable {n : ℕ} {Func Caller : Type}

/-- The constructor `ThreadPool::ThreadPool`. -/
def init : ThreadPool n Func Caller where
  stop_ := false
  tasks := []
  workers := fun _ => .looking
  callers := fun _ => .idle
  stopper := .idle
  pushed := []
  taken := []
  finished := 0

def moveWorker (s : ThreadPool n Func Caller) (worker : Fin n) (place : Worker Func) :
    ThreadPool n Func Caller :=
  { s with workers := Function.update s.workers worker place }

@[simp]
theorem workers_moveWorker_self (s : ThreadPool n Func Caller) (worker : Fin n)
    (place : Worker Func) : (s.moveWorker worker place).workers worker = place :=
  Function.update_self ..

theorem workers_moveWorker_of_ne (s : ThreadPool n Func Caller) {worker other : Fin n}
    (differs : other ≠ worker) (place : Worker Func) :
    (s.moveWorker worker place).workers other = s.workers other :=
  Function.update_of_ne differs ..

def woken : Worker Func → Worker Func
  | .asleep => .looking
  | place => place

variable [DecidableEq Caller]

def moveCaller (s : ThreadPool n Func Caller) (caller : Caller) (place : Submitting) :
    ThreadPool n Func Caller :=
  { s with callers := Function.update s.callers caller place }

@[simp]
theorem callers_moveCaller_self (s : ThreadPool n Func Caller) (caller : Caller)
    (place : Submitting) : (s.moveCaller caller place).callers caller = place :=
  Function.update_self ..

theorem callers_moveCaller_of_ne (s : ThreadPool n Func Caller) {caller other : Caller}
    (differs : other ≠ caller) (place : Submitting) :
    (s.moveCaller caller place).callers other = s.callers other :=
  Function.update_of_ne differs ..

theorem ne_threw_moveCaller {s : ThreadPool n Func Caller} {caller : Caller} {place : Submitting}
    (unthrown : ∀ other, s.callers other ≠ .threw) (harmless : place ≠ .threw) (other : Caller) :
    (s.moveCaller caller place).callers other ≠ .threw := by
  by_cases same : other = caller
  · rw [same, callers_moveCaller_self]
    exact harmless
  · rw [callers_moveCaller_of_ne s same]
    exact unthrown other

/-- `ThreadPool::enqueue` up to its `notify_one`. -/
def enqueue (s : ThreadPool n Func Caller) (caller : Caller) (func : Func) :
    Option (ThreadPool n Func Caller) :=
  if s.callers caller = .pushed then none
  else if s.stop_ then some (s.moveCaller caller .threw)
  else
    some
      { s.moveCaller caller .pushed with
        tasks := s.tasks ++ [func]
        pushed := s.pushed ++ [func] }

/-- `cv.notify_one()` wakes one of the workers that sleep. -/
def notifyOne (s : ThreadPool n Func Caller) (caller : Caller) (woken : Option (Fin n)) :
    Option (ThreadPool n Func Caller) :=
  if s.callers caller = .pushed then
    match woken with
    | some worker =>
        if s.workers worker = .asleep then
          some ((s.moveCaller caller .idle).moveWorker worker .looking)
        else none
    | none => if ∀ worker, s.workers worker ≠ .asleep then some (s.moveCaller caller .idle) else none
  else none

/-- The section of a worker under the lock. -/
def look (s : ThreadPool n Func Caller) (worker : Fin n) : Option (ThreadPool n Func Caller) :=
  match s.workers worker with
  | .looking =>
      match s.tasks with
      | [] => some (s.moveWorker worker (if s.stop_ then .exited else .asleep))
      | task :: tasks =>
          some
            { s.moveWorker worker (.running task) with
              tasks := tasks
              taken := s.taken ++ [task] }
  | _ => none

/-- The next join of `ThreadPool::stop`, or its end. -/
def join (s : ThreadPool n Func Caller) : Option (ThreadPool n Func Caller) :=
  match s.stopper with
  | .joining worker =>
      if within : worker < n then
        if s.workers ⟨worker, within⟩ = .exited then
          some { s with stopper := .joining (worker + 1) }
        else none
      else some { s with stopper := .returned }
  | _ => none

def step (s : ThreadPool n Func Caller) : PoolAction n Func Caller →
    Option (ThreadPool n Func Caller)
  | .enqueue caller func => s.enqueue caller func
  | .notifyOne caller woken => s.notifyOne caller woken
  | .look worker => s.look worker
  | .wake worker =>
      if s.workers worker = .asleep then some (s.moveWorker worker .looking) else none
  | .finish worker =>
      match s.workers worker with
      | .running task =>
          some { s.moveWorker worker .looking with finished := task ::ₘ s.finished }
      | _ => none
  | .stop =>
      if s.stopper = .idle then some { s with stop_ := true, stopper := .stopping } else none
  | .notifyAll =>
      if s.stopper = .stopping then
        some { s with workers := fun worker => woken (s.workers worker), stopper := .joining 0 }
      else none
  | .join => s.join

abbrev Reachable (s : ThreadPool n Func Caller) : Prop :=
  Transition.Reaches step Transition.anyAction init s

/-- What a step does, once for all. -/
inductive Steps (s : ThreadPool n Func Caller) :
    PoolAction n Func Caller → ThreadPool n Func Caller → Prop where
  | throws (caller : Caller) (func : Func) (stopped : s.stop_ = true)
      (outside : s.callers caller ≠ .pushed) :
      Steps s (.enqueue caller func) (s.moveCaller caller .threw)
  | push (caller : Caller) (func : Func) (unstopped : s.stop_ = false)
      (outside : s.callers caller ≠ .pushed) :
      Steps s (.enqueue caller func)
        { s.moveCaller caller .pushed with
          tasks := s.tasks ++ [func]
          pushed := s.pushed ++ [func] }
  | notifyOne (caller : Caller) (worker : Fin n) (owed : s.callers caller = .pushed)
      (asleep : s.workers worker = .asleep) :
      Steps s (.notifyOne caller (some worker))
        ((s.moveCaller caller .idle).moveWorker worker .looking)
  | notifyNone (caller : Caller) (owed : s.callers caller = .pushed)
      (awake : ∀ worker, s.workers worker ≠ .asleep) :
      Steps s (.notifyOne caller none) (s.moveCaller caller .idle)
  | exit (worker : Fin n) (looking : s.workers worker = .looking) (empty : s.tasks = [])
      (stopped : s.stop_ = true) : Steps s (.look worker) (s.moveWorker worker .exited)
  | sleep (worker : Fin n) (looking : s.workers worker = .looking) (empty : s.tasks = [])
      (unstopped : s.stop_ = false) : Steps s (.look worker) (s.moveWorker worker .asleep)
  | take (worker : Fin n) (looking : s.workers worker = .looking) (task : Func)
      (tasks : List Func) (next : s.tasks = task :: tasks) :
      Steps s (.look worker)
        { s.moveWorker worker (.running task) with
          tasks := tasks
          taken := s.taken ++ [task] }
  | wake (worker : Fin n) (asleep : s.workers worker = .asleep) :
      Steps s (.wake worker) (s.moveWorker worker .looking)
  | finish (worker : Fin n) (task : Func) (running : s.workers worker = .running task) :
      Steps s (.finish worker)
        { s.moveWorker worker .looking with finished := task ::ₘ s.finished }
  | stop (idle : s.stopper = .idle) :
      Steps s .stop { s with stop_ := true, stopper := .stopping }
  | notifyAll (owed : s.stopper = .stopping) :
      Steps s .notifyAll
        { s with workers := fun worker => woken (s.workers worker), stopper := .joining 0 }
  | join (worker : Fin n) (joining : s.stopper = .joining worker)
      (exited : s.workers worker = .exited) :
      Steps s .join { s with stopper := .joining (worker + 1) }
  | joined (worker : ℕ) (joining : s.stopper = .joining worker) (all : n ≤ worker) :
      Steps s .join { s with stopper := .returned }

theorem steps_of_step {s next : ThreadPool n Func Caller} {action : PoolAction n Func Caller}
    (stepped : s.step action = some next) : Steps s action next := by
  cases action with
  | enqueue caller func =>
      simp only [step, enqueue] at stepped
      split at stepped
      · cases stepped
      · next outside =>
        split at stepped
        · next stopped =>
          cases stepped
          exact .throws caller func stopped outside
        · next unstopped =>
          cases stepped
          exact .push caller func (Bool.not_eq_true _ ▸ unstopped) outside
  | notifyOne caller woken =>
      simp only [step, notifyOne] at stepped
      split at stepped
      · next owed =>
        split at stepped
        · next worker =>
          split at stepped
          · next asleep =>
            cases stepped
            exact .notifyOne caller worker owed asleep
          · cases stepped
        · split at stepped
          · next awake =>
            cases stepped
            exact .notifyNone caller owed awake
          · cases stepped
      · cases stepped
  | look worker =>
      simp only [step, look] at stepped
      split at stepped
      · next looking =>
        split at stepped
        · next empty =>
          cases stepped
          by_cases stopped : s.stop_ = true
          · rw [if_pos stopped]
            exact .exit worker looking empty stopped
          · rw [if_neg stopped]
            exact .sleep worker looking empty (Bool.not_eq_true _ ▸ stopped)
        · next task tasks next =>
          cases stepped
          exact .take worker looking task tasks next
      · cases stepped
  | wake worker =>
      simp only [step] at stepped
      split at stepped
      · next asleep =>
        cases stepped
        exact .wake worker asleep
      · cases stepped
  | finish worker =>
      simp only [step] at stepped
      split at stepped
      · next task running =>
        cases stepped
        exact .finish worker task running
      · cases stepped
  | stop =>
      simp only [step] at stepped
      split at stepped
      · next idle =>
        cases stepped
        exact .stop idle
      · cases stepped
  | notifyAll =>
      simp only [step] at stepped
      split at stepped
      · next owed =>
        cases stepped
        exact .notifyAll owed
      · cases stepped
  | join =>
      simp only [step, join] at stepped
      split at stepped
      · next worker joining =>
        split at stepped
        · next within =>
          split at stepped
          · next exited =>
            cases stepped
            exact .join ⟨worker, within⟩ joining exited
          · cases stepped
        · next all =>
          cases stepped
          exact .joined worker joining (not_lt.mp all)
      · cases stepped

end ThreadPool

/-- The task that a worker runs. -/
def Worker.held {Func : Type} : Worker Func → Multiset Func
  | .running task => {task}
  | _ => 0

/-- A worker that will look at the queue again without being notified. -/
def Worker.Awake {Func : Type} (place : Worker Func) : Prop :=
  place ≠ .asleep ∧ place ≠ .exited

namespace ThreadPool

section

variable {n : ℕ} {Func Caller : Type}

def held (s : ThreadPool n Func Caller) : Multiset Func :=
  ∑ worker, (s.workers worker).held

theorem held_moveWorker (s : ThreadPool n Func Caller) (worker : Fin n) (place : Worker Func) :
    (s.moveWorker worker place).held + (s.workers worker).held = s.held + place.held := by
  have member := Finset.mem_univ worker
  have others : ∑ other ∈ Finset.univ.erase worker, ((s.moveWorker worker place).workers other).held =
      ∑ other ∈ Finset.univ.erase worker, (s.workers other).held := by
    apply Finset.sum_congr rfl
    intro other inRest
    rw [workers_moveWorker_of_ne s (Finset.ne_of_mem_erase inRest)]
  rw [held, held, ← Finset.add_sum_erase _ _ member, ← Finset.add_sum_erase _ _ member, others,
    workers_moveWorker_self]
  abel

theorem held_moveWorker_of_idle (s : ThreadPool n Func Caller) {worker : Fin n}
    {place : Worker Func} (before : (s.workers worker).held = 0) (after : place.held = 0) :
    (s.moveWorker worker place).held = s.held := by
  have moved := s.held_moveWorker worker place
  rwa [before, after, add_zero, add_zero] at moved

end

section

variable {n : ℕ} {Func Caller : Type} [DecidableEq Caller]
  {s next : ThreadPool n Func Caller} {action : PoolAction n Func Caller}

/-- What was pushed, and where it is. -/
structure Kept (s : ThreadPool n Func Caller) : Prop where
  order : s.pushed = s.taken ++ s.tasks
  ran : (s.taken : Multiset Func) = s.finished + s.held

theorem kept_steps (kept : s.Kept) (steps : Steps s action next) : next.Kept := by
  rcases kept with ⟨order, ran⟩
  cases steps with
  | throws caller func stopped outside => exact ⟨order, ran⟩
  | push caller func unstopped outside =>
      exact ⟨by simp only [order, moveCaller, List.append_assoc], ran⟩
  | notifyOne caller worker owed asleep =>
      refine ⟨order, ran.trans (congrArg _ (Eq.symm ?_))⟩
      exact held_moveWorker_of_idle (s.moveCaller caller .idle)
        (by rw [moveCaller, asleep]; rfl) rfl
  | notifyNone caller owed awake => exact ⟨order, ran⟩
  | exit worker looking empty stopped =>
      refine ⟨order, ran.trans (congrArg _ (Eq.symm ?_))⟩
      exact held_moveWorker_of_idle s (by rw [looking]; rfl) rfl
  | sleep worker looking empty unstopped =>
      refine ⟨order, ran.trans (congrArg _ (Eq.symm ?_))⟩
      exact held_moveWorker_of_idle s (by rw [looking]; rfl) rfl
  | take worker looking task tasks next =>
      refine ⟨?_, ?_⟩
      · change s.pushed = s.taken ++ [task] ++ tasks
        rw [order, next, List.append_assoc, List.singleton_append]
      · have moved := s.held_moveWorker worker (.running task)
        rw [looking] at moved
        simp only [Worker.held, add_zero] at moved
        change ((s.taken ++ [task] : List Func) : Multiset Func) =
          s.finished + (s.moveWorker worker (.running task)).held
        rw [moved, ← add_assoc, ← ran]
        rfl
  | wake worker asleep =>
      refine ⟨order, ran.trans (congrArg _ (Eq.symm ?_))⟩
      exact held_moveWorker_of_idle s (by rw [asleep]; rfl) rfl
  | finish worker task running =>
      refine ⟨order, ?_⟩
      have moved := s.held_moveWorker worker .looking
      rw [running] at moved
      simp only [Worker.held, add_zero] at moved
      change (s.taken : Multiset Func) = task ::ₘ s.finished + (s.moveWorker worker .looking).held
      rw [ran, ← moved, Multiset.cons_add, ← Multiset.singleton_add]
      abel
  | stop idle => exact ⟨order, ran⟩
  | notifyAll owed =>
      refine ⟨order, ran.trans (congrArg _ ?_)⟩
      apply Finset.sum_congr rfl
      intro worker _
      cases place : s.workers worker <;> simp [woken, place, Worker.held]
  | join worker joining exited => exact ⟨order, ran⟩
  | joined worker joining all => exact ⟨order, ran⟩

/-- What holds of the workers. -/
structure Alert (s : ThreadPool n Func Caller) : Prop where
  stopped : s.stop_ = true ↔ s.stopper ≠ .idle
  exited : ∀ worker, s.workers worker = .exited → s.stop_ = true ∧ s.tasks = []
  awake : s.tasks ≠ [] → (∃ worker, (s.workers worker).Awake) ∨
    (∃ caller, s.callers caller = .pushed) ∨ s.stopper = .stopping
  notified : s.stopper ≠ .idle → s.stopper ≠ .stopping → ∀ worker, s.workers worker ≠ .asleep
  joined : ∀ worker, s.stopper = .joining worker → ∀ other : Fin n, other < worker →
    s.workers other = .exited
  returned : s.stopper = .returned → ∀ worker, s.workers worker = .exited

omit [DecidableEq Caller] in
theorem exited_moveWorker {worker other : Fin n} (place : Worker Func)
    (alive : s.workers worker ≠ .exited) (exited : s.workers other = .exited) :
    (s.moveWorker worker place).workers other = .exited := by
  rw [workers_moveWorker_of_ne s ?_]
  · exact exited
  · rintro rfl
    exact alive exited

omit [DecidableEq Caller] in
/-- A worker that has not exited moves to a place where it is awake. -/
theorem Alert.awaken (alert : s.Alert) {worker : Fin n} {place : Worker Func}
    (alive : s.workers worker ≠ .exited) (awake : place.Awake)
    (workers : next.workers = (s.moveWorker worker place).workers) (stop_ : next.stop_ = s.stop_)
    (stopper : next.stopper = s.stopper) (tasks : s.tasks = [] → next.tasks = []) :
    next.Alert := by
  refine ⟨?_, ?_, ?_, ?_, ?_, ?_⟩
  · rw [stop_, stopper]
    exact alert.stopped
  · intro other exited
    rw [workers] at exited
    have differs : other ≠ worker := by
      rintro rfl
      rw [workers_moveWorker_self] at exited
      exact awake.2 exited
    rw [workers_moveWorker_of_ne s differs] at exited
    rw [stop_]
    exact ⟨(alert.exited other exited).1, tasks (alert.exited other exited).2⟩
  · intro _
    refine .inl ⟨worker, ?_⟩
    rw [workers, workers_moveWorker_self]
    exact awake
  · intro begun notifiedAll other
    rw [stopper] at begun notifiedAll
    rw [workers]
    by_cases self : other = worker
    · rw [self, workers_moveWorker_self]
      exact awake.1
    · rw [workers_moveWorker_of_ne s self]
      exact alert.notified begun notifiedAll other
  · intro bound joining other below
    rw [stopper] at joining
    rw [workers]
    exact exited_moveWorker place alive (alert.joined bound joining other below)
  · intro done other
    rw [stopper] at done
    rw [workers]
    exact exited_moveWorker place alive (alert.returned done other)

theorem alert_steps (positive : 0 < n) (alert : s.Alert) (steps : Steps s action next) :
    next.Alert := by
  have notified := alert.notified
  have joined := alert.joined
  have returned := alert.returned
  cases steps with
  | throws caller func stopped outside =>
      refine ⟨alert.stopped, alert.exited, ?_, notified, joined, returned⟩
      intro nonempty
      rcases alert.awake nonempty with awake | ⟨other, owed⟩ | stopping
      · exact .inl awake
      · have differs : other ≠ caller := by
          rintro rfl
          exact outside owed
        exact .inr (.inl ⟨other, (callers_moveCaller_of_ne s differs _).trans owed⟩)
      · exact .inr (.inr stopping)
  | push caller func unstopped outside =>
      refine ⟨alert.stopped, ?_, ?_, notified, joined, returned⟩
      · intro worker exited
        exact absurd (unstopped.symm.trans (alert.exited worker exited).1) (by simp)
      · intro _
        exact .inr (.inl ⟨caller, callers_moveCaller_self s caller _⟩)
  | notifyOne caller worker owed asleep =>
      exact alert.awaken (by simp [asleep]) (by simp [Worker.Awake]) rfl rfl rfl id
  | notifyNone caller owed awake =>
      refine ⟨alert.stopped, alert.exited, ?_, notified, joined, returned⟩
      intro nonempty
      refine .inl ⟨⟨0, positive⟩, awake _, ?_⟩
      intro exited
      exact nonempty (alert.exited _ exited).2
  | exit worker looking empty stopped =>
      have alive : s.workers worker ≠ .exited := by simp [looking]
      refine ⟨alert.stopped, fun _ _ => ⟨stopped, empty⟩, fun nonempty => absurd empty nonempty,
        ?_, ?_, ?_⟩
      · intro begun notifiedAll other
        by_cases self : other = worker
        · rw [self, workers_moveWorker_self]
          simp
        · rw [workers_moveWorker_of_ne s self]
          exact notified begun notifiedAll other
      · intro bound joining other below
        exact exited_moveWorker _ alive (joined bound joining other below)
      · intro done other
        exact exited_moveWorker _ alive (returned done other)
  | sleep worker looking empty unstopped =>
      have idle : s.stopper = .idle := by
        by_contra begun
        exact absurd (unstopped.symm.trans (alert.stopped.mpr begun)) (by simp)
      refine ⟨alert.stopped, ?_, fun nonempty => absurd empty nonempty,
        fun begun => absurd idle begun, ?_, ?_⟩
      · intro other exited
        have differs : other ≠ worker := by
          rintro rfl
          rw [workers_moveWorker_self] at exited
          cases exited
        rw [workers_moveWorker_of_ne s differs] at exited
        exact alert.exited other exited
      · intro bound joining
        exact absurd (idle.symm.trans joining) (by simp)
      · intro done
        exact absurd (idle.symm.trans done) (by simp)
  | take worker looking task tasks next =>
      exact alert.awaken (by simp [looking]) (by simp [Worker.Awake]) rfl rfl rfl
        (fun empty => absurd (next.symm.trans empty) (by simp))
  | wake worker asleep =>
      exact alert.awaken (by simp [asleep]) (by simp [Worker.Awake]) rfl rfl rfl id
  | finish worker task running =>
      exact alert.awaken (by simp [running]) (by simp [Worker.Awake]) rfl rfl rfl id
  | stop idle =>
      refine ⟨by simp, fun worker exited => ⟨rfl, (alert.exited worker exited).2⟩,
        fun _ => .inr (.inr rfl), fun _ begun => absurd rfl begun, ?_, ?_⟩
      · intro bound joining
        exact by cases joining
      · intro done
        exact by cases done
  | notifyAll owed =>
      have awoken : ∀ worker, woken (s.workers worker) ≠ .asleep := by
        intro worker
        cases s.workers worker <;> simp [woken]
      have exited : ∀ worker, woken (s.workers worker) = .exited → s.workers worker = .exited := by
        intro worker
        cases s.workers worker <;> simp [woken]
      refine ⟨?_, fun worker out => alert.exited worker (exited worker out), ?_,
        fun _ _ => awoken, ?_, fun done => by cases done⟩
      · rw [alert.stopped, owed]
        simp
      · intro nonempty
        refine .inl ⟨⟨0, positive⟩, awoken _, ?_⟩
        intro out
        exact nonempty (alert.exited _ (exited _ out)).2
      · intro bound joining other below
        cases joining
        exact absurd below (Nat.not_lt_zero _)
  | join worker joining exited =>
      refine ⟨?_, alert.exited, ?_, fun _ _ => notified (by simp [joining]) (by simp [joining]), ?_,
        fun done => by cases done⟩
      · rw [alert.stopped, joining]
        simp
      · intro nonempty
        rcases alert.awake nonempty with awake | owed | stopping
        · exact .inl awake
        · exact .inr (.inl owed)
        · exact absurd (joining.symm.trans stopping) (by simp)
      · intro bound bounded other below
        rw [Stopping.joining.injEq] at bounded
        rcases Nat.lt_succ_iff_lt_or_eq.mp (bounded ▸ below) with earlier | last
        · exact joined _ joining other earlier
        · rw [Fin.ext last]
          exact exited
  | joined worker joining all =>
      refine ⟨?_, alert.exited, ?_, fun _ _ => notified (by simp [joining]) (by simp [joining]),
        fun bound joining => (nomatch joining), ?_⟩
      · rw [alert.stopped, joining]
        simp
      · intro nonempty
        rcases alert.awake nonempty with awake | owed | stopping
        · exact .inl awake
        · exact .inr (.inl owed)
        · exact absurd (joining.symm.trans stopping) (by simp)
      · intro _ other
        exact joined _ joining other (other.isLt.trans_le all)

/-- Tasks are taken in the order in which they were pushed, each is run once, and
all of them have returned when `stop` returns; an `enqueue` that throws adds
nothing; no wake-up is lost, and nobody sleeps after `notify_all`. -/
theorem runs_every_task (positive : 0 < n) (reachable : s.Reachable) :
    s.pushed = s.taken ++ s.tasks ∧
      (s.taken : Multiset Func) = s.finished + s.held ∧
      (s.stopper = .returned → (s.pushed : Multiset Func) = s.finished) ∧
      (∀ caller func next, s.step (.enqueue caller func) = some next →
        next.callers caller = .threw → next.tasks = s.tasks ∧ next.pushed = s.pushed) ∧
      (s.tasks ≠ [] → (∀ worker, s.workers worker ≠ .exited → s.workers worker = .asleep) →
        (∃ caller, s.callers caller = .pushed) ∨ s.stopper = .stopping) ∧
      (s.stopper ≠ .idle → s.stopper ≠ .stopping → ∀ worker, s.workers worker ≠ .asleep) := by
  have holds : s.Kept ∧ s.Alert := by
    refine reachable.invariant (fun s => s.Kept ∧ s.Alert) ⟨?_, ?_⟩ ?_
    · exact ⟨rfl, by simp [init, held, Worker.held]⟩
    · exact ⟨by simp [init], fun worker exited => (nomatch exited),
        fun nonempty => absurd rfl nonempty, fun begun => absurd rfl begun,
        fun bound joining => (nomatch joining), fun done => (nomatch done)⟩
    · rintro state action next ⟨kept, alert⟩ _ stepped
      have steps := steps_of_step stepped
      exact ⟨kept_steps kept steps, alert_steps positive alert steps⟩
  rcases holds with ⟨kept, alert⟩
  refine ⟨kept.order, kept.ran, ?_, ?_, ?_, alert.notified⟩
  · intro returned
    have exited := alert.returned returned
    have empty := (alert.exited ⟨0, positive⟩ (exited _)).2
    have idle : s.held = 0 := Finset.sum_eq_zero fun worker _ => by rw [exited worker]; rfl
    rw [kept.order, empty, List.append_nil, kept.ran, idle, add_zero]
  · intro caller func next stepped threw
    have steps := steps_of_step stepped
    cases steps with
    | throws _ _ stopped outside => exact ⟨rfl, rfl⟩
    | push _ _ unstopped outside =>
        have pushed := callers_moveCaller_self s caller .pushed
        exact absurd (pushed.symm.trans threw) (by simp)
  · intro nonempty asleep
    rcases alert.awake nonempty with ⟨worker, awake⟩ | owed
    · exact absurd (asleep worker awake.2) awake.1
    · exact owed

/-- One worker sleeps before the first task, and the second task is behind `stop`. -/
theorem runs_every_task_stopped :
    ∃ s : ThreadPool 2 ℕ Unit, s.Reachable ∧ s.pushed = [7, 8] ∧ s.stopper = .returned ∧
      (s.pushed : Multiset ℕ) = s.finished := by
  have ran : ((Transition.run step Transition.anyAction (init : ThreadPool 2 ℕ Unit)
      [.look 0, .enqueue () 7, .notifyOne () (some 0), .look 0, .enqueue () 8, .notifyOne () none,
        .stop, .notifyAll, .finish 0, .look 0, .finish 0, .look 0, .look 1, .join, .join,
        .join]).map fun s => (s.pushed, s.stopper)) = some ([7, 8], .returned) := by
    decide +kernel
  rcases Option.map_eq_some_iff.mp ran with ⟨s, ran, looked⟩
  rw [Prod.mk.injEq] at looked
  have reachable : s.Reachable := Transition.reaches_of_run ran
  exact ⟨s, reachable, looked.1, looked.2,
    (runs_every_task (by decide) reachable).2.2.1 looked.2⟩

end

end ThreadPool

end MiniWebServer
