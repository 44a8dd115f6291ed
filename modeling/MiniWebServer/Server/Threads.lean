import MiniWebServer.EventLoop.Leaving
import MiniWebServer.Library.Fairness
import MiniWebServer.Server.Shutdown

/-!
# The threads of a server

Each step of a server is one of its threads: the control thread, the threads of
the event loops, the workers. A thread does one thing after the other, and what
it does in a call of `enqueueTask` stands for what it has to do next.

The scheduler lets every thread go on that can. A thread that is in
`epoll_wait` goes on when there is something to report. A callback or a task
calls `enqueueTask` and the pool a finite number of times before it returns.
-/

namespace MiniWebServer

inductive ServerThread (n : ℕ) where
  | control
  | main
  | sub (sub : Fin n)
  | worker (worker : Fin n)
deriving DecidableEq

/-- Who calls `enqueueTask`, for the loop of a sub-reactor. -/
def SubCaller.thread {n : ℕ} (sub : Fin n) : Option (SubCaller n) → ServerThread n
  | none => .sub sub
  | some .mainReactor => .main
  | some .control => .control
  | some (.worker index) => .worker index

/-- Who is in `enqueueTask` in a step. -/
def LoopAction.caller? {Func Caller : Type} : LoopAction Func Caller → Option (Option Caller)
  | .check caller _ => some caller
  | .push caller => some caller
  | .write caller _ => some caller
  | _ => none

theorem LoopAction.caller?_of_own {Func Caller : Type} {action : LoopAction Func Caller}
    (own : action.isOwn = true) : action.caller? = none := by
  cases action <;> first | rfl | cases own

theorem LoopAction.own_of_caller? {Func Caller : Type} {action : LoopAction Func Caller}
    (outside : action.caller? = none) : action.isOwn = true := by
  cases action <;> first | rfl | cases outside

namespace ServerAction

variable {n : ℕ}

/-- The thread that takes a step, if it is not a spurious wake-up. -/
def thread : ServerAction n → Option (ServerThread n)
  | .main action =>
      match action.caller? with
      | some (some ()) => some .control
      | _ => some .main
  | .accept _ => some .main
  | .dispatched => some .main
  | .sub index action =>
      match action.caller? with
      | some caller => some (SubCaller.thread index caller)
      | none => some (.sub index)
  | .pool (.enqueue caller _) => some (.sub caller)
  | .pool (.notifyOne caller _) => some (.sub caller)
  | .pool (.look worker) => some (.worker worker)
  | .pool (.wake _) => none
  | .pool (.finish worker) => some (.worker worker)
  | .pool .stop => some .control
  | .pool .notifyAll => some .control
  | .pool .join => some .control
  | .control => some .control

/-- A step of a loop thread outside of calls: the loop goes on. -/
def GoesRound : ServerThread n → ServerAction n → Prop
  | .main, .main action => action.isOwn = true
  | .sub index, .sub other action => index = other ∧ action.isOwn = true
  | _, _ => False

/-- A callback or a task of a loop calls `enqueueTask` or the pool. -/
def Calls : ServerThread n → ServerAction n → Prop
  | .main, .accept _ => True
  | .sub index, .sub other (.check none _) => index = other
  | .sub index, .pool (.enqueue caller _) => index = caller
  | _, _ => False

end ServerAction

/-- What a caller has still to do in `enqueueTask`. -/
def Enqueuing.left {Func : Type} : Enqueuing Func → ℕ
  | .idle => 0
  | .checked _ => 2
  | .pushed => 1

theorem Enqueuing.left_eq_zero {Func : Type} {place : Enqueuing Func} :
    place.left = 0 ↔ place = .idle := by
  cases place <;> simp [left]

theorem Enqueuing.left_le {Func : Type} (place : Enqueuing Func) : place.left ≤ 2 := by
  cases place <;> simp [left]

/-- What a caller has still to do in `ThreadPool::enqueue`. -/
def Submitting.left : Submitting → ℕ
  | .pushed => 1
  | _ => 0

namespace LoopThread

variable {Func Caller : Type} [DecidableEq Caller] {stops : Func → Bool}
  {s next : LoopThread Func Caller} {action : LoopAction Func Caller}

theorem callers_of_other (steps : Steps stops s action next) {caller : Option Caller}
    (other : action.caller? ≠ some caller) : next.callers caller = s.callers caller := by
  rcases callers_steps steps caller with same | ⟨_, rfl, _⟩ | ⟨rfl, _⟩ | ⟨⟨_, rfl⟩, _⟩
  · exact same
  · exact absurd rfl other
  · exact absurd rfl other
  · exact absurd rfl other

/-- A call that has passed its check comes nearer to its end. -/
theorem left_lt_of_caller (steps : Steps stops s action next) {caller : Option Caller}
    (own : action.caller? = some caller) (inside : s.callers caller ≠ .idle) :
    next.failed = true ∨ (next.callers caller).left < (s.callers caller).left := by
  cases steps with
  | check other func idle outside unstopped =>
      cases own
      exact absurd idle inside
  | refuse other func idle stopped =>
      cases own
      exact absurd idle inside
  | push other func checked entry same iteration byTask =>
      cases own
      right
      simp [checked, Enqueuing.left]
  | write other again pushed =>
      cases own
      right
      simp [pushed, Enqueuing.left]
  | fail other again pushed full => exact .inl rfl
  | _ => cases own

/-- Who does not begin a call is in it. -/
theorem inside_of_caller (steps : Steps stops s action next) {caller : Option Caller}
    (own : action.caller? = some caller) (never : ∀ func, action ≠ .check caller func) :
    s.callers caller ≠ .idle := by
  intro idle
  cases steps with
  | check other func _ outside unstopped =>
      cases own
      exact never func rfl
  | refuse other func _ stopped =>
      cases own
      exact never func rfl
  | push other func checked entry same iteration byTask =>
      cases own
      exact absurd (idle.symm.trans checked) (by simp)
  | write other again pushed =>
      cases own
      exact absurd (idle.symm.trans pushed) (by simp)
  | fail other again pushed full =>
      cases own
      exact absurd (idle.symm.trans pushed) (by simp)
  | _ => cases own

/-- A caller that is outside stays outside, unless it calls. -/
theorem idle_steps (steps : Steps stops s action next) {caller : Option Caller}
    (idle : s.callers caller = .idle) (never : ∀ func, action ≠ .check caller func) :
    next.callers caller = .idle := by
  rw [callers_of_other steps fun own => inside_of_caller steps own never idle]
  exact idle

/-- A caller is about to push a task that calls `stopLoop`, or one was pushed. -/
def Asking (stops : Func → Bool) (caller : Option Caller) (s : LoopThread Func Caller) : Prop :=
  (∃ func, s.callers caller = .checked func ∧ stops func = true) ∨ s.Asked stops

theorem asking_steps {caller : Option Caller} (asking : s.Asking stops caller)
    (steps : Steps stops s action next) : next.Asking stops caller := by
  rcases asking with ⟨func, checked, stopping⟩ | asked
  · by_cases own : action.caller? = some caller
    · cases steps with
      | check other _ idle outside unstopped =>
          cases own
          exact absurd (idle.symm.trans checked) (by simp)
      | refuse other _ idle stopped =>
          cases own
          exact absurd (idle.symm.trans checked) (by simp)
      | push other pushing passed entry same iteration byTask =>
          cases own
          have func_eq : func = pushing := by simpa [checked] using passed
          refine .inr ⟨entry, List.mem_append_right _ (List.mem_singleton_self _), ?_⟩
          rw [same, ← func_eq]
          exact stopping
      | write other again pushed =>
          cases own
          exact absurd (pushed.symm.trans checked) (by simp)
      | fail other again pushed full =>
          cases own
          exact absurd (pushed.symm.trans checked) (by simp)
      | _ => cases own
    · exact .inl ⟨func, (callers_of_other steps own).trans checked, stopping⟩
  · exact .inr (asked.steps steps)

/-- The check of a task that calls `stopLoop` is passed, or another one was pushed before. -/
theorem asking_of_check (reachable : s.Reachable stops) {caller : Option Caller} {func : Func}
    (steps : Steps stops s (.check caller func) next) (stopping : stops func = true) :
    next.Asking stops caller := by
  cases steps with
  | check _ _ idle outside unstopped =>
      exact .inl ⟨func, callers_moveCaller_self s caller _, stopping⟩
  | refuse _ _ idle stopped => exact .inr (stopping_pushed reachable stopped)

end LoopThread

namespace ThreadPool

variable {n : ℕ} {Func Caller : Type} [DecidableEq Caller] {s next : ThreadPool n Func Caller}
  {action : PoolAction n Func Caller}

/-- A worker runs its task until it returns. -/
theorem running_steps (steps : Steps s action next) {worker : Fin n} {task : Func}
    (running : s.workers worker = .running task) (goesOn : action ≠ .finish worker) :
    next.workers worker = .running task := by
  have others : ∀ {other : Fin n} (place : Worker Func), other ≠ worker →
      (s.moveWorker other place).workers worker = .running task := by
    intro other place differs
    rw [workers_moveWorker_of_ne s differs.symm]
    exact running
  cases steps with
  | notifyOne caller other owed asleep =>
      apply others
      rintro rfl
      exact absurd (asleep.symm.trans running) (by simp)
  | exit other looking empty stopped =>
      apply others
      rintro rfl
      exact absurd (looking.symm.trans running) (by simp)
  | sleep other looking empty unstopped =>
      apply others
      rintro rfl
      exact absurd (looking.symm.trans running) (by simp)
  | take other looking taken tasks next =>
      apply others
      rintro rfl
      exact absurd (looking.symm.trans running) (by simp)
  | wake other asleep =>
      apply others
      rintro rfl
      exact absurd (asleep.symm.trans running) (by simp)
  | finish other finished runs =>
      apply others
      rintro rfl
      exact goesOn rfl
  | notifyAll owed =>
      change woken (s.workers worker) = .running task
      rw [running]
      rfl
  | _ => exact running

/-- Callers come into `enqueue` by calling it. -/
theorem callers_of_steps (steps : Steps s action next) {caller : Caller}
    (inside : next.callers caller ≠ .idle) :
    s.callers caller ≠ .idle ∨ ∃ func, action = .enqueue caller func := by
  have others : ∀ {other : Caller} (place : Submitting), caller ≠ other →
      (s.moveCaller other place).callers caller ≠ .idle → s.callers caller ≠ .idle := by
    intro other place differs moved
    rwa [callers_moveCaller_of_ne s differs] at moved
  cases steps with
  | throws other func stopped outside =>
      by_cases same : caller = other
      · exact .inr ⟨func, by rw [same]⟩
      · exact .inl (others .threw same inside)
  | push other func unstopped outside =>
      by_cases same : caller = other
      · exact .inr ⟨func, by rw [same]⟩
      · exact .inl (others .pushed same inside)
  | notifyOne other worker owed asleep =>
      by_cases same : caller = other
      · subst same
        exact absurd (callers_moveCaller_self s caller .idle) inside
      · exact .inl (others .idle same inside)
  | notifyNone other owed awake =>
      by_cases same : caller = other
      · subst same
        exact absurd (callers_moveCaller_self s caller .idle) inside
      · exact .inl (others .idle same inside)
  | _ => exact .inl inside

end ThreadPool

namespace Server

variable {n : ℕ} {s next : Server n} {action : ServerAction n}

/-- A loop thread that `epoll_wait` blocks. -/
def Sleeps (s : Server n) : ServerThread n → Prop
  | .main => s.mainReactor.Sleeps
  | .sub sub => (s.subReactors sub).Sleeps
  | _ => False

/-- A thread that has nothing to do. -/
def Waits (thread : ServerThread n) (s : Server n) : Prop :=
  s.Sleeps thread ∨ ∀ action, action.thread = some thread → s.step action = none

abbrev Behaviour (n : ℕ) :=
  Transition.Behaviour (fun (s : Server n) action => s.step action)

/-- The threads are scheduled, and callbacks and tasks return. -/
structure Behaviour.Fair (behaviour : Behaviour n) : Prop where
  just : ∀ thread, behaviour.Just
    (fun _ moment => ∃ action ∈ moment, action.thread = some thread) (Waits thread)
  returns : ∀ thread, (behaviour.Repeats fun _ moment => ∃ action ∈ moment, action.Calls thread) →
    behaviour.Repeats fun _ moment => ∃ action ∈ moment, action.GoesRound thread

/-- Where a thread is in a call, it is where it calls. -/
structure Sequential (s : Server n) : Prop where
  main : s.mainReactor.callers none = .idle
  controlMain : s.mainReactor.callers (some ()) ≠ .idle →
    s.control = .serving ∨ s.control = .joiningMain
  controlSub : ∀ sub, (s.subReactors sub).callers (some .control) ≠ .idle →
    s.control = .joiningSub sub
  workers : ∀ sub worker, (s.subReactors sub).callers (some (.worker worker)) ≠ .idle →
    s.posted worker = true ∧ ∃ job, s.threadpool.workers worker = .running (sub, job)
  submits : ∀ sub, s.threadpool.callers sub ≠ .idle → (s.subReactors sub).phase.inCode = true
  stopsMain : s.control = .joiningMain →
    s.mainReactor.Asking MainTask.stopsLoop (some ())
  stopsSub : ∀ sub, s.control = .joiningSub sub →
    (s.subReactors sub).Asking Task.stopsLoop (some .control)

/-- The control thread goes on when its stop task has passed the check of the main loop. -/
theorem control_main {action : LoopAction MainTask Unit} (loop : LoopThread MainTask Unit)
    (may : s.mainMay action = true) :
    ((s.afterMain action loop).control = s.control ∧ action ≠ .check (some ()) .stop) ∨
      (action = .check (some ()) .stop ∧ s.control = .stoppingMain ∧
        (s.afterMain action loop).control = .joiningMain) := by
  cases action with
  | check caller func =>
      cases func with
      | listenPort port => exact .inl ⟨rfl, by simp⟩
      | stop =>
          have allowed : caller = some () ∧ s.control = .stoppingMain := of_decide_eq_true may
          exact .inr ⟨by rw [allowed.1], allowed.2, rfl⟩
  | _ => exact .inl ⟨rfl, by simp⟩

theorem sequential_main {action : LoopAction MainTask Unit} {loop : LoopThread MainTask Unit}
    (reachable : s.mainReactor.Reachable MainTask.stopsLoop) (sequential : s.Sequential)
    (may : s.mainMay action = true) (steps : s.mainReactor.Steps MainTask.stopsLoop action loop) :
    (s.afterMain action loop).Sequential := by
  have control := control_main loop may
  have elsewhere : s.control ≠ .stoppingMain → (s.afterMain action loop).control = s.control := by
    intro other
    exact (control.resolve_right fun ⟨_, stopping, _⟩ => other stopping).1
  refine ⟨?_, ?_, ?_, sequential.workers, sequential.submits, ?_, ?_⟩
  · apply LoopThread.idle_steps steps sequential.main
    rintro func rfl
    cases func <;> simp [mainMay] at may
  · intro busy
    by_cases calls : ∃ func, action = .check (some ()) func
    · rcases calls with ⟨func, rfl⟩
      cases func with
      | listenPort port =>
          have allowed : some () = some () ∧ s.control = .serving := of_decide_eq_true may
          exact .inl allowed.2
      | stop => exact .inr rfl
    · have inside : s.mainReactor.callers (some ()) ≠ .idle := by
        intro idle
        exact busy (LoopThread.idle_steps steps idle fun func same => calls ⟨func, same⟩)
      have before := sequential.controlMain inside
      rw [elsewhere (by rcases before with before | before <;> simp [before])]
      exact before
  · intro sub busy
    have before := sequential.controlSub sub busy
    rw [elsewhere (by simp [before])]
    exact before
  · intro joining
    rcases control with ⟨same, _⟩ | ⟨rfl, _, _⟩
    · exact LoopThread.asking_steps (sequential.stopsMain (same ▸ joining)) steps
    · exact LoopThread.asking_of_check reachable steps rfl
  · intro sub joining
    rcases control with ⟨same, _⟩ | ⟨_, _, after⟩
    · exact sequential.stopsSub sub (same ▸ joining)
    · exact absurd (after.symm.trans joining) (by simp)

theorem posted_afterSub {sub : Fin n} {action : LoopAction Task (SubCaller n)}
    (loop : LoopThread Task (SubCaller n)) {worker : Fin n} (posted : s.posted worker = true) :
    (s.afterSub sub action loop).posted worker = true := by
  rcases action with ⟨_ | _ | _ | other, func⟩ | _ | _ | _ | _ | _ | _ | _ | _ | _ <;>
    try exact posted
  by_cases same : worker = other
  · subst same
    exact Function.update_self ..
  · exact (Function.update_of_ne same ..).trans posted

/-- Nobody but the control thread goes on in `Server::stop`. -/
theorem control_sub {sub : Fin n} {action : LoopAction Task (SubCaller n)}
    (loop : LoopThread Task (SubCaller n)) (may : s.subMay sub action = true) :
    ((s.afterSub sub action loop).control = s.control ∧
        ∀ func, action ≠ .check (some .control) func) ∨
      (action = .check (some .control) .stop ∧ s.control = .stoppingSub sub ∧
        (s.afterSub sub action loop).control = .joiningSub sub) := by
  cases action with
  | check caller func =>
      rcases caller with _ | _ | _ | worker
      · exact .inl ⟨rfl, by simp⟩
      · exact .inl ⟨rfl, by simp⟩
      · have allowed : s.control = .stoppingSub sub ∧ func = .stop := of_decide_eq_true may
        exact .inr ⟨by rw [allowed.2], allowed.1, rfl⟩
      · exact .inl ⟨rfl, by simp⟩
  | _ => exact .inl ⟨rfl, by simp⟩

/-- A step of a sub-reactor keeps the control thread where it does not stop that reactor. -/
theorem control_afterSub_of_ne {sub : Fin n} {action : LoopAction Task (SubCaller n)}
    (loop : LoopThread Task (SubCaller n)) (may : s.subMay sub action = true)
    (other : s.control ≠ .stoppingSub sub) : (s.afterSub sub action loop).control = s.control :=
  ((control_afterSub loop may).resolve_right fun stops => other stops.1).1

theorem controlSub_afterSub {sub : Fin n} {action : LoopAction Task (SubCaller n)}
    {loop : LoopThread Task (SubCaller n)} (sequential : s.Sequential)
    (may : s.subMay sub action = true)
    (steps : (s.subReactors sub).Steps Task.stopsLoop action loop) {other : Fin n}
    (busy : ((s.afterSub sub action loop).subReactors other).callers (some .control) ≠ .idle) :
    (s.afterSub sub action loop).control = .joiningSub other := by
  rw [subReactors_afterSub] at busy
  have kept : (s.subReactors other).callers (some .control) ≠ .idle →
      (s.afterSub sub action loop).control = .joiningSub other := by
    intro inside
    have before := sequential.controlSub other inside
    rw [control_afterSub_of_ne loop may (by simp [before])]
    exact before
  by_cases own : other = sub
  · subst own
    rw [Function.update_self] at busy
    rcases control_sub loop may with ⟨_, never⟩ | ⟨_, _, after⟩
    · exact kept fun idle => busy (LoopThread.idle_steps steps idle never)
    · exact after
  · rw [Function.update_of_ne own] at busy
    exact kept busy

theorem workers_afterSub {sub : Fin n} {action : LoopAction Task (SubCaller n)}
    {loop : LoopThread Task (SubCaller n)} (sequential : s.Sequential)
    (may : s.subMay sub action = true)
    (steps : (s.subReactors sub).Steps Task.stopsLoop action loop) {other worker : Fin n}
    (busy : ((s.afterSub sub action loop).subReactors other).callers (some (.worker worker)) ≠
      .idle) :
    (s.afterSub sub action loop).posted worker = true ∧
      ∃ job, s.threadpool.workers worker = .running (other, job) := by
  rw [subReactors_afterSub] at busy
  have kept : (s.subReactors other).callers (some (.worker worker)) ≠ .idle →
      (s.afterSub sub action loop).posted worker = true ∧
        ∃ job, s.threadpool.workers worker = .running (other, job) := by
    intro inside
    have before := sequential.workers other worker inside
    exact ⟨posted_afterSub loop before.1, before.2⟩
  by_cases own : other = sub
  · subst own
    rw [Function.update_self] at busy
    by_cases calls : ∃ func, action = .check (some (.worker worker)) func
    · rcases calls with ⟨func, rfl⟩
      simp only [subMay, mayEnqueue] at may
      refine ⟨Function.update_self .., ?_⟩
      split at may
      · next owner job running =>
        have allowed := of_decide_eq_true may
        exact ⟨job, by rw [running, allowed.1]⟩
      · cases may
    · exact kept fun idle => busy (LoopThread.idle_steps steps idle fun func same =>
        calls ⟨func, same⟩)
  · rw [Function.update_of_ne own] at busy
    exact kept busy

/-- A loop does not go on while its thread is in `ThreadPool::enqueue`. -/
theorem inCode_afterSub {sub : Fin n} {action : LoopAction Task (SubCaller n)}
    {loop : LoopThread Task (SubCaller n)} (sequential : s.Sequential)
    (may : s.subMay sub action = true)
    (steps : (s.subReactors sub).Steps Task.stopsLoop action loop) {other : Fin n}
    (submitting : s.threadpool.callers other ≠ .idle) :
    ((s.afterSub sub action loop).subReactors other).phase.inCode = true := by
  have inside := sequential.submits other submitting
  rw [subReactors_afterSub]
  by_cases own : other = sub
  · subst own
    rw [Function.update_self]
    by_cases call : action.isOwn = false
    · rw [LoopThread.phase_of_call steps call]
      exact inside
    · have allowed : s.threadpool.callers other = .idle := by
        cases action <;> first | exact of_decide_eq_true may | exact absurd rfl call
      exact absurd allowed submitting
  · rw [Function.update_of_ne own]
    exact inside

theorem asking_afterSub {sub : Fin n} {action : LoopAction Task (SubCaller n)}
    {loop : LoopThread Task (SubCaller n)}
    (reachable : (s.subReactors sub).Reachable Task.stopsLoop) (sequential : s.Sequential)
    (may : s.subMay sub action = true)
    (steps : (s.subReactors sub).Steps Task.stopsLoop action loop) {other : Fin n}
    (joining : (s.afterSub sub action loop).control = .joiningSub other) :
    ((s.afterSub sub action loop).subReactors other).Asking Task.stopsLoop (some .control) := by
  rw [subReactors_afterSub]
  rcases control_sub loop may with ⟨kept, _⟩ | ⟨rfl, _, after⟩
  · have asking := sequential.stopsSub other (kept ▸ joining)
    by_cases own : other = sub
    · subst own
      rw [Function.update_self]
      exact LoopThread.asking_steps asking steps
    · rw [Function.update_of_ne own]
      exact asking
  · rw [after, Control.joiningSub.injEq] at joining
    subst joining
    rw [Function.update_self]
    exact LoopThread.asking_of_check reachable steps rfl

theorem sequential_sub {sub : Fin n} {action : LoopAction Task (SubCaller n)}
    {loop : LoopThread Task (SubCaller n)}
    (reachable : (s.subReactors sub).Reachable Task.stopsLoop) (sequential : s.Sequential)
    (may : s.subMay sub action = true)
    (steps : (s.subReactors sub).Steps Task.stopsLoop action loop) :
    (s.afterSub sub action loop).Sequential := by
  have same := same_afterSub (s := s) sub action loop
  refine ⟨?_, ?_, ?_, ?_, ?_, ?_, ?_⟩
  · rw [same.1]
    exact sequential.main
  · rw [same.1]
    intro busy
    have before := sequential.controlMain busy
    rw [control_afterSub_of_ne loop may (by rcases before with before | before <;> simp [before])]
    exact before
  · exact fun other busy => controlSub_afterSub sequential may steps busy
  · intro other worker busy
    rw [same.2.1]
    exact workers_afterSub sequential may steps busy
  · intro other submitting
    rw [same.2.1] at submitting
    exact inCode_afterSub sequential may steps submitting
  · intro joining
    rw [same.1]
    rcases control_sub loop may with ⟨kept, _⟩ | ⟨_, _, after⟩
    · exact sequential.stopsMain (kept ▸ joining)
    · exact absurd (after.symm.trans joining) (by simp)
  · exact fun other joining => asking_afterSub reachable sequential may steps joining

theorem sequential_pool {action : PoolAction n (Fin n × Job) (Fin n)}
    {pool : ThreadPool n (Fin n × Job) (Fin n)} (sequential : s.Sequential)
    (may : s.poolMay action = true) (steps : s.threadpool.Steps action pool) :
    (s.afterPool action pool).Sequential := by
  refine ⟨sequential.main, sequential.controlMain, sequential.controlSub, ?_, ?_,
    sequential.stopsMain, sequential.stopsSub⟩
  · intro sub worker busy
    rcases sequential.workers sub worker busy with ⟨posted, job, running⟩
    have goesOn : action ≠ .finish worker := by
      rintro rfl
      have allowed := of_decide_eq_true may
      exact busy (allowed.2 sub)
    refine ⟨?_, job, ThreadPool.running_steps steps running goesOn⟩
    cases action with
    | finish other =>
        have differs : worker ≠ other := by
          rintro rfl
          exact goesOn rfl
        exact (Function.update_of_ne differs ..).trans posted
    | _ => exact posted
  · intro sub busy
    rcases ThreadPool.callers_of_steps steps busy with inside | ⟨func, rfl⟩
    · exact sequential.submits sub inside
    · have allowed := of_decide_eq_true may
      exact allowed.2.1

/-- The control thread goes on outside of `enqueueTask`, and calls it from its own places. -/
theorem calm_of_advance (sequential : s.Sequential) (stepped : s.advance = some next) :
    next.mainReactor.callers (some ()) = .idle ∧
      (∀ sub, (next.subReactors sub).callers (some .control) = .idle) ∧
      next.control ≠ .joiningMain ∧ ∀ sub, next.control ≠ .joiningSub sub := by
  have outsideMain : s.control ≠ .serving → s.control ≠ .joiningMain →
      s.mainReactor.callers (some ()) = .idle := by
    intro first second
    by_contra busy
    exact (sequential.controlMain busy).elim first second
  have outsideSub : ∀ sub, s.control ≠ .joiningSub sub →
      (s.subReactors sub).callers (some .control) = .idle := by
    intro sub other
    by_contra busy
    exact other (sequential.controlSub sub busy)
  have later : ∀ place : ℕ, s.nextControl place ≠ .joiningMain ∧
      ∀ sub, s.nextControl place ≠ .joiningSub sub := by
    intro place
    unfold nextControl
    split
    · simp
    · split <;> simp
  cases place : s.control with
  | serving =>
      simp only [advance, place, Option.ite_none_right_eq_some, Option.some.injEq] at stepped
      rcases stepped with ⟨idle, rfl⟩
      exact ⟨idle, fun sub => outsideSub sub (by simp [place]), by simp, by simp⟩
  | joiningMain =>
      simp only [advance, place, Option.ite_none_right_eq_some, Option.some.injEq] at stepped
      rcases stepped with ⟨⟨idle, _⟩, rfl⟩
      exact ⟨idle, fun sub => outsideSub sub (by simp [place]), later 0⟩
  | joiningSub sub =>
      simp only [advance, place, Option.ite_none_right_eq_some, Option.some.injEq] at stepped
      rcases stepped with ⟨⟨idle, _⟩, rfl⟩
      refine ⟨outsideMain (by simp [place]) (by simp [place]), ?_, later (sub + 1)⟩
      intro other
      by_cases same : other = sub
      · rw [same]
        exact idle
      · apply outsideSub
        rw [place]
        simpa using Ne.symm same
  | stoppingPool =>
      simp only [advance, place, Option.ite_none_right_eq_some, Option.some.injEq] at stepped
      rcases stepped with ⟨_, rfl⟩
      exact ⟨outsideMain (by simp [place]) (by simp [place]),
        fun sub => outsideSub sub (by simp [place]), by simp, by simp⟩
  | stoppingMain => simp [advance, place] at stepped
  | stoppingSub sub => simp [advance, place] at stepped
  | stopped => simp [advance, place] at stepped

/-- The control thread changes nothing but its place. -/
theorem same_of_advance (stepped : s.advance = some next) :
    ∃ control, next = { s with control := control } := by
  cases steps_of_advance stepped <;> exact ⟨_, rfl⟩

theorem sequential_control (sequential : s.Sequential) (stepped : s.advance = some next) :
    next.Sequential := by
  rcases calm_of_advance sequential stepped with ⟨main, subs, notMain, notSub⟩
  rcases same_of_advance stepped with ⟨control, rfl⟩
  exact ⟨sequential.main, fun busy => absurd main busy, fun sub busy => absurd (subs sub) busy,
    sequential.workers, sequential.submits, fun joining => absurd joining notMain,
    fun sub joining => absurd joining (notSub sub)⟩

theorem not_ended_of_step (stepped : s.step action = some next) : ¬s.Ended := by
  intro ended
  simp [step, ended] at stepped

theorem advance_of_step (stepped : s.step .control = some next) : s.advance = some next := by
  simpa [step, not_ended_of_step stepped] using stepped

section

variable [NeZero n] {useThreadPool : Bool}

theorem sequential_of_reachable (reachable : s.Reachable useThreadPool) : s.Sequential := by
  apply reachable.reachable_invariant Sequential
  · exact ⟨rfl, fun busy => absurd rfl busy, fun _ busy => absurd rfl busy,
      fun _ _ busy => absurd rfl busy, fun _ busy => absurd rfl busy,
      fun joining => (nomatch joining), fun _ joining => (nomatch joining)⟩
  · intro state action next reached sequential _ stepped
    cases steps_of_step stepped with
    | main action loop may steps moved =>
        exact sequential_main (mainReactor_reachable reached) sequential may steps
    | sub sub action loop may steps moved =>
        exact sequential_sub (subReactors_reachable reached sub) sequential may steps
    | pool action pool may steps => exact sequential_pool sequential may steps
    | accept port unread phased idle =>
        exact ⟨sequential.main, sequential.controlMain, sequential.controlSub,
          sequential.workers, sequential.submits, sequential.stopsMain, sequential.stopsSub⟩
    | dispatched subIdx called idle =>
        exact ⟨sequential.main, sequential.controlMain, sequential.controlSub,
          sequential.workers, sequential.submits, sequential.stopsMain, sequential.stopsSub⟩
    | _ => exact sequential_control sequential (advance_of_step stepped)

end

theorem exists_step_main {action : LoopAction MainTask Unit} (going : ¬s.Ended)
    (may : s.mainMay action = true)
    (moves : ∃ loop, s.mainReactor.step MainTask.stopsLoop action = some loop) :
    ∃ next, s.step (.main action) = some next := by
  rcases moves with ⟨loop, moved⟩
  exact ⟨s.afterMain action loop, by simp [step, going, may, moved]⟩

theorem exists_step_sub {sub : Fin n} {action : LoopAction Task (SubCaller n)} (going : ¬s.Ended)
    (may : s.subMay sub action = true)
    (moves : ∃ loop, (s.subReactors sub).step Task.stopsLoop action = some loop) :
    ∃ next, s.step (.sub sub action) = some next := by
  rcases moves with ⟨loop, moved⟩
  exact ⟨s.afterSub sub action loop, by simp [step, going, may, moved]⟩

theorem exists_step_pool {action : PoolAction n (Fin n × Job) (Fin n)} (going : ¬s.Ended)
    (may : s.poolMay action = true) (moves : ∃ pool, s.threadpool.step action = some pool) :
    ∃ next, s.step (.pool action) = some next := by
  rcases moves with ⟨pool, moved⟩
  exact ⟨s.afterPool action pool, by simp [step, going, may, moved]⟩

theorem running_main (going : ¬s.Ended) : s.mainReactor.failed = false := by
  rw [← Bool.not_eq_true]
  exact fun failed => going (.inl failed)

theorem running_sub (going : ¬s.Ended) (sub : Fin n) : (s.subReactors sub).failed = false := by
  rw [← Bool.not_eq_true]
  exact fun failed => going (.inr (.inl ⟨sub, failed⟩))

/-- A thread in `enqueueTask` can go on. -/
theorem exists_step_of_caller (going : ¬s.Ended) {sub : Fin n} {caller : Option (SubCaller n)}
    (inside : (s.subReactors sub).callers caller ≠ .idle) :
    ∃ action, action.thread = some (SubCaller.thread sub caller) ∧
      ∃ next, s.step action = some next := by
  cases place : (s.subReactors sub).callers caller with
  | idle => exact absurd place inside
  | checked func =>
      exact ⟨.sub sub (.push caller), rfl, exists_step_sub going rfl
        (LoopThread.exists_push (running_sub going sub) place)⟩
  | pushed =>
      exact ⟨.sub sub (.write caller false), rfl, exists_step_sub going rfl
        (LoopThread.exists_write (running_sub going sub) place)⟩

theorem exists_step_of_caller_main (going : ¬s.Ended)
    (inside : s.mainReactor.callers (some ()) ≠ .idle) :
    ∃ action, action.thread = some .control ∧ ∃ next, s.step action = some next := by
  cases place : s.mainReactor.callers (some ()) with
  | idle => exact absurd place inside
  | checked func =>
      exact ⟨.main (.push (some ())), rfl, exists_step_main going rfl
        (LoopThread.exists_push (running_main going) place)⟩
  | pushed =>
      exact ⟨.main (.write (some ()) false), rfl, exists_step_main going rfl
        (LoopThread.exists_write (running_main going) place)⟩

/-- The thread of the main reactor can go on until it has left its loop. -/
theorem exists_step_of_main (sequential : s.Sequential) (orderly : s.Orderly) (going : ¬s.Ended)
    (inside : s.mainReactor.phase ≠ .exited) :
    ∃ action, action.thread = some .main ∧ ∃ next, s.step action = some next := by
  cases dispatching : s.dispatching with
  | idle =>
      rcases LoopThread.exists_own MainTask.stopsLoop (running_main going) sequential.main inside
        with ⟨action, own, moves⟩
      refine ⟨.main action, by simp [ServerAction.thread, LoopAction.caller?_of_own own], ?_⟩
      apply exists_step_main going _ moves
      cases action <;> simp_all [mainMay, LoopAction.isOwn]
  | calling sck =>
      refine ⟨.sub s.subIdx (.check (some .mainReactor) (.addConnection sck s.useThreadPool)),
        rfl, exists_step_sub going ?_ ?_⟩
      · simp [subMay, mayEnqueue, dispatching]
      · apply LoopThread.exists_check _ (running_sub going s.subIdx)
        by_contra busy
        have called := (orderly.calling s.subIdx busy).1
        exact absurd (dispatching.symm.trans called) (by simp)
  | called =>
      by_cases idle : (s.subReactors s.subIdx).callers (some .mainReactor) = .idle
      · refine ⟨.dispatched, rfl, ?_⟩
        simp [step, going, dispatched, dispatching, idle]
      · exact exists_step_of_caller going idle

/-- And so can the thread of a sub-reactor. -/
theorem exists_step_of_sub (orderly : s.Orderly) (going : ¬s.Ended) {sub : Fin n}
    (inside : (s.subReactors sub).phase ≠ .exited) :
    ∃ action, action.thread = some (.sub sub) ∧ ∃ next, s.step action = some next := by
  by_cases idle : (s.subReactors sub).callers none = .idle
  · cases submitting : s.threadpool.callers sub with
    | threw => exact absurd submitting (orderly.unthrown sub)
    | pushed =>
        by_cases asleep : ∃ worker, s.threadpool.workers worker = .asleep
        · rcases asleep with ⟨worker, sleeps⟩
          refine ⟨.pool (.notifyOne sub (some worker)), rfl, exists_step_pool going rfl ?_⟩
          simp [ThreadPool.step, ThreadPool.notifyOne, submitting, sleeps]
        · refine ⟨.pool (.notifyOne sub none), rfl, exists_step_pool going rfl ?_⟩
          rw [not_exists] at asleep
          simp [ThreadPool.step, ThreadPool.notifyOne, submitting, asleep]
    | idle =>
        rcases LoopThread.exists_own Task.stopsLoop (running_sub going sub) idle inside with
          ⟨action, own, moves⟩
        refine ⟨.sub sub action, ?_, exists_step_sub going ?_ moves⟩
        · simp [ServerAction.thread, LoopAction.caller?_of_own own]
        · cases action <;> simp_all [subMay, LoopAction.isOwn]
  · exact exists_step_of_caller going idle

/-- What the main reactor has to do in `Server::handleNewConnection`. -/
def dispatchLeft (s : Server n) : ℕ :=
  match s.dispatching with
  | .idle => 0
  | .calling _ => 4
  | .called => 1 + ((s.subReactors s.subIdx).callers (some .mainReactor)).left

/-- What a sub-reactor has to do in `enqueueTask` and in `ThreadPool::enqueue`. -/
def callsLeft (s : Server n) (sub : Fin n) : ℕ :=
  ((s.subReactors sub).callers none).left + (s.threadpool.callers sub).left

/-- A step that never takes a thread back, and brings it on where it is its own. -/
def Pays (left : Server n → ℕ) (thread : ServerThread n) (s : Server n) (action : ServerAction n)
    (next : Server n) : Prop :=
  next.Ended ∨ (left next ≤ left s ∧ (action.thread = some thread → left next < left s))

theorem Pays.of_lt {left : Server n → ℕ} {thread : ServerThread n} (smaller : left next < left s) :
    Pays left thread s action next :=
  .inr ⟨smaller.le, fun _ => smaller⟩

theorem Pays.of_same {left : Server n → ℕ} {thread : ServerThread n} (same : left next = left s)
    (other : action.thread ≠ some thread) : Pays left thread s action next :=
  .inr ⟨same.le, fun own => absurd own other⟩

theorem caller_of_thread {sub : Fin n} {action : LoopAction Task (SubCaller n)}
    (caller : SubCaller n)
    (own : (ServerAction.sub sub action).thread = some (SubCaller.thread sub (some caller))) :
    action.caller? = some (some caller) := by
  cases known : action.caller? with
  | none =>
      simp only [ServerAction.thread, known, Option.some.injEq] at own
      cases caller <;> cases own
  | some other =>
      simp only [ServerAction.thread, known, Option.some.injEq] at own
      rcases other with _ | _ | _ | other <;> cases caller <;> cases own <;> rfl

theorem caller_of_thread_sub {sub other : Fin n} {action : LoopAction Task (SubCaller n)}
    (own : (ServerAction.sub other action).thread = some (.sub sub)) :
    other = sub ∧ (action.isOwn = true ∨ action.caller? = some none) := by
  cases known : action.caller? with
  | none =>
      simp only [ServerAction.thread, known, Option.some.injEq, ServerThread.sub.injEq] at own
      exact ⟨own, .inl (LoopAction.own_of_caller? known)⟩
  | some caller =>
      simp only [ServerAction.thread, known, Option.some.injEq] at own
      rcases caller with _ | _ | _ | caller <;> cases own
      exact ⟨rfl, .inr rfl⟩

/-- The thread of the main reactor calls `enqueueTask` for other loops only. -/
theorem own_of_thread_main {action : LoopAction MainTask Unit} {loop : LoopThread MainTask Unit}
    (sequential : s.Sequential) (may : s.mainMay action = true)
    (steps : s.mainReactor.Steps MainTask.stopsLoop action loop)
    (own : (ServerAction.main action : ServerAction n).thread = some .main) :
    action.isOwn = true := by
  apply LoopAction.own_of_caller?
  cases caller : action.caller? with
  | none => rfl
  | some caller' =>
      rcases caller' with _ | control
      · refine absurd sequential.main (LoopThread.inside_of_caller steps caller ?_)
        rintro func rfl
        cases func <;> simp [mainMay] at may
      · simp [ServerAction.thread, caller] at own

/-- A step of the main reactor's thread in `handleNewConnection` brings it to its end. -/
theorem dispatchLeft_steps (sequential : s.Sequential) (orderly : s.Orderly)
    (steps : Steps s action next) (stays : ¬action.GoesRound .main)
    (quiet : ¬action.Calls .main) :
    Pays dispatchLeft .main s action next := by
  cases steps with
  | main action loop may steps moved =>
      exact .of_same rfl fun own => stays (own_of_thread_main sequential may steps own)
  | accept port unread phased idle => exact absurd trivial quiet
  | dispatched subIdx called idle =>
      have smaller : dispatchLeft { s with dispatching := .idle, subIdx := subIdx } <
          s.dispatchLeft := by
        simp only [dispatchLeft, called]
        omega
      exact .of_lt smaller
  | sub sub action loop may steps moved =>
      have same := same_afterSub (s := s) sub action loop
      have left : (s.afterSub sub action loop).dispatchLeft =
          match (s.afterSub sub action loop).dispatching with
          | .idle => 0
          | .calling _ => 4
          | .called => 1 + ((Function.update s.subReactors sub loop s.subIdx).callers
              (some .mainReactor)).left := by
        rw [dispatchLeft, subReactors_afterSub, same.2.2.2.1]
      rcases dispatching_afterSub loop may with ⟨kept, never⟩ | ⟨sck, calling, here, called, rfl⟩
      · by_cases own : action.caller? = some (some .mainReactor)
        · have inside := LoopThread.inside_of_caller steps own never
          rcases orderly.calling sub inside with ⟨called, rfl⟩
          rcases LoopThread.left_lt_of_caller steps own inside with failed | nearer
          · refine .inl (.inr (.inl ⟨s.subIdx, ?_⟩))
            rw [subReactors_afterSub, Function.update_self]
            exact failed
          · have smaller : (s.afterSub s.subIdx action loop).dispatchLeft < s.dispatchLeft := by
              rw [left, kept, called, Function.update_self, dispatchLeft, called]
              exact Nat.add_lt_add_left nearer 1
            exact .of_lt smaller
        · refine .of_same ?_ fun thread => own (caller_of_thread .mainReactor thread)
          have callers : (Function.update s.subReactors sub loop s.subIdx).callers
              (some .mainReactor) = (s.subReactors s.subIdx).callers (some .mainReactor) := by
            by_cases here : s.subIdx = sub
            · rw [here, Function.update_self]
              exact LoopThread.callers_of_other steps own
            · rw [Function.update_of_ne here]
          rw [left, kept, callers, dispatchLeft]
      · have smaller : (s.afterSub sub (.check (some .mainReactor)
            (.addConnection sck s.useThreadPool)) loop).dispatchLeft < s.dispatchLeft := by
          have bound := ((Function.update s.subReactors sub loop s.subIdx).callers
            (some .mainReactor)).left_le
          rw [left, called, dispatchLeft, calling]
          simp only
          omega
        exact .of_lt smaller
  | pool action pool may steps =>
      exact .of_same rfl (by cases action <;> simp [ServerAction.thread])
  | _ => exact .of_same rfl (by simp [ServerAction.thread])

theorem callsLeft_sub {sub other : Fin n} {action : LoopAction Task (SubCaller n)}
    {loop : LoopThread Task (SubCaller n)}
    (steps : (s.subReactors other).Steps Task.stopsLoop action loop)
    (stays : ¬(ServerAction.sub other action).GoesRound (.sub sub))
    (quiet : ¬(ServerAction.sub other action).Calls (.sub sub)) :
    Pays (·.callsLeft sub) (.sub sub) s (.sub other action) (s.afterSub other action loop) := by
  have left : (s.afterSub other action loop).callsLeft sub =
      ((Function.update s.subReactors other loop sub).callers none).left +
        (s.threadpool.callers sub).left := by
    rw [callsLeft, subReactors_afterSub, (same_afterSub other action loop).2.1]
  by_cases here : other = sub
  · subst here
    by_cases own : action.caller? = some none
    · have never : ∀ func, action ≠ .check none func := by
        rintro func rfl
        exact quiet rfl
      have inside := LoopThread.inside_of_caller steps own never
      rcases LoopThread.left_lt_of_caller steps own inside with failed | nearer
      · refine .inl (.inr (.inl ⟨other, ?_⟩))
        rw [subReactors_afterSub, Function.update_self]
        exact failed
      · refine .of_lt ?_
        rw [left, Function.update_self, callsLeft]
        exact Nat.add_lt_add_right nearer _
    · refine .of_same ?_ fun thread => ?_
      · rw [left, Function.update_self, LoopThread.callers_of_other steps own, callsLeft]
      · rcases (caller_of_thread_sub thread).2 with round | calls
        · exact stays ⟨rfl, round⟩
        · exact own calls
  · refine .of_same ?_ fun thread => here (caller_of_thread_sub thread).1
    rw [left, Function.update_of_ne (Ne.symm here), callsLeft]

/-- A sub-reactor's thread that has submitted a job notifies a worker. -/
theorem callsLeft_notifyOne {sub caller : Fin n} {woken : Option (Fin n)}
    {pool : ThreadPool n (Fin n × Job) (Fin n)} (owed : s.threadpool.callers caller = .pushed)
    (callers : pool.callers = (s.threadpool.moveCaller caller .idle).callers) :
    Pays (·.callsLeft sub) (.sub sub) s (.pool (.notifyOne caller woken))
      (s.afterPool (.notifyOne caller woken) pool) := by
  have left : (s.afterPool (.notifyOne caller woken) pool).callsLeft sub =
      ((s.subReactors sub).callers none).left +
        ((s.threadpool.moveCaller caller .idle).callers sub).left := by
    rw [← callers]
    rfl
  by_cases here : caller = sub
  · subst here
    refine .of_lt ?_
    rw [left, callsLeft, ThreadPool.callers_moveCaller_self, owed]
    simp [Submitting.left]
  · refine .of_same ?_ (by simpa [ServerAction.thread] using here)
    rw [left, ThreadPool.callers_moveCaller_of_ne _ (Ne.symm here)]
    rfl

/-- Another thread submits a job. -/
theorem callsLeft_enqueue {sub caller : Fin n} {func : Fin n × Job}
    {pool : ThreadPool n (Fin n × Job) (Fin n)} (place : Submitting) (other : caller ≠ sub)
    (callers : pool.callers = (s.threadpool.moveCaller caller place).callers) :
    Pays (·.callsLeft sub) (.sub sub) s (.pool (.enqueue caller func))
      (s.afterPool (.enqueue caller func) pool) := by
  refine .of_same ?_ (by simpa [ServerAction.thread] using other)
  change _ + (pool.callers sub).left = _
  rw [callers, ThreadPool.callers_moveCaller_of_ne _ (Ne.symm other)]
  rfl

/-- So does a step of a sub-reactor's thread in a call. -/
theorem callsLeft_steps {sub : Fin n} (steps : Steps s action next)
    (stays : ¬action.GoesRound (.sub sub)) (quiet : ¬action.Calls (.sub sub)) :
    Pays (·.callsLeft sub) (.sub sub) s action next := by
  cases steps with
  | main action loop may steps moved =>
      refine .of_same rfl ?_
      simp only [ServerAction.thread]
      split <;> simp
  | sub other action loop may steps moved => exact callsLeft_sub steps stays quiet
  | pool action pool may steps =>
      cases steps with
      | throws caller func stopped outside => exact callsLeft_enqueue .threw (quiet ·.symm) rfl
      | push caller func unstopped outside => exact callsLeft_enqueue .pushed (quiet ·.symm) rfl
      | notifyOne caller worker owed asleep => exact callsLeft_notifyOne owed rfl
      | notifyNone caller owed awake => exact callsLeft_notifyOne owed rfl
      | _ => exact .of_same rfl (by simp [ServerAction.thread])
  | _ => exact .of_same rfl (by simp [ServerAction.thread])

/-- A loop thread that has left its loop. -/
def Exited (s : Server n) : ServerThread n → Prop
  | .main => s.mainReactor.phase = .exited
  | .sub sub => (s.subReactors sub).phase = .exited
  | _ => False

/-- A loop that does not go round any more, or is blocked. -/
def Rests (thread : ServerThread n) (s : Server n) : Prop :=
  s.Ended ∨ s.Sleeps thread ∨ s.Exited thread

section

variable [NeZero n] {useThreadPool : Bool} {behaviour : Behaviour n}

theorem Behaviour.reachable (atStart : (behaviour.state 0).Reachable useThreadPool) (m : ℕ) :
    (behaviour.state m).Reachable useThreadPool :=
  atStart.trans (Transition.reaches_of_orRest (behaviour.reaches m.zero_le))

/-- A loop whose thread can go on, and comes to the end of its calls, goes round. -/
theorem goes_round (fair : behaviour.Fair)
    (atStart : (behaviour.state 0).Reachable useThreadPool) (thread : ServerThread n)
    (left : Server n → ℕ)
    (live : ∀ {s : Server n}, s.Reachable useThreadPool → ¬s.Rests thread →
      ∃ action, action.thread = some thread ∧ ∃ next, s.step action = some next)
    (pays : ∀ {s next : Server n} {action}, s.Reachable useThreadPool →
      s.step action = some next → ¬action.GoesRound thread → ¬action.Calls thread →
      Pays left thread s action next) :
    behaviour.Just (fun _ moment => ∃ action ∈ moment, action.GoesRound thread)
      (Rests thread) := by
  intro start
  by_contra never
  have busy : ∀ m, start ≤ m → ¬(behaviour.state m).Rests thread :=
    fun m later rests => never ⟨m, later, .inr rests⟩
  have stays : ∀ m, start ≤ m → ¬∃ action ∈ behaviour.action m, action.GoesRound thread :=
    fun m later round => never ⟨m, later, .inl round⟩
  have quiet : ∃ k, start ≤ k ∧
      ∀ m, k ≤ m → ¬∃ action ∈ behaviour.action m, action.Calls thread := by
    by_contra calling
    have repeats : behaviour.Repeats fun _ moment => ∃ action ∈ moment, action.Calls thread := by
      intro m
      by_contra silent
      exact calling ⟨max start m, le_max_left .., fun k later calls =>
        silent ⟨k, (le_max_right ..).trans later, calls⟩⟩
    rcases fair.returns thread repeats start with ⟨m, later, round⟩
    exact stays m later round
  rcases quiet with ⟨k, after, quiet⟩
  -- From here on the thread does nothing but go on in the calls it is in.
  let inCalls (s : Server n) (moment : Option (ServerAction n)) : Prop :=
    s.Reachable useThreadPool ∧ (¬∃ action ∈ moment, action.GoesRound thread) ∧
      ¬∃ action ∈ moment, action.Calls thread
  have allowed : ∀ m, k ≤ m → inCalls (behaviour.state m) (behaviour.action m) :=
    fun m later => ⟨Behaviour.reachable atStart m, stays m (after.trans later), quiet m later⟩
  have just : (behaviour.onward k allowed).Just
      (fun _ moment => ∃ action ∈ moment, action.thread = some thread) (Waits thread) :=
    behaviour.just_onward allowed (fair.just thread)
  have rests := (behaviour.onward k allowed).eventually_of_helpers left (Rests thread)
    (fun _ s => s.Reachable useThreadPool ∧ ¬s.Rests thread)
    (fun _ _ moment => ∃ action ∈ moment, action.thread = some thread)
    (fun _ => Waits thread) (fun _ => just) ?_ ?_ 0 () ⟨Behaviour.reachable atStart k, busy k after⟩
  · rcases rests with ⟨m, _, rests⟩
    exact busy (k + m) (after.trans (Nat.le_add_right k m)) rests
  · rintro _ s ⟨reachable, awake⟩ (sleeps | stuck)
    · exact awake (.inr (.inl sleeps))
    · rcases live reachable awake with ⟨action, own, next, stepped⟩
      exact absurd ((stuck action own).symm.trans stepped) (by simp)
  · rintro _ s moment next ⟨reachable, awake⟩ ⟨_, notRound, notCalls⟩ stepped
    by_cases resting : next.Rests thread
    · exact .inl resting
    · cases moment with
      | none =>
          cases stepped
          exact .inr (.inr ⟨rfl, by simp, reachable, awake⟩)
      | some action =>
          have reachableNext : next.Reachable useThreadPool :=
            reachable.tail ⟨action, trivial, stepped⟩
          rcases pays reachable stepped (fun round => notRound ⟨action, rfl, round⟩)
            (fun calls => notCalls ⟨action, rfl, calls⟩) with ended | ⟨nearer, own⟩
          · exact absurd (.inl ended) resting
          · rcases nearer.lt_or_eq with smaller | same
            · exact .inr (.inl ⟨smaller, (), reachableNext, resting⟩)
            · refine .inr (.inr ⟨same, ?_, reachableNext, resting⟩)
              rintro ⟨other, member, thread⟩
              rw [Option.mem_some_iff] at member
              subst member
              exact absurd (own thread) (same ▸ lt_irrefl _)

theorem goes_round_main (fair : behaviour.Fair)
    (atStart : (behaviour.state 0).Reachable useThreadPool) :
    behaviour.Just (fun _ moment => ∃ action ∈ moment, action.GoesRound .main) (Rests .main) := by
  refine goes_round fair atStart .main dispatchLeft ?_ ?_
  · intro s reachable awake
    exact exists_step_of_main (sequential_of_reachable reachable) (orderly_of_reachable reachable)
      (fun ended => awake (.inl ended)) fun exited => awake (.inr (.inr exited))
  · intro s next action reachable stepped stays quiet
    exact dispatchLeft_steps (sequential_of_reachable reachable) (orderly_of_reachable reachable)
      (steps_of_step stepped) stays quiet

theorem goes_round_sub (fair : behaviour.Fair)
    (atStart : (behaviour.state 0).Reachable useThreadPool) (sub : Fin n) :
    behaviour.Just (fun _ moment => ∃ action ∈ moment, action.GoesRound (.sub sub))
      (Rests (.sub sub)) := by
  refine goes_round fair atStart (.sub sub) (fun s => s.callsLeft sub) ?_ ?_
  · intro s reachable awake
    exact exists_step_of_sub (orderly_of_reachable reachable) (fun ended => awake (.inl ended))
      fun exited => awake (.inr (.inr exited))
  · intro s next action reachable stepped stays quiet
    exact callsLeft_steps (steps_of_step stepped) stays quiet

end

end Server

end MiniWebServer
