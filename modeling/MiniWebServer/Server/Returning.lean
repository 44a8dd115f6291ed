import MiniWebServer.Server.Joins

/-!
# `Server::stop` returns

The last place of the control thread is `ThreadPool::stop`, in which the workers
help: the loops have ended, so each of their steps takes one nearer to its exit.
From any moment on after its beginning, `Server::stop` comes to its end, and then
no thread of the server runs any more.
-/

namespace MiniWebServer

/-- What the control thread has to do in `ThreadPool::stop`. -/
def Stopping.left (n : ℕ) : Stopping → ℕ
  | .idle => n + 4
  | .stopping => n + 3
  | .joining worker => 1 + (n + 1 - worker)
  | .returned => 0

namespace ThreadPool

variable {n : ℕ} {Func Caller : Type} [DecidableEq Caller] {s next : ThreadPool n Func Caller}
  {action : PoolAction n Func Caller}

theorem alert_of_reachable (positive : 0 < n) (reachable : s.Reachable) : s.Alert := by
  refine reachable.invariant Alert ?_ ?_
  · exact ⟨by simp [init], fun worker exited => (nomatch exited),
      fun nonempty => absurd rfl nonempty, fun begun => absurd rfl begun,
      fun bound joining => (nomatch joining), fun done => (nomatch done)⟩
  · intro state action next alert _ stepped
    exact alert_steps positive alert (steps_of_step stepped)

/-- Only the steps of `ThreadPool::stop` take it on. -/
theorem stopper_of_other (steps : Steps s action next) (other : action ≠ .stop)
    (notNotify : action ≠ .notifyAll) (notJoin : action ≠ .join) :
    next.stopper = s.stopper ∧ next.stop_ = s.stop_ := by
  cases steps with
  | stop idle => exact absurd rfl other
  | notifyAll owed => exact absurd rfl notNotify
  | join worker joining exited => exact absurd rfl notJoin
  | joined worker joining all => exact absurd rfl notJoin
  | _ => exact ⟨rfl, rfl⟩

theorem stopper_left_lt (steps : Steps s action next)
    (stops : action = .stop ∨ action = .notifyAll ∨ action = .join) :
    next.stopper.left n < s.stopper.left n := by
  cases steps with
  | stop idle =>
      rw [idle]
      exact Nat.lt_succ_self _
  | notifyAll owed =>
      rw [owed]
      simp only [Stopping.left]
      omega
  | join worker joining exited =>
      have within := worker.isLt
      rw [joining]
      simp only [Stopping.left]
      omega
  | joined worker joining all =>
      rw [joining]
      simp only [Stopping.left]
      omega
  | _ => simp at stops

/-- What the control thread can do in `ThreadPool::stop`. -/
theorem exists_stopping (inside : s.stopper ≠ .returned)
    (joined : ∀ worker : Fin n, s.stopper = .joining worker → s.workers worker = .exited) :
    ∃ action, (action = .stop ∨ action = .notifyAll ∨ action = .join) ∧
      ∃ next, s.step action = some next := by
  cases place : s.stopper with
  | idle => exact ⟨.stop, .inl rfl, by simp [step, place]⟩
  | stopping => exact ⟨.notifyAll, .inr (.inl rfl), by simp [step, place]⟩
  | joining worker =>
      refine ⟨.join, .inr (.inr rfl), ?_⟩
      by_cases within : worker < n
      · simp [step, join, place, within, joined ⟨worker, within⟩ place]
      · simp [step, join, place, within]
  | returned => exact absurd place inside

end ThreadPool

namespace Server

variable {n : ℕ} {s next : Server n} {action : ServerAction n}

/-- What a worker has to do before it looks at the queue again, or exits. -/
def jobLeft (s : Server n) (worker : Fin n) : ℕ :=
  match s.threadpool.workers worker with
  | .exited => 0
  | .looking => 1
  | .asleep => 2
  | .running (sub, _) =>
      3 + if s.posted worker then ((s.subReactors sub).callers (some (.worker worker))).left else 3

def jobsLeft (s : Server n) : ℕ :=
  6 * s.threadpool.tasks.length + ∑ worker, s.jobLeft worker

/-- How far `ThreadPool::stop` is from its end. -/
def poolRank (s : Server n) : ℕ ×ₗ ℕ :=
  toLex (s.threadpool.stopper.left n, if s.threadpool.stop_ then s.jobsLeft else 0)

theorem jobLeft_le (s : Server n) (worker : Fin n) : s.jobLeft worker ≤ 6 := by
  unfold jobLeft
  split
  · exact Nat.zero_le 6
  · exact (by decide : 1 ≤ 6)
  · exact (by decide : 2 ≤ 6)
  · next sub _ _ =>
    have bound := ((s.subReactors sub).callers (some (.worker worker))).left_le
    split <;> omega

theorem jobsLeft_lt (worker : Fin n)
    (nearer : 6 * next.threadpool.tasks.length + next.jobLeft worker <
      6 * s.threadpool.tasks.length + s.jobLeft worker)
    (others : ∀ other, other ≠ worker → next.jobLeft other = s.jobLeft other) :
    next.jobsLeft < s.jobsLeft := by
  have member := Finset.mem_univ worker
  have rest : ∑ other ∈ Finset.univ.erase worker, next.jobLeft other =
      ∑ other ∈ Finset.univ.erase worker, s.jobLeft other :=
    Finset.sum_congr rfl fun other inRest => others other (Finset.ne_of_mem_erase inRest)
  rw [jobsLeft, jobsLeft, ← Finset.add_sum_erase _ _ member, ← Finset.add_sum_erase _ _ member,
    rest]
  omega

theorem jobLeft_congr {worker : Fin n}
    (workers : next.threadpool.workers worker = s.threadpool.workers worker)
    (posted : next.posted worker = s.posted worker)
    (callers : ∀ sub, (next.subReactors sub).callers (some (.worker worker)) =
      (s.subReactors sub).callers (some (.worker worker))) :
    next.jobLeft worker = s.jobLeft worker := by
  simp only [jobLeft, workers, posted, callers]

theorem jobLeft_afterPool {action : PoolAction n (Fin n × Job) (Fin n)}
    {pool : ThreadPool n (Fin n × Job) (Fin n)} {worker : Fin n}
    (same : pool.workers worker = s.threadpool.workers worker)
    (elsewhere : action ≠ .finish worker) :
    (s.afterPool action pool).jobLeft worker = s.jobLeft worker := by
  refine jobLeft_congr same ?_ fun sub => rfl
  cases action with
  | finish other =>
      refine Function.update_of_ne ?_ ..
      rintro rfl
      exact elsewhere rfl
  | _ => rfl

/-- A worker comes nearer to the end of its task, or of its loop. -/
theorem jobsLeft_pool {action : PoolAction n (Fin n × Job) (Fin n)}
    {pool : ThreadPool n (Fin n × Job) (Fin n)} (stopped : s.threadpool.stop_ = true)
    (steps : s.threadpool.Steps action pool) {worker : Fin n}
    (own : action = .look worker ∨ action = .wake worker ∨ action = .finish worker) :
    (s.afterPool action pool).jobsLeft < s.jobsLeft := by
  have others : pool.workers = (s.threadpool.moveWorker worker (pool.workers worker)).workers →
      ∀ other, other ≠ worker → (s.afterPool action pool).jobLeft other = s.jobLeft other := by
    intro moved other differs
    refine jobLeft_afterPool ?_ ?_
    · rw [moved, ThreadPool.workers_moveWorker_of_ne _ differs]
    · rcases own with rfl | rfl | rfl
      · simp
      · simp
      · simpa using Ne.symm differs
  cases steps with
  | exit other looking empty _ =>
      obtain rfl : other = worker := by simpa using own
      refine jobsLeft_lt other ?_ (others (by simp [ThreadPool.moveWorker]))
      simp [jobLeft, afterPool, looking, ThreadPool.moveWorker]
  | sleep other looking empty unstopped => exact absurd (unstopped.symm.trans stopped) (by simp)
  | take other looking task tasks next =>
      obtain rfl : other = worker := by simpa using own
      refine jobsLeft_lt other ?_ (others (by simp [ThreadPool.moveWorker]))
      refine (Nat.add_le_add_left (jobLeft_le _ other) _).trans_lt ?_
      simp only [afterPool, next, jobLeft, looking, List.length_cons]
      omega
  | wake other asleep =>
      obtain rfl : other = worker := by simpa using own
      refine jobsLeft_lt other ?_ (others (by simp [ThreadPool.moveWorker]))
      simp [jobLeft, afterPool, asleep, ThreadPool.moveWorker]
  | finish other task running =>
      obtain rfl : other = worker := by simpa using own
      refine jobsLeft_lt other ?_ (others (by simp [ThreadPool.moveWorker]))
      simp only [jobLeft, afterPool, running, ThreadPool.moveWorker, Function.update_self]
      omega
  | _ => simp at own

theorem posted_afterSub_eq {sub worker : Fin n} {action : LoopAction Task (SubCaller n)}
    {loop : LoopThread Task (SubCaller n)}
    (never : ∀ func, action ≠ .check (some (.worker worker)) func) :
    (s.afterSub sub action loop).posted worker = s.posted worker := by
  rcases action with ⟨_ | _ | _ | other, func⟩ | _ | _ | _ | _ | _ | _ | _ | _ | _ <;> try rfl
  refine Function.update_of_ne ?_ ..
  rintro rfl
  exact never func rfl

theorem jobLeft_afterSub_of_other {sub worker : Fin n} {action : LoopAction Task (SubCaller n)}
    {loop : LoopThread Task (SubCaller n)}
    (steps : (s.subReactors sub).Steps Task.stopsLoop action loop)
    (other : action.caller? ≠ some (some (.worker worker))) :
    (s.afterSub sub action loop).jobLeft worker = s.jobLeft worker := by
  refine jobLeft_congr ?_ (posted_afterSub_eq ?_) ?_
  · rw [(same_afterSub sub action loop).2.1]
  · rintro func rfl
    exact other rfl
  · intro index
    rw [subReactors_afterSub]
    by_cases here : index = sub
    · rw [here, Function.update_self]
      exact LoopThread.callers_of_other steps other
    · rw [Function.update_of_ne here]

/-- A worker that is in `enqueueTask` gets on with its job. -/
theorem jobLeft_afterSub_lt {sub worker : Fin n} {action : LoopAction Task (SubCaller n)}
    {loop : LoopThread Task (SubCaller n)} (sequential : s.Sequential)
    (may : s.subMay sub action = true)
    (steps : (s.subReactors sub).Steps Task.stopsLoop action loop)
    (caller : action.caller? = some (some (.worker worker))) :
    loop.failed = true ∨ (s.afterSub sub action loop).jobLeft worker < s.jobLeft worker := by
  have kept : (s.afterSub sub action loop).threadpool.workers worker =
      s.threadpool.workers worker := by rw [(same_afterSub sub action loop).2.1]
  by_cases calls : ∃ func, action = .check (some (.worker worker)) func
  · rcases calls with ⟨func, rfl⟩
    right
    simp only [subMay, mayEnqueue] at may
    split at may
    · next owner job running =>
      have allowed := of_decide_eq_true may
      have after : (s.afterSub sub (.check (some (.worker worker)) func) loop).posted worker =
          true := Function.update_self ..
      have bound := (((s.afterSub sub (.check (some (.worker worker)) func) loop).subReactors
        owner).callers (some (.worker worker))).left_le
      simp only [jobLeft, kept, running, after, allowed.2.2, if_true, Bool.false_eq_true,
        if_false]
      omega
    · cases may
  · have never : ∀ func, action ≠ .check (some (.worker worker)) func :=
      fun func same => calls ⟨func, same⟩
    have inside := LoopThread.inside_of_caller steps caller never
    rcases sequential.workers sub worker inside with ⟨before, job, running⟩
    refine (LoopThread.left_lt_of_caller steps caller inside).imp id fun nearer => ?_
    simp only [jobLeft, kept, running, posted_afterSub_eq never, before, if_true,
      subReactors_afterSub, Function.update_self]
    omega

/-- No step of a sub-reactor sets a job back. -/
theorem jobsLeft_sub {sub : Fin n} {action : LoopAction Task (SubCaller n)}
    {loop : LoopThread Task (SubCaller n)} (sequential : s.Sequential)
    (may : s.subMay sub action = true)
    (steps : (s.subReactors sub).Steps Task.stopsLoop action loop) :
    loop.failed = true ∨ (s.afterSub sub action loop).jobsLeft < s.jobsLeft ∨
      ((s.afterSub sub action loop).jobsLeft = s.jobsLeft ∧
        ∀ worker, action.caller? ≠ some (some (.worker worker))) := by
  have pool := (same_afterSub (s := s) sub action loop).2.1
  by_cases byWorker : ∃ worker, action.caller? = some (some (.worker worker))
  · rcases byWorker with ⟨worker, caller⟩
    rcases jobLeft_afterSub_lt sequential may steps caller with failed | nearer
    · exact .inl failed
    refine .inr (.inl (jobsLeft_lt worker ?_ ?_))
    · rw [pool]
      exact Nat.add_lt_add_left nearer _
    · intro other differs
      apply jobLeft_afterSub_of_other steps
      rw [caller]
      simpa using Ne.symm differs
  · rw [not_exists] at byWorker
    refine .inr (.inr ⟨?_, byWorker⟩)
    rw [jobsLeft, jobsLeft, pool]
    exact congrArg _ (Finset.sum_congr rfl fun worker _ =>
      jobLeft_afterSub_of_other steps (byWorker worker))

theorem stage_le (place : Control n) : place.stage ≤ 4 + 2 * n := by
  cases place with
  | stoppingSub sub =>
      have bound := sub.isLt
      simp only [Control.stage]
      omega
  | joiningSub sub =>
      have bound := sub.isLt
      simp only [Control.stage]
      omega
  | _ =>
      simp only [Control.stage]
      omega

/-- `Server::stop` goes on, and not back. -/
theorem stage_steps (steps : Steps s action next) :
    next.control = s.control ∨ s.control.stage < next.control.stage := by
  cases steps with
  | main action loop may steps moved =>
      rcases control_main loop may with ⟨same, _⟩ | ⟨_, before, after⟩
      · exact .inl same
      · rw [before, after]
        exact .inr (by simp [Control.stage])
  | sub sub action loop may steps moved =>
      rcases control_sub loop may with ⟨same, _⟩ | ⟨_, before, after⟩
      · exact .inl same
      · rw [before, after]
        refine .inr ?_
        simp only [Control.stage]
        omega
  | stop serving =>
      rw [serving]
      exact .inr (by simp [Control.stage])
  | joinMain joining exited =>
      rw [joining]
      exact .inr (lt_of_lt_of_le (by simp [Control.stage]) (stage_nextControl (Nat.zero_le n)))
  | joinSub sub joining exited =>
      rw [joining]
      refine .inr (lt_of_lt_of_le ?_ (stage_nextControl sub.isLt))
      simp only [Control.stage]
      omega
  | joinPool stopping =>
      rw [stopping]
      refine .inr ?_
      simp only [Control.stage]
      omega
  | _ => exact .inl rfl

theorem stage_later {behaviour : Behaviour n} {k m : ℕ} (later : k ≤ m) :
    (behaviour.state m).control = (behaviour.state k).control ∨
      (behaviour.state k).control.stage < (behaviour.state m).control.stage := by
  induction m, later using Nat.le_induction with
  | base => exact .inl rfl
  | succ m later ih =>
      have moved : (behaviour.state (m + 1)).control = (behaviour.state m).control ∨
          (behaviour.state m).control.stage < (behaviour.state (m + 1)).control.stage := by
        have stepped := behaviour.stepped m
        cases moment : behaviour.action m with
        | none =>
            rw [moment] at stepped
            simp only [Transition.orRest, Option.some.injEq] at stepped
            exact .inl (by rw [stepped])
        | some action =>
            rw [moment] at stepped
            exact stage_steps (steps_of_step stepped)
      rcases moved with same | further
      · rw [same]
        exact ih
      · rcases ih with same | before
        · exact .inr (same ▸ further)
        · exact .inr (before.trans further)

theorem thread_of_calls {thread : ServerThread n} (calls : action.Calls thread) :
    action.thread ≠ none := by
  cases action with
  | main action => cases thread <;> cases calls
  | accept port => simp [ServerAction.thread]
  | dispatched => cases thread <;> cases calls
  | sub sub action =>
      simp only [ServerAction.thread]
      split <;> simp
  | pool action =>
      cases action with
      | enqueue caller func => simp [ServerAction.thread]
      | _ => cases thread <;> cases calls
  | control => cases thread <;> cases calls

/-- When the control thread comes to the pool, and when it has left it. -/
structure Ending (s : Server n) : Prop where
  unpooled : s.useThreadPool = false → ∀ worker, s.threadpool.workers worker = .looking
  pooled : s.control = .stoppingPool → s.useThreadPool = true
  returned : s.control = .stopped → s.useThreadPool = true → s.threadpool.stopper = .returned

/-- Without a pool there is no worker, and so nothing that one would do. -/
theorem looking_pool {action : PoolAction n (Fin n × Job) (Fin n)}
    {pool : ThreadPool n (Fin n × Job) (Fin n)} (ending : s.Ending)
    (without : s.useThreadPool = false) (may : s.poolMay action = true)
    (steps : s.threadpool.Steps action pool) (worker : Fin n) :
    pool.workers worker = .looking := by
  have looking := ending.unpooled without
  have unlooked : ∀ other, action ≠ .look other := by
    rintro other rfl
    exact absurd (without.symm.trans may) (by simp)
  cases steps with
  | notifyOne caller other owed asleep => exact absurd ((looking other).symm.trans asleep) (by simp)
  | exit other _ empty stopped => exact absurd rfl (unlooked other)
  | sleep other _ empty unstopped => exact absurd rfl (unlooked other)
  | take other _ task tasks next => exact absurd rfl (unlooked other)
  | wake other asleep => exact absurd ((looking other).symm.trans asleep) (by simp)
  | finish other task running => exact absurd ((looking other).symm.trans running) (by simp)
  | notifyAll owed =>
      change ThreadPool.woken (s.threadpool.workers worker) = .looking
      rw [looking worker]
      rfl
  | _ => exact looking worker

theorem ending_of_advance (ending : s.Ending) (stepped : s.advance = some next) : next.Ending := by
  have unpooled := ending.unpooled
  have later : ∀ place : ℕ, Ending { s with control := s.nextControl place } := by
    intro place
    unfold nextControl
    split
    · exact ⟨unpooled, fun here => absurd here (by simp), fun here => absurd here (by simp)⟩
    · split
      · next pooled => exact ⟨unpooled, fun _ => pooled, fun here => absurd here (by simp)⟩
      · next without =>
        exact ⟨unpooled, fun here => absurd here (by simp), fun _ pooled => absurd pooled without⟩
  cases place : s.control with
  | serving =>
      simp only [advance, place, Option.ite_none_right_eq_some, Option.some.injEq] at stepped
      rcases stepped with ⟨_, rfl⟩
      exact ⟨unpooled, fun here => absurd here (by simp), fun here => absurd here (by simp)⟩
  | joiningMain =>
      simp only [advance, place, Option.ite_none_right_eq_some, Option.some.injEq] at stepped
      rcases stepped with ⟨_, rfl⟩
      exact later 0
  | joiningSub sub =>
      simp only [advance, place, Option.ite_none_right_eq_some, Option.some.injEq] at stepped
      rcases stepped with ⟨_, rfl⟩
      exact later (sub + 1)
  | stoppingPool =>
      simp only [advance, place, Option.ite_none_right_eq_some, Option.some.injEq] at stepped
      rcases stepped with ⟨returned, rfl⟩
      exact ⟨unpooled, fun here => absurd here (by simp), fun _ _ => returned⟩
  | stoppingMain => simp [advance, place] at stepped
  | stoppingSub sub => simp [advance, place] at stepped
  | stopped => simp [advance, place] at stepped

/-- Behind the end of the loops, only the control thread and the workers use the pool. -/
theorem worker_of_poolMay {action : PoolAction n (Fin n × Job) (Fin n)}
    {pool : ThreadPool n (Fin n × Job) (Fin n)} (sequential : s.Sequential)
    (exited : ∀ sub, (s.subReactors sub).phase = .exited) (may : s.poolMay action = true)
    (steps : s.threadpool.Steps action pool)
    (own : (ServerAction.pool action).thread ≠ some .control) :
    ∃ worker, action = .look worker ∨ action = .wake worker ∨ action = .finish worker := by
  cases action with
  | look worker => exact ⟨worker, .inl rfl⟩
  | wake worker => exact ⟨worker, .inr (.inl rfl)⟩
  | finish worker => exact ⟨worker, .inr (.inr rfl)⟩
  | enqueue caller func =>
      have allowed := of_decide_eq_true may
      rw [exited caller] at allowed
      exact absurd allowed.2.1 (by simp [LoopPhase.inCode])
  | notifyOne caller woken =>
      have pushed : s.threadpool.callers caller = .pushed := by
        cases steps <;> assumption
      have inside := sequential.submits caller (by rw [pushed]; simp)
      rw [exited caller] at inside
      cases inside
  | _ => exact absurd rfl own

/-- Who helps while the pool is stopped: the worker that is joined, or the control thread. -/
def HelpsPool : ServerThread n → Server n → Prop
  | .control, s => ∀ worker : Fin n, s.threadpool.stopper = .joining worker →
      s.threadpool.workers worker = .exited
  | .worker worker, s => s.threadpool.stopper = .joining worker ∧
      s.threadpool.workers worker ≠ .exited
  | _, _ => False

theorem exists_helpsPool (s : Server n) : ∃ thread, HelpsPool thread s := by
  by_cases waiting : ∃ worker : Fin n, s.threadpool.stopper = .joining worker ∧
      s.threadpool.workers worker ≠ .exited
  · rcases waiting with ⟨worker, waiting⟩
    exact ⟨.worker worker, waiting⟩
  · refine ⟨.control, fun worker joining => ?_⟩
    by_contra alive
    exact waiting ⟨worker, joining, alive⟩

section

variable [NeZero n] {useThreadPool : Bool} {behaviour : Behaviour n}

theorem threadpool_reachable (reachable : s.Reachable useThreadPool) :
    s.threadpool.Reachable := by
  refine Transition.Reaches.component threadpool ?_ reachable
  intro state action next stepped
  by_cases byPool : ∃ own, action = .pool own
  · rcases byPool with ⟨own, rfl⟩
    simp only [step, Option.ite_none_left_eq_some, Option.ite_none_right_eq_some,
      Option.map_eq_some_iff] at stepped
    rcases stepped with ⟨_, _, pool, moved, rfl⟩
    exact .inr ⟨own, moved⟩
  · cases steps_of_step stepped with
    | sub sub action loop may steps moved => exact .inl (same_afterSub sub action loop).2.1
    | pool own pool may steps => exact absurd ⟨own, rfl⟩ byPool
    | _ => exact .inl rfl

theorem ending_of_reachable (reachable : s.Reachable useThreadPool) : s.Ending := by
  apply reachable.invariant Ending
  · exact ⟨fun _ _ => rfl, fun here => (nomatch here), fun here => (nomatch here)⟩
  · intro state action next ending _ stepped
    cases steps_of_step stepped with
    | main action loop may steps moved =>
        rcases control_main loop may with ⟨same, _⟩ | ⟨_, _, after⟩
        · exact ⟨ending.unpooled, fun here => ending.pooled (same ▸ here),
            fun here => ending.returned (same ▸ here)⟩
        · refine ⟨ending.unpooled, fun here => ?_, fun here => ?_⟩ <;>
            exact absurd (after.symm.trans here) (by simp)
    | sub sub action loop may steps moved =>
        have same := same_afterSub (s := state) sub action loop
        have unpooled : (state.afterSub sub action loop).useThreadPool = false →
            ∀ worker, (state.afterSub sub action loop).threadpool.workers worker = .looking := by
          rw [same.2.2.2.2, same.2.1]
          exact ending.unpooled
        rcases control_sub loop may with ⟨kept, _⟩ | ⟨_, _, after⟩
        · refine ⟨unpooled, fun here => ?_, fun here pooled => ?_⟩
          · rw [same.2.2.2.2]
            exact ending.pooled (kept ▸ here)
          · rw [same.2.2.2.2] at pooled
            rw [same.2.1]
            exact ending.returned (kept ▸ here) pooled
        · refine ⟨unpooled, fun here => ?_, fun here => ?_⟩ <;>
            exact absurd (after.symm.trans here) (by simp)
    | pool action pool may steps =>
        refine ⟨fun without => ?_, ending.pooled, fun here pooled => ?_⟩
        · exact looking_pool ending without may steps
        have elsewhere : state.control ≠ .stoppingPool := by
          rw [show state.control = .stopped from here]
          simp
        have same := ThreadPool.stopper_of_other steps
          (by rintro rfl; exact elsewhere (of_decide_eq_true may))
          (by rintro rfl; exact elsewhere (of_decide_eq_true may))
          (by rintro rfl; exact elsewhere (of_decide_eq_true may))
        exact same.1.trans (ending.returned here pooled)
    | accept port unread phased idle => exact ⟨ending.unpooled, ending.pooled, ending.returned⟩
    | dispatched subIdx called idle => exact ⟨ending.unpooled, ending.pooled, ending.returned⟩
    | _ => exact ending_of_advance ending (advance_of_step stepped)

/-- No step takes the control thread away from the end of `ThreadPool::stop`. -/
theorem poolRank_steps (reachable : s.Reachable useThreadPool) (stepped : s.step action = some next)
    (here : s.control = .stoppingPool) (own : action.thread ≠ some .control)
    (going : ¬next.Ended) :
    next.poolRank < s.poolRank ∨
      (next.poolRank = s.poolRank ∧ next.threadpool.stopper = s.threadpool.stopper ∧
        (s.threadpool.stop_ = true → next.threadpool = s.threadpool ∧
          ∀ worker, action.thread ≠ some (.worker worker))) := by
  have sequential := sequential_of_reachable reachable
  have orderly := orderly_of_reachable reachable
  have exited : ∀ sub, (s.subReactors sub).phase = .exited := by
    intro sub
    have bound := sub.isLt
    apply orderly.subJoined sub
    rw [here, Control.stage]
    omega
  cases steps_of_step stepped with
  | main action loop may steps moved =>
      refine .inr ⟨rfl, rfl, fun _ => ⟨rfl, fun worker => ?_⟩⟩
      simp only [ServerAction.thread]
      split <;> simp
  | sub sub action loop may steps moved =>
      have pool := (same_afterSub (s := s) sub action loop).2.1
      rcases jobsLeft_sub sequential may steps with failed | nearer | ⟨same, others⟩
      · refine absurd (.inr (.inl ⟨sub, ?_⟩)) going
        rw [subReactors_afterSub, Function.update_self]
        exact failed
      · by_cases stopped : s.threadpool.stop_ = true
        · refine .inl (Prod.Lex.toLex_lt_toLex.mpr (.inr ⟨by rw [pool], ?_⟩))
          rw [pool, if_pos stopped, if_pos stopped]
          exact nearer
        · refine .inr ⟨?_, by rw [pool], fun stops => absurd stops stopped⟩
          rw [poolRank, poolRank, pool, if_neg stopped, if_neg stopped]
      · refine .inr ⟨by rw [poolRank, poolRank, pool, same], by rw [pool], fun _ => ⟨pool, ?_⟩⟩
        intro worker byWorker
        exact others worker (caller_of_thread (.worker worker) byWorker)
  | pool action pool may steps =>
      have same := ThreadPool.stopper_of_other steps (by rintro rfl; exact own rfl)
        (by rintro rfl; exact own rfl) (by rintro rfl; exact own rfl)
      by_cases stopped : s.threadpool.stop_ = true
      · rcases worker_of_poolMay sequential exited may steps own with ⟨worker, byWorker⟩
        have nearer := jobsLeft_pool stopped steps byWorker
        refine .inl (Prod.Lex.toLex_lt_toLex.mpr (.inr ⟨congrArg (Stopping.left n) same.1, ?_⟩))
        change (if pool.stop_ then _ else _) < _
        rw [same.2, if_pos stopped, if_pos stopped]
        exact nearer
      · refine .inr ⟨?_, same.1, fun stops => absurd stops stopped⟩
        change toLex (pool.stopper.left n, if pool.stop_ then _ else _) = _
        rw [same.1, same.2, poolRank, if_neg stopped, if_neg stopped]
  | accept port unread phased idle =>
      exact .inr ⟨rfl, rfl, fun _ => ⟨rfl, by simp [ServerAction.thread]⟩⟩
  | dispatched subIdx called idle =>
      exact .inr ⟨rfl, rfl, fun _ => ⟨rfl, by simp [ServerAction.thread]⟩⟩
  | _ => exact absurd rfl own

/-- A worker that the pool joins can go on. -/
theorem exists_step_of_worker (reachable : s.Reachable useThreadPool) (going : ¬s.Ended)
    (here : s.control = .stoppingPool) {worker : Fin n}
    (joining : s.threadpool.stopper = .joining worker)
    (alive : s.threadpool.workers worker ≠ .exited) :
    ∃ action, action.thread = some (.worker worker) ∧ ∃ next, s.step action = some next := by
  have sequential := sequential_of_reachable reachable
  have alert := ThreadPool.alert_of_reachable worker.pos (threadpool_reachable reachable)
  cases place : s.threadpool.workers worker with
  | exited => exact absurd place alive
  | asleep => exact absurd place (alert.notified (by simp [joining]) (by simp [joining]) worker)
  | looking =>
      refine ⟨.pool (.look worker), rfl, exists_step_pool going ?_ ?_⟩
      · exact (ending_of_reachable reachable).pooled here
      · cases tasks : s.threadpool.tasks <;> simp [ThreadPool.step, ThreadPool.look, place, tasks]
  | running task =>
      rcases task with ⟨sub, job⟩
      by_cases idle : (s.subReactors sub).callers (some (.worker worker)) = .idle
      · by_cases posted : s.posted worker = true
        · refine ⟨.pool (.finish worker), rfl, exists_step_pool going ?_ ?_⟩
          · refine decide_eq_true ⟨posted, fun other => ?_⟩
            by_contra busy
            rcases sequential.workers other worker busy with ⟨_, later, runs⟩
            rw [place, Worker.running.injEq, Prod.mk.injEq] at runs
            exact busy (runs.1 ▸ idle)
          · simp [ThreadPool.step, place]
        · refine ⟨.sub sub (.check (some (.worker worker)) (.respond job.self job.reply)), rfl,
            exists_step_sub going ?_ (LoopThread.exists_check _ (running_sub going sub) idle)⟩
          simp [subMay, mayEnqueue, place, posted]
      · exact exists_step_of_caller going idle

theorem not_idles_of_helpsPool {thread : ServerThread n} (reachable : s.Reachable useThreadPool)
    (going : ¬s.Ended) (stays : s.control = .stoppingPool) (helps : HelpsPool thread s) :
    ¬s.Idles thread := by
  cases thread with
  | control =>
      rintro (sleeps | stuck)
      · exact sleeps
      · have moves : ∃ action, action.thread = some .control ∧
            ∃ next, s.step action = some next := by
          by_cases returned : s.threadpool.stopper = .returned
          · exact ⟨.control, rfl, by simp [step, going, advance, stays, returned]⟩
          · rcases ThreadPool.exists_stopping returned helps with ⟨action, stops, moves⟩
            refine ⟨.pool action, ?_, exists_step_pool going ?_ moves⟩ <;>
              rcases stops with rfl | rfl | rfl <;> first | rfl | simp [poolMay, stays]
        rcases moves with ⟨action, own, next, stepped⟩
        exact absurd ((stuck action own).symm.trans stepped) (by simp)
  | worker worker =>
      rintro (sleeps | stuck)
      · exact sleeps
      · rcases exists_step_of_worker reachable going stays helps.1 helps.2 with
          ⟨action, own, next, stepped⟩
        exact absurd ((stuck action own).symm.trans stepped) (by simp)
  | main => cases helps
  | sub sub => cases helps

theorem helpsPool_step (reachable : s.Reachable useThreadPool) (stepped : s.step action = some next)
    (stays : s.control = .stoppingPool) (left : next.control = .stoppingPool)
    (going : ¬next.Ended) :
    next.poolRank < s.poolRank ∨ (next.poolRank = s.poolRank ∧
      ∀ thread, HelpsPool thread s → ¬action.Serves thread ∧ HelpsPool thread next) := by
  by_cases own : action.thread = some .control
  · rcases control_thread (sequential_of_reachable reachable) stepped own (by simp [stays])
      (left.trans stays.symm) with ended | ⟨joining, _⟩ | ⟨sub, joining, _⟩ | ⟨_, stops⟩
    · exact absurd ended going
    · exact absurd (stays.symm.trans joining) (by simp)
    · exact absurd (stays.symm.trans joining) (by simp)
    · refine .inl (Prod.Lex.toLex_lt_toLex.mpr (.inl ?_))
      rcases stops with rfl | rfl | rfl <;>
        cases steps_of_step stepped with
        | pool _ pool may steps => exact ThreadPool.stopper_left_lt steps (by simp)
  rcases poolRank_steps reachable stepped stays own going with nearer | ⟨equal, stopper, still⟩
  · exact .inl nearer
  refine .inr ⟨equal, ?_⟩
  intro thread helps
  have begun : ∀ worker : Fin n, s.threadpool.stopper = .joining worker →
      s.threadpool.stop_ = true := by
    intro worker joining
    have alert := ThreadPool.alert_of_reachable worker.pos (threadpool_reachable reachable)
    exact alert.stopped.mpr (by simp [joining])
  cases thread with
  | control =>
      refine ⟨own, fun worker joining => ?_⟩
      rw [stopper] at joining
      rw [(still (begun worker joining)).1]
      exact helps worker joining
  | worker worker =>
      have same := still (begun worker helps.1)
      refine ⟨same.2 worker, ?_⟩
      rw [HelpsPool, same.1]
      exact helps
  | main => cases helps
  | sub sub => cases helps

/-- The control thread stops the pool, and joins its workers. -/
theorem leaves_stoppingPool (fair : behaviour.Fair)
    (atStart : (behaviour.state 0).Reachable useThreadPool) {k : ℕ}
    (here : (behaviour.state k).control = .stoppingPool) :
    ∃ m, k ≤ m ∧ ((behaviour.state m).Ended ∨ (behaviour.state m).control ≠ .stoppingPool) :=
  leaves fair atStart poolRank HelpsPool (fun {s} _ _ _ => exists_helpsPool s)
    not_idles_of_helpsPool helpsPool_step here

/-- Whether the counter of an `eloopFd` is full, so that a write to it fails. -/
def Full (s : Server n) : Prop :=
  LoopThread.maxCounter ≤ s.mainReactor.counter ∨
    ∃ sub, LoopThread.maxCounter ≤ (s.subReactors sub).counter

theorem full_of_ended (reachable : s.Reachable useThreadPool) (ended : s.Ended) : s.Full := by
  rcases ended with failed | ⟨sub, failed⟩ | ⟨sub, threw⟩
  · exact .inl (LoopThread.full_of_failed (mainReactor_reachable reachable) failed)
  · exact .inr ⟨sub, LoopThread.full_of_failed (subReactors_reachable reachable sub) failed⟩
  · exact absurd threw ((orderly_of_reachable reachable).unthrown sub)

/-- Where `Server::stop` has returned, no thread runs any more. -/
theorem exited_of_stopped (reachable : s.Reachable useThreadPool) (stopped : s.control = .stopped) :
    s.mainReactor.phase = .exited ∧ (∀ sub, (s.subReactors sub).phase = .exited) ∧
      (useThreadPool = true → ∀ worker, s.threadpool.workers worker = .exited) := by
  have orderly := orderly_of_reachable reachable
  refine ⟨orderly.mainJoined ?_, fun sub => orderly.subJoined sub ?_, fun pooled worker => ?_⟩
  · rw [stopped, Control.stage]
    omega
  · have bound := sub.isLt
    rw [stopped, Control.stage]
    omega
  · have alert := ThreadPool.alert_of_reachable worker.pos (threadpool_reachable reachable)
    apply alert.returned
    apply (ending_of_reachable reachable).returned stopped
    rw [useThreadPool_of_reachable reachable, pooled]

theorem step_main_of_stopped (reachable : s.Reachable useThreadPool)
    (stopped : s.control = .stopped)
    {action : LoopAction MainTask Unit} : s.step (.main action) = none := by
  rw [Option.eq_none_iff_forall_ne_some]
  intro next stepped
  have sequential := sequential_of_reachable reachable
  have exited := (exited_of_stopped reachable stopped).1
  cases steps_of_step stepped with
  | main _ loop may steps moved =>
      have calls := LoopThread.calls_of_exited (mainReactor_reachable reachable) steps exited
      have never : ∀ caller func, action ≠ .check caller func := by
        rintro caller (port | _) rfl
        · have allowed : caller = some () ∧ s.control = .serving := of_decide_eq_true may
          exact absurd (stopped.symm.trans allowed.2) (by simp)
        · have allowed : caller = some () ∧ s.control = .stoppingMain := of_decide_eq_true may
          exact absurd (stopped.symm.trans allowed.2) (by simp)
      cases caller : action.caller? with
      | none => exact absurd (calls.1.symm.trans (LoopAction.own_of_caller? caller)) (by simp)
      | some caller' =>
          have inside := LoopThread.inside_of_caller steps caller (never caller')
          rcases caller' with _ | control
          · exact inside calls.2
          · rcases sequential.controlMain inside with before | before <;>
              exact absurd (stopped.symm.trans before) (by simp)

theorem idle_of_stopped (reachable : s.Reachable useThreadPool) (stopped : s.control = .stopped) :
    s.dispatching = .idle := by
  by_contra busy
  have early := (orderly_of_reachable reachable).stage_lt_of_dispatching busy
  rw [stopped, Control.stage] at early
  omega

theorem unoccupied_of_stopped (reachable : s.Reachable useThreadPool)
    (stopped : s.control = .stopped) (worker : Fin n) (task : Fin n × Job) :
    s.threadpool.workers worker ≠ .running task := by
  intro running
  cases pooled : useThreadPool with
  | true =>
      have exited := (exited_of_stopped reachable stopped).2.2 pooled worker
      exact absurd (exited.symm.trans running) (by simp)
  | false =>
      have without := (useThreadPool_of_reachable reachable).trans pooled
      have looking := (ending_of_reachable reachable).unpooled without worker
      exact absurd (looking.symm.trans running) (by simp)

theorem step_sub_of_stopped (reachable : s.Reachable useThreadPool) (stopped : s.control = .stopped)
    {sub : Fin n} {action : LoopAction Task (SubCaller n)} : s.step (.sub sub action) = none := by
  rw [Option.eq_none_iff_forall_ne_some]
  intro next stepped
  have sequential := sequential_of_reachable reachable
  have idle := idle_of_stopped reachable stopped
  have unoccupied := unoccupied_of_stopped reachable stopped
  have exited := (exited_of_stopped reachable stopped).2.1 sub
  cases steps_of_step stepped with
  | sub _ _ loop may steps moved =>
      have calls := LoopThread.calls_of_exited (subReactors_reachable reachable sub) steps exited
      have never : ∀ caller func, action ≠ .check caller func := by
        rintro (_ | _ | _ | worker) func rfl
        · simp [LoopThread.step, LoopThread.check, calls.2, exited, LoopPhase.inCode] at moved
        · simp [subMay, mayEnqueue, idle] at may
        · simp [subMay, mayEnqueue, stopped] at may
        · simp only [subMay, mayEnqueue] at may
          split at may
          · next owner job running => exact unoccupied worker _ running
          · cases may
      cases caller : action.caller? with
      | none => exact absurd (calls.1.symm.trans (LoopAction.own_of_caller? caller)) (by simp)
      | some caller' =>
          have inside := LoopThread.inside_of_caller steps caller (never caller')
          rcases caller' with _ | _ | _ | worker
          · exact inside calls.2
          · have called := ((orderly_of_reachable reachable).calling sub inside).1
            exact absurd (idle.symm.trans called) (by simp)
          · exact absurd (stopped.symm.trans (sequential.controlSub sub inside)) (by simp)
          · rcases (sequential.workers sub worker inside).2 with ⟨job, running⟩
            exact unoccupied worker _ running

theorem step_pool_of_stopped (reachable : s.Reachable useThreadPool)
    (stopped : s.control = .stopped)
    {action : PoolAction n (Fin n × Job) (Fin n)} (thread : ∀ worker, action ≠ .wake worker) :
    s.step (.pool action) = none := by
  rw [Option.eq_none_iff_forall_ne_some]
  intro next stepped
  have exited := exited_of_stopped reachable stopped
  cases steps_of_step stepped with
  | pool _ pool may steps =>
      cases action with
      | enqueue caller func =>
          have allowed := of_decide_eq_true may
          rw [exited.2.1 caller] at allowed
          exact absurd allowed.2.1 (by simp [LoopPhase.inCode])
      | notifyOne caller woken =>
          have pushed : s.threadpool.callers caller = .pushed := by cases steps <;> assumption
          have inside := (sequential_of_reachable reachable).submits caller (by rw [pushed]; simp)
          rw [exited.2.1 caller] at inside
          cases inside
      | look worker =>
          have pooled : useThreadPool = true :=
            (useThreadPool_of_reachable reachable).symm.trans may
          have looking : s.threadpool.workers worker = .looking := by cases steps <;> assumption
          exact absurd ((exited.2.2 pooled worker).symm.trans looking) (by simp)
      | wake worker => exact thread worker rfl
      | finish worker =>
          cases steps with
          | finish _ task running =>
              exact unoccupied_of_stopped reachable stopped worker task running
      | stop => exact absurd (stopped.symm.trans (of_decide_eq_true may)) (by simp)
      | notifyAll => exact absurd (stopped.symm.trans (of_decide_eq_true may)) (by simp)
      | join => exact absurd (stopped.symm.trans (of_decide_eq_true may)) (by simp)

/-- Where `Server::stop` has returned, nothing is left to do for any thread. -/
theorem step_of_stopped (reachable : s.Reachable useThreadPool) (stopped : s.control = .stopped)
    (thread : action.thread ≠ none) : s.step action = none := by
  cases action with
  | main action => exact step_main_of_stopped reachable stopped
  | accept port =>
      have exited := (exited_of_stopped reachable stopped).1
      simp [step, accept, exited]
  | dispatched =>
      have idle := idle_of_stopped reachable stopped
      simp [step, dispatched, idle]
  | sub sub action => exact step_sub_of_stopped reachable stopped
  | pool action =>
      refine step_pool_of_stopped reachable stopped ?_
      rintro worker rfl
      exact thread rfl
  | control => simp [step, advance, stopped]

/-- The control thread leaves every place in `Server::stop` but the last. -/
theorem leaves_place (fair : behaviour.Fair)
    (atStart : (behaviour.state 0).Reachable useThreadPool) {k : ℕ}
    (begun : (behaviour.state k).control ≠ .serving)
    (going : (behaviour.state k).control ≠ .stopped) :
    ∃ m, k ≤ m ∧ ((behaviour.state m).Ended ∨
      (behaviour.state m).control ≠ (behaviour.state k).control) := by
  cases place : (behaviour.state k).control with
  | serving => exact absurd place begun
  | stoppingMain => exact leaves_stopping fair atStart (.inl rfl) place
  | joiningMain => exact leaves_joiningMain fair atStart place
  | stoppingSub sub => exact leaves_stopping fair atStart (.inr ⟨sub, rfl⟩) place
  | joiningSub sub => exact leaves_joiningSub fair atStart place
  | stoppingPool => exact leaves_stoppingPool fair atStart place
  | stopped => exact absurd place going

/-- If the threads are scheduled and callbacks and tasks return, then `Server::stop`
returns, whatever is in flight when it begins: no thread waits for another one for
ever, and in the end none is left. Only 2⁶⁴ - 2 unread wake-ups of a loop prevent it. -/
theorem stop_returns (fair : behaviour.Fair)
    (atStart : (behaviour.state 0).Reachable useThreadPool) {k : ℕ}
    (begun : (behaviour.state k).control ≠ .serving) :
    ∃ m, k ≤ m ∧ ((behaviour.state m).Full ∨
      (behaviour.state m).control = .stopped ∧ (behaviour.state m).mainReactor.phase = .exited ∧
        (∀ sub, ((behaviour.state m).subReactors sub).phase = .exited) ∧
        (useThreadPool = true →
          ∀ worker, (behaviour.state m).threadpool.workers worker = .exited) ∧
        ∀ action, action.thread ≠ none → (behaviour.state m).step action = none) := by
  -- The places that are left, counted.
  induction left : 4 + 2 * n - (behaviour.state k).control.stage using Nat.strong_induction_on
    generalizing k with
  | _ count ih =>
      by_cases stopped : (behaviour.state k).control = .stopped
      · have reachable := Behaviour.reachable atStart k
        rcases exited_of_stopped reachable stopped with ⟨main, subs, workers⟩
        exact ⟨k, le_rfl, .inr ⟨stopped, main, subs, workers, fun _ thread =>
          step_of_stopped reachable stopped thread⟩⟩
      · rcases leaves_place fair atStart begun stopped with ⟨m, later, ended | moved⟩
        · exact ⟨m, later, .inl (full_of_ended (Behaviour.reachable atStart m) ended)⟩
        · have further := (stage_later later).resolve_left moved
          have bound := stage_le (behaviour.state m).control
          have begunLater : (behaviour.state m).control ≠ .serving := by
            intro serving
            rw [serving] at further
            exact absurd further (Nat.not_lt_zero _)
          rcases ih _ (by omega) begunLater rfl with ⟨last, after, returns⟩
          exact ⟨last, later.trans after, returns⟩

/-- A behaviour in which `Server::stop` has returned is fair. -/
theorem fair_of_stopped {final : Server n} {length : ℕ}
    (rests : ∀ m, length ≤ m → behaviour.state m = final)
    (reachable : final.Reachable useThreadPool) (stopped : final.control = .stopped) :
    behaviour.Fair := by
  refine ⟨?_, ?_⟩
  · intro thread m
    refine ⟨max m length, le_max_left .., .inr (.inr ?_)⟩
    intro action own
    rw [rests _ (le_max_right ..)]
    exact step_of_stopped reachable stopped (by simp [own])
  · intro thread repeats
    rcases repeats length with ⟨m, later, action, member, calls⟩
    have stepped := behaviour.stepped m
    rw [Option.mem_def.mp member, rests m later] at stepped
    have stuck := step_of_stopped reachable stopped (thread_of_calls calls)
    exact absurd (stuck.symm.trans stepped) (by simp)

end

/-- A request is with the pool when `Server::stop` begins. -/
def accepting (sub : Fin 1) : List (ServerAction 1) :=
  [.main (.check (some ()) (.listenPort 8888)), .main (.push (some ())),
    .main (.write (some ()) false), .main (.poll true), .main .read, .main .timer, .main .drain,
    .main .start, .main .finish, .main .endLoop, .main (.poll false), .accept 8888,
    .sub sub (.check (some .mainReactor) (.addConnection 0 true)),
    .sub sub (.push (some .mainReactor)), .sub sub (.write (some .mainReactor) false),
    .dispatched, .main .timer, .main .drain, .main .endLoop, .sub sub (.poll true),
    .sub sub .read, .sub sub .timer, .sub sub .drain, .sub sub .start, .sub sub .finish,
    .sub sub .endLoop, .sub sub (.poll false),
    .pool (.enqueue sub (sub, { self := 0, req := {}, ticket := 0 })),
    .pool (.notifyOne sub none), .control]

/-- The worker posts its reply while the sub-reactor is being stopped. -/
def returning (sub : Fin 1) : List (ServerAction 1) :=
  [.main (.check (some ()) .stop), .main (.push (some ())), .main (.write (some ()) false),
    .main (.poll true), .main .read, .main .timer, .main .drain, .main .start, .main .finish,
    .main .endLoop, .control, .sub sub (.check (some .control) .stop),
    .sub sub (.push (some .control)), .pool (.look sub),
    .sub sub (.check (some (.worker sub))
      (.respond 0 (Job.reply { self := 0, req := {}, ticket := 0 }))),
    .sub sub (.push (some (.worker sub))), .sub sub (.write (some .control) false),
    .sub sub .timer, .sub sub .drain, .sub sub .start, .sub sub .finish, .sub sub .start,
    .sub sub .finish, .sub sub .endLoop, .sub sub (.write (some (.worker sub)) false), .control,
    .pool .stop, .pool .notifyAll, .pool (.finish sub), .pool (.look sub), .pool .join,
    .pool .join, .control]

theorem stop_returns_posting :
    ∃ behaviour : Behaviour 1, behaviour.Fair ∧ (behaviour.state 0).Reachable true ∧
      (behaviour.state 0).control = .stoppingMain ∧
      (behaviour.state 0).threadpool.tasks.length = 1 ∧
      ∃ m, (behaviour.state m).Full ∨ (behaviour.state m).control = .stopped := by
  have ran : ((Transition.run step Transition.anyAction (init true) (accepting 0)).bind fun begun =>
      (Transition.run step Transition.anyAction begun (returning 0)).map fun final =>
        (begun.control, begun.threadpool.tasks.length, final.control)) =
      some (.stoppingMain, 1, .stopped) := by
    decide +kernel
  simp only [Option.bind_eq_some_iff, Option.map_eq_some_iff, Prod.mk.injEq] at ran
  rcases ran with ⟨begun, before, final, after, control, tasks, stopped⟩
  have reachable : begun.Reachable true := Transition.reaches_of_run before
  rcases Transition.exists_behaviour_of_run after with ⟨behaviour, rfl, rests⟩
  have fair : Behaviour.Fair behaviour :=
    fair_of_stopped rests (reachable.trans (Transition.reaches_of_run after)) stopped
  refine ⟨behaviour, fair, reachable, control, tasks, ?_⟩
  rcases stop_returns fair reachable (by rw [control]; simp) with ⟨m, _, returns⟩
  exact ⟨m, returns.imp id And.left⟩

end Server

end MiniWebServer
