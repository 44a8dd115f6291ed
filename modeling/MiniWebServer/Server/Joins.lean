import MiniWebServer.Server.Threads

/-!
# The joins of a shutdown

The control thread goes from place to place in `Server::stop`. Where it waits
somebody helps: the thread of the loop that it joins, or a worker that owes the
write for which that loop is asleep. Nobody takes it back, so the join returns.
-/

namespace MiniWebServer

namespace LoopThread

variable {Func Caller : Type} {stops : Func → Bool} {s next : LoopThread Func Caller}
  {caller : Option Caller}

/-- How far a thread that stops the loop is from its end, in the call and behind it. -/
def joinRank (stops : Func → Bool) (caller : Option Caller) (s : LoopThread Func Caller) :
    ℕ ×ₗ ℕ ×ₗ ℕ :=
  toLex ((s.callers caller).left, if (s.callers caller).left = 0 then s.distance stops else ⊥)

theorem joinRank_lt_of_left (smaller : (next.callers caller).left < (s.callers caller).left) :
    next.joinRank stops caller < s.joinRank stops caller :=
  Prod.Lex.toLex_lt_toLex.mpr (.inl smaller)

theorem joinRank_eq_of_idle (idle : s.callers caller = .idle) :
    s.joinRank stops caller = toLex (0, s.distance stops) := by
  simp only [joinRank, idle, Enqueuing.left, if_true]

variable [DecidableEq Caller] {action : LoopAction Func Caller}

theorem joinRank_of_other (steps : Steps stops s action next)
    (other : action.caller? ≠ some caller)
    (outside : s.callers caller = .idle → action.isOwn = false) :
    next.joinRank stops caller = s.joinRank stops caller := by
  have same := callers_of_other steps other
  cases place : s.callers caller with
  | idle =>
      rw [joinRank_eq_of_idle place, joinRank_eq_of_idle (same.trans place),
        distance_of_call steps (outside place)]
  | checked func => simp [joinRank, same, place, Enqueuing.left]
  | pushed => simp [joinRank, same, place, Enqueuing.left]

/-- No step of a loop takes the thread that stops it farther away. -/
theorem joinRank_steps (reachable : s.Reachable stops) (asking : s.Asking stops caller)
    (steps : Steps stops s action next) (never : ∀ func, action ≠ .check caller func) :
    next.failed = true ∨ next.joinRank stops caller < s.joinRank stops caller ∨
      (next.joinRank stops caller = s.joinRank stops caller ∧ action.caller? ≠ some caller ∧
        (s.callers caller = .idle → action.isOwn = false)) := by
  by_cases own : action.caller? = some caller
  · rcases left_lt_of_caller steps own (inside_of_caller steps own never) with failed | nearer
    · exact .inl failed
    · exact .inr (.inl (joinRank_lt_of_left nearer))
  · by_cases round : s.callers caller = .idle ∧ action.isOwn = true
    · have asked : s.Asked stops := by
        rcases asking with ⟨func, checked, _⟩ | asked
        · exact absurd (round.1.symm.trans checked) (by simp)
        · exact asked
      have nearer := distance_lt_of_own reachable asked steps round.2
      have idle := (callers_of_other steps own).trans round.1
      refine .inr (.inl ?_)
      rw [joinRank_eq_of_idle round.1, joinRank_eq_of_idle idle]
      exact Prod.Lex.toLex_lt_toLex.mpr (.inr ⟨rfl, nearer⟩)
    · have outside : s.callers caller = .idle → action.isOwn = false := by
        intro idle
        rw [← Bool.not_eq_true]
        exact fun goes => round ⟨idle, goes⟩
      exact .inr (.inr ⟨joinRank_of_other steps own outside, own, outside⟩)

/-- The same for a thread that joins the loop and waits for its wake-up too. -/
def wakeRank [DecidableEq Func] (stops : Func → Bool) (caller : Option Caller)
    (s : LoopThread Func Caller) : (ℕ ×ₗ ℕ ×ₗ ℕ) ×ₗ ℕ :=
  toLex (s.joinRank stops caller, if (s.callers caller).left = 0 ∧ s.Sleeps then 1 else 0)

theorem wakeRank_steps [DecidableEq Func] (reachable : s.Reachable stops)
    (asking : s.Asking stops caller) (steps : Steps stops s action next)
    (never : ∀ func, action ≠ .check caller func) :
    next.failed = true ∨ next.wakeRank stops caller < s.wakeRank stops caller ∨
      (next.wakeRank stops caller = s.wakeRank stops caller ∧ action.caller? ≠ some caller ∧
        (s.callers caller = .idle → action.isOwn = false ∧ (s.Sleeps ↔ next.Sleeps))) := by
  rcases joinRank_steps reachable asking steps never with failed | nearer | ⟨equal, other, outside⟩
  · exact .inl failed
  · exact .inr (.inl (Prod.Lex.toLex_lt_toLex.mpr (.inl nearer)))
  have callers := callers_of_other steps other
  by_cases idle : s.callers caller = .idle
  · have call := outside idle
    by_cases woken : s.Sleeps ∧ ¬next.Sleeps
    · refine .inr (.inl (Prod.Lex.toLex_lt_toLex.mpr (.inr ⟨equal, ?_⟩)))
      simp [callers, idle, woken, Enqueuing.left]
    · have same : s.Sleeps ↔ next.Sleeps :=
        ⟨fun sleeps => not_not.mp fun awake => woken ⟨sleeps, awake⟩, sleeps_of_call steps call⟩
      refine .inr (.inr ⟨?_, other, fun _ => ⟨call, same⟩⟩)
      rw [wakeRank, wakeRank, equal, callers]
      simp only [same]
  · refine .inr (.inr ⟨?_, other, fun outside => absurd outside idle⟩)
    have inside : (s.callers caller).left ≠ 0 := fun none => idle (Enqueuing.left_eq_zero.mp none)
    simp [wakeRank, equal, callers, inside]

/-- The write to `eloopFd` fails only when its counter is full. -/
theorem full_of_failed (reachable : s.Reachable stops) (failed : s.failed = true) :
    maxCounter ≤ s.counter := by
  refine reachable.invariant (fun s => s.failed = true → maxCounter ≤ s.counter) ?_ ?_ failed
  · intro failed
    cases failed
  · intro state action next _ _ stepped failed
    have running : state.failed ≠ true := by
      intro broken
      simp [step, broken] at stepped
    cases steps_of_step stepped with
    | fail caller again pushed full => exact full
    | _ => exact absurd failed running

/-- While the loop sleeps on, the thread that owes it the write takes no step. -/
theorem caller_ne_of_sleeps (reachable : s.Reachable stops) (steps : Steps stops s action next)
    (pushed : s.callers caller = .pushed) (sleeps : s.Sleeps) (still : next.Sleeps)
    (running : next.failed ≠ true) : action.caller? ≠ some caller := by
  intro calls
  cases steps with
  | check caller func before _ unstopped =>
      cases calls
      exact absurd (pushed.symm.trans before) (by simp)
  | refuse caller func before stopped =>
      cases calls
      exact absurd (pushed.symm.trans before) (by simp)
  | push caller func checked entry _ iteration byTask =>
      cases calls
      exact absurd (pushed.symm.trans checked) (by simp)
  | write caller again before =>
      rcases awake_of_write reachable sleeps (.write caller again before) with failed | awake
      · exact running failed
      · exact awake still
  | fail caller again before full => exact running rfl
  | _ => cases calls

end LoopThread

namespace Server

variable {n : ℕ} {s next : Server n} {action : ServerAction n}

theorem control_ne_of_advance (sequential : s.Sequential) (stepped : s.advance = some next) :
    next.control ≠ s.control := by
  rcases calm_of_advance sequential stepped with ⟨_, _, notMain, notSub⟩
  intro same
  cases steps_of_advance stepped with
  | stop serving => exact absurd (same.trans serving) (by simp)
  | joinMain joining exited => exact notMain (same.trans joining)
  | joinSub sub joining exited => exact notSub sub (same.trans joining)
  | joinPool stopping => exact absurd (same.trans stopping) (by simp)

/-- Where the control thread stays in its place, it goes on in a call. -/
theorem control_thread (sequential : s.Sequential) (stepped : s.step action = some next)
    (own : action.thread = some .control) (begun : s.control ≠ .serving)
    (same : next.control = s.control) :
    next.Ended ∨
      (s.control = .joiningMain ∧
        (next.mainReactor.callers (some ())).left < (s.mainReactor.callers (some ())).left) ∨
      (∃ sub, s.control = .joiningSub sub ∧
        ((next.subReactors sub).callers (some .control)).left <
          ((s.subReactors sub).callers (some .control)).left) ∨
      (s.control = .stoppingPool ∧
        (action = .pool .stop ∨ action = .pool .notifyAll ∨ action = .pool .join)) := by
  cases steps_of_step stepped with
  | main action loop may steps moved =>
      have caller : action.caller? = some (some ()) := by
        cases known : action.caller? with
        | none => simp [ServerAction.thread, known] at own
        | some caller =>
            rcases caller with _ | control
            · simp [ServerAction.thread, known] at own
            · rfl
      have never : ∀ func, action ≠ .check (some ()) func := by
        rintro (port | _) rfl
        · have allowed : some () = some () ∧ s.control = .serving := of_decide_eq_true may
          exact begun allowed.2
        · have allowed : some () = some () ∧ s.control = .stoppingMain := of_decide_eq_true may
          exact absurd (same.trans allowed.2) (by simp [afterMain])
      have inside := LoopThread.inside_of_caller steps caller never
      rcases LoopThread.left_lt_of_caller steps caller inside with failed | nearer
      · exact .inl (.inl failed)
      · exact .inr (.inl ⟨(sequential.controlMain inside).resolve_left begun, nearer⟩)
  | sub sub action loop may steps moved =>
      have caller := caller_of_thread .control own
      rcases control_sub loop may with ⟨_, never⟩ | ⟨_, before, after⟩
      · have inside := LoopThread.inside_of_caller steps caller never
        rcases LoopThread.left_lt_of_caller steps caller inside with failed | nearer
        · refine .inl (.inr (.inl ⟨sub, ?_⟩))
          rw [subReactors_afterSub, Function.update_self]
          exact failed
        · refine .inr (.inr (.inl ⟨sub, sequential.controlSub sub inside, ?_⟩))
          rw [subReactors_afterSub, Function.update_self]
          exact nearer
      · exact absurd ((after.symm.trans same).trans before) (by simp)
  | pool action pool may steps =>
      refine .inr (.inr (.inr ?_))
      cases action with
      | stop => exact ⟨of_decide_eq_true may, .inl rfl⟩
      | notifyAll => exact ⟨of_decide_eq_true may, .inr (.inl rfl)⟩
      | join => exact ⟨of_decide_eq_true may, .inr (.inr rfl)⟩
      | _ => simp [ServerAction.thread] at own
  | accept port unread phased idle => simp [ServerAction.thread] at own
  | dispatched subIdx called idle => simp [ServerAction.thread] at own
  | _ => exact absurd same (control_ne_of_advance sequential (advance_of_step stepped))

end Server

/-- A step with which a thread helps: a loop goes round, another thread takes any step. -/
def ServerAction.Serves {n : ℕ} : ServerThread n → ServerAction n → Prop
  | .control, action => action.thread = some .control
  | .main, action => action.GoesRound .main
  | .sub index, action => action.GoesRound (.sub index)
  | .worker index, action => action.thread = some (.worker index)

namespace Server

variable {n : ℕ} {s next : Server n} {action : ServerAction n}

theorem main_or_same (steps : Steps s action next) :
    (∃ own loop, action = .main own ∧ next.mainReactor = loop ∧
        s.mainReactor.Steps MainTask.stopsLoop own loop) ∨
      (next.mainReactor = s.mainReactor ∧ ¬action.GoesRound .main) := by
  cases steps with
  | main action loop may steps moved => exact .inl ⟨action, loop, rfl, rfl, steps⟩
  | sub sub action loop may steps moved => exact .inr ⟨(same_afterSub sub action loop).1, id⟩
  | _ => exact .inr ⟨rfl, id⟩

theorem sub_or_same (sub : Fin n) (steps : Steps s action next) :
    (∃ own loop, action = .sub sub own ∧ next.subReactors sub = loop ∧
        s.subMay sub own = true ∧ (s.subReactors sub).Steps Task.stopsLoop own loop) ∨
      (next.subReactors sub = s.subReactors sub ∧ ∀ call, action ≠ .sub sub call) := by
  cases steps with
  | sub other action loop may steps moved =>
      by_cases here : sub = other
      · subst here
        refine .inl ⟨action, loop, rfl, ?_, may, steps⟩
        rw [subReactors_afterSub, Function.update_self]
      · refine .inr ⟨?_, ?_⟩
        · rw [subReactors_afterSub, Function.update_of_ne here]
        · rintro call ⟨⟩
          exact here rfl
  | _ => exact .inr ⟨rfl, by simp⟩

/-- A worker that is in `enqueueTask` does nothing else. -/
theorem call_of_worker (sequential : s.Sequential) (steps : Steps s action next)
    {sub worker : Fin n}
    (inside : (s.subReactors sub).callers (some (.worker worker)) ≠ .idle)
    (own : action.thread = some (.worker worker)) :
    ∃ call, action = .sub sub call ∧ call.caller? = some (some (.worker worker)) := by
  rcases sequential.workers sub worker inside with ⟨posted, job, running⟩
  cases steps with
  | main action loop may steps moved =>
      simp only [ServerAction.thread] at own
      split at own <;> cases own
  | sub other action loop may steps moved =>
      have caller := caller_of_thread (.worker worker) own
      have never : ∀ func, action ≠ .check (some (.worker worker)) func := by
        rintro func rfl
        simp only [subMay, mayEnqueue, running] at may
        have allowed := of_decide_eq_true may
        exact absurd (posted.symm.trans allowed.2.2) (by simp)
      rcases sequential.workers other worker (LoopThread.inside_of_caller steps caller never) with
        ⟨_, later, runs⟩
      rw [running, Worker.running.injEq, Prod.mk.injEq] at runs
      obtain rfl := runs.1
      exact ⟨action, rfl, caller⟩
  | pool action pool may steps =>
      cases action with
      | look other =>
          simp only [ServerAction.thread, Option.some.injEq, ServerThread.worker.injEq] at own
          subst own
          cases steps with
          | exit _ looking empty stopped => exact absurd (looking.symm.trans running) (by simp)
          | sleep _ looking empty unstopped => exact absurd (looking.symm.trans running) (by simp)
          | take _ looking task tasks next => exact absurd (looking.symm.trans running) (by simp)
      | finish other =>
          simp only [ServerAction.thread, Option.some.injEq, ServerThread.worker.injEq] at own
          subst own
          have allowed := of_decide_eq_true may
          exact absurd (allowed.2 sub) inside
      | _ => simp [ServerAction.thread] at own
  | _ => simp [ServerAction.thread] at own

/-- A thread that has no such step to take. -/
def Idles : ServerThread n → Server n → Prop
  | .control, s => s.Waits .control
  | .main, s => s.Rests .main
  | .sub sub, s => s.Rests (.sub sub)
  | .worker worker, s => s.Waits (.worker worker)

/-- The control thread takes a step where it is in a call, or where the loop has exited. -/
theorem exists_step_of_joiningMain (going : ¬s.Ended) (stays : s.control = .joiningMain)
    (helps : s.mainReactor.callers (some ()) ≠ .idle ∨ s.mainReactor.phase = .exited) :
    ∃ action, action.thread = some .control ∧ ∃ next, s.step action = some next := by
  by_cases idle : s.mainReactor.callers (some ()) = .idle
  · have exited := helps.resolve_left (not_not.mpr idle)
    exact ⟨.control, rfl, by simp [step, going, advance, stays, idle, exited]⟩
  · exact exists_step_of_caller_main going idle

theorem exists_step_of_joiningSub {sub : Fin n} (going : ¬s.Ended)
    (stays : s.control = .joiningSub sub)
    (helps : (s.subReactors sub).callers (some .control) ≠ .idle ∨
      (s.subReactors sub).phase = .exited) :
    ∃ action, action.thread = some .control ∧ ∃ next, s.step action = some next := by
  by_cases idle : (s.subReactors sub).callers (some .control) = .idle
  · have exited := helps.resolve_left (not_not.mpr idle)
    exact ⟨.control, rfl, by simp [step, going, advance, stays, idle, exited]⟩
  · exact exists_step_of_caller going idle

/-- Who helps while the main reactor is joined. -/
def HelpsMain : ServerThread n → Server n → Prop
  | .control, s => s.mainReactor.callers (some ()) ≠ .idle ∨ s.mainReactor.phase = .exited
  | .main, s => s.mainReactor.callers (some ()) = .idle ∧ s.mainReactor.phase ≠ .exited
  | _, _ => False

theorem exists_helpsMain (s : Server n) : ∃ thread, HelpsMain thread s := by
  by_cases busy : s.mainReactor.callers (some ()) = .idle ∧ s.mainReactor.phase ≠ .exited
  · exact ⟨.main, busy⟩
  · refine ⟨.control, ?_⟩
    by_cases idle : s.mainReactor.callers (some ()) = .idle
    · exact .inr (not_not.mp fun alive => busy ⟨idle, alive⟩)
    · exact .inl idle

/-- Who helps while a sub-reactor is joined. A worker may owe the write that wakes its loop. -/
def HelpsSub (sub : Fin n) : ServerThread n → Server n → Prop
  | .control, s => (s.subReactors sub).callers (some .control) ≠ .idle ∨
      (s.subReactors sub).phase = .exited
  | .sub other, s => other = sub ∧ (s.subReactors sub).callers (some .control) = .idle ∧
      (s.subReactors sub).phase ≠ .exited ∧ ¬(s.subReactors sub).Sleeps
  | .worker worker, s => (s.subReactors sub).callers (some .control) = .idle ∧
      (s.subReactors sub).Sleeps ∧ (s.subReactors sub).callers (some (.worker worker)) = .pushed
  | .main, _ => False

/-- Steps of other threads leave who helps as they are. -/
theorem helpsSub_of_same {sub : Fin n} (sequential : s.Sequential) (steps : Steps s action next)
    (own : action.thread ≠ some .control) (same : next.subReactors sub = s.subReactors sub)
    (elsewhere : ∀ call, action ≠ .sub sub call) {thread : ServerThread n}
    (helps : HelpsSub sub thread s) : ¬action.Serves thread ∧ HelpsSub sub thread next := by
  cases thread with
  | control => exact ⟨own, by rwa [HelpsSub, same]⟩
  | sub other =>
      refine ⟨fun round => ?_, by rwa [HelpsSub, same]⟩
      obtain rfl := helps.1
      cases action with
      | sub index call =>
          obtain rfl := round.1
          exact elsewhere call rfl
      | _ => exact round
  | worker worker =>
      refine ⟨fun serves => ?_, by rwa [HelpsSub, same]⟩
      rcases call_of_worker sequential steps (by rw [helps.2.2]; simp) serves with ⟨call, rfl, _⟩
      exact elsewhere call rfl
  | main => cases helps

theorem not_idles_of_helpsSub {sub : Fin n} {thread : ServerThread n} (going : ¬s.Ended)
    (stays : s.control = .joiningSub sub) (helps : HelpsSub sub thread s) : ¬s.Idles thread := by
  cases thread with
  | control =>
      rintro (sleeps | stuck)
      · exact sleeps
      · rcases exists_step_of_joiningSub going stays helps with ⟨action, own, next, stepped⟩
        exact absurd ((stuck action own).symm.trans stepped) (by simp)
  | sub other =>
      rcases helps with ⟨rfl, _, alive, awake⟩
      rintro (ended | sleeps | exited)
      · exact going ended
      · exact awake sleeps
      · exact alive exited
  | worker worker =>
      rintro (sleeps | stuck)
      · exact sleeps
      · rcases exists_step_of_caller going (by rw [helps.2.2]; simp) with
          ⟨action, own, next, stepped⟩
        exact absurd ((stuck action own).symm.trans stepped) (by simp)
  | main => cases helps

section

variable [NeZero n] {useThreadPool : Bool} {behaviour : Behaviour n}

theorem just_serves (fair : behaviour.Fair)
    (atStart : (behaviour.state 0).Reachable useThreadPool) (thread : ServerThread n) :
    behaviour.Just (fun _ moment => ∃ action ∈ moment, action.Serves thread) (Idles thread) := by
  cases thread with
  | control => exact fair.just .control
  | main => exact goes_round_main fair atStart
  | sub sub => exact goes_round_sub fair atStart sub
  | worker worker => exact fair.just (.worker worker)

/-- The control thread leaves a place in which somebody helps until it does. -/
theorem leaves {Rank : Type} [PartialOrder Rank] [WellFoundedLT Rank] (fair : behaviour.Fair)
    (atStart : (behaviour.state 0).Reachable useThreadPool) {place : Control n}
    (rank : Server n → Rank) (Helps : ServerThread n → Server n → Prop)
    (someone : ∀ {s : Server n}, s.Reachable useThreadPool → ¬s.Ended → s.control = place →
      ∃ thread, Helps thread s)
    (awake : ∀ {s : Server n} {thread}, s.Reachable useThreadPool → ¬s.Ended →
      s.control = place → Helps thread s → ¬s.Idles thread)
    (closer : ∀ {s next : Server n} {action}, s.Reachable useThreadPool →
      s.step action = some next → s.control = place → next.control = place → ¬next.Ended →
      rank next < rank s ∨ (rank next = rank s ∧
        ∀ thread, Helps thread s → ¬action.Serves thread ∧ Helps thread next))
    {k : ℕ} (here : (behaviour.state k).control = place) :
    ∃ m, k ≤ m ∧ ((behaviour.state m).Ended ∨ (behaviour.state m).control ≠ place) := by
  by_cases ended : (behaviour.state k).Ended
  · exact ⟨k, le_rfl, .inl ended⟩
  rcases someone (Behaviour.reachable atStart k) ended here with ⟨thread, helps⟩
  refine behaviour.eventually_of_helpers rank (fun s => s.Ended ∨ s.control ≠ place)
    (fun thread s => s.Reachable useThreadPool ∧ ¬s.Ended ∧ s.control = place ∧ Helps thread s)
    (fun thread _ moment => ∃ action ∈ moment, action.Serves thread) Idles
    (just_serves fair atStart) ?_ ?_ k thread
    ⟨Behaviour.reachable atStart k, ended, here, helps⟩
  · rintro thread s ⟨reachable, going, stays, helps⟩
    exact awake reachable going stays helps
  · rintro thread s moment next ⟨reachable, going, stays, helps⟩ _ stepped
    cases moment with
    | none =>
        cases stepped
        exact .inr (.inr ⟨rfl, by simp, reachable, going, stays, helps⟩)
    | some action =>
        have reachableNext : next.Reachable useThreadPool :=
          reachable.tail ⟨action, trivial, stepped⟩
        by_cases broken : next.Ended
        · exact .inl (.inl broken)
        by_cases left : next.control = place
        · rcases closer reachable stepped stays left broken with smaller | ⟨same, keeps⟩
          · rcases someone reachableNext broken left with ⟨other, helped⟩
            exact .inr (.inl ⟨smaller, other, reachableNext, broken, left, helped⟩)
          · rcases keeps thread helps with ⟨idle, helped⟩
            refine .inr (.inr ⟨same, ?_, reachableNext, broken, left, helped⟩)
            rintro ⟨other, member, serves⟩
            rw [Option.mem_some_iff] at member
            exact idle (member ▸ serves)
        · exact .inl (.inr left)

/-- Before a call the control thread goes on by itself. -/
theorem leaves_stopping (fair : behaviour.Fair)
    (atStart : (behaviour.state 0).Reachable useThreadPool) {place : Control n}
    (stopping : place = .stoppingMain ∨ ∃ sub, place = .stoppingSub sub) {k : ℕ}
    (here : (behaviour.state k).control = place) :
    ∃ m, k ≤ m ∧ ((behaviour.state m).Ended ∨ (behaviour.state m).control ≠ place) := by
  refine leaves fair atStart (fun _ => (0 : ℕ)) (fun thread _ => thread = .control) ?_ ?_ ?_ here
  · intro s _ _ _
    exact ⟨.control, rfl⟩
  · rintro s thread reachable going stays rfl (sleeps | stuck)
    · exact sleeps
    · have sequential := sequential_of_reachable reachable
      rcases stopping with rfl | ⟨sub, rfl⟩
      · have idle : s.mainReactor.callers (some ()) = .idle := by
          by_contra busy
          rcases sequential.controlMain busy with before | before <;>
            exact absurd (stays.symm.trans before) (by simp)
        have moves : ∃ next, s.step (.main (.check (some ()) .stop)) = some next :=
          exists_step_main going (by simp [mainMay, stays])
            (LoopThread.exists_check .stop (running_main going) idle)
        rcases moves with ⟨next, stepped⟩
        exact absurd ((stuck _ rfl).symm.trans stepped) (by simp)
      · have idle : (s.subReactors sub).callers (some .control) = .idle := by
          by_contra busy
          exact absurd (stays.symm.trans (sequential.controlSub sub busy)) (by simp)
        have moves : ∃ next, s.step (.sub sub (.check (some .control) .stop)) = some next :=
          exists_step_sub going (by simp [subMay, mayEnqueue, stays])
            (LoopThread.exists_check .stop (running_sub going sub) idle)
        rcases moves with ⟨next, stepped⟩
        exact absurd ((stuck _ rfl).symm.trans stepped) (by simp)
  · intro s next action reachable stepped stays left going
    refine .inr ⟨rfl, ?_⟩
    rintro thread rfl
    refine ⟨fun serves => ?_, rfl⟩
    have begun : s.control ≠ .serving := by rcases stopping with rfl | ⟨sub, rfl⟩ <;> simp [stays]
    rcases control_thread (sequential_of_reachable reachable) stepped serves begun
      (left.trans stays.symm) with ended | ⟨joining, _⟩ | ⟨sub, joining, _⟩ | ⟨joining, _⟩
    · exact going ended
    all_goals
      rw [stays] at joining
      rcases stopping with rfl | ⟨sub, rfl⟩ <;> cases joining

theorem not_idles_of_helpsMain {thread : ServerThread n} (reachable : s.Reachable useThreadPool)
    (going : ¬s.Ended) (stays : s.control = .joiningMain) (helps : HelpsMain thread s) :
    ¬s.Idles thread := by
  cases thread with
  | control =>
      rintro (sleeps | stuck)
      · exact sleeps
      · rcases exists_step_of_joiningMain going stays helps with ⟨action, own, next, stepped⟩
        exact absurd ((stuck action own).symm.trans stepped) (by simp)
  | main =>
      rcases helps with ⟨idle, alive⟩
      rintro (ended | sleeps | exited)
      · exact going ended
      · have asked : s.mainReactor.Asked MainTask.stopsLoop := by
          rcases (sequential_of_reachable reachable).stopsMain stays with ⟨func, checked, _⟩ | asked
          · exact absurd (idle.symm.trans checked) (by simp)
          · exact asked
        rcases LoopThread.pushed_of_sleeps (mainReactor_reachable reachable) asked sleeps with
          ⟨control, pushed⟩
        exact absurd (idle.symm.trans pushed) (by simp)
      · exact alive exited
  | sub sub => cases helps
  | worker worker => cases helps

/-- The join comes closer, or who helps has not moved and helps on. -/
theorem helpsMain_step (reachable : s.Reachable useThreadPool) (stepped : s.step action = some next)
    (stays : s.control = .joiningMain) (left : next.control = .joiningMain)
    (going : ¬next.Ended) :
    next.mainReactor.joinRank MainTask.stopsLoop (some ()) <
        s.mainReactor.joinRank MainTask.stopsLoop (some ()) ∨
      (next.mainReactor.joinRank MainTask.stopsLoop (some ()) =
          s.mainReactor.joinRank MainTask.stopsLoop (some ()) ∧
        ∀ thread, HelpsMain thread s → ¬action.Serves thread ∧ HelpsMain thread next) := by
  have sequential := sequential_of_reachable reachable
  by_cases own : action.thread = some .control
  · rcases control_thread sequential stepped own (by simp [stays]) (left.trans stays.symm) with
      ended | ⟨_, nearer⟩ | ⟨sub, joining, _⟩ | ⟨joining, _⟩
    · exact absurd ended going
    · exact .inl (LoopThread.joinRank_lt_of_left nearer)
    · exact absurd (stays.symm.trans joining) (by simp)
    · exact absurd (stays.symm.trans joining) (by simp)
  rcases main_or_same (steps_of_step stepped) with
    ⟨action, loop, rfl, loopNext, steps⟩ | ⟨same, notMain⟩
  · rw [loopNext]
    rcases LoopThread.joinRank_steps (mainReactor_reachable reachable)
      (sequential.stopsMain stays) steps fun func same => own (by rw [same]; rfl) with
      failed | nearer | ⟨equal, other, outside⟩
    · exact absurd (.inl (loopNext ▸ failed)) going
    · exact .inl nearer
    refine .inr ⟨equal, ?_⟩
    intro thread helps
    have callers := LoopThread.callers_of_other steps other
    cases thread with
    | control =>
        refine ⟨own, ?_⟩
        rw [HelpsMain, loopNext]
        exact helps.imp (fun busy => callers ▸ busy) (LoopThread.exited_steps steps)
    | main =>
        have call := outside helps.1
        refine ⟨fun round => absurd (call.symm.trans round) (by simp), ?_⟩
        rw [HelpsMain, loopNext]
        refine ⟨callers.trans helps.1, ?_⟩
        rw [LoopThread.phase_of_call steps call]
        exact helps.2
    | sub sub => cases helps
    | worker worker => cases helps
  · refine .inr ⟨by rw [same], ?_⟩
    intro thread helps
    cases thread with
    | control => exact ⟨own, by rwa [HelpsMain, same]⟩
    | main => exact ⟨notMain, by rwa [HelpsMain, same]⟩
    | sub sub => cases helps
    | worker worker => cases helps

/-- The control thread joins the main reactor. -/
theorem leaves_joiningMain (fair : behaviour.Fair)
    (atStart : (behaviour.state 0).Reachable useThreadPool) {k : ℕ}
    (here : (behaviour.state k).control = .joiningMain) :
    ∃ m, k ≤ m ∧ ((behaviour.state m).Ended ∨ (behaviour.state m).control ≠ .joiningMain) :=
  leaves fair atStart (fun s => s.mainReactor.joinRank MainTask.stopsLoop (some ())) HelpsMain
    (fun {s} _ _ _ => exists_helpsMain s) not_idles_of_helpsMain helpsMain_step here

theorem exists_helpsSub {sub : Fin n} (reachable : s.Reachable useThreadPool)
    (stays : s.control = .joiningSub sub) : ∃ thread, HelpsSub sub thread s := by
  by_cases busy : (s.subReactors sub).callers (some .control) = .idle ∧
      (s.subReactors sub).phase ≠ .exited
  · by_cases sleeps : (s.subReactors sub).Sleeps
    · have asked : (s.subReactors sub).Asked Task.stopsLoop := by
        have sequential := sequential_of_reachable reachable
        rcases sequential.stopsSub sub stays with ⟨func, checked, _⟩ | asked
        · exact absurd (busy.1.symm.trans checked) (by simp)
        · exact asked
      rcases LoopThread.pushed_of_sleeps (subReactors_reachable reachable sub) asked sleeps with
        ⟨_ | _ | worker, pushed⟩
      · -- the main reactor hands no socket to a loop after its own end
        have orderly := orderly_of_reachable reachable
        have called := (orderly.calling sub (by rw [pushed]; simp)).1
        have early := orderly.stage_lt_of_dispatching (by rw [called]; simp)
        rw [stays, Control.stage] at early
        omega
      · exact absurd (busy.1.symm.trans pushed) (by simp)
      · exact ⟨.worker worker, busy.1, sleeps, pushed⟩
    · exact ⟨.sub sub, rfl, busy.1, busy.2, sleeps⟩
  · refine ⟨.control, ?_⟩
    by_cases idle : (s.subReactors sub).callers (some .control) = .idle
    · exact .inr (not_not.mp fun alive => busy ⟨idle, alive⟩)
    · exact .inl idle

theorem helpsSub_step {sub : Fin n} (reachable : s.Reachable useThreadPool)
    (stepped : s.step action = some next) (stays : s.control = .joiningSub sub)
    (left : next.control = .joiningSub sub) (going : ¬next.Ended) :
    (next.subReactors sub).wakeRank Task.stopsLoop (some .control) <
        (s.subReactors sub).wakeRank Task.stopsLoop (some .control) ∨
      ((next.subReactors sub).wakeRank Task.stopsLoop (some .control) =
          (s.subReactors sub).wakeRank Task.stopsLoop (some .control) ∧
        ∀ thread, HelpsSub sub thread s → ¬action.Serves thread ∧ HelpsSub sub thread next) := by
  have sequential := sequential_of_reachable reachable
  have loops := subReactors_reachable reachable sub
  have steps := steps_of_step stepped
  by_cases own : action.thread = some .control
  · rcases control_thread sequential stepped own (by simp [stays]) (left.trans stays.symm) with
      ended | ⟨joining, _⟩ | ⟨other, joining, nearer⟩ | ⟨joining, _⟩
    · exact absurd ended going
    · exact absurd (stays.symm.trans joining) (by simp)
    · rw [stays, Control.joiningSub.injEq] at joining
      subst joining
      exact .inl (Prod.Lex.toLex_lt_toLex.mpr (.inl (LoopThread.joinRank_lt_of_left nearer)))
    · exact absurd (stays.symm.trans joining) (by simp)
  rcases sub_or_same sub steps with ⟨call, loop, rfl, loopNext, may, moves⟩ | ⟨same, elsewhere⟩
  · have running : loop.failed ≠ true := fun failed =>
      going (.inr (.inl ⟨sub, loopNext ▸ failed⟩))
    rw [loopNext]
    rcases LoopThread.wakeRank_steps loops (sequential.stopsSub sub stays) moves
      fun func same => own (by rw [same]; rfl) with failed | nearer | ⟨equal, other, outside⟩
    · exact absurd failed running
    · exact .inl nearer
    refine .inr ⟨equal, ?_⟩
    intro thread helps
    have callers := LoopThread.callers_of_other moves other
    cases thread with
    | control =>
        refine ⟨own, ?_⟩
        rw [HelpsSub, loopNext]
        exact helps.imp (fun busy => callers ▸ busy) (LoopThread.exited_steps moves)
    | sub other =>
        rcases helps with ⟨rfl, idle, alive, awake⟩
        rcases outside idle with ⟨notOwn, same⟩
        refine ⟨fun round => absurd (notOwn.symm.trans round.2) (by simp), ?_⟩
        rw [HelpsSub, loopNext, LoopThread.phase_of_call moves notOwn]
        exact ⟨rfl, callers.trans idle, alive, fun sleeps => awake (same.mpr sleeps)⟩
    | worker worker =>
        rcases helps with ⟨idle, sleeps, pushed⟩
        have still := (outside idle).2.mp sleeps
        have notOwn := LoopThread.caller_ne_of_sleeps loops moves pushed sleeps still running
        refine ⟨fun serves => notOwn (caller_of_thread (.worker worker) serves), ?_⟩
        rw [HelpsSub, loopNext]
        exact ⟨callers.trans idle, still, (LoopThread.callers_of_other moves notOwn).trans pushed⟩
    | main => cases helps
  · refine .inr ⟨by rw [same], ?_⟩
    intro thread helps
    exact helpsSub_of_same sequential steps own same elsewhere helps

/-- The control thread joins a sub-reactor. -/
theorem leaves_joiningSub (fair : behaviour.Fair)
    (atStart : (behaviour.state 0).Reachable useThreadPool) {sub : Fin n} {k : ℕ}
    (here : (behaviour.state k).control = .joiningSub sub) :
    ∃ m, k ≤ m ∧ ((behaviour.state m).Ended ∨ (behaviour.state m).control ≠ .joiningSub sub) :=
  leaves fair atStart (fun s => (s.subReactors sub).wakeRank Task.stopsLoop (some .control))
    (HelpsSub sub) (fun reachable _ stays => exists_helpsSub reachable stays)
    (fun _ going stays helps => not_idles_of_helpsSub going stays helps) helpsSub_step here

end

end Server

end MiniWebServer
