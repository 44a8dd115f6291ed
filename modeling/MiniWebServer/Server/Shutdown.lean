import MiniWebServer.Server

/-!
# The shutdown of a server

`Server::stop` stops and joins the main reactor, then the sub-reactors one after
the other, then the pool. A socket that was accepted has its task in the queue of
a sub-reactor before the main reactor is joined, and so before the stop task of
that sub-reactor; a pool that is stopped has no sub-reactor left that uses it.
-/

namespace MiniWebServer

/-- The place in `Server::stop`, counted. -/
def Control.stage {n : ℕ} : Control n → ℕ
  | .serving => 0
  | .stoppingMain => 1
  | .joiningMain => 2
  | .stoppingSub sub => 3 + 2 * sub
  | .joiningSub sub => 4 + 2 * sub
  | .stoppingPool => 3 + 2 * n
  | .stopped => 4 + 2 * n

namespace Server

variable {n : ℕ} {s next : Server n} {action : ServerAction n}

/-- What a step does, once for all. -/
inductive Steps (s : Server n) : ServerAction n → Server n → Prop where
  | main (action : LoopAction MainTask Unit) (loop : LoopThread MainTask Unit)
      (may : s.mainMay action = true)
      (steps : s.mainReactor.Steps MainTask.stopsLoop action loop)
      (moved : s.mainReactor.step MainTask.stopsLoop action = some loop) :
      Steps s (.main action) (s.afterMain action loop)
  | accept (port : ℤ) (unread : Bool) (phased : s.mainReactor.phase = .handling unread)
      (idle : s.dispatching = .idle) :
      Steps s (.accept port)
        { s with
          dispatching := .calling s.nextSocket
          accepted := s.accepted ++ [(s.nextSocket, s.subIdx)]
          nextSocket := s.nextSocket + 1 }
  | dispatched (subIdx : Fin n) (called : s.dispatching = .called)
      (idle : (s.subReactors s.subIdx).callers (some .mainReactor) = .idle) :
      Steps s .dispatched { s with dispatching := .idle, subIdx := subIdx }
  | sub (sub : Fin n) (action : LoopAction Task (SubCaller n))
      (loop : LoopThread Task (SubCaller n)) (may : s.subMay sub action = true)
      (steps : (s.subReactors sub).Steps Task.stopsLoop action loop)
      (moved : (s.subReactors sub).step Task.stopsLoop action = some loop) :
      Steps s (.sub sub action) (s.afterSub sub action loop)
  | pool (action : PoolAction n (Fin n × Job) (Fin n))
      (pool : ThreadPool n (Fin n × Job) (Fin n)) (may : s.poolMay action = true)
      (steps : s.threadpool.Steps action pool) :
      Steps s (.pool action) (s.afterPool action pool)
  | stop (serving : s.control = .serving) :
      Steps s .control { s with control := .stoppingMain }
  | joinMain (joining : s.control = .joiningMain) (exited : s.mainReactor.phase = .exited) :
      Steps s .control { s with control := s.nextControl 0 }
  | joinSub (sub : Fin n) (joining : s.control = .joiningSub sub)
      (exited : (s.subReactors sub).phase = .exited) :
      Steps s .control { s with control := s.nextControl (sub + 1) }
  | joinPool (stopping : s.control = .stoppingPool) :
      Steps s .control { s with control := .stopped }

theorem steps_of_advance (stepped : s.advance = some next) : Steps s .control next := by
  cases control : s.control with
  | serving =>
      simp only [advance, control, Option.ite_none_right_eq_some] at stepped
      cases stepped.2
      exact .stop control
  | joiningMain =>
      simp only [advance, control, Option.ite_none_right_eq_some] at stepped
      cases stepped.2
      exact .joinMain control stepped.1.2
  | joiningSub sub =>
      simp only [advance, control, Option.ite_none_right_eq_some] at stepped
      cases stepped.2
      exact .joinSub sub control stepped.1.2
  | stoppingPool =>
      simp only [advance, control, Option.ite_none_right_eq_some] at stepped
      cases stepped.2
      exact .joinPool control
  | stoppingMain => simp [advance, control] at stepped
  | stoppingSub sub => simp [advance, control] at stepped
  | stopped => simp [advance, control] at stepped

theorem steps_of_step (stepped : s.step action = some next) : Steps s action next := by
  unfold step at stepped
  split at stepped
  · cases stepped
  · cases action with
    | main action =>
        simp only [Option.ite_none_right_eq_some, Option.map_eq_some_iff] at stepped
        rcases stepped with ⟨may, loop, stepped, rfl⟩
        exact .main action loop may (LoopThread.steps_of_step stepped) stepped
    | accept port =>
        simp only [accept] at stepped
        split at stepped
        · next unread phased =>
          split at stepped
          · next ready =>
            cases stepped
            exact .accept port unread phased ready.2
          · cases stepped
        · cases stepped
    | dispatched =>
        simp only [dispatched, Option.ite_none_right_eq_some] at stepped
        cases stepped.2
        exact .dispatched _ stepped.1.1 stepped.1.2
    | sub sub action =>
        simp only [Option.ite_none_right_eq_some, Option.map_eq_some_iff] at stepped
        rcases stepped with ⟨may, loop, stepped, rfl⟩
        exact .sub sub action loop may (LoopThread.steps_of_step stepped) stepped
    | pool action =>
        simp only [Option.ite_none_right_eq_some, Option.map_eq_some_iff] at stepped
        rcases stepped with ⟨may, pool, stepped, rfl⟩
        exact .pool action pool may (ThreadPool.steps_of_step stepped)
    | control => exact steps_of_advance stepped

theorem control_afterMain {action : LoopAction MainTask Unit} (loop : LoopThread MainTask Unit)
    (may : s.mainMay action = true) :
    (s.afterMain action loop).control = s.control ∨
      s.control.stage < 3 ∧ (s.afterMain action loop).control.stage < 3 := by
  cases action with
  | check caller func =>
      cases func with
      | listenPort port => exact .inl rfl
      | stop =>
          have allowed : caller = some () ∧ s.control = .stoppingMain := of_decide_eq_true may
          refine .inr ⟨?_, by simp [afterMain, Control.stage]⟩
          rw [allowed.2]
          simp [Control.stage]
  | _ => exact .inl rfl

@[simp]
theorem subReactors_afterSub (sub : Fin n) (action : LoopAction Task (SubCaller n))
    (loop : LoopThread Task (SubCaller n)) :
    (s.afterSub sub action loop).subReactors = Function.update s.subReactors sub loop := by
  rcases action with ⟨_ | _ | _ | _, func⟩ | _ | _ | _ | _ | _ | _ | _ | _ | _ <;> rfl

theorem same_afterSub (sub : Fin n) (action : LoopAction Task (SubCaller n))
    (loop : LoopThread Task (SubCaller n)) :
    (s.afterSub sub action loop).mainReactor = s.mainReactor ∧
      (s.afterSub sub action loop).threadpool = s.threadpool ∧
      (s.afterSub sub action loop).accepted = s.accepted ∧
      (s.afterSub sub action loop).subIdx = s.subIdx ∧
      (s.afterSub sub action loop).useThreadPool = s.useThreadPool := by
  rcases action with ⟨_ | _ | _ | _, func⟩ | _ | _ | _ | _ | _ | _ | _ | _ | _ <;>
    exact ⟨rfl, rfl, rfl, rfl, rfl⟩

/-- The control thread goes on when its stop task has passed the check. -/
theorem control_afterSub {sub : Fin n} {action : LoopAction Task (SubCaller n)}
    (loop : LoopThread Task (SubCaller n)) (may : s.subMay sub action = true) :
    (s.afterSub sub action loop).control = s.control ∧ action ≠ .check (some .control) .stop ∨
      s.control = .stoppingSub sub ∧ (s.afterSub sub action loop).control = .joiningSub sub := by
  cases action with
  | check caller func =>
      rcases caller with _ | _ | _ | worker
      · exact .inl ⟨rfl, by simp⟩
      · exact .inl ⟨rfl, by simp⟩
      · have allowed : s.control = .stoppingSub sub ∧ func = .stop := of_decide_eq_true may
        exact .inr ⟨allowed.1, rfl⟩
      · exact .inl ⟨rfl, by simp⟩
  | _ => exact .inl ⟨rfl, by simp⟩

/-- The main reactor goes on when its task has passed the check. -/
theorem dispatching_afterSub {sub : Fin n} {action : LoopAction Task (SubCaller n)}
    (loop : LoopThread Task (SubCaller n)) (may : s.subMay sub action = true) :
    ((s.afterSub sub action loop).dispatching = s.dispatching ∧
        ∀ func, action ≠ .check (some .mainReactor) func) ∨
      ∃ sck, s.dispatching = .calling sck ∧ sub = s.subIdx ∧
        (s.afterSub sub action loop).dispatching = .called ∧
        action = .check (some .mainReactor) (.addConnection sck s.useThreadPool) := by
  cases action with
  | check caller func =>
      rcases caller with _ | _ | _ | worker
      · exact .inl ⟨rfl, by simp⟩
      · simp only [subMay, mayEnqueue] at may
        cases dispatching : s.dispatching with
        | calling sck =>
            rw [dispatching] at may
            have allowed : sub = s.subIdx ∧ func = .addConnection sck s.useThreadPool :=
              of_decide_eq_true may
            exact .inr ⟨sck, rfl, allowed.1, rfl, by rw [allowed.2]⟩
        | idle => simp [dispatching] at may
        | called => simp [dispatching] at may
      · exact .inl ⟨rfl, by simp⟩
      · exact .inl ⟨rfl, by simp⟩
  | _ => exact .inl ⟨rfl, by simp⟩

section

variable [NeZero n] {useThreadPool : Bool}

theorem mainReactor_reachable (reachable : s.Reachable useThreadPool) :
    s.mainReactor.Reachable MainTask.stopsLoop := by
  refine Transition.Reaches.component mainReactor ?_ reachable
  intro state action next stepped
  cases steps_of_step stepped with
  | main action loop may steps moved => exact .inr ⟨action, moved⟩
  | sub sub action loop may steps moved => exact .inl (same_afterSub sub action loop).1
  | _ => exact .inl rfl

theorem subReactors_reachable (reachable : s.Reachable useThreadPool) (sub : Fin n) :
    (s.subReactors sub).Reachable Task.stopsLoop := by
  refine Transition.Reaches.component (fun s : Server n => s.subReactors sub) ?_ reachable
  intro state action next stepped
  cases steps_of_step stepped with
  | sub other action loop may steps moved =>
      rw [subReactors_afterSub]
      by_cases same : sub = other
      · subst same
        rw [Function.update_self]
        exact .inr ⟨action, moved⟩
      · exact .inl (Function.update_of_ne same ..)
  | _ => exact .inl rfl

theorem useThreadPool_of_reachable (reachable : s.Reachable useThreadPool) :
    s.useThreadPool = useThreadPool := by
  refine reachable.invariant (fun s => s.useThreadPool = useThreadPool) rfl ?_
  intro state action next same _ stepped
  cases steps_of_step stepped with
  | sub sub action loop may steps moved =>
      rw [(same_afterSub sub action loop).2.2.2.2]
      exact same
  | _ => exact same

end

/-- Somebody is about to stop the loop, or its stop task was pushed. -/
def StopAsked (loop : LoopThread Task (SubCaller n)) : Prop :=
  (∃ caller, loop.callers caller = .checked .stop) ∨ ∃ entry ∈ loop.pushed, entry.func = .stop

/-- What was pushed before the first stop task. -/
def beforeStop (pushed : List (Queued Task)) : List (Queued Task) :=
  pushed.takeWhile fun entry => !entry.func.stopsLoop

/-- Where the task for an accepted socket is. -/
def Placed (s : Server n) (entry : SocketId × Fin n) : Prop :=
  (s.dispatching = .calling entry.1 ∧ entry.2 = s.subIdx) ∨
    (s.subReactors entry.2).callers (some .mainReactor) =
      .checked (.addConnection entry.1 s.useThreadPool) ∨
    ∃ queued ∈ beforeStop (s.subReactors entry.2).pushed,
      queued.func = .addConnection entry.1 s.useThreadPool

/-- What holds of a server at every stage. -/
structure Orderly (s : Server n) : Prop where
  dispatching : s.dispatching ≠ .idle → ∃ unread, s.mainReactor.phase = .handling unread
  calling : ∀ sub, (s.subReactors sub).callers (some .mainReactor) ≠ .idle →
    s.dispatching = .called ∧ sub = s.subIdx
  mainJoined : 3 ≤ s.control.stage → s.mainReactor.phase = .exited
  subJoined : ∀ sub : Fin n, 4 + 2 * sub < s.control.stage →
    (s.subReactors sub).phase = .exited
  poolStopped : s.threadpool.stop_ = true → 3 + 2 * n ≤ s.control.stage
  unthrown : ∀ sub, s.threadpool.callers sub ≠ .threw
  stopping : ∀ sub, StopAsked (s.subReactors sub) → 3 ≤ s.control.stage
  placed : ∀ entry ∈ s.accepted, s.Placed entry

theorem mem_beforeStop_append {pushed more : List (Queued Task)} {entry : Queued Task}
    (member : entry ∈ beforeStop pushed) : entry ∈ beforeStop (pushed ++ more) := by
  unfold beforeStop at member ⊢
  rw [List.takeWhile_append]
  split
  · next all =>
    rw [List.takeWhile_eq_self_iff.mpr] at member
    · exact List.mem_append_left _ member
    · intro other inPushed
      exact List.all_eq_true.mp (List.all_takeWhile ..) other
        ((List.takeWhile_prefix _).eq_of_length all ▸ inPushed)
  · exact member

theorem mem_beforeStop_of_unasked {pushed : List (Queued Task)} {entry : Queued Task}
    (member : entry ∈ pushed) (unasked : ∀ other ∈ pushed, other.func ≠ .stop) :
    entry ∈ beforeStop pushed := by
  rw [beforeStop, List.takeWhile_eq_self_iff.mpr]
  · exact member
  · intro other inPushed
    have differs := unasked other inPushed
    cases func : other.func with
    | stop => exact absurd func differs
    | _ => rfl

/-- A server that is past the join of its main reactor dispatches nothing. -/
theorem Orderly.stage_lt_of_dispatching (orderly : s.Orderly) (busy : s.dispatching ≠ .idle) :
    s.control.stage < 3 := by
  by_contra late
  rcases orderly.dispatching busy with ⟨unread, phased⟩
  exact absurd (phased.symm.trans (orderly.mainJoined (not_lt.mp late))) (by simp)

/-- Nobody stops a sub-reactor while the main reactor dispatches. -/
theorem Orderly.unasked (orderly : s.Orderly) (busy : s.dispatching ≠ .idle) (sub : Fin n) :
    ¬StopAsked (s.subReactors sub) := by
  intro asked
  exact absurd (orderly.stopping sub asked) (not_le.mpr (orderly.stage_lt_of_dispatching busy))

theorem stage_nextControl {sub : ℕ} (within : sub ≤ n) :
    3 + 2 * sub ≤ (s.nextControl sub).stage := by
  unfold nextControl
  split
  · exact le_rfl
  · split <;> simp only [Control.stage] <;> omega

theorem lt_of_stage_nextControl {sub : ℕ} {other : Fin n}
    (later : 4 + 2 * other < (s.nextControl sub).stage) : (other : ℕ) < sub := by
  have bound := other.isLt
  unfold nextControl at later
  split at later
  · simp only [Control.stage] at later
    omega
  · omega

theorem orderly_main {action : LoopAction MainTask Unit} {loop : LoopThread MainTask Unit}
    (orderly : s.Orderly) (may : s.mainMay action = true)
    (steps : s.mainReactor.Steps MainTask.stopsLoop action loop) :
    (s.afterMain action loop).Orderly := by
  have control := control_afterMain loop may
  refine ⟨?_, orderly.calling, ?_, ?_, ?_, orderly.unthrown, ?_, orderly.placed⟩
  · intro busy
    rcases orderly.dispatching busy with ⟨unread, phased⟩
    have call : action.isOwn = false := by
      cases action with
      | check caller func => rfl
      | push caller => rfl
      | write caller again => rfl
      | _ => exact absurd (of_decide_eq_true may) busy
    exact ⟨unread, (LoopThread.phase_of_call steps call).trans phased⟩
  · intro late
    rcases control with same | ⟨_, early⟩
    · rw [same] at late
      exact LoopThread.exited_steps steps (orderly.mainJoined late)
    · omega
  · intro sub late
    rcases control with same | ⟨_, early⟩
    · rw [same] at late
      exact orderly.subJoined sub late
    · omega
  · intro stopped
    have late := orderly.poolStopped stopped
    rcases control with same | ⟨early, _⟩
    · rw [same]
      exact late
    · omega
  · intro sub asked
    have late := orderly.stopping sub asked
    rcases control with same | ⟨early, _⟩
    · rw [same]
      exact late
    · omega

theorem orderly_accept {unread : Bool} (orderly : s.Orderly)
    (phased : s.mainReactor.phase = .handling unread) (idle : s.dispatching = .idle) :
    Orderly
      { s with
        dispatching := .calling s.nextSocket
        accepted := s.accepted ++ [(s.nextSocket, s.subIdx)]
        nextSocket := s.nextSocket + 1 } := by
  refine ⟨fun _ => ⟨unread, phased⟩, ?_, orderly.mainJoined, orderly.subJoined,
    orderly.poolStopped, orderly.unthrown, orderly.stopping, ?_⟩
  · intro sub busy
    exact absurd (idle.symm.trans (orderly.calling sub busy).1) (by simp)
  · intro entry member
    rcases List.mem_append.mp member with earlier | new
    · rcases orderly.placed entry earlier with ⟨calling, _⟩ | placed
      · exact absurd (idle.symm.trans calling) (by simp)
      · exact .inr placed
    · rw [List.mem_singleton.mp new]
      exact .inl ⟨rfl, rfl⟩

theorem orderly_dispatched {subIdx : Fin n} (orderly : s.Orderly)
    (called : s.dispatching = .called)
    (idle : (s.subReactors s.subIdx).callers (some .mainReactor) = .idle) :
    Orderly { s with dispatching := .idle, subIdx := subIdx } := by
  refine ⟨fun busy => absurd rfl busy, ?_, orderly.mainJoined, orderly.subJoined,
    orderly.poolStopped, orderly.unthrown, orderly.stopping, ?_⟩
  · intro sub busy
    rw [(orderly.calling sub busy).2] at busy
    exact absurd idle busy
  · intro entry member
    rcases orderly.placed entry member with ⟨calling, _⟩ | placed
    · exact absurd (called.symm.trans calling) (by simp)
    · exact .inr placed

/-- A stop task reaches a sub-reactor from the control thread alone. -/
theorem stopAsked_afterSub {sub : Fin n} {action : LoopAction Task (SubCaller n)}
    {loop : LoopThread Task (SubCaller n)} (may : s.subMay sub action = true)
    (steps : (s.subReactors sub).Steps Task.stopsLoop action loop) (asked : StopAsked loop) :
    StopAsked (s.subReactors sub) ∨ action = .check (some .control) .stop := by
  rcases asked with ⟨caller, checked⟩ | ⟨entry, member, stopping⟩
  · rcases LoopThread.callers_steps steps caller with
      same | ⟨func, rfl, _, moved⟩ | ⟨_, moved⟩ | ⟨_, moved⟩
    · exact .inl (.inl ⟨caller, same.symm.trans checked⟩)
    · rw [moved, Enqueuing.checked.injEq] at checked
      subst checked
      rcases caller with _ | _ | _ | worker
      · cases may
      · simp only [subMay, mayEnqueue] at may
        split at may
        · exact absurd (of_decide_eq_true may).2 (by simp)
        · cases may
      · exact .inr rfl
      · simp only [subMay, mayEnqueue] at may
        split at may
        · exact absurd (of_decide_eq_true may).2.1 (by simp)
        · cases may
    · exact absurd (moved.symm.trans checked) (by simp)
    · exact absurd (moved.symm.trans checked) (by simp)
  · rcases LoopThread.pushed_steps steps with same | ⟨caller, pushed, _, checked, grown⟩
    · rw [same] at member
      exact .inl (.inr ⟨entry, member, stopping⟩)
    · rw [grown] at member
      rcases List.mem_append.mp member with earlier | last
      · exact .inl (.inr ⟨entry, earlier, stopping⟩)
      · rw [List.mem_singleton.mp last] at stopping
        exact .inl (.inl ⟨caller, by rw [checked, stopping]⟩)

theorem placed_of_calling {sub : Fin n} {action : LoopAction Task (SubCaller n)}
    {loop : LoopThread Task (SubCaller n)} {entry : SocketId × Fin n}
    (may : s.subMay sub action = true)
    (steps : (s.subReactors sub).Steps Task.stopsLoop action loop)
    (unstopped : s.dispatching ≠ .idle → (s.subReactors sub).stop = false)
    (calling : s.dispatching = .calling entry.1) (here : entry.2 = s.subIdx) :
    (s.afterSub sub action loop).Placed entry := by
  have same := same_afterSub (s := s) sub action loop
  unfold Placed
  rw [subReactors_afterSub, same.2.2.2.1, same.2.2.2.2]
  rcases dispatching_afterSub loop may with ⟨kept, _⟩ | ⟨sck, other, rfl, _, rfl⟩
  · exact .inl ⟨kept.trans calling, here⟩
  · rw [calling, Dispatch.calling.injEq] at other
    have moved : loop.callers (some .mainReactor) =
        .checked (.addConnection sck s.useThreadPool) := by
      cases steps with
      | check caller func idle outside unstopped => exact LoopThread.callers_moveCaller_self ..
      | refuse caller func idle stopped =>
          exact absurd ((unstopped (by simp [calling])).symm.trans stopped) (by simp)
    rw [here, other, Function.update_self]
    exact .inr (.inl moved)

theorem placed_of_checked {sub : Fin n} {action : LoopAction Task (SubCaller n)}
    {loop : LoopThread Task (SubCaller n)} {entry : SocketId × Fin n}
    (steps : (s.subReactors sub).Steps Task.stopsLoop action loop)
    (unasked : ∀ queued ∈ (s.subReactors entry.2).pushed, queued.func ≠ .stop)
    (checked : (s.subReactors entry.2).callers (some .mainReactor) =
      .checked (.addConnection entry.1 s.useThreadPool)) :
    (s.afterSub sub action loop).Placed entry := by
  unfold Placed
  rw [subReactors_afterSub, (same_afterSub sub action loop).2.2.2.2]
  by_cases own : entry.2 = sub
  · subst own
    rw [Function.update_self]
    cases steps with
    | check caller func idle outside unstopped =>
        have differs : some .mainReactor ≠ caller := by
          rintro rfl
          exact absurd (idle.symm.trans checked) (by simp)
        exact .inr (.inl ((LoopThread.callers_moveCaller_of_ne _ differs _).trans checked))
    | push caller func passed queued func_eq iteration byTask =>
        by_cases mine : some .mainReactor = caller
        · subst mine
          rw [checked, Enqueuing.checked.injEq] at passed
          have before : ∀ other ∈ (s.subReactors entry.2).pushed ++ [queued],
              other.func ≠ .stop := by
            intro other member stopping
            rcases List.mem_append.mp member with earlier | last
            · exact unasked other earlier stopping
            · rw [List.mem_singleton.mp last, func_eq, ← passed] at stopping
              cases stopping
          refine .inr (.inr ⟨queued, mem_beforeStop_of_unasked ?_ before, ?_⟩)
          · exact List.mem_append_right _ (List.mem_singleton_self _)
          · rw [func_eq, passed]
        · exact .inr (.inl ((LoopThread.callers_moveCaller_of_ne _ mine _).trans checked))
    | write caller again pushed =>
        have differs : some .mainReactor ≠ caller := by
          rintro rfl
          exact absurd (pushed.symm.trans checked) (by simp)
        exact .inr (.inl ((LoopThread.callers_moveCaller_of_ne _ differs _).trans checked))
    | _ => exact .inr (.inl checked)
  · rw [Function.update_of_ne own]
    exact .inr (.inl checked)

theorem placed_of_queued {sub : Fin n} {action : LoopAction Task (SubCaller n)}
    {loop : LoopThread Task (SubCaller n)} {entry : SocketId × Fin n} {queued : Queued Task}
    (steps : (s.subReactors sub).Steps Task.stopsLoop action loop)
    (member : queued ∈ beforeStop (s.subReactors entry.2).pushed)
    (func : queued.func = .addConnection entry.1 s.useThreadPool) :
    (s.afterSub sub action loop).Placed entry := by
  unfold Placed
  rw [subReactors_afterSub, (same_afterSub sub action loop).2.2.2.2]
  refine .inr (.inr ⟨queued, ?_, func⟩)
  by_cases own : entry.2 = sub
  · subst own
    rw [Function.update_self]
    rcases LoopThread.pushed_steps steps with kept | ⟨_, _, _, _, grown⟩
    · rw [kept]
      exact member
    · rw [grown]
      exact mem_beforeStop_append member
  · rw [Function.update_of_ne own]
    exact member

/-- The task for a socket moves from the main reactor to the queue, before any stop task. -/
theorem placed_afterSub {sub : Fin n} {action : LoopAction Task (SubCaller n)}
    {loop : LoopThread Task (SubCaller n)} {entry : SocketId × Fin n} (orderly : s.Orderly)
    (may : s.subMay sub action = true)
    (steps : (s.subReactors sub).Steps Task.stopsLoop action loop)
    (running : ∀ sub, (s.subReactors sub).stop = true → StopAsked (s.subReactors sub))
    (placed : s.Placed entry) : (s.afterSub sub action loop).Placed entry := by
  have unasked := orderly.unasked
  rcases placed with ⟨calling, here⟩ | checked | ⟨queued, member, func⟩
  · refine placed_of_calling may steps ?_ calling here
    intro busy
    rw [← Bool.not_eq_true]
    intro stopped
    exact unasked busy sub (running sub stopped)
  · refine placed_of_checked steps ?_ checked
    have called := (orderly.calling entry.2 (by rw [checked]; simp)).1
    intro queued member stopping
    exact unasked (by simp [called]) entry.2 (.inr ⟨queued, member, stopping⟩)
  · exact placed_of_queued steps member func

theorem orderly_sub {sub : Fin n} {action : LoopAction Task (SubCaller n)}
    {loop : LoopThread Task (SubCaller n)} (orderly : s.Orderly)
    (running : ∀ sub, (s.subReactors sub).stop = true → StopAsked (s.subReactors sub))
    (may : s.subMay sub action = true)
    (steps : (s.subReactors sub).Steps Task.stopsLoop action loop) :
    (s.afterSub sub action loop).Orderly := by
  have same := same_afterSub (s := s) sub action loop
  have later : s.control.stage ≤ (s.afterSub sub action loop).control.stage := by
    rcases control_afterSub loop may with ⟨kept, _⟩ | ⟨before, after⟩
    · rw [kept]
    · rw [before, after]
      simp [Control.stage]
  refine ⟨?_, ?_, ?_, ?_, ?_, ?_, ?_, ?_⟩
  · intro busy
    rw [same.1]
    apply orderly.dispatching
    rcases dispatching_afterSub loop may with ⟨kept, _⟩ | ⟨sck, calling, _⟩
    · rwa [kept] at busy
    · simp [calling]
  · intro other busy
    rw [subReactors_afterSub] at busy
    rw [same.2.2.2.1]
    have known : (s.subReactors other).callers (some .mainReactor) ≠ .idle →
        (s.afterSub sub action loop).dispatching = .called ∧ other = s.subIdx := by
      intro busy
      have calling := orderly.calling other busy
      rcases dispatching_afterSub loop may with ⟨kept, _⟩ | ⟨_, _, _, after, _⟩
      · exact ⟨kept.trans calling.1, calling.2⟩
      · exact ⟨after, calling.2⟩
    by_cases own : other = sub
    · subst own
      rw [Function.update_self] at busy
      rcases LoopThread.callers_steps steps (some .mainReactor) with
        kept | ⟨func, rfl, _, _⟩ | ⟨rfl, _⟩ | ⟨_, idle⟩
      · rw [kept] at busy
        exact known busy
      · rcases dispatching_afterSub loop may with ⟨_, others⟩ | ⟨_, _, here, after, _⟩
        · exact absurd rfl (others func)
        · exact ⟨after, here⟩
      · cases steps with
        | push _ _ checked _ _ _ _ => exact known (by rw [checked]; simp)
      · exact absurd idle busy
    · rw [Function.update_of_ne own] at busy
      exact known busy
  · intro late
    rw [same.1]
    apply orderly.mainJoined
    rcases control_afterSub loop may with ⟨kept, _⟩ | ⟨before, _⟩
    · rwa [kept] at late
    · rw [before, Control.stage]
      omega
  · intro other late
    rw [subReactors_afterSub]
    have exited : (s.subReactors other).phase = .exited := by
      apply orderly.subJoined other
      rcases control_afterSub loop may with ⟨kept, _⟩ | ⟨before, after⟩
      · rwa [kept] at late
      · rw [after, Control.stage] at late
        rw [before, Control.stage]
        omega
    by_cases own : other = sub
    · subst own
      rw [Function.update_self]
      exact LoopThread.exited_steps steps exited
    · rw [Function.update_of_ne own]
      exact exited
  · rw [same.2.1]
    intro stopped
    exact (orderly.poolStopped stopped).trans later
  · rw [same.2.1]
    exact orderly.unthrown
  · intro other asked
    rw [subReactors_afterSub] at asked
    by_cases own : other = sub
    · subst own
      rw [Function.update_self] at asked
      rcases stopAsked_afterSub may steps asked with earlier | rfl
      · exact (orderly.stopping other earlier).trans later
      · rcases control_afterSub loop may with ⟨_, others⟩ | ⟨_, after⟩
        · exact absurd rfl others
        · rw [after, Control.stage]
          omega
    · rw [Function.update_of_ne own] at asked
      exact (orderly.stopping other asked).trans later
  · rw [same.2.2.1]
    intro entry member
    exact placed_afterSub orderly may steps running (orderly.placed entry member)

theorem orderly_pool {action : PoolAction n (Fin n × Job) (Fin n)}
    {pool : ThreadPool n (Fin n × Job) (Fin n)} (orderly : s.Orderly)
    (may : s.poolMay action = true) (steps : s.threadpool.Steps action pool) :
    (s.afterPool action pool).Orderly := by
  refine ⟨orderly.dispatching, orderly.calling, orderly.mainJoined, orderly.subJoined, ?_, ?_,
    orderly.stopping, orderly.placed⟩
  · cases steps with
    | stop idle =>
        intro _
        have stopping : s.control = .stoppingPool := of_decide_eq_true may
        change 3 + 2 * n ≤ s.control.stage
        rw [stopping, Control.stage]
    | _ => exact orderly.poolStopped
  · cases steps with
    | throws caller func stopped outside =>
        have allowed := of_decide_eq_true may
        have late := orderly.poolStopped stopped
        have bound := caller.isLt
        have exited : (s.subReactors caller).phase = .exited := by
          apply orderly.subJoined caller
          omega
        rw [exited] at allowed
        exact absurd allowed.2.1 (by simp [LoopPhase.inCode])
    | push caller func unstopped outside =>
        exact ThreadPool.ne_threw_moveCaller orderly.unthrown (by simp)
    | notifyOne caller worker owed asleep =>
        exact ThreadPool.ne_threw_moveCaller orderly.unthrown (by simp)
    | notifyNone caller owed awake =>
        exact ThreadPool.ne_threw_moveCaller orderly.unthrown (by simp)
    | _ => exact orderly.unthrown

theorem Orderly.advance {control : Control n} (orderly : s.Orderly)
    (later : s.control.stage ≤ control.stage)
    (mainJoined : 3 ≤ control.stage → s.mainReactor.phase = .exited)
    (subJoined : ∀ sub : Fin n, 4 + 2 * sub < control.stage →
      (s.subReactors sub).phase = .exited) :
    Orderly { s with control := control } := by
  refine ⟨orderly.dispatching, orderly.calling, mainJoined, subJoined, ?_, orderly.unthrown, ?_,
    orderly.placed⟩
  · intro stopped
    exact (orderly.poolStopped stopped).trans later
  · intro sub asked
    exact (orderly.stopping sub asked).trans later

theorem orderly_steps (orderly : s.Orderly)
    (running : ∀ sub, (s.subReactors sub).stop = true → StopAsked (s.subReactors sub))
    (steps : Steps s action next) : next.Orderly := by
  cases steps with
  | main action loop may steps moved => exact orderly_main orderly may steps
  | accept port unread phased idle => exact orderly_accept orderly phased idle
  | dispatched subIdx called idle => exact orderly_dispatched orderly called idle
  | sub sub action loop may steps moved => exact orderly_sub orderly running may steps
  | pool action pool may steps => exact orderly_pool orderly may steps
  | stop serving =>
      refine orderly.advance ?_ (fun late => ?_) (fun sub late => ?_)
      · simp [serving, Control.stage]
      · simp [Control.stage] at late
      · simp only [Control.stage] at late
        omega
  | joinMain joining exited =>
      refine orderly.advance ?_ (fun _ => exited) (fun sub late => ?_)
      · rw [joining]
        exact le_trans (by simp [Control.stage]) (stage_nextControl (Nat.zero_le n))
      · exact absurd (lt_of_stage_nextControl late) (Nat.not_lt_zero _)
  | joinSub sub joining exited =>
      have stage : s.control.stage = 4 + 2 * sub := by rw [joining, Control.stage]
      refine orderly.advance ?_ (fun _ => orderly.mainJoined ?_) (fun other late => ?_)
      · rw [stage]
        exact le_trans (by omega) (stage_nextControl sub.isLt)
      · omega
      · rcases Nat.lt_succ_iff_lt_or_eq.mp (lt_of_stage_nextControl late) with earlier | same
        · exact orderly.subJoined other (by omega)
        · rw [Fin.ext same]
          exact exited
  | joinPool stopping =>
      have stage : s.control.stage = 3 + 2 * n := by rw [stopping, Control.stage]
      refine orderly.advance ?_ (fun _ => orderly.mainJoined ?_) (fun sub late => ?_)
      · rw [stage, Control.stage]
        omega
      · omega
      · have bound := sub.isLt
        exact orderly.subJoined sub (by omega)

section

variable [NeZero n] {useThreadPool : Bool}

theorem stopAsked_of_stop (reachable : s.Reachable useThreadPool) (sub : Fin n)
    (stopped : (s.subReactors sub).stop = true) : StopAsked (s.subReactors sub) := by
  rcases LoopThread.stopping_pushed (subReactors_reachable reachable sub) stopped with
    ⟨entry, pushed, stopping⟩
  refine .inr ⟨entry, pushed, ?_⟩
  cases func : entry.func with
  | stop => rfl
  | _ => simp [func, Task.stopsLoop] at stopping

theorem orderly_of_reachable (reachable : s.Reachable useThreadPool) : s.Orderly := by
  apply reachable.reachable_invariant Orderly
  · refine ⟨fun busy => absurd rfl busy, fun sub busy => absurd rfl busy, ?_, ?_, ?_, ?_, ?_, ?_⟩
    · intro late
      exact absurd late (by simp [init, Control.stage])
    · intro sub late
      exact absurd late (by simp [init, Control.stage])
    · intro stopped
      cases stopped
    · intro sub threw
      cases threw
    · rintro sub (⟨caller, checked⟩ | ⟨entry, member, _⟩)
      · cases checked
      · cases member
    · intro entry member
      cases member
  · intro state action next reached orderly _ stepped
    exact orderly_steps orderly (stopAsked_of_stop reached) (steps_of_step stepped)

theorem mem_of_mem_beforeStop {before after : List (Queued Task)} {stopTask entry : Queued Task}
    (stopping : stopTask.func = .stop) (member : entry ∈ beforeStop (before ++ stopTask :: after)) :
    entry ∈ before := by
  have stops : (!stopTask.func.stopsLoop) = false := by rw [stopping]; rfl
  rw [beforeStop, List.takeWhile_append] at member
  split at member
  · rw [List.takeWhile_cons_of_neg (by simp [stops]), List.append_nil] at member
    exact member
  · exact (List.takeWhile_prefix _).subset member

theorem added_before_stop (reachable : s.Reachable useThreadPool) {entry : SocketId × Fin n}
    (accepted : entry ∈ s.accepted) {before after : List (Queued Task × ℕ)}
    {stopTask : Queued Task × ℕ}
    (ran : (s.subReactors entry.2).ran = before ++ stopTask :: after)
    (stopping : stopTask.1.func = .stop) :
    ∃ added ∈ before, added.1.func = .addConnection entry.1 useThreadPool := by
  have orderly := orderly_of_reachable reachable
  have ordered := LoopThread.ordered_of_reachable (subReactors_reachable reachable entry.2)
  have pushed : (s.subReactors entry.2).pushed = before.map Prod.fst ++
      stopTask.1 :: (after.map Prod.fst ++ (s.subReactors entry.2).phase.todo ++
        (s.subReactors entry.2).tasks) := by
    rw [ordered.pushed, ran]
    simp only [List.map_append, List.map_cons, List.append_assoc, List.cons_append]
  have asked : StopAsked (s.subReactors entry.2) := by
    refine .inr ⟨stopTask.1, ?_, stopping⟩
    rw [pushed]
    exact List.mem_append_right _ (List.mem_cons_self ..)
  have idle : s.dispatching = .idle := by
    by_contra busy
    exact orderly.unasked busy entry.2 asked
  rw [← useThreadPool_of_reachable reachable]
  rcases orderly.placed entry accepted with ⟨calling, _⟩ | checked | ⟨queued, member, func⟩
  · exact absurd (idle.symm.trans calling) (by simp)
  · have called := (orderly.calling entry.2 (by rw [checked]; simp)).1
    exact absurd (idle.symm.trans called) (by simp)
  · rw [pushed] at member
    rcases List.mem_map.mp (mem_of_mem_beforeStop stopping member) with ⟨added, inBefore, rfl⟩
    exact ⟨added, inBefore, func⟩

/-- The task makes the connection that owns the socket, and the table lists it. -/
theorem owned_of_addConnection {reactor after : SubReactor} {now : Timespec}
    {writes : List WriteResult} {sck : SocketId} {taskSubmit : Bool}
    (ran : reactor.runTask now writes (.addConnection sck taskSubmit) = some after) :
    ∃ c conn, (sck, c) ∈ after.connections ∧ after.heap c = some conn ∧ conn.sck = sck := by
  cases ran
  exact ⟨reactor.nextConn, _, List.mem_cons_self .., Function.update_self .., rfl⟩

theorem poll_eq_none {Func Caller : Type} [DecidableEq Caller] {stops : Func → Bool}
    {loop : LoopThread Func Caller} (reachable : loop.Reachable stops)
    {entry : Queued Func × ℕ} (ran : entry ∈ loop.ran) (stopping : stops entry.1.func = true)
    (reported : Bool) : loop.step stops (.poll reported) = none := by
  rw [Option.eq_none_iff_forall_ne_some]
  intro next stepped
  have elsewhere := LoopThread.phase_ne_polling reachable ran stopping
  cases LoopThread.steps_of_step stepped with
  | report outside phased edge readable => exact elsewhere phased
  | poll outside phased => exact elsewhere phased

/-- A server that stops drops no socket that it accepted: the task of each runs
before the stop task of its sub-reactor, and makes the connection that owns it; the
check of `enqueueTask` lets the main reactor pass. A loop does not poll after its
stop task has begun. Nobody enqueues on a stopped pool. -/
theorem shutdown_in_order (reachable : s.Reachable useThreadPool) :
    (∀ entry ∈ s.accepted, ∀ before stopTask after,
      (s.subReactors entry.2).ran = before ++ stopTask :: after → stopTask.1.func = .stop →
        ∃ added ∈ before, added.1.func = .addConnection entry.1 useThreadPool) ∧
    (∀ sub func next, s.step (.sub sub (.check (some .mainReactor) func)) = some next →
      (next.subReactors sub).callers (some .mainReactor) = .checked func) ∧
    (∀ (reactor after : SubReactor) now writes sck,
      reactor.runTask now writes (.addConnection sck useThreadPool) = some after →
        ∃ c conn, (sck, c) ∈ after.connections ∧ after.heap c = some conn ∧ conn.sck = sck) ∧
    (∀ entry ∈ s.mainReactor.ran, entry.1.func = .stop →
      ∀ reported, s.step (.main (.poll reported)) = none) ∧
    (∀ sub, ∀ entry ∈ (s.subReactors sub).ran, entry.1.func = .stop →
      ∀ reported, s.step (.sub sub (.poll reported)) = none) ∧
    (s.threadpool.stop_ = true → ∀ caller func, s.step (.pool (.enqueue caller func)) = none) ∧
    ∀ caller, s.threadpool.callers caller ≠ .threw := by
  have orderly := orderly_of_reachable reachable
  refine ⟨?_, ?_, ?_, ?_, ?_, ?_, orderly.unthrown⟩
  · intro entry accepted before stopTask after ran stopping
    exact added_before_stop reachable accepted ran stopping
  · intro sub func next stepped
    cases steps_of_step stepped with
    | sub _ _ loop may steps moved =>
        rw [subReactors_afterSub, Function.update_self]
        cases steps with
        | check _ _ idle outside unstopped => exact LoopThread.callers_moveCaller_self ..
        | refuse _ _ idle stopped =>
            rcases dispatching_afterSub (s.subReactors sub) may with
              ⟨_, others⟩ | ⟨sck, calling, _⟩
            · exact absurd rfl (others func)
            · exact absurd (stopAsked_of_stop reachable sub stopped)
                (orderly.unasked (by simp [calling]) sub)
  · intro reactor after now writes sck ran
    exact owned_of_addConnection ran
  · intro entry ran stopping reported
    rw [Option.eq_none_iff_forall_ne_some]
    intro next stepped
    cases steps_of_step stepped with
    | main _ loop may steps moved =>
        have stuck := poll_eq_none (mainReactor_reachable reachable) ran (by rw [stopping]; rfl)
          reported
        exact absurd (stuck.symm.trans moved) (by simp)
  · intro sub entry ran stopping reported
    rw [Option.eq_none_iff_forall_ne_some]
    intro next stepped
    cases steps_of_step stepped with
    | sub _ _ loop may steps moved =>
        have stuck := poll_eq_none (subReactors_reachable reachable sub) ran (by rw [stopping]; rfl)
          reported
        exact absurd (stuck.symm.trans moved) (by simp)
  · intro stopped caller func
    rw [Option.eq_none_iff_forall_ne_some]
    intro next stepped
    cases steps_of_step stepped with
    | pool _ pool may steps =>
        have allowed := of_decide_eq_true may
        have late := orderly.poolStopped stopped
        have bound := caller.isLt
        rw [orderly.subJoined caller (by omega)] at allowed
        exact absurd allowed.2.1 (by simp [LoopPhase.inCode])

/-- A socket is accepted when `Server::stop` has already begun. -/
theorem shutdown_in_order_accepting :
    ∃ s : Server 1, s.Reachable true ∧ s.control = .stopped ∧ s.accepted = [(0, 0)] ∧
      (∀ before stopTask after, (s.subReactors 0).ran = before ++ stopTask :: after →
        stopTask.1.func = .stop → ∃ added ∈ before, added.1.func = .addConnection 0 true) ∧
      ∀ caller func, s.step (.pool (.enqueue caller func)) = none := by
  have ran : ((Transition.run step Transition.anyAction (init true : Server 1)
      [.main (.check (some ()) (.listenPort 8888)), .main (.push (some ())),
        .main (.write (some ()) false), .main (.poll true), .main .read, .main .timer,
        .main .drain, .main .start, .main .finish, .main .endLoop, .main (.poll false),
        .control, .main (.check (some ()) .stop), .accept 8888, .main (.push (some ())),
        .main (.write (some ()) false),
        .sub 0 (.check (some .mainReactor) (.addConnection 0 true)),
        .sub 0 (.push (some .mainReactor)), .sub 0 (.write (some .mainReactor) false),
        .dispatched, .main .timer, .main .drain, .main .start, .main .finish, .main .endLoop,
        .control, .sub 0 (.check (some .control) .stop), .sub 0 (.push (some .control)),
        .sub 0 (.write (some .control) false), .sub 0 (.poll true), .sub 0 .read,
        .sub 0 .timer, .sub 0 .drain, .sub 0 .start, .sub 0 .finish, .sub 0 .start,
        .sub 0 .finish, .sub 0 .endLoop, .control, .pool .stop, .pool .notifyAll,
        .pool (.look 0), .pool .join, .pool .join, .control]).map fun s =>
          (s.control, s.accepted, s.threadpool.stop_)) = some (.stopped, [(0, 0)], true) := by
    decide +kernel
  rcases Option.map_eq_some_iff.mp ran with ⟨s, ran, looked⟩
  simp only [Prod.mk.injEq] at looked
  have reachable : s.Reachable true := Transition.reaches_of_run ran
  rcases shutdown_in_order reachable with ⟨added, _, _, _, _, pool, _⟩
  exact ⟨s, reachable, looked.1, looked.2.1, added (0, 0) (by rw [looked.2.1]; simp),
    pool looked.2.2⟩

end

end Server

end MiniWebServer
