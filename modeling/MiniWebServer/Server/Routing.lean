import MiniWebServer.Server.Shutdown

/-!
# Where the accepted sockets go

`Server::handleNewConnection` gives the sockets to the sub-reactors in turn. A
socket is on its way for a while, in a call of `enqueueTask` that the loops and
the control thread interleave with. Each sub-reactor gets its turns and nothing
else, each socket once and in the order in which they were accepted, and when it
has left its loop it has run the task of every one of them.
-/

namespace MiniWebServer

/-- The socket that a task makes a connection of. -/
def Task.sck? : Task → Option SocketId
  | .addConnection sck _ => some sck
  | .removeConnection _ => none
  | .respond _ _ => none
  | .stop => none

/-- The sockets that the tasks make connections of. -/
def connects (tasks : List (Queued Task)) : List SocketId :=
  tasks.filterMap fun entry => entry.func.sck?

namespace LoopThread

variable {n : ℕ} {loop next : LoopThread Task (SubCaller n)}
  {action : LoopAction Task (SubCaller n)}

/-- The socket with which the main reactor has passed the check of `enqueueTask`. -/
def passed (loop : LoopThread Task (SubCaller n)) : List SocketId :=
  match loop.callers (some .mainReactor) with
  | .checked func => func.sck?.toList
  | _ => []

/-- The sockets that have reached the loop. -/
def given (loop : LoopThread Task (SubCaller n)) : List SocketId :=
  connects loop.pushed ++ loop.passed

/-- Only the main reactor brings sockets. -/
def OnlyMain (loop : LoopThread Task (SubCaller n)) : Prop :=
  ∀ caller func, caller ≠ some .mainReactor → loop.callers caller = .checked func →
    func.sck? = none

theorem passed_moveCaller_of_ne {caller : Option (SubCaller n)} (other : caller ≠ some .mainReactor)
    (place : Enqueuing Task) : (loop.moveCaller caller place).passed = loop.passed := by
  rw [passed, passed, callers_moveCaller_of_ne loop other.symm]

theorem given_steps (only : loop.OnlyMain)
    (steps : loop.Steps Task.stopsLoop action next) :
    (next.given = loop.given ∧
        ∀ func, action = .check (some .mainReactor) func → loop.stop = true) ∨
      ∃ func, action = .check (some .mainReactor) func ∧
        next.given = loop.given ++ func.sck?.toList := by
  cases steps with
  | check caller func idle outside unstopped =>
      by_cases own : caller = some .mainReactor
      · subst own
        refine .inr ⟨func, rfl, ?_⟩
        have before : loop.passed = [] := by simp [passed, idle]
        have after : (loop.moveCaller (some .mainReactor) (.checked func)).passed =
            func.sck?.toList := by
          simp [passed]
        rw [given, given, before, after, List.append_nil]
        rfl
      · refine .inl ⟨?_, fun other same => ?_⟩
        · rw [given, given, passed_moveCaller_of_ne own]
          rfl
        · exact absurd (LoopAction.check.inj same).1 own
  | refuse caller func idle stopped => exact .inl ⟨rfl, fun _ _ => stopped⟩
  | push caller func checked entry same iteration byTask =>
      refine .inl ⟨?_, fun _ absurdity => nomatch absurdity⟩
      have grown : connects (loop.pushed ++ [entry]) =
          connects loop.pushed ++ func.sck?.toList := by
        rw [connects, List.filterMap_append, ← same]
        cases sck : entry.func.sck? <;> simp [connects, sck]
      by_cases own : caller = some .mainReactor
      · subst own
        have before : loop.passed = func.sck?.toList := by simp [passed, checked]
        have after : (loop.moveCaller (some .mainReactor) .pushed).passed = [] := by
          simp [passed]
        rw [given, given, before]
        change connects (loop.pushed ++ [entry]) ++
          (loop.moveCaller (some .mainReactor) .pushed).passed = _
        rw [grown, after, List.append_nil]
      · rw [only caller func own checked, Option.toList_none, List.append_nil] at grown
        change connects (loop.pushed ++ [entry]) ++ (loop.moveCaller caller .pushed).passed = _
        rw [grown, passed_moveCaller_of_ne own, given]
  | write caller again pushed =>
      refine .inl ⟨?_, fun _ absurdity => nomatch absurdity⟩
      by_cases own : caller = some .mainReactor
      · subst own
        have before : loop.passed = [] := by simp [passed, pushed]
        have after : (loop.moveCaller (some .mainReactor) .idle).passed = [] := by simp [passed]
        rw [given, given, before, ← after]
        rfl
      · change connects loop.pushed ++ (loop.moveCaller caller .idle).passed = _
        rw [passed_moveCaller_of_ne own, given]
  | _ => exact .inl ⟨rfl, fun _ absurdity => nomatch absurdity⟩

end LoopThread

namespace Server

variable {n : ℕ} {s next : Server n} {action : ServerAction n}

/-- The sockets whose turn it was to go to a sub-reactor. -/
def turns (s : Server n) (sub : Fin n) : List SocketId :=
  (List.range s.nextSocket).filter fun sck => sck % n = sub

/-- The sockets that were accepted for a sub-reactor. -/
def share (s : Server n) (sub : Fin n) : List SocketId :=
  (s.accepted.filter fun entry => entry.2 = sub).map Prod.fst

/-- The socket with which `addConnection` of a sub-reactor is called. -/
def calls (s : Server n) (sub : Fin n) : List SocketId :=
  match s.dispatching with
  | .calling sck => if sub = s.subIdx then [sck] else []
  | _ => []

/-- The sockets that were accepted, and where they are. -/
structure Routed (s : Server n) : Prop where
  accepted : s.accepted.map Prod.fst = List.range s.nextSocket
  turn : ∀ entry ∈ s.accepted, entry.1 % n = entry.2
  resting : s.dispatching = .idle → s.nextSocket % n = s.subIdx
  busy : s.dispatching ≠ .idle → ∃ last, s.nextSocket = last + 1 ∧ last % n = s.subIdx
  onlyMain : ∀ sub, (s.subReactors sub).OnlyMain
  given : ∀ sub, (s.subReactors sub).given ++ s.calls sub = s.turns sub

theorem turns_accept (s : Server n) (sub : Fin n) :
    (List.range (s.nextSocket + 1)).filter (fun sck => sck % n = sub) =
      s.turns sub ++ if s.nextSocket % n = sub then [s.nextSocket] else [] := by
  rw [turns, List.range_succ, List.filter_append, List.filter_singleton]
  simp

theorem onlyMain_afterSub {sub : Fin n} {action : LoopAction Task (SubCaller n)}
    {loop : LoopThread Task (SubCaller n)} (only : (s.subReactors sub).OnlyMain)
    (may : s.subMay sub action = true)
    (steps : (s.subReactors sub).Steps Task.stopsLoop action loop) : loop.OnlyMain := by
  intro caller func other checked
  rcases LoopThread.callers_steps steps caller with
    same | ⟨asked, rfl, _, moved⟩ | ⟨_, moved⟩ | ⟨_, moved⟩
  · exact only caller func other (same.symm.trans checked)
  · rw [moved, Enqueuing.checked.injEq] at checked
    subst checked
    simp only [subMay, mayEnqueue] at may
    rcases caller with _ | _ | _ | worker
    · cases asked with
      | addConnection sck taskSubmit => cases may
      | _ => rfl
    · exact absurd rfl other
    · rw [(of_decide_eq_true may).2]
      rfl
    · simp only at may
      split at may
      · rw [(of_decide_eq_true may).2.1]
        rfl
      · cases may
  · exact absurd (moved.symm.trans checked) (by simp)
  · exact absurd (moved.symm.trans checked) (by simp)

theorem nextSocket_afterSub (sub : Fin n) (action : LoopAction Task (SubCaller n))
    (loop : LoopThread Task (SubCaller n)) :
    (s.afterSub sub action loop).nextSocket = s.nextSocket := by
  rcases action with ⟨_ | _ | _ | _, func⟩ | _ | _ | _ | _ | _ | _ | _ | _ | _ <;> rfl

/-- A step of a sub-reactor takes a socket over from the main reactor, or moves none. -/
theorem given_afterSub {sub : Fin n} {action : LoopAction Task (SubCaller n)}
    {loop : LoopThread Task (SubCaller n)} (routed : s.Routed) (orderly : s.Orderly)
    (running : ∀ sub, (s.subReactors sub).stop = true → StopAsked (s.subReactors sub))
    (may : s.subMay sub action = true)
    (steps : (s.subReactors sub).Steps Task.stopsLoop action loop) (other : Fin n) :
    ((s.afterSub sub action loop).subReactors other).given ++
        (s.afterSub sub action loop).calls other =
      (s.subReactors other).given ++ s.calls other := by
  have subIdx := (same_afterSub (s := s) sub action loop).2.2.2.1
  rw [subReactors_afterSub]
  rcases dispatching_afterSub loop may with ⟨kept, notMain⟩ | ⟨sck, calling, here, called, checks⟩
  · have calls : (s.afterSub sub action loop).calls other = s.calls other := by
      rw [calls, calls, kept, subIdx]
    rw [calls]
    by_cases own : other = sub
    · subst own
      rw [Function.update_self]
      rcases LoopThread.given_steps (routed.onlyMain other) steps with ⟨same, _⟩ | ⟨func, main, _⟩
      · rw [same]
      · exact absurd main (notMain func)
    · rw [Function.update_of_ne own]
  · have after : (s.afterSub sub action loop).calls other = [] := by
      simp [calls, called]
    have before : s.calls other = if other = sub then [sck] else [] := by
      simp [calls, calling, here]
    rw [after, before, List.append_nil]
    by_cases own : other = sub
    · subst own
      rw [Function.update_self, if_pos rfl]
      rcases LoopThread.given_steps (routed.onlyMain other) steps with
        ⟨_, stopped⟩ | ⟨func, main, grown⟩
      · exact absurd (running other (stopped _ checks)) (orderly.unasked (by simp [calling]) other)
      · rw [checks, LoopAction.check.injEq] at main
        rw [grown, ← main.2]
        rfl
    · rw [Function.update_of_ne own, if_neg own, List.append_nil]

theorem routed_sub {sub : Fin n} {action : LoopAction Task (SubCaller n)}
    {loop : LoopThread Task (SubCaller n)} (routed : s.Routed) (orderly : s.Orderly)
    (running : ∀ sub, (s.subReactors sub).stop = true → StopAsked (s.subReactors sub))
    (may : s.subMay sub action = true)
    (steps : (s.subReactors sub).Steps Task.stopsLoop action loop) :
    (s.afterSub sub action loop).Routed := by
  rcases same_afterSub (s := s) sub action loop with ⟨_, _, accepted, subIdx, _⟩
  have nextSocket := nextSocket_afterSub (s := s) sub action loop
  have rests : (s.afterSub sub action loop).dispatching = .idle ↔ s.dispatching = .idle := by
    rcases dispatching_afterSub loop may with ⟨kept, _⟩ | ⟨sck, calling, _, called, _⟩
    · rw [kept]
    · simp [calling, called]
  refine ⟨?_, ?_, ?_, ?_, ?_, ?_⟩
  · rw [accepted, nextSocket]
    exact routed.accepted
  · rw [accepted]
    exact routed.turn
  · rw [rests, nextSocket, subIdx]
    exact routed.resting
  · rw [ne_eq, rests, nextSocket, subIdx]
    exact routed.busy
  · intro other
    rw [subReactors_afterSub]
    by_cases own : other = sub
    · subst own
      rw [Function.update_self]
      exact onlyMain_afterSub (routed.onlyMain other) may steps
    · rw [Function.update_of_ne own]
      exact routed.onlyMain other
  · intro other
    rw [given_afterSub routed orderly running may steps, turns, nextSocket]
    exact routed.given other

theorem routed_accept (routed : s.Routed) (idle : s.dispatching = .idle) :
    Routed
      { s with
        dispatching := .calling s.nextSocket
        accepted := s.accepted ++ [(s.nextSocket, s.subIdx)]
        nextSocket := s.nextSocket + 1 } := by
  have turn := routed.resting idle
  refine ⟨?_, ?_, (fun rests => by cases rests), fun _ => ⟨s.nextSocket, rfl, turn⟩,
    routed.onlyMain, ?_⟩
  · simp [routed.accepted, List.range_succ]
  · intro entry member
    rcases List.mem_append.mp member with earlier | new
    · exact routed.turn entry earlier
    · rw [List.mem_singleton.mp new]
      exact turn
  · intro sub
    have before : s.calls sub = [] := by simp [calls, idle]
    have known := routed.given sub
    rw [before, List.append_nil] at known
    rw [turns, turns_accept, ← known, turn]
    have same : ((s.subIdx : ℕ) = sub) ↔ sub = s.subIdx :=
      ⟨fun eq => (Fin.ext eq).symm, fun eq => by rw [eq]⟩
    simp only [calls, same]

theorem routed_dispatched (routed : s.Routed) (dispatched : s.dispatched = some next) :
    next.Routed := by
  simp only [Server.dispatched, Option.ite_none_right_eq_some, Option.some.injEq] at dispatched
  rcases dispatched with ⟨⟨called, _⟩, rfl⟩
  refine ⟨routed.accepted, routed.turn, fun _ => ?_, fun busy => absurd rfl busy,
    routed.onlyMain, ?_⟩
  · rcases routed.busy (by simp [called]) with ⟨last, count, turn⟩
    simp only
    rw [count, ← turn, Nat.mod_add_mod]
  · intro sub
    have before : s.calls sub = [] := by simp [calls, called]
    have known := routed.given sub
    rw [before] at known
    exact known

section

variable [NeZero n] {useThreadPool : Bool}

theorem routed_of_reachable (reachable : s.Reachable useThreadPool) : s.Routed := by
  apply reachable.reachable_invariant Routed
  · refine ⟨rfl, fun entry member => (nomatch member), fun _ => ?_, fun busy => absurd rfl busy,
      fun sub caller func _ checked => ?_, fun sub => rfl⟩
    · simp [init]
    · cases checked
  · intro state action next reached routed _ stepped
    have orderly := orderly_of_reachable reached
    cases steps_of_step stepped with
    | main action loop may steps moved =>
        exact ⟨routed.accepted, routed.turn, routed.resting, routed.busy, routed.onlyMain,
          routed.given⟩
    | accept port unread phased idle => exact routed_accept routed idle
    | dispatched subIdx called idle =>
        unfold step at stepped
        split at stepped
        · cases stepped
        · exact routed_dispatched routed stepped
    | sub sub action loop may steps moved =>
        exact routed_sub routed orderly (stopAsked_of_stop reached) may steps
    | _ =>
        exact ⟨routed.accepted, routed.turn, routed.resting, routed.busy, routed.onlyMain,
          routed.given⟩

end

theorem Routed.share_eq_turns (routed : s.Routed) (sub : Fin n) : s.share sub = s.turns sub := by
  rw [turns, ← routed.accepted, List.filter_map, share]
  congr 1
  apply List.filter_congr
  intro entry member
  rw [Function.comp_apply, routed.turn entry member]
  exact decide_eq_decide.mpr ⟨fun same => congrArg Fin.val same, Fin.ext⟩

theorem mem_accepted_of_mem_share {sub : Fin n} {sck : SocketId} (member : sck ∈ s.share sub) :
    (sck, sub) ∈ s.accepted := by
  rcases List.mem_map.mp member with ⟨⟨same, owner⟩, kept, rfl⟩
  rcases List.mem_filter.mp kept with ⟨accepted, here⟩
  have own : owner = sub := of_decide_eq_true here
  rwa [own] at accepted

/-- What was pushed before the first stop task has run when the loop is left. -/
theorem mem_ran_of_mem_beforeStop {loop : LoopThread Task (SubCaller n)}
    (reachable : loop.Reachable Task.stopsLoop) (exited : loop.phase = .exited)
    {entry : Queued Task} (member : entry ∈ beforeStop loop.pushed) :
    entry ∈ loop.ran.map Prod.fst := by
  have halts := LoopThread.halts_of_reachable reachable
  rcases halts.reason (halts.exited exited) with ⟨stopTask, ran, stopping⟩
  rw [(LoopThread.ordered_of_reachable reachable).pushed, List.append_assoc, beforeStop,
    List.takeWhile_append] at member
  split at member
  · next all =>
    have kept := List.takeWhile_eq_self_iff.mp ((List.takeWhile_prefix _).eq_of_length all)
    exact absurd (kept stopTask ran) (by simp [stopping])
  · exact (List.takeWhile_prefix _).subset member

/-- Each of `n` residues has its share of the first numbers, up to one. -/
theorem length_turns_le (s : Server n) (sub other : Fin n) :
    (s.turns sub).length ≤ (s.turns other).length + 1 := by
  have count : ∀ sub : Fin n, (s.turns sub).length =
      s.nextSocket / n + if (sub : ℕ) % n < s.nextSocket % n then 1 else 0 := by
    intro sub
    have positive : 0 < n := sub.pos
    rw [← Nat.count_modEq_card s.nextSocket positive sub, Nat.count, List.countP_eq_length_filter,
      turns]
    congr 1
    simp only [Nat.ModEq, Nat.mod_eq_of_lt sub.isLt]
  rw [count, count]
  split <;> split <;> omega

/-- While the main reactor dispatches nothing, the loops have all their sockets. -/
theorem connects_pushed (routed : s.Routed) (orderly : s.Orderly)
    (resting : s.dispatching = .idle) (sub : Fin n) :
    connects (s.subReactors sub).pushed = s.share sub := by
  have idle : (s.subReactors sub).callers (some .mainReactor) = .idle := by
    by_contra busy
    exact absurd (resting.symm.trans (orderly.calling sub busy).1) (by simp)
  have given := routed.given sub
  rw [LoopThread.given] at given
  simp only [LoopThread.passed, idle, calls, resting, List.append_nil] at given
  rw [given, routed.share_eq_turns]

section

variable [NeZero n] {useThreadPool : Bool}

/-- The i-th accepted socket goes to the sub-reactor `i % n`, so the shares of the
sub-reactors differ by one at most. Each sub-reactor runs the tasks of its sockets
once and in the order of acceptance, and of all of them before it leaves its loop. -/
theorem sockets_go_round (reachable : s.Reachable useThreadPool) :
    (s.accepted.map fun entry => (entry.1, (entry.2 : ℕ))) =
        ((List.range s.accepted.length).map fun i => (i, i % n)) ∧
      (∀ sub other, (s.share sub).length ≤ (s.share other).length + 1) ∧
      ∀ sub, connects ((s.subReactors sub).ran.map Prod.fst) <+: s.share sub ∧
        (s.dispatching = .idle → connects (s.subReactors sub).pushed = s.share sub) ∧
        ((s.subReactors sub).phase = .exited →
          connects ((s.subReactors sub).ran.map Prod.fst) = s.share sub) := by
  have routed := routed_of_reachable reachable
  have orderly := orderly_of_reachable reachable
  refine ⟨?_, fun sub other => ?_, fun sub => ?_⟩
  · have count : s.accepted.length = s.nextSocket := by
      rw [← List.length_map Prod.fst, routed.accepted, List.length_range]
    rw [count, ← routed.accepted, List.map_map]
    apply List.map_congr_left
    intro entry member
    rw [Function.comp_apply, routed.turn entry member]
  · rw [routed.share_eq_turns, routed.share_eq_turns]
    exact length_turns_le s sub other
  · have loop := subReactors_reachable reachable sub
    have split : connects (s.subReactors sub).pushed =
        connects ((s.subReactors sub).ran.map Prod.fst) ++
          connects ((s.subReactors sub).phase.todo ++ (s.subReactors sub).tasks) := by
      rw [(LoopThread.ordered_of_reachable loop).pushed, List.append_assoc, connects,
        List.filterMap_append]
      rfl
    refine ⟨?_, fun resting => connects_pushed routed orderly resting sub, fun exited => ?_⟩
    · rw [routed.share_eq_turns, ← routed.given sub, LoopThread.given, split]
      simp only [List.append_assoc]
      exact List.prefix_append _ _
    · have stopped := (LoopThread.halts_of_reachable loop).exited exited
      have late := orderly.stopping sub (stopAsked_of_stop reachable sub stopped)
      have resting : s.dispatching = .idle := by
        by_contra busy
        exact absurd late (not_le.mpr (orderly.stage_lt_of_dispatching busy))
      have all := connects_pushed routed orderly resting sub
      rw [split] at all
      have none : connects ((s.subReactors sub).phase.todo ++ (s.subReactors sub).tasks) = [] := by
        rw [List.eq_nil_iff_forall_not_mem]
        intro sck left
        -- the task of the socket ran before the stop task, so it is not there twice
        have distinct : (s.share sub).Nodup := by
          rw [routed.share_eq_turns]
          exact List.nodup_range.filter _
        rw [← all] at distinct
        have mine : (sck, sub) ∈ s.accepted :=
          mem_accepted_of_mem_share (all ▸ List.mem_append_right _ left)
        have ran : sck ∈ connects ((s.subReactors sub).ran.map Prod.fst) := by
          rcases orderly.placed _ mine with ⟨calling, _⟩ | checked | ⟨queued, before, func⟩
          · exact absurd (resting.symm.trans calling) (by simp)
          · have called := (orderly.calling sub (by rw [checked]; simp)).1
            exact absurd (resting.symm.trans called) (by simp)
          · refine List.mem_filterMap.mpr ⟨queued, mem_ran_of_mem_beforeStop loop exited before, ?_⟩
            rw [func]
            rfl
        exact List.disjoint_of_nodup_append distinct ran left
      rwa [none, List.append_nil] at all

/-- The main reactor accepts a socket and gives it to a sub-reactor. -/
def handing (sck : SocketId) (sub : Fin 2) : List (ServerAction 2) :=
  [.accept 8888, .sub sub (.check (some .mainReactor) (.addConnection sck false)),
    .sub sub (.push (some .mainReactor)), .sub sub (.write (some .mainReactor) false), .dispatched]

/-- The control thread stops a sub-reactor, which runs its tasks. -/
def stopping (sub : Fin 2) (tasks : ℕ) : List (ServerAction 2) :=
  ([.sub sub (.check (some .control) .stop), .sub sub (.push (some .control)),
    .sub sub (.write (some .control) false), .sub sub (.poll true), .sub sub .read,
    .sub sub .timer, .sub sub .drain] : List (ServerAction 2)) ++
    (List.replicate tasks [.sub sub .start, .sub sub .finish]).flatten ++
    ([.sub sub .endLoop, .control] : List (ServerAction 2))

/-- Three sockets for two sub-reactors. -/
theorem sockets_go_round_thrice :
    ∃ s : Server 2, s.Reachable false ∧ s.share 0 = [0, 2] ∧ s.share 1 = [1] ∧
      connects ((s.subReactors 0).ran.map Prod.fst) = s.share 0 ∧
      connects ((s.subReactors 1).ran.map Prod.fst) = s.share 1 := by
  have ran : ((Transition.run step Transition.anyAction (init false : Server 2)
      (([.main (.check (some ()) (.listenPort 8888)), .main (.push (some ())),
        .main (.write (some ()) false), .main (.poll true), .main .read, .main .timer,
        .main .drain, .main .start, .main .finish, .main .endLoop,
        .main (.poll false)] : List (ServerAction 2)) ++
        handing 0 0 ++ handing 1 1 ++ handing 2 0 ++
        ([.main .timer, .main .drain, .main .endLoop, .control,
          .main (.check (some ()) .stop), .main (.push (some ())), .main (.write (some ()) false),
          .main (.poll true), .main .read, .main .timer, .main .drain, .main .start,
          .main .finish, .main .endLoop, .control] : List (ServerAction 2)) ++
        stopping 0 3 ++ stopping 1 2)).map fun s =>
          (s.share 0, s.share 1, (s.subReactors 0).phase, (s.subReactors 1).phase)) =
        some ([0, 2], [1], .exited, .exited) := by
    decide +kernel
  rcases Option.map_eq_some_iff.mp ran with ⟨s, ran, looked⟩
  simp only [Prod.mk.injEq] at looked
  rcases looked with ⟨first, second, exitedFirst, exitedSecond⟩
  have reachable : s.Reachable false := Transition.reaches_of_run ran
  have each := (sockets_go_round reachable).2.2
  exact ⟨s, reachable, first, second, (each 0).2.2 exitedFirst, (each 1).2.2 exitedSecond⟩

end

end Server

end MiniWebServer
