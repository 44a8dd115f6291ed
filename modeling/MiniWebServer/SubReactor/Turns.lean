import MiniWebServer.Connection.Acts
import MiniWebServer.Library.Progress
import MiniWebServer.SubReactor.Expiry
import MiniWebServer.SubReactor.Loop
import MiniWebServer.SubReactor.Table

/-!
# The turns of the loop thread

`EventLoop::loop` goes round: a poll, its callbacks, the timer pass, the tasks.
`Turns` says once what a step of any thread does to the place of the loop thread
and to the tasks. The loop thread is never stuck, gets back to `epoll_wait` from
wherever it is, and runs every task that is queued; after a `stop` it ends.
-/

namespace MiniWebServer

open Connection

namespace SubReactor

/-- The steps of the loop thread. -/
def ofLoop : Action → Bool
  | .poll _ _ | .handle _ _ _ | .resume _ | .timer _ | .expire | .drain | .task _ _ | .endLoop =>
      true
  | .addConnection _ | .stop | .take | .post _ | .destroy _ => false

/-- The tasks that are still to run, in their order. -/
def queued (s : SubReactor) : List Task :=
  s.phase.todo ++ s.eloop.tasks

section

variable {mode : Bool} {workers : ℕ} {s next : SubReactor} {action : Action}

/-- Tasks are added at the end of the queue; a task that removes a connection
removes one that was made. -/
def Adds (s next : SubReactor) : Prop :=
  ∃ more, next.eloop.tasks = s.eloop.tasks ++ more ∧
    ∀ self, .removeConnection self ∈ more → self < s.nextConn

structure Grows (s next : SubReactor) : Prop where
  stop : next.eloop.stop = s.eloop.stop
  tasks : s.Adds next

theorem Grows.of_eq (same : next.eloop = s.eloop) : Grows s next := by
  refine ⟨by rw [same], [], ?_, ?_⟩
  · rw [same, List.append_nil]
  · intro self member
    cases member

theorem Grows.trans {last : SubReactor} (earlier : Grows s next) (made : next.nextConn = s.nextConn)
    (later : Grows next last) : Grows s last := by
  rcases earlier.tasks with ⟨more, tasksEq, known⟩
  rcases later.tasks with ⟨rest, restEq, knownRest⟩
  refine ⟨later.stop.trans earlier.stop, more ++ rest, ?_, ?_⟩
  · rw [restEq, tasksEq, List.append_assoc]
  · intro self member
    rcases List.mem_append.mp member with first | second
    · exact known self first
    · exact (knownRest self second).trans_eq made

theorem grows_enqueueTask {func : Task} (known : ∀ self, func ≠ .removeConnection self)
    (same : next.eloop = s.eloop.enqueueTask func) : Grows s next := by
  unfold EventLoop.enqueueTask at same
  split at same
  · exact .of_eq same
  · refine ⟨by rw [same], [func], by rw [same], ?_⟩
    intro self member
    exact absurd (List.mem_singleton.mp member).symm (known self)

/-- The code of a connection enqueues removals of that connection. -/
theorem grows_acts {c : ConnId} {conn : Connection} {scope : Scope} (known : c < s.nextConn)
    (self : conn.weakThis = c) (acts : Scope.Acts { conn, eloop := s.eloop } scope)
    (stop : next.eloop.stop = scope.eloop.stop) (tasks : next.eloop.tasks = scope.eloop.tasks) :
    Grows s next := by
  rcases acts.tasks with ⟨_, stopEq, count, tasksEq⟩
  refine ⟨stop.trans stopEq, _, tasks.trans tasksEq, ?_⟩
  intro removed member
  have same := (List.mem_replicate.mp member).2
  rw [Task.removeConnection.injEq, self] at same
  exact same ▸ known

/-- If the loop thread is in the code of a connection, then of one that was made. -/
def Entered (s next : SubReactor) : Prop :=
  ∀ entry, next.frame = some entry → entry.1 < s.nextConn

theorem entered_leave {moved : SubReactor} {c : ConnId} (known : c < s.nextConn) (scope : Scope)
    (frame : Option Frame) : s.Entered (moved.leave c scope frame) := by
  intro entry framed
  rcases Option.map_eq_some_iff.mp framed with ⟨_, _, rfl⟩
  exact known

/-- Where a step leaves the loop thread, and its tasks. -/
inductive Turns (s : SubReactor) : Action → SubReactor → Prop where
  | outside {action : Action} {next : SubReactor} (other : ofLoop action = false)
      (phase : next.phase = s.phase) (frame : next.frame = s.frame) (heap : next.heap = s.heap)
      (failure : next.failure = s.failure) (grows : Grows s next) : Turns s action next
  | polls {ready : List (ConnId × Events)} {hastime : Bool} {next : SubReactor}
      (batch : List (ConnId × Callback)) (phase : s.phase = .polling)
      (known : ∀ entry ∈ batch, entry.1 < s.nextConn)
      (phaseNext : next.phase = .handling batch hastime) (frame : next.frame = s.frame)
      (grows : Grows s next) :
      Turns s (.poll ready hastime) next
  | handles {now : Timespec} {reads : List ReadResult} {writes : List WriteResult}
      {next : SubReactor} (entry : ConnId × Callback) (batch : List (ConnId × Callback))
      (hastime : Bool) (phase : s.phase = .handling (entry :: batch) hastime)
      (phaseNext : next.phase = .handling batch hastime) (entered : s.Entered next)
      (grows : Grows s next) : Turns s (.handle now reads writes) next
  | resumes {writes : List WriteResult} {next : SubReactor} (c : ConnId) (frame : Frame)
      (conn : Connection) (framed : s.frame = some (c, frame)) (found : s.heap c = some conn)
      (phase : next.phase = s.phase) (entered : s.Entered next) (grows : Grows s next) :
      Turns s (.resume writes) next
  | skips {next : SubReactor} (phase : s.phase = .handling [] true)
      (phaseNext : next.phase = .handling [] false) (frame : next.frame = s.frame)
      (grows : Grows s next) : Turns s (.timer none) next
  | scans {now : Timespec} {next : SubReactor} (ids : List ℤ) (phase : s.phase = .handling [] true)
      (phaseNext : next.phase = .expiring ids) (frame : next.frame = s.frame)
      (grows : Grows s next) : Turns s (.timer (some now)) next
  | expires {next : SubReactor} (id : ℤ) (rest : List ℤ) (phase : s.phase = .expiring (id :: rest))
      (phaseNext : next.phase = .expiring rest) (frame : next.frame = s.frame)
      (grows : Grows s next) : Turns s .expire next
  | expired {next : SubReactor} (phase : s.phase = .expiring [])
      (phaseNext : next.phase = .handling [] false) (frame : next.frame = s.frame)
      (grows : Grows s next) : Turns s .expire next
  | drains {next : SubReactor} (phase : s.phase = .handling [] false)
      (phaseNext : next.phase = .running [] s.eloop.tasks) (frame : next.frame = s.frame)
      (tasks : next.eloop.tasks = []) (stop : next.eloop.stop = s.eloop.stop) :
      Turns s .drain next
  | runs {now : Timespec} {writes : List WriteResult} {next : SubReactor} (done : List Task)
      (func : Task) (todo : List Task) (phase : s.phase = .running done (func :: todo))
      (phaseNext : next.phase = .running (done ++ [func]) todo) (entered : s.Entered next)
      (tasks : s.Adds next) (stop : next.eloop.stop = (s.eloop.stop || func = .stop)) :
      Turns s (.task now writes) next
  | returns {next : SubReactor} (done : List Task) (phase : s.phase = .running done [])
      (phaseNext : next.phase = if s.eloop.stop then .exited else .polling)
      (frame : next.frame = s.frame) (grows : Grows s next) : Turns s .endLoop next

theorem turns_handle (valid : s.Valid mode) {now : Timespec} {reads : List ReadResult}
    {writes : List WriteResult} (stepped : s.handle now reads writes = some next) :
    Turns s (.handle now reads writes) next := by
  unfold handle at stepped
  split at stepped
  · next self callback batch hastime framed phased =>
    rw [Option.map_eq_some_iff] at stepped
    rcases stepped with ⟨conn, found, stepped⟩
    rcases valid.heap self conn found with ⟨known, own, _⟩
    subst stepped
    refine .handles (self, callback) batch hastime phased ?_ ?_ ?_
    · cases callback <;> rfl
    · cases callback <;> exact entered_leave known _ _
    · cases callback with
      | readCallBack =>
          exact grows_acts known own (Scope.Acts.handleReadCallBack _ now reads) rfl rfl
      | writeCallBack =>
          exact grows_acts known own (Scope.Acts.handleWriteCallBack _ now writes) rfl rfl
  · cases stepped

theorem turns_resume (valid : s.Valid mode) {writes : List WriteResult}
    (stepped : s.resume writes = some next) : Turns s (.resume writes) next := by
  unfold resume at stepped
  cases framed : s.frame with
  | none =>
      rw [framed] at stepped
      cases stepped
  | some entry =>
      rcases entry with ⟨c, frame⟩
      simp only [framed, Option.map_eq_some_iff] at stepped
      rcases stepped with ⟨conn, found, stepped⟩
      rcases valid.heap c conn found with ⟨known, own, _⟩
      have acts := Scope.acts_resume { conn, eloop := s.eloop } writes frame
      revert stepped acts
      generalize Scope.resume _ writes frame = outcome
      intro stepped acts
      subst stepped
      cases outcome with
      | go scope frame =>
          exact .resumes c _ conn framed found rfl (entered_leave known _ _)
            (grows_acts known own acts rfl rfl)
      | dispatch scope job =>
          exact .resumes c _ conn framed found rfl
            (@entered_leave s s c known scope (some .parseLoop))
            (grows_acts known own acts rfl rfl)
      | raise exception =>
          refine .resumes c _ conn framed found rfl ?_ (.of_eq rfl)
          intro entry framedNext
          rcases Option.some_inj.mp framedNext with rfl
          exact known

theorem turns_expire (valid : s.Valid mode) (timed : s.Timed) (stepped : s.expire = some next) :
    Turns s .expire next := by
  unfold expire at stepped
  split at stepped
  · next phased =>
    cases stepped
    exact .expired phased rfl rfl ⟨rfl, [], by simp, by simp⟩
  · next id rest framed phased =>
    rcases (timed.dying _ phased).2 id (List.mem_cons_self ..) with ⟨timer, foundTimer⟩
    have foundTimer : s.eloop.timerQueue.timers.find? id = some timer := foundTimer
    simp only [foundTimer, Option.map_eq_some_iff] at stepped
    rcases stepped with ⟨conn, found, stepped⟩
    rcases valid.heap timer.callBack conn found with ⟨known, own, _⟩
    subst stepped
    exact .expires id rest phased rfl framed.symm
      (grows_acts known own (Scope.Acts.handleDead _) rfl rfl)
  · cases stepped

theorem grows_foldl_stopConnection (valid : s.Valid mode) (entries : List (SocketId × ConnId)) :
    Grows s (entries.foldl stopConnection s) := by
  induction entries generalizing s with
  | nil => exact .of_eq rfl
  | cons entry rest ih =>
      rw [List.foldl_cons]
      cases found : s.heap entry.2 with
      | none =>
          have same : s.stopConnection entry = s := by
            rw [stopConnection, found]
          rw [same]
          exact ih valid
      | some conn =>
          rcases valid.heap entry.2 conn found with ⟨known, own, _⟩
          have same : s.stopConnection entry =
              s.leave entry.2 (Scope.stop { conn, eloop := s.eloop }) none := by
            rw [stopConnection, found]
          rw [same]
          have stopped : Grows s (s.leave entry.2 (Scope.stop { conn, eloop := s.eloop }) none) :=
            grows_acts known own (Scope.Acts.stop _) rfl rfl
          exact stopped.trans rfl
            (ih (valid_leave valid found (Scope.Keeps.stopped _) none))

theorem frame_foldl_stopConnection (framed : s.frame = none)
    (entries : List (SocketId × ConnId)) : (entries.foldl stopConnection s).frame = none := by
  induction entries generalizing s with
  | nil => exact framed
  | cons entry rest ih => exact ih (frame_stopConnection framed entry)

theorem turns_task (valid : s.Valid mode) {now : Timespec} {writes : List WriteResult}
    (stepped : s.task now writes = some next) : Turns s (.task now writes) next := by
  unfold task at stepped
  split at stepped
  · next done func todo framed phased =>
    cases func with
    | addConnection sck taskSubmit =>
        cases stepped
        refine .runs done _ todo phased rfl (fun _ framedNext => by cases framedNext) ?_
          (Bool.or_false _).symm
        exact ⟨[], by simp [connect, leave, Scope.startConnect, Scope.addTimerCallBack,
          EventLoop.addTimer, Scope.modify], by simp⟩
    | removeConnection self =>
        simp only [runTask, Option.map_eq_some_iff] at stepped
        rcases stepped with ⟨conn, found, stepped⟩
        subst stepped
        refine .runs done _ todo phased rfl ?_ ⟨[], by simp, by simp⟩ (Bool.or_false _).symm
        exact fun _ framedNext => absurd (framed.symm.trans framedNext) (by simp)
    | respond self reply =>
        simp only [runTask, Option.map_eq_some_iff] at stepped
        rcases stepped with ⟨conn, found, stepped⟩
        rcases valid.heap self conn found with ⟨known, own, _⟩
        have acts := Scope.Acts.respond { conn, eloop := s.eloop } reply writes
        subst stepped
        have grows : Grows s (leave { s with phase := .running (done ++ [.respond self reply]) todo }
            self (Scope.respond { conn, eloop := s.eloop } reply writes).1
            (Scope.respond { conn, eloop := s.eloop } reply writes).2) :=
          grows_acts known own acts rfl rfl
        exact .runs done _ todo phased rfl (entered_leave known _ _) grows.tasks
          (grows.stop.trans (Bool.or_false _).symm)
    | stop =>
        let moved : SubReactor := { s with phase := .running (done ++ [.stop]) todo }
        have validMoved : moved.Valid mode :=
          valid_of_sub valid rfl rfl rfl valid.pool fun self reply member => by
            apply valid.tasks self reply
            rw [phased]
            exact List.mem_cons_of_mem _ member
        have stopped : Grows moved (s.connections.foldl stopConnection moved) :=
          grows_foldl_stopConnection validMoved s.connections
        have phaseEq : (s.connections.foldl stopConnection moved).phase = moved.phase :=
          phase_foldl_stopConnection s.connections
        have frameEq : (s.connections.foldl stopConnection moved).frame = none :=
          frame_foldl_stopConnection (s := moved) framed s.connections
        cases stepped
        refine .runs done _ todo phased phaseEq ?_ stopped.tasks (Bool.or_true _).symm
        exact fun _ framedNext => absurd (frameEq.symm.trans framedNext) (by simp)
  · cases stepped

theorem turns_step (valid : s.Valid mode) (timed : s.Timed) (stepped : s.step action = some next) :
    Turns s action next := by
  unfold step at stepped
  split at stepped
  · cases stepped
  · cases action with
    | addConnection taskSubmit =>
        cases stepped
        exact .outside rfl rfl rfl rfl rfl (grows_enqueueTask (fun self => by simp) rfl)
    | stop =>
        cases stepped
        exact .outside rfl rfl rfl rfl rfl (grows_enqueueTask (fun self => by simp) rfl)
    | poll ready hastime =>
        simp only [poll] at stepped
        split at stepped
        · next allowed =>
          cases stepped
          refine .polls _ allowed.2.1 ?_ rfl rfl (.of_eq rfl)
          intro entry member
          rcases List.mem_flatMap.mp member with ⟨reported, listed, callback⟩
          rcases List.mem_map.mp callback with ⟨_, _, rfl⟩
          have reports := List.all_eq_true.mp allowed.2.2.2.1 reported listed
          unfold mayReport at reports
          split at reports
          · cases reports
          · next conn found => exact (valid.heap reported.1 conn found).1
        · cases stepped
    | handle now reads writes => exact turns_handle valid stepped
    | resume writes => exact turns_resume valid stepped
    | timer now =>
        simp only [timer] at stepped
        split at stepped
        · next framed phased =>
          cases now with
          | none =>
              cases stepped
              exact .skips phased rfl rfl (.of_eq rfl)
          | some now =>
              cases stepped
              exact .scans _ phased rfl rfl (.of_eq rfl)
        · cases stepped
    | expire => exact turns_expire valid timed stepped
    | drain =>
        simp only [drain] at stepped
        split at stepped
        · next framed phased =>
          cases stepped
          exact .drains phased rfl rfl rfl rfl
        · cases stepped
    | task now writes => exact turns_task valid stepped
    | endLoop =>
        simp only [endLoop] at stepped
        split at stepped
        · next done framed phased =>
          cases stepped
          exact .returns done phased rfl rfl (.of_eq rfl)
        · cases stepped
    | take =>
        simp only [take] at stepped
        split at stepped
        · cases stepped
        · split at stepped
          · cases stepped
            exact .outside rfl rfl rfl rfl rfl (.of_eq rfl)
          · cases stepped
    | post index =>
        rcases Option.map_eq_some_iff.mp stepped with ⟨job, _, stepped⟩
        subst stepped
        simp only
        split
        · exact .outside rfl rfl rfl rfl rfl (.of_eq rfl)
        · exact .outside rfl rfl rfl rfl rfl (grows_enqueueTask (fun self => by simp) rfl)
    | destroy gone => exact absurd (stepped.symm.trans (destroy_eq_none valid gone)) (by simp)

/-- The callbacks and the tasks to come are of connections that were made. -/
structure Addressed (s : SubReactor) : Prop where
  batch : ∀ entry ∈ s.phase.batch, entry.1 < s.nextConn
  removals : ∀ self, .removeConnection self ∈ s.queued → self < s.nextConn
  frame : ∀ entry, s.frame = some entry → entry.1 < s.nextConn

theorem addressed_step (addressed : s.Addressed) (turns : Turns s action next)
    (made : s.nextConn ≤ next.nextConn) : next.Addressed := by
  have adds : s.Adds next → ∀ todo, (∀ self, .removeConnection self ∈ todo → self < s.nextConn) →
      next.phase.todo = todo → (∀ task ∈ s.eloop.tasks, task ∈ s.queued) →
      ∀ self, .removeConnection self ∈ next.queued → self < next.nextConn := by
    rintro ⟨more, tasksEq, known⟩ todo knownTodo todoEq within self member
    refine lt_of_lt_of_le ?_ made
    rw [queued, todoEq, tasksEq, List.mem_append, List.mem_append] at member
    rcases member with early | earlier | new
    · exact knownTodo self early
    · exact addressed.removals self (within _ earlier)
    · exact known self new
  have within : ∀ task ∈ s.eloop.tasks, task ∈ s.queued :=
    fun task member => List.mem_append_right _ member
  have nothing : ∀ self, .removeConnection self ∈ ([] : List Task) → self < s.nextConn :=
    fun self member => absurd member List.not_mem_nil
  have still : ∀ self, .removeConnection self ∈ s.phase.todo → self < s.nextConn :=
    fun self member => addressed.removals self (List.mem_append_left _ member)
  have idle : ∀ {phase : Phase}, next.phase = phase → phase.batch = [] →
      ∀ entry ∈ next.phase.batch, entry.1 < next.nextConn := by
    intro phase phaseNext empty entry member
    rw [phaseNext, empty] at member
    exact absurd member List.not_mem_nil
  have entering : s.Entered next → ∀ entry, next.frame = some entry → entry.1 < next.nextConn :=
    fun entered entry framed => (entered entry framed).trans_le made
  have staying : next.frame = s.frame → ∀ entry, next.frame = some entry →
      entry.1 < next.nextConn :=
    fun same entry framed => (addressed.frame entry (same ▸ framed)).trans_le made
  cases turns with
  | outside other phase frame heap failure grows =>
      refine ⟨?_, adds grows.tasks _ still (by rw [phase]) within, staying frame⟩
      intro entry member
      rw [phase] at member
      exact (addressed.batch entry member).trans_le made
  | polls batch phase known phaseNext frame grows =>
      refine ⟨?_, adds grows.tasks _ nothing (by rw [phaseNext]; rfl) within, staying frame⟩
      intro entry member
      rw [phaseNext] at member
      exact (known entry member).trans_le made
  | handles entry batch hastime phase phaseNext entered grows =>
      refine ⟨?_, adds grows.tasks _ nothing (by rw [phaseNext]; rfl) within, entering entered⟩
      intro other member
      rw [phaseNext] at member
      refine (addressed.batch other ?_).trans_le made
      rw [phase]
      exact List.mem_cons_of_mem entry member
  | resumes c frame conn framed found phase entered grows =>
      refine ⟨?_, adds grows.tasks _ still (by rw [phase]) within, entering entered⟩
      intro entry member
      rw [phase] at member
      exact (addressed.batch entry member).trans_le made
  | skips phase phaseNext frame grows =>
      exact ⟨idle phaseNext rfl, adds grows.tasks _ nothing (by rw [phaseNext]; rfl) within,
        staying frame⟩
  | scans ids phase phaseNext frame grows =>
      exact ⟨idle phaseNext rfl, adds grows.tasks _ nothing (by rw [phaseNext]; rfl) within,
        staying frame⟩
  | expires id rest phase phaseNext frame grows =>
      exact ⟨idle phaseNext rfl, adds grows.tasks _ nothing (by rw [phaseNext]; rfl) within,
        staying frame⟩
  | expired phase phaseNext frame grows =>
      exact ⟨idle phaseNext rfl, adds grows.tasks _ nothing (by rw [phaseNext]; rfl) within,
        staying frame⟩
  | drains phase phaseNext frame tasks stop =>
      refine ⟨idle phaseNext rfl, ?_, staying frame⟩
      intro self member
      rw [queued, phaseNext, tasks, List.append_nil] at member
      exact (addressed.removals self (within _ member)).trans_le made
  | runs done func todo phase phaseNext entered tasks stop =>
      refine ⟨idle phaseNext rfl, adds tasks todo ?_ (by rw [phaseNext]; rfl) within,
        entering entered⟩
      intro self member
      apply still
      rw [phase]
      exact List.mem_cons_of_mem func member
  | returns done phase phaseNext frame grows =>
      exact ⟨idle phaseNext (by split <;> rfl),
        adds grows.tasks _ nothing (by rw [phaseNext]; split <;> rfl) within, staying frame⟩

theorem turns_of_reachable (reachable : Reachable mode workers s)
    (stepped : s.step action = some next) : Turns s action next :=
  turns_step (valid_of_reachable reachable) (timed_of_reachable reachable) stepped

theorem addressed_of_reachable (reachable : Reachable mode workers s) : s.Addressed := by
  refine reachable.reachable_invariant Addressed ⟨?_, ?_, ?_⟩ ?_
  · intro entry member
    cases member
  · intro self member
    cases member
  · intro entry framed
    cases framed
  · intro state action next reachable addressed _ stepped
    exact addressed_step addressed (turns_of_reachable reachable stepped) (tables_step stepped).made

/-- The next step of the loop thread, for what the kernel answers to it. -/
def turn (s : SubReactor) (now : Timespec) (reads : List ReadResult)
    (writes : List WriteResult) : Action :=
  match s.frame, s.phase with
  | some _, _ => .resume writes
  | none, .polling => .poll [] false
  | none, .handling (_ :: _) _ => .handle now reads writes
  | none, .handling [] true => .timer (some now)
  | none, .handling [] false => .drain
  | none, .expiring _ => .expire
  | none, .running _ (_ :: _) => .task now writes
  | none, .running _ [] => .endLoop
  | none, .exited => .endLoop

theorem ofLoop_turn (s : SubReactor) (now : Timespec) (reads : List ReadResult)
    (writes : List WriteResult) : ofLoop (s.turn now reads writes) = true := by
  unfold turn
  split <;> rfl

/-- A task of the queue finds the connection that it is about. -/
theorem exists_runTask (valid : s.Valid mode) (addressed : s.Addressed) {done todo : List Task}
    {func : Task} (phased : s.phase = .running done (func :: todo)) (now : Timespec)
    (writes : List WriteResult) :
    ∃ next, runTask { s with phase := .running (done ++ [func]) todo } now writes func =
      some next := by
  have first : func ∈ s.queued := by simp [queued, phased, Phase.todo]
  cases func with
  | addConnection sck taskSubmit => exact ⟨_, rfl⟩
  | removeConnection self =>
      rcases valid.kept self (addressed.removals self first) with ⟨conn, found, _⟩
      simp [runTask, found]
  | respond self reply =>
      rcases valid.kept self (valid.tasks self reply first) with ⟨conn, found, _⟩
      simp [runTask, found]
  | stop => exact ⟨_, rfl⟩

/-- The loop thread goes on from wherever it is, until its loop has ended. -/
theorem exists_step_turn (reachable : Reachable mode workers s) (runs : s.failure = none)
    (going : s.phase ≠ .exited) (now : Timespec) (reads : List ReadResult)
    (writes : List WriteResult) : ∃ next, s.step (s.turn now reads writes) = some next := by
  have valid := valid_of_reachable reachable
  have addressed := addressed_of_reachable reachable
  cases framed : s.frame with
  | some entry =>
      rcases entry with ⟨c, frame⟩
      rcases valid.kept c (addressed.frame (c, frame) framed) with ⟨conn, found, _⟩
      rcases exists_step_resume framed found runs writes with ⟨next, stepped⟩
      exact ⟨next, by simpa only [turn, framed] using stepped⟩
  | none =>
      cases phased : s.phase with
      | polling => simp [turn, framed, phased, step, runs, poll]
      | handling batch hastime =>
          cases batch with
          | cons entry batch =>
              rcases entry with ⟨c, callback⟩
              have known : c < s.nextConn := addressed.batch (c, callback) (by
                rw [phased]
                exact List.mem_cons_self ..)
              rcases valid.kept c known with ⟨conn, found, _⟩
              simp [turn, framed, phased, step, runs, handle, found]
          | nil => cases hastime <;> simp [turn, framed, phased, step, runs, timer, drain]
      | expiring ids =>
          cases ids with
          | nil => simp [turn, framed, phased, step, runs, expire]
          | cons id rest =>
              rcases exists_step_expire (timed_of_reachable reachable) runs phased with
                ⟨timer, next, _, stepped, _⟩
              exact ⟨next, by simpa only [turn, framed, phased] using stepped⟩
      | running done todo =>
          cases todo with
          | nil => simp [turn, framed, phased, step, runs, endLoop]
          | cons func todo =>
              rcases exists_runTask valid addressed phased now writes with ⟨next, ran⟩
              refine ⟨next, ?_⟩
              simpa [turn, framed, phased, step, runs, task] using ran
      | exited => exact absurd phased going

end

end SubReactor

end MiniWebServer
