import MiniWebServer.Connection.Invariants
import MiniWebServer.SubReactor

/-!
# Every connection of a reactor moves as a `View`

The steps of a reactor, seen from one of its connections, are moves of the
connection's view or leave the view as it is. What is proved of views holds
therefore for every connection of every reactor, whatever the other connections,
the workers and the timers do in between.
-/

namespace MiniWebServer

open Connection HttpProcess

@[simp]
theorem buildResponse_ne_nil (req : HttpRequest) : buildResponse req ≠ [] := by
  have front : ascii "HTTP/1.1 200 OK\r\n" ≠ [] := by decide
  simp [buildResponse, front]

@[simp]
theorem build400_ne_nil : build400 ≠ [] := by
  decide

theorem Reply.resp_ne_nil (reply : Reply) : reply.resp ≠ [] := by
  rcases reply.built with ⟨req, built, _⟩
  rw [← built]
  exact buildResponse_ne_nil req

open scoped List

namespace SubReactor

/-- The reply that a task sends on the connection, if it sends one. -/
def replyFor (c : ConnId) : Task → Option Reply
  | .respond self reply => if self = c then some reply else none
  | _ => none

/-- The view of a connection whose object is `conn`. -/
def viewOf (s : SubReactor) (c : ConnId) (conn : Connection) : View where
  conn := conn
  frame := s.frame.bind fun entry => if entry.1 = c then some entry.2 else none
  pending := s.phase.batch.filterMap fun entry => if entry.1 = c then some entry.2 else none
  pool := ((s.queue ++ s.running ++ s.refused : List Job) : Multiset Job).filter
    fun job => job.self = c
  tasks := (s.phase.todo ++ s.eloop.tasks).filterMap (replyFor c)

/-- What a reactor shows of a connection. -/
def view (c : ConnId) (s : SubReactor) : Option View :=
  (s.heap c).map (s.viewOf c)

/-- The part that a connection takes in an action. -/
def share (c : ConnId) (s : SubReactor) : Action → Option Share
  | .poll ready _ => (ready.find? fun entry => entry.1 = c).map fun entry => .poll entry.2
  | .handle now reads writes =>
      match s.phase.batch with
      | [] => none
      | (self, callback) :: _ =>
          if self = c then
            match callback with
            | .readCallBack => some (.read now reads)
            | .writeCallBack => some (.write now writes)
          else none
  | .resume writes =>
      match s.frame with
      | none => none
      | some (self, _) => if self = c then some (.resume writes) else none
  | .expire =>
      match s.phase with
      | .expiring (id :: _) =>
          match s.eloop.timerQueue.timers.find? id with
          | none => none
          | some timer => if timer.callBack = c then some .expire else none
      | _ => none
  | .post index =>
      if s.eloop.stop then none
      else
        match s.running[index]? with
        | none => none
        | some job => if job.self = c then some (.post job) else none
  | .task _ writes =>
      match s.phase.todo with
      | .respond self _ :: _ => if self = c then some (.respond writes) else none
      | .stop :: _ => if c ∈ s.connections.map Prod.snd then some .stop else none
      | _ => none
  | _ => none

/-- Everything that a reactor stores refers to connections that exist, and each
connection that was made exists and holds itself. -/
structure Valid (mode : Bool) (s : SubReactor) : Prop where
  mode_eq : s.useThreadPool = mode
  heap : ∀ c conn, s.heap c = some conn →
    c < s.nextConn ∧ conn.weakThis = c ∧ conn.useThreadPool = mode
  kept : ∀ c < s.nextConn, ∃ conn, s.heap c = some conn ∧ conn.addTimerCallBack = c
  pool : ∀ job ∈ s.queue ++ s.running ++ s.refused, job.self < s.nextConn
  tasks : ∀ self reply, .respond self reply ∈ s.phase.todo ++ s.eloop.tasks →
    self < s.nextConn

/-- A connection that holds itself has a strong reference. -/
theorem Valid.strongCount_pos {mode : Bool} {s : SubReactor} (valid : s.Valid mode) {c : ConnId}
    (made : c < s.nextConn) : 0 < s.strongCount c := by
  rcases valid.kept c made with ⟨conn, alive, holds⟩
  have member : 0 < s.memberReferences c :=
    List.countP_pos_iff.mpr ⟨conn,
      List.mem_filterMap.mpr ⟨c, List.mem_range.mpr made, alive⟩, by simp [holds]⟩
  unfold strongCount
  omega

theorem filterMap_replyFor_removals (c : ConnId) (removed : List ConnId) :
    (removed.map Task.removeConnection).filterMap (replyFor c) = [] := by
  simp [List.filterMap_map, replyFor, Function.comp_def]

/-- The code of one connection gives the loop no reply. -/
theorem filterMap_replyFor_of_keeps {before after : Scope} (keeps : before.Keeps after)
    (c : ConnId) (todo : List Task) :
    (todo ++ after.eloop.tasks).filterMap (replyFor c) =
      (todo ++ before.eloop.tasks).filterMap (replyFor c) := by
  rcases keeps.tasks with ⟨removed, tasksEq⟩
  rw [tasksEq, List.filterMap_append, List.filterMap_append, List.filterMap_append,
    filterMap_replyFor_removals, List.append_nil]

section Leave

variable {s : SubReactor} {c : ConnId} {conn : Connection} {scope : Scope}

theorem view_leave_self (keeps : Scope.Keeps { conn, eloop := s.eloop } scope)
    (frame : Option Frame) :
    (s.leave c scope frame).view c =
      some { s.viewOf c conn with conn := scope.conn, frame := frame } := by
  have tasksEq := filterMap_replyFor_of_keeps keeps c s.phase.todo
  simp only at tasksEq
  cases frame <;> simp [view, viewOf, leave, tasksEq]

theorem view_leave_other (keeps : Scope.Keeps { conn, eloop := s.eloop } scope)
    (only : ∀ entry, s.frame = some entry → entry.1 = c) (frame : Option Frame)
    {other : ConnId} (differs : other ≠ c) :
    (s.leave c scope frame).view other = s.view other := by
  have tasksEq := filterMap_replyFor_of_keeps keeps other s.phase.todo
  simp only at tasksEq
  have frameBefore :
      (s.frame.bind fun entry => if entry.1 = other then some entry.2 else none) = none := by
    cases framed : s.frame with
    | none => rfl
    | some entry =>
        rw [Option.bind_some, if_neg]
        rw [only entry framed]
        exact differs.symm
  have frameAfter :
      ((frame.map fun frame => (c, frame)).bind
        fun entry => if entry.1 = other then some entry.2 else none) = none := by
    cases frame with
    | none => rfl
    | some frame => simp [differs.symm]
  simp only [view, leave, Function.update_of_ne differs]
  congr 1
  funext object
  simp only [viewOf, tasksEq, frameBefore, frameAfter]

theorem valid_leave {mode : Bool} (valid : s.Valid mode) (alive : s.heap c = some conn)
    (keeps : Scope.Keeps { conn, eloop := s.eloop } scope) (frame : Option Frame) :
    (s.leave c scope frame).Valid mode where
  mode_eq := valid.mode_eq
  heap := by
    intro other object found
    by_cases same : other = c
    · subst same
      simp only [leave, Function.update_self, Option.some.injEq] at found
      subst found
      have wiring := keeps.wiring
      rcases valid.heap other conn alive with ⟨below, self, modeEq⟩
      refine ⟨below, ?_, ?_⟩
      · exact (congrArg Wiring.weakThis wiring).trans self
      · exact (congrArg Wiring.useThreadPool wiring).trans modeEq
    · simp only [leave, Function.update_of_ne same] at found
      exact valid.heap other object found
  kept := by
    intro other made
    by_cases same : other = c
    · subst same
      rcases valid.kept other made with ⟨object, found, holds⟩
      rw [alive, Option.some.injEq] at found
      subst found
      exact ⟨scope.conn, by simp [leave],
        (congrArg Wiring.addTimerCallBack keeps.wiring).trans holds⟩
    · rcases valid.kept other made with ⟨object, found, holds⟩
      exact ⟨object, by simpa [leave, same] using found, holds⟩
  pool := valid.pool
  tasks := by
    intro self reply member
    apply valid.tasks self reply
    rcases keeps.tasks with ⟨removed, tasksEq⟩
    simp only [leave] at member
    rw [tasksEq] at member
    simpa using member

end Leave

/-- A step of the reactor, seen from one connection. -/
structure Follows (mode : Bool) (c : ConnId) (s next : SubReactor) (share : Option Share) :
    Prop where
  valid : next.Valid mode
  moves : ∀ after, next.view c = some after →
    (s.view c = none ∧ View.Starts mode after) ∨
      ∃ before, s.view c = some before ∧
        ((share = none ∧ after = before) ∨
          ∃ part, share = some part ∧ View.Moves before part after)

namespace Follows

variable {mode : Bool} {c : ConnId} {s next : SubReactor}

/-- A step that changes nothing in the view. -/
theorem unchanged (valid : next.Valid mode) (same : next.view c = s.view c) :
    Follows mode c s next none where
  valid := valid
  moves := by
    intro after shown
    rw [same] at shown
    exact .inr ⟨after, shown, .inl ⟨rfl, rfl⟩⟩

/-- A step that moves the view. -/
theorem moved (valid : next.Valid mode) {before after : View} {part : Share}
    (shownBefore : s.view c = some before) (shownAfter : next.view c = some after)
    (moves : View.Moves before part after) : Follows mode c s next (some part) where
  valid := valid
  moves := by
    intro other shown
    rw [shownAfter, Option.some.injEq] at shown
    subst shown
    exact .inr ⟨before, shownBefore, .inr ⟨part, rfl, moves⟩⟩

end Follows

section Steps

variable {mode : Bool} {s next : SubReactor}

/-- A step in the code of one connection, after the rest was changed to `moved`. -/
theorem follows_leave {moved : SubReactor} {self : ConnId} {conn : Connection} {scope : Scope}
    (frame : Option Frame) (part : Share) (valid : moved.Valid mode)
    (heapEq : moved.heap = s.heap) (alive : s.heap self = some conn)
    (keeps : Scope.Keeps { conn, eloop := moved.eloop } scope)
    (only : ∀ entry, moved.frame = some entry → entry.1 = self)
    (others : ∀ other, self ≠ other → moved.viewOf other = s.viewOf other)
    (moves : View.Moves (s.viewOf self conn) part
      { moved.viewOf self conn with conn := scope.conn, frame := frame }) (c : ConnId) :
    Follows mode c s (moved.leave self scope frame) (if self = c then some part else none) := by
  have alive' : moved.heap self = some conn := by rw [heapEq, alive]
  have validAfter := valid_leave valid alive' keeps frame
  by_cases same : self = c
  · subst same
    have shown : s.view self = some (s.viewOf self conn) := by simp [view, alive]
    rw [if_pos rfl]
    exact .moved validAfter shown (view_leave_self keeps frame) moves
  · rw [if_neg same]
    refine .unchanged validAfter ?_
    rw [view_leave_other keeps only frame (fun equal => same equal.symm)]
    simp only [view, heapEq, others c same]

/-- A step that keeps the objects, and makes up no job and no reply, is valid. -/
theorem valid_of_sub (valid : s.Valid mode) (modeEq : next.useThreadPool = s.useThreadPool)
    (heapEq : next.heap = s.heap) (nextEq : next.nextConn = s.nextConn)
    (pool : ∀ job ∈ next.queue ++ next.running ++ next.refused, job.self < s.nextConn)
    (tasks : ∀ self reply, .respond self reply ∈ next.phase.todo ++ next.eloop.tasks →
      self < s.nextConn) : next.Valid mode where
  mode_eq := modeEq.trans valid.mode_eq
  heap := by
    rw [heapEq, nextEq]
    exact valid.heap
  kept := by
    rw [heapEq, nextEq]
    exact valid.kept
  pool := by
    rw [nextEq]
    exact pool
  tasks := by
    rw [nextEq]
    exact tasks

/-- A step that changes nothing that the views show. -/
theorem follows_of_same (valid : s.Valid mode) {connections : List (SocketId × ConnId)}
    {eloop : EventLoop} {nextSocket : SocketId} {phase : Phase} {queue running refused : List Job}
    {failure : Option Failure} (batchEq : phase.batch = s.phase.batch)
    (poolEq : ((queue ++ running ++ refused : List Job) : Multiset Job) =
      (s.queue ++ s.running ++ s.refused : List Job))
    (tasksEq : ∀ c, (phase.todo ++ eloop.tasks).filterMap (replyFor c) =
      (s.phase.todo ++ s.eloop.tasks).filterMap (replyFor c)) (c : ConnId) :
    Follows mode c s
      { s with connections, eloop, nextSocket, phase, queue, running, refused, failure } none := by
  refine .unchanged (valid_of_sub valid rfl rfl rfl ?_ ?_) ?_
  · intro job member
    apply valid.pool
    have same := (Multiset.coe_eq_coe.mp poolEq).mem_iff (a := job)
    exact same.mp member
  · intro self reply member
    have shown : reply ∈ (phase.todo ++ eloop.tasks).filterMap (replyFor self) :=
      List.mem_filterMap.mpr ⟨_, member, by simp [replyFor]⟩
    rw [tasksEq, List.mem_filterMap] at shown
    rcases shown with ⟨task, member, replied⟩
    cases task with
    | respond other otherReply =>
        simp only [replyFor, Option.ite_none_right_eq_some] at replied
        exact replied.1 ▸ valid.tasks other otherReply member
    | _ => simp [replyFor] at replied
  · simp only [view]
    congr 1
    funext object
    simp only [viewOf, batchEq, poolEq, tasksEq]

theorem follows_handle (valid : s.Valid mode) (c : ConnId) {now : Timespec}
    {reads : List ReadResult} {writes : List WriteResult}
    (stepped : s.handle now reads writes = some next) :
    Follows mode c s next (s.share c (.handle now reads writes)) := by
  unfold handle at stepped
  split at stepped
  · next self callback batch hastime framed phased =>
    rw [Option.map_eq_some_iff] at stepped
    rcases stepped with ⟨conn, alive, stepped⟩
    have validBatch : Valid mode { s with phase := .handling batch hastime } :=
      valid_of_sub valid rfl rfl rfl valid.pool (fun self reply member =>
        valid.tasks self reply (by simpa [Phase.todo, phased] using member))
    have only : ∀ entry, s.frame = some entry → entry.1 = self := by simp [framed]
    have others : ∀ other, self ≠ other →
        viewOf { s with phase := .handling batch hastime } other = s.viewOf other := by
      intro other differs
      funext object
      simp [viewOf, phased, Phase.batch, Phase.todo, differs]
    have ready : (s.viewOf self conn).frame = none := by simp [viewOf, framed]
    have pendingEq : (s.viewOf self conn).pending =
        callback :: (viewOf { s with phase := .handling batch hastime } self conn).pending := by
      simp [viewOf, phased, Phase.batch]
    have tasksEq : (viewOf { s with phase := .handling batch hastime } self conn).tasks =
        (s.viewOf self conn).tasks := by
      simp [viewOf, phased, Phase.todo]
    cases callback with
    | readCallBack =>
        subst stepped
        have moves : View.Moves (s.viewOf self conn) (.read now reads)
            { viewOf { s with phase := .handling batch hastime } self conn with
              conn := (Scope.handleReadCallBack { conn, eloop := s.eloop } now reads).1.conn
              frame := (Scope.handleReadCallBack { conn, eloop := s.eloop } now reads).2 } := by
          rcases Scope.conn_handleReadCallBack { conn, eloop := s.eloop } now reads with
            ⟨timerId, ⟨empty, connEq, frameEq⟩ | ⟨more, connEq, frameEq⟩⟩
          · have move : View.Moves _ (.read now reads) _ :=
              .readNothing reads timerId ready pendingEq empty
            rw [← tasksEq, ready] at move
            rw [connEq, frameEq]
            exact move
          · have move : View.Moves _ (.read now reads) _ := .read reads timerId ready pendingEq more
            rw [← tasksEq] at move
            rw [connEq, frameEq]
            exact move
        have followed := follows_leave (s := s)
          (Scope.handleReadCallBack { conn, eloop := s.eloop } now reads).2 (.read now reads)
          validBatch rfl alive (Scope.Keeps.handleReadCallBack _ now reads) only others moves c
        simpa [share, phased, Phase.batch] using followed
    | writeCallBack =>
        subst stepped
        have moves : View.Moves _ (.write now writes) _ := .write now writes s.eloop ready pendingEq
        rw [← tasksEq, ready] at moves
        have followed := follows_leave (s := s) none (.write now writes) validBatch rfl alive
          (Scope.Keeps.handleWriteCallBack _ now writes) only others moves c
        simpa [share, phased, Phase.batch] using followed
  · cases stepped

/-- A poll shows a connection the callbacks of its own entry. -/
theorem filterMap_ready (c : ConnId) {ready : List (ConnId × Events)}
    (nodup : (ready.map Prod.fst).Nodup) :
    (ready.flatMap fun entry => entry.2.handle.map fun callback => (entry.1, callback)).filterMap
        (fun entry => if entry.1 = c then some entry.2 else none) =
      ((ready.find? fun entry => entry.1 = c).map fun entry => entry.2.handle).getD [] := by
  induction ready with
  | nil => rfl
  | cons entry rest ih =>
      rw [List.map_cons, List.nodup_cons] at nodup
      rw [List.flatMap_cons, List.filterMap_append, ih nodup.2]
      by_cases same : entry.1 = c
      · have absent : rest.find? (fun entry => entry.1 = c) = none := by
          rw [List.find?_eq_none]
          intro other member
          simp only [decide_eq_true_eq]
          intro equal
          exact nodup.1 (List.mem_map.mpr ⟨other, member, equal.trans same.symm⟩)
        simp [same, absent, List.filterMap_map]
      · simp [same, List.filterMap_map]

theorem follows_poll (valid : s.Valid mode) (c : ConnId) {ready : List (ConnId × Events)}
    {hastime : Bool} (stepped : s.poll ready hastime = some next) :
    Follows mode c s next (s.share c (.poll ready hastime)) := by
  unfold poll at stepped
  split at stepped
  · next allowed =>
    rcases allowed with ⟨framed, phased, nodup, reported, _⟩
    simp only [Option.some.injEq] at stepped
    have shownPending := filterMap_ready c nodup
    have validNext : next.Valid mode := by
      subst stepped
      exact valid_of_sub valid rfl rfl rfl valid.pool (fun self reply member =>
        valid.tasks self reply (by simpa [Phase.todo, phased] using member))
    have viewOfEq : ∀ conn, next.viewOf c conn =
        { s.viewOf c conn with
          pending :=
            ((ready.find? fun entry => entry.1 = c).map fun entry => entry.2.handle).getD [] } := by
      intro conn
      subst stepped
      simp [viewOf, Phase.batch, Phase.todo, phased, shownPending]
    have heapEq : next.heap = s.heap := by
      subst stepped
      rfl
    cases found : ready.find? fun entry => entry.1 = c with
    | none =>
        simp only [share, found, Option.map_none]
        refine .unchanged validNext ?_
        simp only [view, heapEq]
        congr 1
        funext conn
        rw [viewOfEq, found]
        simp [viewOf, phased, Phase.batch]
    | some entry =>
        have selected : entry.1 = c := by simpa using List.find?_some found
        have allowed := List.all_eq_true.mp reported entry (List.mem_of_find?_eq_some found)
        unfold mayReport at allowed
        split at allowed
        · cases allowed
        · next conn alive =>
          rw [selected] at alive
          simp only [share, found, Option.map_some]
          refine .moved validNext (by simp only [view, alive, Option.map_some]; rfl)
            (by simp only [view, heapEq, alive, Option.map_some, viewOfEq, found]; rfl)
            (View.Moves.poll _ ?_ ?_ ?_)
          · simp [viewOf, framed]
          · simp [viewOf, phased, Phase.batch]
          · simpa [viewOf] using allowed
  · cases stepped

/-- What the end of a step in the code of a connection says about its view. -/
def Continues (view : View) (writes : List WriteResult) (scope : Scope) : Scope.Next → Prop
  | .go after frame =>
      View.Moves view (.resume writes) { view with conn := after.conn, frame := frame } ∧
        scope.Keeps after
  | .dispatch after job =>
      View.Moves view (.resume writes)
        { view with conn := after.conn, frame := some .parseLoop, pool := job ::ₘ view.pool } ∧
        scope.Keeps after ∧ job.self = view.conn.weakThis
  | .raise _ => View.Moves view (.resume writes) view

theorem continues_parseLoop {view : View} (parsing : view.frame = some .parseLoop)
    (eloop : EventLoop) (writes : List WriteResult) :
    Continues view writes { conn := view.conn, eloop }
      (Scope.parseLoop { conn := view.conn, eloop } writes) := by
  unfold Scope.parseLoop
  by_cases dead : view.conn.state = .dead
  · rw [if_pos dead]
    exact ⟨.leave parsing dead, Scope.Keeps.refl _⟩
  · rw [if_neg dead]
    cases parsed : view.conn.httpProcess.parse view.conn.readBuffer with
    | error exception => exact .raise parsing dead (by simp [parsed])
    | ok outcome =>
        rcases outcome with ⟨result, process, rest⟩
        cases result with
        | kNeedMore => exact ⟨.needMore process rest parsing dead parsed, Scope.Keeps.modify _ _ rfl⟩
        | kLineTooLong =>
            refine ⟨?_, (Scope.Keeps.modify _ _ rfl).trans (Scope.Keeps.checkEmptyReadAfterEof _)⟩
            rw [Scope.conn_checkEmptyReadAfterEof]
            exact .tooLong process rest parsing dead parsed
        | kError =>
            refine ⟨?_, (Scope.Keeps.modify _ _ rfl).trans (Scope.Keeps.sendHttpOnLoop _ _ _ _)⟩
            rw [Scope.conn_sendHttpOnLoop build400_ne_nil]
            exact .reject writes process rest parsing dead parsed
        | kComplete =>
            let scope := Scope.modify { conn := view.conn, eloop }
              (afterParse · fresh rest (.complete process.current))
            have keeps : Scope.Keeps { conn := view.conn, eloop } scope :=
              Scope.Keeps.modify _ _ rfl
            change Continues _ _ _
              (scope.onComplete process.current (results view.conn.log).length writes)
            cases pooled : view.conn.useThreadPool with
            | true =>
                rw [Scope.onComplete_of_pooled pooled]
                split
                · exact ⟨parsing ▸ .dispatch process rest parsing dead parsed pooled,
                    keeps.trans (Scope.Keeps.modify _ _ rfl), rfl⟩
                · refine .raise parsing dead fun result next left again => ?_
                  rw [parsed] at again
                  cases again
                  exact ⟨rfl, pooled⟩
            | false =>
                rw [Scope.onComplete_of_alone pooled dead]
                refine ⟨?_, keeps.trans (Scope.Keeps.sendHttpOnLoop _ _ _ _)⟩
                rw [Scope.conn_sendHttpOnLoop (buildResponse_ne_nil _)]
                exact .answer writes process rest parsing dead parsed pooled

theorem continues_resume {view : View} {frame : Frame} (framed : view.frame = some frame)
    (eloop : EventLoop) (writes : List WriteResult) :
    Continues view writes { conn := view.conn, eloop }
      (Scope.resume { conn := view.conn, eloop } writes frame) := by
  cases frame with
  | parseLoop => exact continues_parseLoop framed eloop writes
  | afterResponse =>
      refine ⟨?_, Scope.Keeps.checkEmptyReadAfterEof _⟩
      simpa using View.Moves.afterResponse framed
  | afterRejection =>
      refine ⟨?_, (Scope.Keeps.modify _ _ rfl).trans (Scope.Keeps.checkEmptyReadAfterEof _)⟩
      simpa using View.Moves.afterRejection framed
  | afterBackPost =>
      refine ⟨?_, Scope.Keeps.checkEmptyReadAfterEof _⟩
      simpa using View.Moves.afterBackPost framed

theorem pool_viewOf_append {c : ConnId} {conn : Connection} {job : Job} (own : job.self = c) :
    (viewOf { s with queue := s.queue ++ [job] } c conn).pool =
      job ::ₘ (s.viewOf c conn).pool := by
  have moved : (s.queue ++ [job] ++ s.running ++ s.refused).Perm
      (job :: (s.queue ++ s.running ++ s.refused)) := by
    simp
  simp only [viewOf]
  rw [Multiset.coe_eq_coe.mpr moved, ← Multiset.cons_coe]
  exact Multiset.filter_cons_of_pos _ own

theorem follows_resume (valid : s.Valid mode) (c : ConnId) {writes : List WriteResult}
    (stepped : s.resume writes = some next) :
    Follows mode c s next (s.share c (.resume writes)) := by
  unfold resume at stepped
  split at stepped
  · cases stepped
  · next self frame framed =>
    rw [Option.map_eq_some_iff] at stepped
    rcases stepped with ⟨conn, alive, stepped⟩
    have shareEq : s.share c (.resume writes) =
        if self = c then some (.resume writes) else none := by
      simp [share, framed]
    have only : ∀ entry, s.frame = some entry → entry.1 = self := by simp [framed]
    have framedView : (s.viewOf self conn).frame = some frame := by simp [viewOf, framed]
    have moves := continues_resume framedView s.eloop writes
    change Continues _ _ { conn, eloop := s.eloop }
      (Scope.resume { conn, eloop := s.eloop } writes frame) at moves
    rw [shareEq]
    cases resumed : Scope.resume { conn, eloop := s.eloop } writes frame with
    | go scope frame =>
        rw [resumed] at moves stepped
        subst stepped
        exact follows_leave (s := s) frame _ valid rfl alive moves.2 only (fun _ _ => rfl) moves.1 c
    | dispatch scope job =>
        rw [resumed] at moves stepped
        rcases moves with ⟨moves, keeps, jobSelf⟩
        have self_eq : job.self = self := jobSelf.trans (valid.heap self conn alive).2.1
        have validMoved : Valid mode { s with queue := s.queue ++ [job] } := by
          refine valid_of_sub valid rfl rfl rfl ?_ valid.tasks
          intro other member
          simp only [List.mem_append, List.mem_singleton] at member
          rcases member with ((inQueue | rfl) | inRunning) | inRefused
          · exact valid.pool other (by simp [inQueue])
          · rw [self_eq]
            exact (valid.heap self conn alive).1
          · exact valid.pool other (by simp [inRunning])
          · exact valid.pool other (by simp [inRefused])
        have others : ∀ other, self ≠ other →
            viewOf { s with queue := s.queue ++ [job] } other = s.viewOf other := by
          intro other differs
          funext object
          simp [viewOf, self_eq, differs]
        subst stepped
        rw [← pool_viewOf_append self_eq] at moves
        exact follows_leave (s := s) (some .parseLoop) _ validMoved rfl alive keeps only others
          moves c
    | raise exception =>
        rw [resumed] at moves stepped
        subst stepped
        have validNext : Valid mode { s with failure := some (.uncaught exception) } :=
          valid_of_sub valid rfl rfl rfl valid.pool valid.tasks
        by_cases same : self = c
        · subst same
          have shown : s.view self = some (s.viewOf self conn) := by simp [view, alive]
          rw [if_pos rfl]
          exact .moved validNext shown shown moves
        · rw [if_neg same]
          exact .unchanged validNext rfl

theorem follows_timer (valid : s.Valid mode) (c : ConnId) {now : Option Timespec}
    (stepped : s.timer now = some next) : Follows mode c s next (s.share c (.timer now)) := by
  unfold timer at stepped
  split at stepped
  · next framed phased =>
    cases now with
    | none =>
        cases stepped
        change Follows mode c s _ none
        exact follows_of_same valid (by simp [phased, Phase.batch]) rfl
          (by simp [phased, Phase.todo]) c
    | some now =>
        cases stepped
        change Follows mode c s _ none
        exact follows_of_same valid (by simp [phased, Phase.batch]) rfl
          (by simp [phased, Phase.todo]) c
  · cases stepped

theorem follows_expire (valid : s.Valid mode) (c : ConnId) (stepped : s.expire = some next) :
    Follows mode c s next (s.share c .expire) := by
  unfold expire at stepped
  split at stepped
  · next framed phased =>
    cases stepped
    have unlabelled : s.share c .expire = none := by simp [share, phased]
    rw [unlabelled]
    exact follows_of_same valid (by simp [phased, Phase.batch]) rfl
      (by simp [phased, Phase.todo]) c
  · next id rest framed phased =>
    split at stepped
    · next missing =>
      cases stepped
      have unlabelled : s.share c .expire = none := by simp [share, phased, missing]
      rw [unlabelled]
      exact follows_of_same valid rfl rfl (fun _ => rfl) c
    · next timer found =>
      rw [Option.map_eq_some_iff] at stepped
      rcases stepped with ⟨conn, alive, stepped⟩
      have shareEq : s.share c .expire = if timer.callBack = c then some .expire else none := by
        simp [share, phased, found]
      have validMoved : Valid mode { s with phase := .expiring rest } :=
        valid_of_sub valid rfl rfl rfl valid.pool (fun self reply member =>
          valid.tasks self reply (by simpa [Phase.todo, phased] using member))
      have sameView : viewOf { s with phase := .expiring rest } = s.viewOf := by
        funext other object
        simp [viewOf, phased, Phase.batch, Phase.todo]
      let scope : Scope := Scope.handleDead { conn, eloop := s.eloop }
      let erased : Scope :=
        { conn := scope.conn
          eloop :=
            { scope.eloop with
              timerQueue :=
                { scope.eloop.timerQueue with timers := scope.eloop.timerQueue.timers.erase id } } }
      have keeps : Scope.Keeps { conn, eloop := s.eloop } erased := by
        have dead := Scope.Keeps.handleDead { conn, eloop := s.eloop }
        exact ⟨dead.wiring, dead.stop, dead.tasks⟩
      have connEq : erased.conn = conn.died := Scope.conn_handleDead _
      have moves : View.Moves (s.viewOf timer.callBack conn) .expire
          { s.viewOf timer.callBack conn with conn := erased.conn, frame := none } := by
        have ready : (s.viewOf timer.callBack conn).frame = none := by simp [viewOf, framed]
        have handled : (s.viewOf timer.callBack conn).pending = [] := by
          simp [viewOf, phased, Phase.batch]
        rw [connEq, ← ready]
        exact .expire ready handled
      have nextEq : leave { s with phase := .expiring rest } timer.callBack erased none = next := by
        rw [← stepped]
        rfl
      rw [shareEq, ← nextEq]
      exact follows_leave (s := s) none .expire validMoved rfl alive keeps
        (by simp [framed]) (fun other _ => congrFun sameView other)
        (by rw [sameView]; exact moves) c
  · cases stepped

theorem follows_drain (valid : s.Valid mode) (c : ConnId) (stepped : s.drain = some next) :
    Follows mode c s next (s.share c .drain) := by
  unfold drain at stepped
  split at stepped
  · next framed phased =>
    cases stepped
    change Follows mode c s _ none
    exact follows_of_same valid (by simp [phased, Phase.batch]) rfl
      (by simp [phased, Phase.todo]) c
  · cases stepped

theorem follows_endLoop (valid : s.Valid mode) (c : ConnId) (stepped : s.endLoop = some next) :
    Follows mode c s next (s.share c .endLoop) := by
  unfold endLoop at stepped
  split at stepped
  · next done framed phased =>
    cases stepped
    change Follows mode c s _ none
    refine follows_of_same valid ?_ rfl ?_ c
    · simp only [phased]
      split <;> rfl
    · intro other
      simp only [phased]
      split <;> rfl
  · cases stepped

theorem follows_enqueue (valid : s.Valid mode) (c : ConnId) {func : Task}
    (noReply : ∀ other, replyFor other func = none) (nextSocket : SocketId) :
    Follows mode c s
      { s with nextSocket := nextSocket, eloop := s.eloop.enqueueTask func } none := by
  refine follows_of_same valid rfl rfl ?_ c
  intro other
  simp only [EventLoop.enqueueTask]
  split
  · rfl
  · simp [List.filterMap_append, noReply other]

theorem follows_take (valid : s.Valid mode) (c : ConnId) (stepped : s.take = some next) :
    Follows mode c s next (s.share c .take) := by
  unfold take at stepped
  split at stepped
  · cases stepped
  · next job queue queued =>
    split at stepped
    · cases stepped
      refine follows_of_same valid rfl ?_ (fun _ => rfl) c
      rw [Multiset.coe_eq_coe, queued]
      have middle : queue ++ s.running ++ job :: s.refused ~
          job :: (queue ++ s.running ++ s.refused) := List.perm_middle
      simpa [List.append_assoc] using middle
    · cases stepped

theorem follows_post (valid : s.Valid mode) (c : ConnId) {index : ℕ}
    (stepped : s.post index = some next) : Follows mode c s next (s.share c (.post index)) := by
  unfold post at stepped
  rw [Option.map_eq_some_iff] at stepped
  rcases stepped with ⟨job, found, stepped⟩
  have removed : job :: (s.queue ++ s.running.eraseIdx index ++ s.refused) ~
      s.queue ++ s.running ++ s.refused := by
    rcases List.getElem?_eq_some_iff.mp found with ⟨inside, rfl⟩
    have front : s.running[index] :: (s.queue ++ s.running.eraseIdx index ++ s.refused) ~
        s.queue ++ s.running[index] :: s.running.eraseIdx index ++ s.refused := by
      have middle : s.queue ++ s.running[index] :: (s.running.eraseIdx index ++ s.refused) ~
          s.running[index] :: (s.queue ++ (s.running.eraseIdx index ++ s.refused)) :=
        List.perm_middle
      simpa using middle.symm
    exact front.trans
      (((List.getElem_cons_eraseIdx_perm inside).append_left s.queue).append_right s.refused)
  by_cases stopped : s.eloop.stop = true
  · simp only [stopped, if_true] at stepped
    subst stepped
    have unlabelled : s.share c (.post index) = none := by simp [share, stopped]
    rw [unlabelled]
    refine follows_of_same valid rfl ?_ (fun _ => rfl) c
    rw [Multiset.coe_eq_coe]
    have front : s.queue ++ s.running.eraseIdx index ++ job :: s.refused ~
        job :: (s.queue ++ s.running.eraseIdx index ++ s.refused) := List.perm_middle
    exact front.trans removed
  · simp only [stopped, if_false, Bool.false_eq_true, EventLoop.enqueueTask] at stepped
    have shareEq : s.share c (.post index) = if job.self = c then some (.post job) else none := by
      simp [share, stopped, found]
    have validNext : next.Valid mode := by
      subst stepped
      refine valid_of_sub valid rfl rfl rfl ?_ ?_
      · intro other member
        exact valid.pool other (removed.mem_iff.mp (List.mem_cons_of_mem _ member))
      · intro self reply member
        rw [← List.append_assoc, List.mem_append, List.mem_singleton, Task.respond.injEq] at member
        rcases member with earlier | ⟨rfl, _⟩
        · exact valid.tasks self reply earlier
        · exact valid.pool job (removed.mem_iff.mp List.mem_cons_self)
    have poolEq : ((s.queue ++ s.running ++ s.refused : List Job) : Multiset Job) =
        job ::ₘ (s.queue ++ s.running.eraseIdx index ++ s.refused : List Job) := by
      rw [Multiset.cons_coe, Multiset.coe_eq_coe]
      exact removed.symm
    rw [shareEq]
    by_cases same : job.self = c
    · rw [if_pos same]
      cases alive : s.heap c with
      | none =>
          refine ⟨validNext, ?_⟩
          intro after shown
          subst stepped
          simp [view, alive] at shown
      | some conn =>
          have shown : s.view c = some (s.viewOf c conn) := by simp [view, alive]
          have filtered : (s.viewOf c conn).pool = job ::ₘ
              ((s.queue ++ s.running.eraseIdx index ++ s.refused : List Job) :
                Multiset Job).filter fun job => job.self = c := by
            simp only [viewOf, poolEq]
            exact Multiset.filter_cons_of_pos _ same
          have shownAfter : next.view c = some { s.viewOf c conn with
              pool := (s.viewOf c conn).pool.erase job
              tasks := (s.viewOf c conn).tasks ++ [job.reply] } := by
            rw [filtered, Multiset.erase_cons_head]
            subst stepped
            simp [view, alive, viewOf, replyFor, same]
          refine .moved validNext shown shownAfter (.post job ?_)
          rw [filtered]
          exact Multiset.mem_cons_self job _
    · rw [if_neg same]
      refine .unchanged validNext ?_
      subst stepped
      simp only [view]
      congr 1
      funext object
      have filtered : ((s.queue ++ s.running ++ s.refused : List Job) : Multiset Job).filter
          (fun job => job.self = c) =
          ((s.queue ++ s.running.eraseIdx index ++ s.refused : List Job) :
            Multiset Job).filter fun job => job.self = c := by
        rw [poolEq]
        exact Multiset.filter_cons_of_neg _ same
      simp only [viewOf, filtered]
      simp [replyFor, same]

/-- No destructor runs, since each connection holds itself. -/
theorem destroy_eq_none (valid : s.Valid mode) (c : ConnId) : s.destroy c = none := by
  unfold destroy
  rw [if_neg]
  rintro ⟨alive, unreferenced⟩
  rcases Option.isSome_iff_exists.mp alive with ⟨conn, found⟩
  have referenced := valid.strongCount_pos (valid.heap c conn found).1
  omega

theorem moves_respond {view : View} (ready : view.frame = none) (handled : view.pending = [])
    {reply : Reply} {tasks : List Reply} (waiting : view.tasks = reply :: tasks)
    (eloop : EventLoop) (writes : List WriteResult) :
    View.Moves view (.respond writes)
      { view with
        conn := (Scope.respond { conn := view.conn, eloop } reply writes).1.conn
        frame := (Scope.respond { conn := view.conn, eloop } reply writes).2
        tasks := tasks } := by
  by_cases dead : view.conn.state = .dead
  · have skipped : Scope.respond { conn := view.conn, eloop } reply writes =
        ({ conn := { view.conn with working := view.conn.working - 1 }, eloop }, none) :=
      if_pos dead
    rw [skipped, ← ready]
    exact .skip reply tasks ready handled waiting dead
  · have sent : Scope.respond { conn := view.conn, eloop } reply writes =
        (Scope.sendHttpOnLoop
          { conn := { view.conn with working := view.conn.working - 1 }, eloop }
          reply.resp reply.keepAlive writes, some .afterBackPost) :=
      if_neg dead
    rw [sent]
    simp only [Scope.conn_sendHttpOnLoop reply.resp_ne_nil]
    exact .respond writes reply tasks ready handled waiting dead

/-- What `Connection::stop` does to the view. -/
def stoppedView (view : View) : View :=
  { view with conn := view.conn.stopped }

theorem view_stopConnection (framed : s.frame = none) (entry : SocketId × ConnId) (c : ConnId) :
    (s.stopConnection entry).view c =
      if entry.2 = c then (s.view c).map stoppedView else s.view c := by
  unfold stopConnection
  cases alive : s.heap entry.2 with
  | none =>
      by_cases same : entry.2 = c
      · rw [if_pos same, view, ← same, alive]
        rfl
      · rw [if_neg same]
  | some conn =>
      have keeps := Scope.Keeps.stopped { conn, eloop := s.eloop }
      by_cases same : entry.2 = c
      · subst same
        rw [if_pos rfl]
        have after := view_leave_self (c := entry.2) keeps none
        rw [Scope.conn_stop] at after
        apply after.trans
        simp [view, alive, stoppedView, viewOf, framed]
      · rw [if_neg same]
        exact view_leave_other keeps (by simp [framed]) none (fun equal => same equal.symm)

theorem frame_stopConnection (framed : s.frame = none) (entry : SocketId × ConnId) :
    (s.stopConnection entry).frame = none := by
  unfold stopConnection
  split
  · exact framed
  · rfl

theorem valid_stopConnection (valid : s.Valid mode) (entry : SocketId × ConnId) :
    (s.stopConnection entry).Valid mode := by
  unfold stopConnection
  split
  · exact valid
  · next conn alive => exact valid_leave valid alive (Scope.Keeps.stopped _) none

/-- The task of `SubReactor::stop` reaches the connections of the table, and no others. -/
theorem foldl_stopConnection (valid : s.Valid mode) (framed : s.frame = none)
    (entries : List (SocketId × ConnId)) :
    (entries.foldl stopConnection s).Valid mode ∧
      ∀ c, (entries.foldl stopConnection s).view c =
        if c ∈ entries.map Prod.snd then (s.view c).map stoppedView else s.view c := by
  induction entries generalizing s with
  | nil => exact ⟨valid, fun c => by simp⟩
  | cons entry rest ih =>
      have later := ih (valid_stopConnection valid entry) (frame_stopConnection framed entry)
      refine ⟨later.1, ?_⟩
      intro c
      rw [List.foldl_cons, later.2, view_stopConnection framed]
      have listed : c ∈ (entry :: rest).map Prod.snd ↔ entry.2 = c ∨ c ∈ rest.map Prod.snd := by
        rw [List.map_cons, List.mem_cons, eq_comm]
      have idempotent : stoppedView ∘ stoppedView = stoppedView := by
        funext view
        simp [stoppedView]
      by_cases here : entry.2 = c
      · rw [if_pos here, if_pos (listed.mpr (.inl here)), Option.map_map, idempotent, ite_self]
      · have tail : c ∈ (entry :: rest).map Prod.snd ↔ c ∈ rest.map Prod.snd := by
          rw [listed, or_iff_right here]
        rw [if_neg here]
        simp only [tail]

/-- A task that sends no reply leaves no trace in the views when it is taken. -/
theorem take_task (valid : s.Valid mode) {done todo : List Task} {func : Task}
    (phased : s.phase = .running done (func :: todo))
    (noReply : ∀ c, replyFor c func = none) :
    Valid mode { s with phase := .running (done ++ [func]) todo } ∧
      viewOf { s with phase := .running (done ++ [func]) todo } = s.viewOf := by
  constructor
  · refine valid_of_sub valid rfl rfl rfl valid.pool (fun self reply member => ?_)
    apply valid.tasks self reply
    simp only [phased, Phase.todo, List.cons_append]
    exact List.mem_cons_of_mem _ member
  · funext c conn
    have sameTasks : (s.phase.todo ++ s.eloop.tasks).filterMap (replyFor c) =
        (todo ++ s.eloop.tasks).filterMap (replyFor c) := by
      simp only [phased, Phase.todo, List.cons_append]
      exact List.filterMap_cons_none (noReply c)
    simp only [viewOf, sameTasks]
    simp only [phased, Phase.batch, Phase.todo]

/-- The new connection appears; the others see nothing of it. -/
theorem follows_connect (valid : s.Valid mode) (framed : s.frame = none)
    {done todo : List Task} {sck : SocketId} {taskSubmit : Bool}
    (phased : s.phase = .running done (.addConnection sck taskSubmit :: todo)) (c : ConnId)
    (now : Timespec) :
    Follows mode c s
      (connect { s with phase := .running (done ++ [.addConnection sck taskSubmit]) todo } now
        sck taskSubmit) none := by
  let moved : SubReactor :=
    { s with phase := .running (done ++ [.addConnection sck taskSubmit]) todo }
  rcases take_task valid phased (fun _ => rfl) with ⟨validMoved, sameView⟩
  let conn : Connection :=
    { weakThis := s.nextConn
      useThreadPool := s.useThreadPool
      sck := sck
      process := taskSubmit
      addTimerCallBack := s.nextConn }
  let scope : Scope := Scope.startConnect { conn, eloop := s.eloop } now
  have keeps : Scope.Keeps { conn, eloop := s.eloop } scope := Scope.Keeps.startConnect _ now
  have unused : ∀ object, s.heap s.nextConn ≠ some object := by
    intro object found
    exact absurd (valid.heap _ _ found).1 (lt_irrefl _)
  have noJob : (moved.viewOf s.nextConn conn).pool = 0 := by
    simp only [viewOf, Multiset.filter_eq_nil]
    intro job member same
    exact absurd same (Nat.ne_of_lt (valid.pool job member))
  have noTask : (moved.viewOf s.nextConn conn).tasks = [] := by
    simp only [viewOf, List.filterMap_eq_nil_iff]
    intro task member
    cases task with
    | respond self reply =>
        have below := validMoved.tasks self reply member
        have differs : self ≠ s.nextConn := Nat.ne_of_lt below
        simp [replyFor, differs]
    | _ => rfl
  refine ⟨⟨validMoved.mode_eq, ?_, ?_, ?_, ?_⟩, ?_⟩
  · intro other object found
    by_cases same : other = s.nextConn
    · subst same
      have objectEq : scope.conn = object := by
        simpa [connect, leave] using found
      subst objectEq
      exact ⟨Nat.lt_succ_self _, congrArg Wiring.weakThis keeps.wiring,
        (congrArg Wiring.useThreadPool keeps.wiring).trans valid.mode_eq⟩
    · have foundBefore : s.heap other = some object := by
        simpa [connect, leave, same] using found
      rcases valid.heap other object foundBefore with ⟨below, rest⟩
      exact ⟨Nat.lt_succ_of_lt below, rest⟩
  · intro other made
    by_cases same : other = s.nextConn
    · subst same
      exact ⟨scope.conn, by simp [connect, leave, scope, conn],
        congrArg Wiring.addTimerCallBack keeps.wiring⟩
    · rcases valid.kept other (Nat.lt_of_le_of_ne (Nat.le_of_lt_succ made) same) with
        ⟨object, found, holds⟩
      exact ⟨object, by simpa [connect, leave, same] using found, holds⟩
  · intro job member
    exact Nat.lt_succ_of_lt (valid.pool job member)
  · intro self reply member
    rcases keeps.tasks with ⟨removed, tasksEq⟩
    have known : .respond self reply ∈ moved.phase.todo ++ moved.eloop.tasks := by
      change .respond self reply ∈ todo ++ scope.eloop.tasks at member
      rw [tasksEq] at member
      simpa [moved, Phase.todo] using member
    exact Nat.lt_succ_of_lt (validMoved.tasks self reply known)
  · intro after shown
    by_cases same : c = s.nextConn
    · subst same
      have shownNew := view_leave_self (s := moved) (c := s.nextConn) keeps none
      have afterEq := Option.some.inj (shown.symm.trans shownNew)
      refine .inl ⟨?_, ?_⟩
      · simpa [view, Option.eq_none_iff_forall_ne_some] using unused
      · have starts : View.Starts mode
            { conn := scope.conn, frame := none, pending := [], pool := 0, tasks := [] } :=
          valid.mode_eq ▸ .startConnect s.nextConn sck taskSubmit scope.conn.timerId
        rw [← noJob, ← noTask] at starts
        rw [afterEq]
        exact starts
    · have sameOther := view_leave_other (s := moved) keeps (by simp [moved, framed]) none same
      have shownBefore : s.view c = some after := by
        have viewEq : moved.view c = s.view c := by
          simp only [view]
          rw [sameView]
        rw [← viewEq, ← sameOther]
        exact shown
      exact .inr ⟨after, shownBefore, .inl ⟨rfl, rfl⟩⟩

theorem follows_task (valid : s.Valid mode) (c : ConnId) {now : Timespec}
    {writes : List WriteResult} (stepped : s.task now writes = some next) :
    Follows mode c s next (s.share c (.task now writes)) := by
  unfold task at stepped
  split at stepped
  · next done func todo framed phased =>
    cases func with
    | addConnection sck taskSubmit =>
        cases stepped
        have unlabelled : s.share c (.task now writes) = none := by
          simp [share, phased, Phase.todo]
        rw [unlabelled]
        exact follows_connect valid framed phased c now
    | removeConnection self =>
        simp only [runTask, Option.map_eq_some_iff] at stepped
        rcases stepped with ⟨conn, _, stepped⟩
        have unlabelled : s.share c (.task now writes) = none := by
          simp [share, phased, Phase.todo]
        rw [unlabelled, ← stepped]
        refine follows_of_same valid (by simp [phased, Phase.batch]) rfl ?_ c
        intro other
        simp only [phased, Phase.todo, List.cons_append]
        exact (List.filterMap_cons_none rfl).symm
    | respond self reply =>
        simp only [runTask, Option.map_eq_some_iff] at stepped
        rcases stepped with ⟨conn, alive, stepped⟩
        have shareEq : s.share c (.task now writes) =
            if self = c then some (.respond writes) else none := by
          simp [share, phased, Phase.todo]
        let moved : SubReactor :=
          { s with phase := .running (done ++ [.respond self reply]) todo }
        have validMoved : moved.Valid mode :=
          valid_of_sub valid rfl rfl rfl valid.pool (fun other otherReply member =>
            valid.tasks other otherReply (by
              simp only [phased, Phase.todo, List.cons_append]
              exact List.mem_cons_of_mem _ member))
        have others : ∀ other, self ≠ other → moved.viewOf other = s.viewOf other := by
          intro other differs
          funext object
          simp [moved, viewOf, phased, Phase.batch, Phase.todo, replyFor, differs]
        have waiting : (s.viewOf self conn).tasks = reply :: (moved.viewOf self conn).tasks := by
          simp [moved, viewOf, phased, Phase.todo, replyFor]
        have pendingEq : (moved.viewOf self conn).pending = (s.viewOf self conn).pending := by
          simp [moved, viewOf, phased, Phase.batch]
        have ready : (s.viewOf self conn).frame = none := by simp [viewOf, framed]
        have handled : (s.viewOf self conn).pending = [] := by
          simp [viewOf, phased, Phase.batch]
        have moves := moves_respond ready handled waiting s.eloop writes
        rw [← pendingEq] at moves
        rw [shareEq, ← stepped]
        exact follows_leave (s := s)
          (Scope.respond { conn, eloop := s.eloop } reply writes).2 (.respond writes) validMoved
          rfl alive (Scope.Keeps.respond _ reply writes) (by simp [moved, framed]) others moves c
    | stop =>
        let moved : SubReactor := { s with phase := .running (done ++ [.stop]) todo }
        rcases take_task valid phased (fun _ => rfl) with ⟨validMoved, sameViewOf⟩
        rcases foldl_stopConnection validMoved framed s.connections with ⟨validNext, shown⟩
        have sameView : moved.view c = s.view c := by
          simp only [view]
          rw [sameViewOf]
        have nextEq : next = moved.stopConnections := by
          simpa only [runTask, Option.some.injEq] using stepped.symm
        have validStopped : next.Valid mode := by
          rw [nextEq]
          exact ⟨validNext.mode_eq, validNext.heap, validNext.kept, validNext.pool, validNext.tasks⟩
        have shownNext : next.view c = if c ∈ s.connections.map Prod.snd then
            (s.view c).map stoppedView else s.view c := by
          rw [nextEq, ← sameView]
          exact shown c
        have shareEq : s.share c (.task now writes) =
            if c ∈ s.connections.map Prod.snd then some .stop else none := by
          simp only [share, phased, Phase.todo]
        rw [shareEq]
        by_cases listed : c ∈ s.connections.map Prod.snd
        · rw [if_pos listed] at shownNext ⊢
          cases alive : s.heap c with
          | none =>
              refine ⟨validStopped, ?_⟩
              intro after shownAfter
              have missing : s.view c = none := by simp [view, alive]
              rw [shownNext, missing] at shownAfter
              cases shownAfter
          | some conn =>
              have shownBefore : s.view c = some (s.viewOf c conn) := by simp [view, alive]
              rw [shownBefore] at shownNext
              exact .moved validStopped shownBefore shownNext
                (.stop (by simp [viewOf, framed]) (by simp [viewOf, phased, Phase.batch]))
        · rw [if_neg listed] at shownNext ⊢
          exact .unchanged validStopped shownNext
  · cases stepped

/-- Every step of a reactor is, for each connection, a move of its view or nothing. -/
theorem follows_step (valid : s.Valid mode) (c : ConnId) {action : Action}
    (stepped : s.step action = some next) : Follows mode c s next (s.share c action) := by
  unfold step at stepped
  split at stepped
  · cases stepped
  · cases action with
    | addConnection taskSubmit =>
        cases stepped
        exact follows_enqueue valid c (fun _ => rfl) _
    | stop =>
        cases stepped
        exact follows_enqueue valid c (fun _ => rfl) s.nextSocket
    | poll ready hastime => exact follows_poll valid c stepped
    | handle now reads writes => exact follows_handle valid c stepped
    | resume writes => exact follows_resume valid c stepped
    | timer now => exact follows_timer valid c stepped
    | expire => exact follows_expire valid c stepped
    | drain => exact follows_drain valid c stepped
    | task now writes => exact follows_task valid c stepped
    | endLoop => exact follows_endLoop valid c stepped
    | take => exact follows_take valid c stepped
    | post index => exact follows_post valid c stepped
    | destroy gone => exact absurd (stepped.symm.trans (destroy_eq_none valid gone)) (by simp)

end Steps

theorem valid_init (mode : Bool) (workers : ℕ) : (init mode workers).Valid mode where
  mode_eq := rfl
  heap := by
    intro c conn found
    cases found
  kept := by
    intro c made
    cases made
  pool := by
    intro job member
    cases member
  tasks := by
    intro self reply member
    cases member

/-- A connection as a part of its reactor. -/
def connectionPart (mode : Bool) (c : ConnId) : Transition.Part step View Share where
  valid := Valid mode
  valid_step := fun valid stepped => (follows_step valid c stepped).valid
  view := view c
  label := share c
  moves := View.Moves
  appears := View.Starts mode
  follows := fun valid stepped shown => (follows_step valid c stepped).moves _ shown

/-- The runs in which every move of the connection satisfies the guard. -/
abbrev ReachableWith (guard : View → Share → Prop) (c : ConnId) (mode : Bool) (workers : ℕ)
    (s : SubReactor) : Prop :=
  ReachableUnder ((connectionPart mode c).lift guard) mode workers s

/-- What holds of a view at its start and is kept by its moves holds of the
connection in every run. -/
theorem view_invariant {guard : View → Share → Prop} (Holds : View → Prop) {c : ConnId}
    {mode : Bool} {workers : ℕ} {s : SubReactor}
    (starts : ∀ view, View.Starts mode view → Holds view)
    (kept : ∀ {before share after}, Holds before → guard before share →
      View.Moves before share after → Holds after)
    (reaches : ReachableWith guard c mode workers s) :
    ∀ view, s.view c = some view → Holds view :=
  (connectionPart mode c).invariant Holds (valid_init mode workers) rfl starts kept reaches

/-- The runs in which every move of the connection satisfies the guard, as runs. -/
theorem ReachableWith.reachable {guard : View → Share → Prop} {c : ConnId} {mode : Bool}
    {workers : ℕ} {s : SubReactor} (reaches : ReachableWith guard c mode workers s) :
    Reachable mode workers s :=
  reaches.weaken fun _ _ _ => trivial

theorem valid_of_reachable {mode : Bool} {workers : ℕ} {s : SubReactor}
    (reachable : Reachable mode workers s) : s.Valid mode :=
  reachable.invariant (fun s => s.Valid mode) (valid_init mode workers)
    fun valid _ stepped => (follows_step valid 0 stepped).valid

/-- The invariant of a connection holds of every connection in every run. -/
theorem regular_of_reachable {c : ConnId} {mode : Bool} {workers : ℕ} {s : SubReactor}
    (reachable : Reachable mode workers s) {view : View} (shown : s.view c = some view) :
    view.Regular := by
  have reaches : ReachableWith (fun _ _ => True) c mode workers s :=
    reachable.weaken fun _ _ _ _ _ _ _ => trivial
  exact view_invariant View.Regular (fun _ => View.regular_starts)
    (fun regular _ moves => View.regular_moves regular moves) reaches view shown

/-- What is kept by the moves of regular views holds of the connection in every run. -/
theorem regular_view_invariant {guard : View → Share → Prop} (Holds : View → Prop) {c : ConnId}
    {mode : Bool} {workers : ℕ} {s : SubReactor}
    (starts : ∀ view, View.Starts mode view → Holds view)
    (kept : ∀ {before share after}, before.Regular → Holds before → guard before share →
      View.Moves before share after → Holds after)
    (reaches : ReachableWith guard c mode workers s) {view : View}
    (shown : s.view c = some view) : Holds view :=
  (view_invariant (fun view => view.Regular ∧ Holds view)
    (fun view started => ⟨View.regular_starts started, starts view started⟩)
    (fun known allowed moves => ⟨View.regular_moves known.1 moves,
      kept known.1 known.2 allowed moves⟩) reaches view shown).2

/-- The guard of an unrestricted run, on views. -/
def anyMove (_ : View) (_ : Share) : Prop :=
  True

instance (view : View) (share : Share) : Decidable (anyMove view share) :=
  isTrue trivial

/-- A concrete run, and what is seen of its last state. -/
theorem exists_of_look {α : Type} (guard : View → Share → Prop)
    [∀ view share, Decidable (guard view share)] (c : ConnId) (mode : Bool) (workers : ℕ)
    (actions : List Action) (look : SubReactor → Option α) (seen : α)
    (ran : (Transition.run step ((connectionPart mode c).lift guard) (init mode workers)
      actions).bind look = some seen) :
    ∃ s, ReachableWith guard c mode workers s ∧ look s = some seen := by
  rw [Option.bind_eq_some_iff] at ran
  rcases ran with ⟨s, ran, looked⟩
  exact ⟨s, Transition.reaches_of_run ran, looked⟩

/-- A concrete run, looked at through a connection's view. -/
theorem exists_of_run {α : Type} (guard : View → Share → Prop)
    [∀ view share, Decidable (guard view share)] (c : ConnId) (mode : Bool) (workers : ℕ)
    (actions : List Action) (look : View → α) (seen : α)
    (ran : ((Transition.run step ((connectionPart mode c).lift guard) (init mode workers)
      actions).bind fun s => (s.view c).map look) = some seen) :
    ∃ s view, ReachableWith guard c mode workers s ∧ s.view c = some view ∧ look view = seen := by
  rcases exists_of_look guard c mode workers actions _ seen ran with ⟨s, reaches, shown⟩
  rw [Option.map_eq_some_iff] at shown
  rcases shown with ⟨view, shown, looked⟩
  exact ⟨s, view, reaches, shown, looked⟩

def clock : Timespec :=
  { tvSec := 0, tvNsec := 0 }

/-- A connection is made, by the overload with a `taskSubmit` or by the other. -/
def connecting (taskSubmit : Bool) : List Action :=
  [.addConnection taskSubmit, .poll [] false, .drain, .task clock [], .endLoop]

/-- The first connection is polled and reads. -/
def reading (reads : List ReadResult) : List Action :=
  [.poll [(0, { epollIn := true })] false, .handle clock reads []]

/-- The socket accepts all that is offered. -/
def acceptAll : List WriteResult :=
  [.accepted 65536 (by decide)]

end SubReactor

end MiniWebServer
