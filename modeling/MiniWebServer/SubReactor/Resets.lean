import MiniWebServer.Connection.Faults
import MiniWebServer.SubReactor.Expiry

/-!
# Writes that fail

A write that fails with an error other than `EAGAIN` and `EINTR` ends its write
loop in `handleDead`. What the step that contains it does to the connection, to
the other connections and to the timers is stated here.
-/

namespace MiniWebServer

open Connection HttpProcess

namespace Connection

theorem loopWrites_zero (writes : List WriteResult) : loopWrites 0 writes = [] := by
  cases writes with
  | nil => rfl
  | cons write rest => exact if_pos rfl

theorem deathCount_update (conn : Connection) (change : Channel → Channel) :
    (conn.update change).deathCount = conn.deathCount := by
  unfold Connection.update deathCount
  simp only
  split
  · rfl
  · rw [List.count_append]
    rfl

namespace Scope

/-- Code in which `handleDead` runs once, and no timer is armed. -/
structure Dies (before after : Scope) : Prop where
  deathCount : after.conn.deathCount = before.conn.deathCount + 1
  timers : after.timers = before.timers.erase before.conn.timerId

theorem dies_handleDead {scope : Scope} (alive : scope.conn.state ≠ .dead) :
    scope.Dies scope.handleDead := by
  have settles := Settles.handleDead scope
  refine ⟨?_, ?_⟩
  · rw [conn_handleDead, died_of_ne_dead alive, deathCount, List.count_append]
    rfl
  · unfold handleDead
    rw [if_neg alive]
    change (EventLoop.enqueueTask _ _).timerQueue.timers = _
    rw [EventLoop.timerQueue_enqueueTask]
    exact TimerQueue.timers_deleteTimer _ _

theorem trySendToSck_of_fails {scope : Scope} {writes : List WriteResult}
    (pending : scope.conn.writeBuffer.readable ≠ 0) (fails : .failed .other ∈ sendWrites writes) :
    scope.trySendToSck writes = scope.handleDead := by
  fun_induction Scope.trySendToSck scope writes with
  | case1 writes empty => exact absurd empty pending
  | case2 => simp [sendWrites] at fails
  | case3 => simp [sendWrites] at fails
  | case4 _ rest ih => exact ih (by simpa [sendWrites] using fails)
  | case5 => rfl
  | case6 => simp [sendWrites] at fails
  | case7 => simp [sendWrites] at fails

/-- The loop of `handleWriteCallBack` writes until the error. -/
theorem dies_writeLoop {scope : Scope} {writes : List WriteResult}
    (alive : scope.conn.state ≠ .dead)
    (fails : .failed .other ∈ loopWrites scope.conn.writeBuffer.readable writes) :
    scope.Dies (scope.writeLoop writes) := by
  fun_induction Scope.writeLoop scope writes with
  | case1 writes scope empty =>
      rw [empty, loopWrites_zero] at fails
      cases fails
  | case2 scope => simp [loopWrites] at fails
  | case3 scope pending => simp [loopWrites, pending] at fails
  | case4 scope pending rest ih => exact ih alive (by simpa [loopWrites, pending] using fails)
  | case5 scope => exact dies_handleDead alive
  | case6 scope pending count positive rest written empty =>
      have drained : scope.conn.writeBuffer.readable - count = 0 := by
        rw [← readable_bufferToSck]
        exact empty
      simp [loopWrites, pending, drained, loopWrites_zero] at fails
  | case7 scope pending count positive rest written more ih =>
      have dies := ih alive ?_
      · refine ⟨?_, dies.timers⟩
        rw [dies.deathCount]
        simp [written, deathCount, Scope.modify, Connection.bufferToSck]
      · rw [conn_modify, readable_bufferToSck]
        simpa [loopWrites, pending] using fails

theorem dies_sendHttpOnLoop {scope : Scope} {resp : List UInt8} {writes : List WriteResult}
    (alive : scope.conn.state ≠ .dead) (nonempty : resp ≠ []) (keepAlive : Bool)
    (fails : .failed .other ∈ sendWrites writes) :
    scope.Dies (scope.sendHttpOnLoop resp keepAlive writes) := by
  have pending : (scope.modify (dataIn · resp)).conn.writeBuffer.readable ≠ 0 := by
    have positive := List.length_pos_of_ne_nil nonempty
    rw [conn_modify, dataIn, ← Buffer.length_peek, Buffer.peek_dataIn, List.length_append]
    omega
  have dies : scope.Dies ((scope.modify (dataIn · resp)).trySendToSck writes) := by
    rw [trySendToSck_of_fails pending fails]
    have dead := @dies_handleDead (scope.modify (dataIn · resp)) alive
    refine ⟨?_, dead.timers⟩
    rw [dead.deathCount, conn_modify]
    simp [deathCount, dataIn]
  unfold sendHttpOnLoop
  simp only
  split
  · exact dies
  · refine ⟨?_, dies.timers⟩
    rw [← dies.deathCount]
    exact deathCount_update _ .disableReading

/-- The timer is refreshed before the write fails. -/
theorem dies_handleWriteCallBack {scope : Scope} (now : Timespec) {writes : List WriteResult}
    (alive : scope.conn.state ≠ .dead)
    (fails : .failed .other ∈ loopWrites scope.conn.writeBuffer.readable writes) :
    (scope.handleWriteCallBack now writes).conn.deathCount = scope.conn.deathCount + 1 ∧
      (scope.handleWriteCallBack now writes).timers =
        (scope.timers.erase scope.conn.timerId).erase scope.eloop.timerQueue.nextTimerId := by
  have pending : scope.conn.writeBuffer.readable ≠ 0 := by
    intro empty
    rw [empty, loopWrites_zero] at fails
    cases fails
  have dies : (scope.refreshTimer now).Dies ((scope.refreshTimer now).writeLoop writes) :=
    dies_writeLoop alive fails
  have runs : scope.handleWriteCallBack now writes = (scope.refreshTimer now).writeLoop writes := by
    rw [handleWriteCallBack, if_neg alive]
    exact if_neg pending
  have issued : scope.deleteTimerCallBack.eloop.timerQueue.nextTimerId =
      scope.eloop.timerQueue.nextTimerId := by
    rw [TimerQueue.nextTimerId, TimerQueue.nextTimerId]
    exact congrArg (fun id : ℤ => (id + 1).bmod (2 ^ 32)) (TimerQueue.timerId_deleteTimer _ _)
  rw [runs, dies.deathCount, dies.timers, refreshTimer, timers_addTimerCallBack,
    timers_deleteTimerCallBack, issued]
  refine ⟨?_, ?_⟩
  · simp [deathCount, addTimerCallBack, deleteTimerCallBack]
  · change OrderedMap.erase _ scope.deleteTimerCallBack.eloop.timerQueue.nextTimerId = _
    rw [issued, OrderedMap.erase_insert]

end Scope

end Connection

/-- A write of the move fails with an error other than `EAGAIN` and `EINTR`. -/
def View.FailsWrite (view : View) : Share → Prop
  | .write _ writes =>
      view.conn.state ≠ .dead ∧ .failed .other ∈ loopWrites view.conn.writeBuffer.readable writes
  | share => ∃ send ∈ view.send? share, .failed .other ∈ sendWrites send.writes

instance (view : View) (share : Share) : Decidable (view.FailsWrite share) :=
  match share with
  | .write _ _ => inferInstanceAs (Decidable (_ ∧ _))
  | .poll _ => inferInstanceAs (Decidable (∃ send ∈ view.send? _, _))
  | .read _ _ => inferInstanceAs (Decidable (∃ send ∈ view.send? _, _))
  | .resume _ => inferInstanceAs (Decidable (∃ send ∈ view.send? _, _))
  | .expire => inferInstanceAs (Decidable (∃ send ∈ view.send? _, _))
  | .post _ => inferInstanceAs (Decidable (∃ send ∈ view.send? _, _))
  | .respond _ => inferInstanceAs (Decidable (∃ send ∈ view.send? _, _))
  | .stop => inferInstanceAs (Decidable (∃ send ∈ view.send? _, _))

namespace SubReactor

/-- A write on the connection fails in the step. -/
def FailsWrite (s : SubReactor) (c : ConnId) (action : Action) : Prop :=
  ∃ view ∈ s.view c, ∃ share ∈ s.share c action, view.FailsWrite share

instance (s : SubReactor) (c : ConnId) (action : Action) : Decidable (s.FailsWrite c action) :=
  inferInstanceAs (Decidable (∃ view ∈ s.view c, ∃ share ∈ s.share c action, _))

/-- The connection in whose code a callback, an iteration of `onHttp` or a reply
of a worker runs. -/
def running? (s : SubReactor) : Action → Option ConnId
  | .handle _ _ _ => s.phase.batch.head?.map Prod.fst
  | .resume _ => s.frame.map Prod.fst
  | .task _ _ =>
      match s.phase.todo with
      | .respond self _ :: _ => some self
      | _ => none
  | _ => none

/-- The ids that `handleDead` deletes in the step of a failing write: the one of
the connection and, if its timer is refreshed first, the one that it gets. -/
def deletedIds (s : SubReactor) (c : ConnId) (action : Action) : List ℤ :=
  match s.heap c with
  | none => []
  | some conn =>
      if (s.refresh? action).isSome then [conn.timerId, s.eloop.timerQueue.nextTimerId]
      else [conn.timerId]

/-- What a step with a failing write does. -/
structure Resets (s : SubReactor) (c : ConnId) (action : Action) (next : SubReactor) : Prop where
  died : ∃ before after, s.heap c = some before ∧ next.heap c = some after ∧
    after.deathCount = before.deathCount + 1
  failure : next.failure = s.failure
  others : ∀ other, other ≠ c → next.heap other = s.heap other
  timers : next.timers.entries =
    s.timers.entries.filter fun entry => entry.1 ∉ s.deletedIds c action

section

variable {s next : SubReactor} {c : ConnId} {conn : Connection} {share : Share}

theorem resets_leave {action : Action} {moved : SubReactor} {before scope : Scope}
    {frame : Option Frame} (found : s.heap c = some conn) (quiet : s.refresh? action = none)
    (heap : moved.heap = s.heap) (failure : moved.failure = s.failure)
    (timers : before.timers = s.timers) (timerId : before.conn.timerId = conn.timerId)
    (deathCount : before.conn.deathCount = conn.deathCount) (dies : before.Dies scope) :
    Resets s c action (moved.leave c scope frame) := by
  refine ⟨⟨conn, scope.conn, found, Function.update_self .., ?_⟩, failure, ?_, ?_⟩
  · rw [dies.deathCount, deathCount]
  · intro other differs
    rw [← heap]
    exact Function.update_of_ne differs ..
  · change scope.timers.entries = _
    rw [dies.timers, timers, timerId]
    simp [deletedIds, found, quiet, OrderedMap.erase]

theorem resets_handle {now : Timespec} {reads : List ReadResult} {writes : List WriteResult}
    (found : s.heap c = some conn) (shared : s.share c (.handle now reads writes) = some share)
    (fails : (s.viewOf c conn).FailsWrite share)
    (stepped : s.handle now reads writes = some next) :
    Resets s c (.handle now reads writes) next := by
  unfold handle at stepped
  split at stepped
  · next self callback batch hastime framed phased =>
    rw [Option.map_eq_some_iff] at stepped
    rcases stepped with ⟨known, foundSelf, stepped⟩
    simp only [SubReactor.share, phased, Phase.batch] at shared
    split at shared
    · next same =>
      subst same
      rw [found, Option.some.injEq] at foundSelf
      subst foundSelf
      cases callback with
      | readCallBack =>
          cases shared
          rcases fails with ⟨send, called, _⟩
          cases called
      | writeCallBack =>
          cases shared
          have dies := @Scope.dies_handleWriteCallBack { conn, eloop := s.eloop } now writes fails.1
            fails.2
          subst stepped
          refine ⟨⟨conn, _, found, Function.update_self .., dies.1⟩, rfl, ?_, ?_⟩
          · intro other differs
            exact Function.update_of_ne differs ..
          · change (Scope.handleWriteCallBack { conn, eloop := s.eloop } now writes).timers.entries = _
            have refreshed : s.refresh? (.handle now reads writes) = some (self, now) := by
              have alive : conn.state ≠ .dead := fails.1
              simp [refresh?, phased, Phase.batch, found, alive]
            rw [dies.2]
            simp only [OrderedMap.erase, List.filter_filter, deletedIds, found, refreshed,
              Option.isSome_some, if_true]
            apply List.filter_congr
            intro entry _
            simp [Bool.and_comm]
    · cases shared
  · cases stepped

theorem parseLoop_of_send (eloop : EventLoop) {writes : List WriteResult} {send : View.Send}
    (called : (s.viewOf c conn).send? (.resume writes) = some send) :
    (s.viewOf c conn).frame = some .parseLoop ∧ send.conn.timerId = conn.timerId ∧
      send.conn.deathCount = conn.deathCount ∧ send.conn.state ≠ .dead ∧ send.resp ≠ [] ∧
      send.writes = writes ∧ Scope.parseLoop { conn, eloop } writes =
        .go (Scope.sendHttpOnLoop { conn := send.conn, eloop } send.resp send.keepAlive writes)
          (some send.frame) := by
  simp only [View.send?] at called
  split at called
  · next ready =>
    have alive : conn.state ≠ .dead := ready.2
    refine ⟨ready.1, ?_⟩
    cases parsed : conn.httpProcess.parse conn.readBuffer with
    | error exception => simp [viewOf, parsed] at called
    | ok outcome =>
        rcases outcome with ⟨result, process, rest⟩
        cases result with
        | kNeedMore => simp [viewOf, parsed] at called
        | kLineTooLong => simp [viewOf, parsed] at called
        | kError =>
            simp only [viewOf, parsed, Option.some.injEq] at called
            subst called
            refine ⟨rfl, by simp [deathCount, afterParse], alive, build400_ne_nil, rfl, ?_⟩
            rw [Scope.parseLoop, if_neg alive, parsed]
            rfl
        | kComplete =>
            by_cases pooled : conn.useThreadPool = true
            · simp [viewOf, parsed, pooled] at called
            · rw [Bool.not_eq_true] at pooled
              simp only [viewOf, parsed, pooled, Bool.false_eq_true, if_false,
                Option.some.injEq] at called
              subst called
              refine ⟨rfl, by simp [deathCount, afterParse], alive, buildResponse_ne_nil _, rfl, ?_⟩
              rw [Scope.parseLoop, if_neg alive, parsed]
              exact Scope.onComplete_of_alone pooled alive _ _ _
  · cases called

theorem resets_resume {writes : List WriteResult} (found : s.heap c = some conn)
    (shared : s.share c (.resume writes) = some share)
    (fails : (s.viewOf c conn).FailsWrite share) (stepped : s.resume writes = some next) :
    Resets s c (.resume writes) next := by
  cases framed : s.frame with
  | none => simp [SubReactor.share, framed] at shared
  | some entry =>
      rcases entry with ⟨self, frame⟩
      simp only [SubReactor.share, framed] at shared
      split at shared
      · next same =>
        subst same
        cases shared
        rcases fails with ⟨send, called, failing⟩
        rcases parseLoop_of_send s.eloop called with
          ⟨parsing, timerId, deathCount, alive, nonempty, same, runs⟩
        have atLoop : frame = .parseLoop := by simpa [viewOf, framed] using parsing
        subst atLoop
        rw [same] at failing
        simp only [resume, framed, found, Option.map_some, Scope.resume, runs,
          Option.some.injEq] at stepped
        subst stepped
        exact resets_leave found rfl rfl rfl rfl timerId deathCount
          (Scope.dies_sendHttpOnLoop alive nonempty send.keepAlive failing)
      · cases shared

theorem resets_task {now : Timespec} {writes : List WriteResult} (found : s.heap c = some conn)
    (shared : s.share c (.task now writes) = some share)
    (fails : (s.viewOf c conn).FailsWrite share) (stepped : s.task now writes = some next) :
    Resets s c (.task now writes) next := by
  unfold task at stepped
  split at stepped
  · next done func todo framed phased =>
    simp only [SubReactor.share, phased, Phase.todo] at shared
    cases func with
    | addConnection sck taskSubmit => cases shared
    | removeConnection self => cases shared
    | stop =>
        simp only at shared
        split at shared
        · cases shared
          rcases fails with ⟨send, called, _⟩
          cases called
        · cases shared
    | respond self reply =>
        simp only at shared
        split at shared
        · next same =>
          subst same
          cases shared
          rcases fails with ⟨send, called, failing⟩
          simp only [View.send?, viewOf, phased, Phase.todo, replyFor, List.cons_append,
            List.filterMap_cons, if_true] at called
          split at called
          · cases called
          · next alive =>
            cases called
            simp only [runTask, found, Option.map_some, Option.some.injEq] at stepped
            subst stepped
            have runs : Scope.respond { conn, eloop := s.eloop } reply writes =
                (Scope.sendHttpOnLoop
                  { conn := { conn with working := conn.working - 1 }, eloop := s.eloop }
                  reply.resp reply.keepAlive writes, some .afterBackPost) :=
              if_neg alive
            rw [runs]
            exact resets_leave found (by simp [refresh?, phased, Phase.todo]) rfl rfl rfl rfl rfl
              (Scope.dies_sendHttpOnLoop alive reply.resp_ne_nil reply.keepAlive failing)
        · cases shared
  · cases stepped

/-- A write is made in a write callback, in the parse loop, or for the reply of a worker. -/
theorem cases_of_fails {action : Action} (fails : s.FailsWrite c action) :
    (∃ now reads writes batch, action = .handle now reads writes ∧
      s.phase.batch = (c, .writeCallBack) :: batch) ∨
    (∃ writes, action = .resume writes ∧ s.frame = some (c, .parseLoop)) ∨
    ∃ now writes reply todo, action = .task now writes ∧
      s.phase.todo = .respond c reply :: todo := by
  rcases fails with ⟨view, shown, share, shared, failing⟩
  rcases Option.map_eq_some_iff.mp shown with ⟨conn, _, rfl⟩
  have silent : ∀ other, (s.viewOf c conn).send? other = none → share = other →
      (∀ now writes, other ≠ .write now writes) → False := by
    rintro other unsent rfl noWrite
    cases share with
    | write now writes => exact noWrite now writes rfl
    | _ =>
        rcases failing with ⟨send, called, _⟩
        exact absurd (unsent.symm.trans called) (by simp)
  cases action with
  | handle now reads writes =>
      simp only [SubReactor.share] at shared
      split at shared
      · cases shared
      · next self callback batch batched =>
        split at shared
        · next same =>
          subst same
          cases callback with
          | writeCallBack => exact .inl ⟨now, reads, writes, batch, rfl, batched⟩
          | readCallBack =>
              cases shared
              exact (silent (.read now reads) rfl rfl (by simp)).elim
        · cases shared
  | resume writes =>
      cases framed : s.frame with
      | none => simp [SubReactor.share, framed] at shared
      | some entry =>
          simp only [SubReactor.share, framed] at shared
          split at shared
          · next same =>
            cases shared
            rcases failing with ⟨send, called, _⟩
            have parsing := (parseLoop_of_send s.eloop called).1
            have here : entry.2 = .parseLoop := by simpa [viewOf, framed, same] using parsing
            exact .inr (.inl ⟨writes, rfl, by rw [← same, ← here]⟩)
          · cases shared
  | task now writes =>
      simp only [SubReactor.share] at shared
      split at shared
      · next self reply todo queued =>
        split at shared
        · next same =>
          subst same
          exact .inr (.inr ⟨now, writes, reply, todo, rfl, queued⟩)
        · cases shared
      · split at shared
        · cases shared
          exact (silent .stop rfl rfl (by simp)).elim
        · cases shared
      · cases shared
  | poll ready hastime =>
      rcases Option.map_eq_some_iff.mp shared with ⟨entry, _, same⟩
      exact (silent (.poll entry.2) rfl same.symm (by simp)).elim
  | expire =>
      simp only [SubReactor.share] at shared
      split at shared
      · split at shared
        · cases shared
        · split at shared
          · cases shared
            exact (silent .expire rfl rfl (by simp)).elim
          · cases shared
      · cases shared
  | post index =>
      simp only [SubReactor.share] at shared
      split at shared
      · cases shared
      · split at shared
        · cases shared
        · next job _ =>
          split at shared
          · cases shared
            exact (silent (.post job) rfl rfl (by simp)).elim
          · cases shared
  | _ => cases shared

theorem running?_of_fails {action : Action} (fails : s.FailsWrite c action) :
    s.running? action = some c := by
  rcases cases_of_fails fails with ⟨now, reads, writes, batch, rfl, batched⟩ |
    ⟨writes, rfl, framed⟩ | ⟨now, writes, reply, todo, rfl, queued⟩
  · simp [running?, batched]
  · simp [running?, framed]
  · simp [running?, queued]

/-- What a step with a failing write does, in any state. -/
theorem resets_of_fails {action : Action} (fails : s.FailsWrite c action)
    (stepped : s.step action = some next) : Resets s c action next := by
  have kinds := cases_of_fails fails
  rcases fails with ⟨view, shown, share, shared, failing⟩
  rcases Option.map_eq_some_iff.mp shown with ⟨conn, found, rfl⟩
  unfold step at stepped
  split at stepped
  · cases stepped
  · rcases kinds with ⟨now, reads, writes, batch, rfl, _⟩ | ⟨writes, rfl, _⟩ |
      ⟨now, writes, reply, todo, rfl, _⟩
    · exact resets_handle found shared failing stepped
    · exact resets_resume found shared failing stepped
    · exact resets_task found shared failing stepped

end

/-- While the ids have not wrapped around, the ones that are deleted are the connection's own. -/
theorem callBack_of_deletedIds {s : SubReactor} {c : ConnId} {action : Action}
    (timed : s.Timed) (issued : s.clockwork.Issued)
    (grows : s.eloop.timerQueue.timerId < s.eloop.timerQueue.nextTimerId) :
    ∀ entry ∈ s.timers.entries, entry.1 ∈ s.deletedIds c action → entry.2.callBack = c := by
  intro entry live deleted
  rcases timed.kept entry live with ⟨other, foundOther, known, _⟩
  unfold deletedIds at deleted
  cases found : s.heap c with
  | none => simp [found] at deleted
  | some conn =>
      have own : entry.1 = conn.timerId → entry.2.callBack = c :=
        fun same => issued.distinct _ _ other conn foundOther found (known.trans same)
      have old : entry.1 ≤ s.eloop.timerQueue.timerId := known ▸ issued.issued _ other foundOther
      simp only [found] at deleted
      split at deleted
      · rcases List.mem_cons.mp deleted with same | fresh
        · exact own same
        · rw [List.mem_singleton.mp fresh] at old
          exact absurd grows (not_lt.mpr old)
      · exact own (List.mem_singleton.mp deleted)

/-- The timers of another connection are untouched unless one is under such an id. -/
theorem Resets.timersOf_iff {s next : SubReactor} {c : ConnId} {action : Action}
    (resets : Resets s c action next) :
    (∀ other, other ≠ c → next.timersOf other = s.timersOf other) ↔
      ∀ entry ∈ s.timers.entries, entry.1 ∈ s.deletedIds c action → entry.2.callBack = c := by
  have shrunk : ∀ other, next.timersOf other =
      (s.timersOf other).filter fun entry => entry.1 ∉ s.deletedIds c action := by
    intro other
    rw [timersOf, resets.timers, timersOf, List.filter_comm]
  constructor
  · intro same entry live deleted
    by_contra foreign
    have listed : entry ∈ s.timersOf entry.2.callBack :=
      List.mem_filter.mpr ⟨live, decide_eq_true rfl⟩
    rw [← same _ foreign, shrunk] at listed
    exact of_decide_eq_true (List.mem_filter.mp listed).2 deleted
  · intro own other differs
    rw [shrunk, List.filter_eq_self]
    intro entry listed
    rcases List.mem_filter.mp listed with ⟨live, target⟩
    apply decide_eq_true
    intro deleted
    apply differs
    rw [← own entry live deleted]
    exact (of_decide_eq_true target).symm

end SubReactor

end MiniWebServer
