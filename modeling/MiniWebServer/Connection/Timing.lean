import MiniWebServer.Connection.Effects

/-!
# What the member functions of a connection do to its timer

A read callback and a live write callback begin with `refreshTimer`. After
that, and in all other code of a connection, the timers stay as they are, or
the timer of the connection is deleted because the connection has come to its
end. `Settles` says this once for every member function.
-/

namespace MiniWebServer

@[simp]
theorem EventLoop.timerQueue_enqueueTask (eloop : EventLoop) (func : Task) :
    (eloop.enqueueTask func).timerQueue = eloop.timerQueue := by
  unfold enqueueTask
  split <;> rfl

namespace Connection

open HttpProcess

/-- `handleDead` or `stop` has run on the connection. The latter leaves no event
but a dead state, which only a closing response behind `handleDead` undoes. -/
def Ended (conn : Connection) : Prop :=
  conn.state = .dead ∨ .handleDead ∈ conn.log

instance (conn : Connection) : Decidable conn.Ended :=
  inferInstanceAs (Decidable (_ ∨ _))

theorem Ended.of_eq {conn other : Connection} (ended : conn.Ended)
    (state : other.state = conn.state) {more : List Event} (log : other.log = conn.log ++ more) :
    other.Ended := by
  rcases ended with dead | logged
  · exact .inl (state.trans dead)
  · right
    rw [log]
    exact List.mem_append_left _ logged

theorem log_update (conn : Connection) (change : Channel → Channel) :
    ∃ more, (conn.update change).log = conn.log ++ more := by
  unfold update
  simp only
  split
  · exact ⟨[], by simp⟩
  · exact ⟨[.epollAdd], rfl⟩

namespace Scope

/-- The live timers of the loop. -/
abbrev timers (scope : Scope) : OrderedMap ℤ (Timer ConnId) :=
  scope.eloop.timerQueue.timers

theorem timers_addTimerCallBack (scope : Scope) (now : Timespec) :
    (scope.addTimerCallBack now).timers =
      scope.timers.insert scope.eloop.timerQueue.nextTimerId
        { timerId := scope.eloop.timerQueue.nextTimerId
          expiration := { now with tvSec := now.tvSec + 60 }
          callBack := scope.conn.addTimerCallBack } :=
  rfl

theorem timers_deleteTimerCallBack (scope : Scope) :
    scope.deleteTimerCallBack.timers = scope.timers.erase scope.conn.timerId :=
  TimerQueue.timers_deleteTimer _ _

/-- A change that refreshes no timer: the timers stay as they are, or the
connection has ended and its timer is gone. -/
structure Settles (before after : Scope) : Prop where
  timerId : after.conn.timerId = before.conn.timerId
  counter : after.eloop.timerQueue.timerId = before.eloop.timerQueue.timerId
  ended : before.conn.Ended → after.conn.Ended
  timers :
    (after.timers = before.timers ∧ (after.conn.state = .dead → before.conn.state = .dead)) ∨
      (after.timers = before.timers.erase before.conn.timerId ∧ after.conn.Ended)

namespace Settles

theorem refl (scope : Scope) : Settles scope scope :=
  ⟨rfl, rfl, id, .inl ⟨rfl, id⟩⟩

theorem trans {first second third : Scope} (earlier : Settles first second)
    (later : Settles second third) : Settles first third := by
  refine ⟨later.timerId.trans earlier.timerId, later.counter.trans earlier.counter,
    fun ended => later.ended (earlier.ended ended), ?_⟩
  rcases earlier.timers with ⟨same, alive⟩ | ⟨erased, ended⟩
  · rcases later.timers with ⟨sameLater, aliveLater⟩ | ⟨erasedLater, endedLater⟩
    · exact .inl ⟨sameLater.trans same, fun dead => alive (aliveLater dead)⟩
    · right
      rw [erasedLater, same, earlier.timerId]
      exact ⟨rfl, endedLater⟩
  · right
    refine ⟨?_, later.ended ended⟩
    rcases later.timers with ⟨sameLater, _⟩ | ⟨erasedLater, _⟩
    · exact sameLater.trans erased
    · rw [erasedLater, erased, earlier.timerId]
      ext1
      simp [OrderedMap.erase]

theorem modify (scope : Scope) (change : Connection → Connection)
    (timerId : (change scope.conn).timerId = scope.conn.timerId)
    (state : (change scope.conn).state = scope.conn.state)
    (log : ∃ more, (change scope.conn).log = scope.conn.log ++ more) :
    Settles scope (scope.modify change) := by
  rcases log with ⟨more, log⟩
  exact ⟨timerId, rfl, fun ended => ended.of_eq state log, .inl ⟨rfl, fun dead => state ▸ dead⟩⟩

/-- A change that closes a connection, which may have died through `handleDead`. -/
theorem close (scope : Scope) (change : Connection → Connection)
    (logged : scope.conn.state = .dead → .handleDead ∈ scope.conn.log)
    (timerId : (change scope.conn).timerId = scope.conn.timerId)
    (state : (change scope.conn).state = .peerClose)
    (log : ∃ more, (change scope.conn).log = scope.conn.log ++ more) :
    Settles scope (scope.modify change) := by
  rcases log with ⟨more, log⟩
  refine ⟨timerId, rfl, ?_, .inl ⟨rfl, fun dead => absurd (state.symm.trans dead) (by simp)⟩⟩
  intro ended
  right
  rw [conn_modify, log]
  apply List.mem_append_left
  rcases ended with dead | known
  · exact logged dead
  · exact known

theorem update (scope : Scope) (change : Channel → Channel) :
    Settles scope (scope.modify (Connection.update · change)) :=
  modify scope _ rfl rfl (log_update _ _)

theorem handleDead (scope : Scope) : Settles scope scope.handleDead := by
  unfold Scope.handleDead
  split
  · exact refl scope
  · refine ⟨rfl, ?_, fun _ => .inl rfl, .inr ⟨?_, .inl rfl⟩⟩
    · rw [EventLoop.timerQueue_enqueueTask]
      exact TimerQueue.timerId_deleteTimer _ _
    · rw [Scope.timers, EventLoop.timerQueue_enqueueTask]
      exact TimerQueue.timers_deleteTimer _ _

theorem stop (scope : Scope) : Settles scope scope.stop := by
  unfold Scope.stop
  split
  · exact refl scope
  · refine ⟨rfl, ?_, fun _ => .inl rfl, .inr ⟨?_, .inl rfl⟩⟩
    · exact TimerQueue.timerId_deleteTimer _ _
    · exact TimerQueue.timers_deleteTimer _ _

theorem checkEmptyReadAfterEof (scope : Scope) :
    Settles scope scope.checkEmptyReadAfterEof := by
  unfold Scope.checkEmptyReadAfterEof
  split
  · exact handleDead scope
  · exact refl scope

theorem drained (scope : Scope) : Settles scope scope.drained := by
  have updated := update scope .disableWriting
  unfold Scope.drained
  simp only
  split
  · exact updated.trans (handleDead _)
  · exact updated

theorem bufferToSck (scope : Scope) (count : ℕ) :
    Settles scope (scope.modify (Connection.bufferToSck · count)) :=
  modify scope _ rfl rfl ⟨_, rfl⟩

theorem readFromSck {scope : Scope} (alive : scope.conn.state ≠ .dead)
    (reads : List ReadResult) : Settles scope (scope.readFromSck reads) := by
  fun_induction Scope.readFromSck scope reads with
  | case1 scope => exact refl scope
  | case2 scope rest ih => exact ih alive
  | case3 scope => exact refl scope
  | case4 scope => exact handleDead scope
  | case5 scope => exact close scope _ (fun dead => absurd dead alive) rfl rfl ⟨_, rfl⟩
  | case6 scope bytes rest nonempty ih =>
      apply (modify scope (sckToBuffer · bytes) rfl rfl ⟨_, rfl⟩).trans
      exact ih alive

theorem trySendToSck (scope : Scope) (writes : List WriteResult) :
    Settles scope (scope.trySendToSck writes) := by
  fun_induction Scope.trySendToSck scope writes with
  | case1 => exact refl scope
  | case2 => exact update scope _
  | case3 => exact update scope _
  | case4 _ _ ih => exact ih
  | case5 => exact handleDead scope
  | case6 _ count _ rest written empty => exact (bufferToSck scope count).trans (drained _)
  | case7 _ count _ rest written more => exact (bufferToSck scope count).trans (update _ _)

theorem writeLoop (scope : Scope) (writes : List WriteResult) :
    Settles scope (scope.writeLoop writes) := by
  fun_induction Scope.writeLoop scope writes with
  | case1 => exact refl _
  | case2 => exact refl _
  | case3 => exact refl _
  | case4 _ _ _ ih => exact ih
  | case5 => exact handleDead _
  | case6 scope _ count _ rest written empty => exact (bufferToSck scope count).trans (drained _)
  | case7 scope _ count _ rest written more ih => exact (bufferToSck scope count).trans ih

theorem logged_of_drained {scope : Scope} (alive : scope.conn.state ≠ .dead)
    (dead : scope.drained.conn.state = .dead) : .handleDead ∈ scope.drained.conn.log := by
  rw [conn_drained] at dead ⊢
  unfold Connection.drained at dead ⊢
  split at dead
  · next finished =>
    rw [if_pos finished, died_of_ne_dead finished.alive]
    simp
  · exact absurd dead alive

/-- A connection that dies while it sends has gone through `handleDead`. -/
theorem logged_of_trySendToSck {scope : Scope} (alive : scope.conn.state ≠ .dead)
    (writes : List WriteResult) (dead : (scope.trySendToSck writes).conn.state = .dead) :
    .handleDead ∈ (scope.trySendToSck writes).conn.log := by
  fun_induction Scope.trySendToSck scope writes with
  | case1 => exact absurd dead alive
  | case2 => exact absurd dead alive
  | case3 => exact absurd dead alive
  | case4 _ _ ih => exact ih dead
  | case5 =>
      rw [conn_handleDead, died_of_ne_dead alive]
      simp
  | case6 => exact logged_of_drained alive dead
  | case7 => exact absurd dead alive

theorem sendHttpOnLoop {scope : Scope} (alive : scope.conn.state ≠ .dead) (resp : List UInt8)
    (keepAlive : Bool) (writes : List WriteResult) :
    Settles scope (scope.sendHttpOnLoop resp keepAlive writes) := by
  have tried := (modify scope (dataIn · resp) rfl rfl ⟨_, rfl⟩).trans (trySendToSck _ writes)
  have logged := @logged_of_trySendToSck (scope.modify (dataIn · resp)) alive writes
  unfold Scope.sendHttpOnLoop
  simp only
  split
  · exact tried
  · exact tried.trans (close _ _ logged rfl rfl (log_update _ .disableReading))

theorem handleReadCallBack {scope : Scope} (alive : scope.conn.state ≠ .dead) (now : Timespec)
    (reads : List ReadResult) :
    Settles (scope.refreshTimer now) (scope.handleReadCallBack now reads).1 := by
  have read := @readFromSck (scope.refreshTimer now) alive reads
  unfold Scope.handleReadCallBack onHttp
  simp only
  split
  · exact read.trans (checkEmptyReadAfterEof _)
  · exact read

theorem handleWriteCallBack {scope : Scope} (alive : scope.conn.state ≠ .dead) (now : Timespec)
    (writes : List WriteResult) :
    Settles (scope.refreshTimer now) (scope.handleWriteCallBack now writes) := by
  unfold Scope.handleWriteCallBack
  rw [if_neg alive]
  simp only
  split
  · exact update _ _
  · exact writeLoop _ writes

theorem handleWriteCallBack_of_dead {scope : Scope} (dead : scope.conn.state = .dead)
    (now : Timespec) (writes : List WriteResult) :
    Settles scope (scope.handleWriteCallBack now writes) := by
  rw [Scope.handleWriteCallBack, if_pos dead]
  exact refl scope

theorem respond (scope : Scope) (reply : Reply) (writes : List WriteResult) :
    Settles scope (scope.respond reply writes).1 := by
  have counted : Settles scope
      (scope.modify fun conn => { conn with working := conn.working - 1 }) :=
    modify scope _ rfl rfl ⟨[], by simp⟩
  unfold Scope.respond
  simp only
  split
  · exact counted
  · next alive => exact counted.trans (sendHttpOnLoop alive _ _ writes)

end Settles

/-- What `Settles` says of a step in the code of a connection. -/
def Next.Settles (scope : Scope) : Next → Prop
  | .go after _ => scope.Settles after
  | .dispatch after _ => scope.Settles after
  | .raise _ => True

theorem settles_onComplete {scope : Scope} (alive : scope.conn.state ≠ .dead) (req : HttpRequest)
    (ticket : ℕ) (writes : List WriteResult) :
    (scope.onComplete req ticket writes).Settles scope := by
  unfold onComplete
  split
  · simp only
    split
    · exact Settles.modify scope _ rfl rfl ⟨[], by simp⟩
    · trivial
  · exact Settles.sendHttpOnLoop alive _ _ writes

theorem settles_parseLoop (scope : Scope) (writes : List WriteResult) :
    (scope.parseLoop writes).Settles scope := by
  unfold parseLoop
  split
  · exact Settles.refl scope
  · next alive =>
    split
    · trivial
    · exact Settles.modify scope _ rfl rfl ⟨[], by simp⟩
    · next process rest parsed =>
      rcases log_update (scope.conn.afterParse process rest .lineTooLong) .disableReading
        with ⟨more, logEq⟩
      have closed : ∃ more, ((scope.conn.afterParse process rest .lineTooLong).update
          .disableReading).log = scope.conn.log ++ more :=
        ⟨[.parsed .lineTooLong] ++ more, by rw [logEq, afterParse, List.append_assoc]⟩
      exact (Settles.close scope _ (fun dead => absurd dead alive) rfl rfl closed).trans
        (Settles.checkEmptyReadAfterEof _)
    · next process rest parsed =>
      have rejected : (scope.modify (afterParse · process rest .error)).conn.state ≠ .dead := alive
      exact (Settles.modify scope (afterParse · process rest .error) rfl rfl ⟨_, rfl⟩).trans
        (Settles.sendHttpOnLoop rejected _ _ writes)
    · next process rest parsed =>
      have logged := Settles.modify scope
        (afterParse · process.releaseRequest.2 rest (.complete process.releaseRequest.1)) rfl rfl
        ⟨_, rfl⟩
      have treated := @settles_onComplete (scope.modify
        (afterParse · process.releaseRequest.2 rest (.complete process.releaseRequest.1))) alive
        process.releaseRequest.1 (results scope.conn.log).length writes
      simp only
      revert treated
      generalize onComplete _ _ _ _ = next
      intro treated
      cases next with
      | go after frame => exact logged.trans treated
      | dispatch after job => exact logged.trans treated
      | raise exception => trivial

/-- No code of a connection after its callbacks have begun refreshes a timer. -/
theorem settles_resume (scope : Scope) (writes : List WriteResult) (frame : Frame) :
    (scope.resume writes frame).Settles scope := by
  cases frame with
  | parseLoop => exact settles_parseLoop scope writes
  | afterResponse => exact Settles.checkEmptyReadAfterEof scope
  | afterRejection =>
      have reset : Settles scope
          (scope.modify fun conn => { conn with httpProcess := conn.httpProcess.reset }) :=
        Settles.modify scope _ rfl rfl ⟨[], by simp⟩
      exact reset.trans (Settles.checkEmptyReadAfterEof _)
  | afterBackPost => exact Settles.checkEmptyReadAfterEof scope

end Scope

end Connection

end MiniWebServer
