import MiniWebServer.Connection.Timing
import MiniWebServer.TimerQueue.Firing

/-!
# What the code of a connection does to its event loop

Every member function of a connection is a sequence of `Act`s: it changes the
connection itself, adds or deletes a timer, or enqueues the removal of the
connection. What each of these keeps, the whole code of connections keeps.
-/

namespace MiniWebServer

namespace Connection

namespace Scope

/-- A change of the connection but for its wiring, or a call of its event loop. -/
inductive Act (scope : Scope) : Scope → Prop where
  | modify (change : Connection → Connection)
      (same : (change scope.conn).wiring = scope.conn.wiring) : Act scope (scope.modify change)
  | addTimer (now : Timespec) : Act scope (scope.addTimerCallBack now)
  | deleteTimer : Act scope scope.deleteTimerCallBack
  | enqueueRemoval :
      Act scope
        { scope with eloop := scope.eloop.enqueueTask (.removeConnection scope.conn.weakThis) }

/-- Any number of acts. -/
abbrev Acts : Scope → Scope → Prop :=
  Relation.ReflTransGen Act

namespace Acts

theorem modify (scope : Scope) (change : Connection → Connection)
    (same : (change scope.conn).wiring = scope.conn.wiring) : Acts scope (scope.modify change) :=
  .single (.modify change same)

theorem addTimerCallBack (scope : Scope) (now : Timespec) :
    Acts scope (scope.addTimerCallBack now) :=
  .single (.addTimer now)

theorem deleteTimerCallBack (scope : Scope) : Acts scope scope.deleteTimerCallBack :=
  .single .deleteTimer

theorem startConnect (scope : Scope) (now : Timespec) : Acts scope (scope.startConnect now) :=
  (modify scope (update · .enableReading) rfl).trans (addTimerCallBack _ now)

theorem handleDead (scope : Scope) : Acts scope scope.handleDead := by
  unfold Scope.handleDead
  split
  · exact .refl
  · let removed := scope.modify fun conn =>
      { conn with
        state := .dead
        channel := conn.channel.remove
        log := conn.log ++ [.handleDead, .enqueueRemoval] }
    have left : Acts scope removed := modify scope _ rfl
    exact (left.trans (deleteTimerCallBack removed)).tail .enqueueRemoval

theorem stop (scope : Scope) : Acts scope scope.stop := by
  unfold Scope.stop
  split
  · exact .refl
  · exact (modify scope _ rfl).trans (deleteTimerCallBack _)

theorem checkEmptyReadAfterEof (scope : Scope) : Acts scope scope.checkEmptyReadAfterEof := by
  unfold Scope.checkEmptyReadAfterEof
  split
  · exact handleDead scope
  · exact .refl

theorem refreshTimer (scope : Scope) (now : Timespec) : Acts scope (scope.refreshTimer now) :=
  (deleteTimerCallBack scope).trans (addTimerCallBack _ now)

theorem drained (scope : Scope) : Acts scope scope.drained := by
  have updated : Acts scope (scope.modify (update · .disableWriting)) := modify scope _ rfl
  unfold Scope.drained
  simp only
  split
  · exact updated.trans (handleDead _)
  · exact updated

theorem readFromSck (scope : Scope) (reads : List ReadResult) :
    Acts scope (scope.readFromSck reads) := by
  fun_induction Scope.readFromSck scope reads with
  | case1 scope => exact .refl
  | case2 scope rest ih => exact ih
  | case3 scope => exact .refl
  | case4 scope => exact handleDead scope
  | case5 scope => exact modify scope _ rfl
  | case6 scope bytes rest nonempty ih =>
      exact (modify scope (sckToBuffer · bytes) rfl).trans ih

theorem trySendToSck (scope : Scope) (writes : List WriteResult) :
    Acts scope (scope.trySendToSck writes) := by
  fun_induction Scope.trySendToSck scope writes with
  | case1 => exact .refl
  | case2 => exact modify scope _ rfl
  | case3 => exact modify scope _ rfl
  | case4 _ _ ih => exact ih
  | case5 => exact handleDead scope
  | case6 _ count _ rest written empty =>
      exact (modify scope (bufferToSck · count) rfl).trans (drained _)
  | case7 _ count _ rest written more =>
      exact (modify scope (bufferToSck · count) rfl).trans (modify _ _ rfl)

theorem sendHttpOnLoop (scope : Scope) (resp : List UInt8) (keepAlive : Bool)
    (writes : List WriteResult) : Acts scope (scope.sendHttpOnLoop resp keepAlive writes) := by
  have tried : Acts scope ((scope.modify (dataIn · resp)).trySendToSck writes) :=
    (modify scope (dataIn · resp) rfl).trans (trySendToSck _ writes)
  unfold Scope.sendHttpOnLoop
  simp only
  split
  · exact tried
  · exact tried.trans (modify _ _ rfl)

theorem writeLoop (scope : Scope) (writes : List WriteResult) :
    Acts scope (scope.writeLoop writes) := by
  fun_induction Scope.writeLoop scope writes with
  | case1 => exact .refl
  | case2 => exact .refl
  | case3 => exact .refl
  | case4 _ _ _ ih => exact ih
  | case5 => exact handleDead _
  | case6 scope _ count _ rest written empty =>
      exact (modify scope (bufferToSck · count) rfl).trans (drained _)
  | case7 scope _ count _ rest written more ih =>
      exact (modify scope (bufferToSck · count) rfl).trans ih

theorem handleWriteCallBack (scope : Scope) (now : Timespec) (writes : List WriteResult) :
    Acts scope (scope.handleWriteCallBack now writes) := by
  unfold Scope.handleWriteCallBack
  split
  · exact .refl
  · refine (refreshTimer scope now).trans ?_
    simp only
    split
    · exact modify _ _ rfl
    · exact writeLoop _ writes

theorem handleReadCallBack (scope : Scope) (now : Timespec) (reads : List ReadResult) :
    Acts scope (scope.handleReadCallBack now reads).1 := by
  have read := (refreshTimer scope now).trans (readFromSck _ reads)
  unfold Scope.handleReadCallBack onHttp
  simp only
  split
  · exact read.trans (checkEmptyReadAfterEof _)
  · exact read

theorem respond (scope : Scope) (reply : Reply) (writes : List WriteResult) :
    Acts scope (scope.respond reply writes).1 := by
  have counted : Acts scope
      (scope.modify fun conn => { conn with working := conn.working - 1 }) :=
    modify scope _ rfl
  unfold Scope.respond
  simp only
  split
  · exact counted
  · exact counted.trans (sendHttpOnLoop _ _ _ writes)

end Acts

/-- The acts of a step in the code of a connection. -/
def Next.Acts (scope : Scope) : Next → Prop
  | .go after _ => scope.Acts after
  | .dispatch after _ => scope.Acts after
  | .raise _ => True

theorem acts_onComplete (scope : Scope) (req : HttpRequest) (ticket : ℕ)
    (writes : List WriteResult) : (scope.onComplete req ticket writes).Acts scope := by
  unfold onComplete
  split
  · simp only
    split
    · exact Acts.modify scope _ rfl
    · trivial
  · split
    · exact .refl
    · exact Acts.sendHttpOnLoop scope _ _ writes

theorem acts_parseLoop (scope : Scope) (writes : List WriteResult) :
    (scope.parseLoop writes).Acts scope := by
  unfold parseLoop
  split
  · exact .refl
  · split
    · trivial
    · exact Acts.modify scope _ rfl
    · exact (Acts.modify scope _ rfl).trans (Acts.checkEmptyReadAfterEof _)
    · next process rest _ =>
      exact (Acts.modify scope (afterParse · process rest .error) rfl).trans
        (Acts.sendHttpOnLoop _ _ _ writes)
    · next process rest _ =>
      have parsed := Acts.modify scope
        (afterParse · process.releaseRequest.2 rest (.complete process.releaseRequest.1)) rfl
      have treated := acts_onComplete (scope.modify
        (afterParse · process.releaseRequest.2 rest (.complete process.releaseRequest.1)))
        process.releaseRequest.1 (results scope.conn.log).length writes
      simp only
      revert treated
      generalize onComplete _ _ _ _ = next
      intro treated
      cases next with
      | go after frame => exact parsed.trans treated
      | dispatch after job => exact parsed.trans treated
      | raise exception => trivial

theorem acts_resume (scope : Scope) (writes : List WriteResult) (frame : Frame) :
    (scope.resume writes frame).Acts scope := by
  cases frame with
  | parseLoop => exact acts_parseLoop scope writes
  | afterResponse => exact Acts.checkEmptyReadAfterEof scope
  | afterRejection =>
      have reset : Acts scope
          (scope.modify fun conn => { conn with httpProcess := conn.httpProcess.reset }) :=
        Acts.modify scope _ rfl
      exact reset.trans (Acts.checkEmptyReadAfterEof _)
  | afterBackPost => exact Acts.checkEmptyReadAfterEof scope

variable {before after : Scope}

/-- The tasks that a connection enqueues are removals of itself. -/
theorem Acts.tasks (acts : Acts before after) :
    after.conn.wiring = before.conn.wiring ∧ after.eloop.stop = before.eloop.stop ∧
      ∃ count, after.eloop.tasks =
        before.eloop.tasks ++ List.replicate count (.removeConnection before.conn.weakThis) := by
  induction acts with
  | refl => exact ⟨rfl, rfl, 0, by simp⟩
  | tail _ act ih =>
      rcases ih with ⟨wiring, stop, count, tasksEq⟩
      cases act with
      | modify change same => exact ⟨same.trans wiring, stop, count, tasksEq⟩
      | addTimer now => exact ⟨wiring, stop, count, tasksEq⟩
      | deleteTimer => exact ⟨wiring, stop, count, tasksEq⟩
      | enqueueRemoval =>
          have self := congrArg Wiring.weakThis wiring
          simp only [EventLoop.enqueueTask]
          split
          · exact ⟨wiring, stop, count, tasksEq⟩
          · refine ⟨wiring, stop, count + 1, ?_⟩
            simp only [Connection.wiring] at self
            rw [tasksEq, self, List.replicate_succ', List.append_assoc]

/-- The clock stays armed at the first timer. -/
theorem Acts.armed (acts : Acts before after) (armed : before.eloop.timerQueue.Armed) :
    after.eloop.timerQueue.Armed := by
  induction acts with
  | refl => exact armed
  | tail _ act ih =>
      cases act with
      | modify change same => exact ih
      | addTimer now => exact TimerQueue.armed_refreshClock _
      | deleteTimer => exact TimerQueue.armed_deleteTimer ih _
      | enqueueRemoval =>
          rw [EventLoop.timerQueue_enqueueTask]
          exact ih

end Scope

end Connection

end MiniWebServer
