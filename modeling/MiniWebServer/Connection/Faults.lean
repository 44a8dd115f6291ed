import MiniWebServer.Connection.Invariants

/-!
# Errors of a socket, and how a connection comes to its end

The results of a list that the writes of a member function really take, and the
moves that none of them, no idle expiry and no stop brings to an end
(`View.Spared`). In such a move the connection goes through `handleDead` only
when no request of it is with a worker or waits to be sent (`Calm`).
-/

namespace MiniWebServer

open Connection HttpProcess

namespace Connection

/-- The results that the writes of `trySendToSck` take, for a buffer that is not empty. -/
def sendWrites : List WriteResult → List WriteResult
  | [] => []
  | .failed .eintr :: rest => .failed .eintr :: sendWrites rest
  | write :: _ => [write]

/-- The results that the writes of the loop of `handleWriteCallBack` take. -/
def loopWrites (pending : ℕ) : List WriteResult → List WriteResult
  | [] => []
  | write :: rest =>
      if pending = 0 then []
      else
        match write with
        | .failed .eintr => write :: loopWrites pending rest
        | .accepted count _ => write :: loopWrites (pending - count) rest
        | _ => [write]

/-- How often `handleDead` has run. -/
def deathCount (conn : Connection) : ℕ :=
  conn.log.count .handleDead

/-- The connection has not died, or no request of it was outstanding when it did. -/
structure Calm (before after : Connection) : Prop where
  working : after.working = before.working
  quiet : (after.deathCount = before.deathCount ∧ (after.state = .dead → before.state = .dead)) ∨
    after.working = 0

namespace Calm

theorem refl (conn : Connection) : Calm conn conn :=
  ⟨rfl, .inl ⟨rfl, id⟩⟩

theorem trans {first second third : Connection} (earlier : Calm first second)
    (later : Calm second third) : Calm first third := by
  refine ⟨later.working.trans earlier.working, ?_⟩
  rcases later.quiet with ⟨countLater, stateLater⟩ | idle
  · rcases earlier.quiet with ⟨countEarlier, stateEarlier⟩ | idle
    · exact .inl ⟨countLater.trans countEarlier, fun dead => stateEarlier (stateLater dead)⟩
    · exact .inr (later.working.trans idle)
  · exact .inr idle

theorem record {conn other : Connection} (working : other.working = conn.working)
    (state : other.state = .dead → conn.state = .dead) {more : List Event}
    (log : other.log = conn.log ++ more) (noDeath : .handleDead ∉ more) : Calm conn other := by
  refine ⟨working, .inl ⟨?_, state⟩⟩
  rw [deathCount, log, List.count_append, List.count_eq_zero_of_not_mem noDeath]
  rfl

theorem update (conn : Connection) (change : Channel → Channel) :
    Calm conn (conn.update change) := by
  by_cases known : conn.channel.inEpoll = true
  · have same : (conn.update change).log = conn.log ++ [] := by simp [Connection.update, known]
    exact record rfl id same (by simp)
  · have added : (conn.update change).log = conn.log ++ [.epollAdd] := by
      simp [Connection.update, known]
    exact record rfl id added (by simp)

theorem bufferToSck (conn : Connection) (count : ℕ) : Calm conn (conn.bufferToSck count) :=
  record rfl id rfl (by simp)

theorem died {conn : Connection} (idle : conn.working = 0) : Calm conn conn.died :=
  ⟨(Quiet.died conn).working, .inr ((Quiet.died conn).working.trans idle)⟩

theorem checked (conn : Connection) : Calm conn conn.checked := by
  unfold Connection.checked
  split
  · next lingers => exact died lingers.1.2
  · exact refl conn

theorem drained (conn : Connection) : Calm conn conn.drained := by
  unfold Connection.drained
  split
  · next finished => exact (update conn _).trans (died finished.2)
  · exact update conn _

theorem shut (conn : Connection) : Calm conn conn.shut := by
  have updated := update conn .disableReading
  rcases updated.quiet with ⟨countEq, _⟩ | idle
  · exact ⟨rfl, .inl ⟨countEq, fun dead => by cases dead⟩⟩
  · exact ⟨rfl, .inr idle⟩

theorem wrote (conn : Connection) {outcome : WriteOutcome} (spared : outcome ≠ .fatal) :
    Calm conn (conn.wrote outcome) := by
  cases outcome with
  | drained => exact (bufferToSck conn _).trans (drained _)
  | partly count => exact (bufferToSck conn count).trans (update _ _)
  | blocked => exact update conn _
  | fatal => exact absurd rfl spared

theorem sent (conn : Connection) (resp : List UInt8) (keepAlive : Bool)
    {writes : List WriteResult}
    (spared : writeOutcome (conn.writeBuffer.readable + resp.length) writes ≠ .fatal) :
    Calm conn (conn.sent resp keepAlive writes) := by
  have appended : Calm conn (conn.dataIn resp) := record rfl id rfl (by simp)
  have written := appended.trans (wrote _ spared)
  unfold Connection.sent
  cases keepAlive with
  | true => exact written
  | false => exact written.trans (shut _)

theorem heard (conn : Connection) {reads : List ReadResult} (spared : readEnd reads ≠ .failed) :
    Calm conn (conn.heard reads) := by
  have hears := hears_spec conn reads
  rcases hears.log with ⟨chunks, log⟩
  have listened : Calm conn (conn.hears reads) :=
    record hears.listened.working (by rw [hears.state]; exact id) log (by simp)
  unfold Connection.heard
  cases ended : readEnd reads with
  | again => exact listened
  | eof => exact listened.trans (record rfl (fun dead => by cases dead) rfl (by simp))
  | failed => exact absurd ended spared

theorem writeLoop {scope : Scope} {writes : List WriteResult}
    (spared : .failed .other ∉ loopWrites scope.conn.writeBuffer.readable writes) :
    Calm scope.conn (scope.writeLoop writes).conn := by
  fun_induction Scope.writeLoop scope writes with
  | case1 => exact refl _
  | case2 => exact refl _
  | case3 => exact refl _
  | case4 scope pending rest ih =>
      apply ih
      intro member
      apply spared
      rw [loopWrites, if_neg pending]
      exact List.mem_cons_of_mem _ member
  | case5 scope pending rest =>
      apply absurd _ spared
      simp [loopWrites, pending]
  | case6 scope pending count positive rest written empty =>
      rw [Scope.conn_drained]
      exact (bufferToSck _ count).trans (drained _)
  | case7 scope pending count positive rest written more ih =>
      refine (bufferToSck scope.conn count).trans (ih ?_)
      intro member
      apply spared
      rw [loopWrites, if_neg pending]
      rw [Scope.conn_modify, readable_bufferToSck] at member
      exact List.mem_cons_of_mem _ member

theorem handleWriteCallBack {scope : Scope} (now : Timespec) {writes : List WriteResult}
    (spared : scope.conn.state ≠ .dead →
      .failed .other ∉ loopWrites scope.conn.writeBuffer.readable writes) :
    Calm scope.conn (scope.handleWriteCallBack now writes).conn := by
  unfold Scope.handleWriteCallBack
  split
  · exact refl _
  · next alive =>
    have refreshed : Calm scope.conn (scope.refreshTimer now).conn := record rfl id rfl (by simp)
    apply refreshed.trans
    simp only
    split
    · exact update _ _
    · exact writeLoop (spared alive)

end Calm

end Connection

namespace View

/-- No fatal error of the socket, no idle expiry and no stop meets a living connection. -/
def Spared (view : View) (share : Share) : Prop :=
  view.conn.state ≠ .dead →
    match share with
    | .read _ reads => readEnd reads ≠ .failed
    | .write _ writes => .failed .other ∉ loopWrites view.conn.writeBuffer.readable writes
    | .expire | .stop => False
    | share => ∀ send ∈ view.send? share, send.outcome ≠ .fatal

/-- A dead connection has no request that is outstanding. -/
def Idle (view : View) : Prop :=
  view.conn.state = .dead → view.conn.working = 0

/-- A move that spares a connection is calm, but for the count of a request that
is dispatched or whose reply is taken up. -/
theorem calm_moves {before after : View} {share : Share} (wired : before.Wired)
    (spared : before.Spared share) (moves : Moves before share after) :
    ∃ working, Calm { before.conn with working := working } after.conn ∧
      (before.conn.state = .dead → working = before.conn.working ∨ before.tasks ≠ []) := by
  have same : Calm before.conn after.conn → ∃ working,
      Calm { before.conn with working := working } after.conn ∧
        (before.conn.state = .dead → working = before.conn.working ∨ before.tasks ≠ []) :=
    fun calm => ⟨before.conn.working, calm, fun _ => .inl rfl⟩
  have refreshed : ∀ timerId, Calm before.conn (before.conn.refreshed timerId) :=
    fun timerId => .record rfl id rfl (by simp)
  cases moves with
  | poll revents ready handled reported => exact same (.refl _)
  | readNothing reads timerId ready next empty =>
      have alive := (wired.reading (by simp [next])).2.1
      exact same ((refreshed timerId).trans ((Calm.heard _ (spared alive)).trans (.checked _)))
  | read reads timerId ready next more =>
      have alive := (wired.reading (by simp [next])).2.1
      exact same ((refreshed timerId).trans (Calm.heard _ (spared alive)))
  | write now writes eloop ready next =>
      exact same (@Calm.handleWriteCallBack { conn := before.conn, eloop } now _ spared)
  | leave parsing dead => exact same (.refl _)
  | needMore process rest parsing alive parsed =>
      exact same (.record rfl id (List.append_nil _).symm (by simp))
  | tooLong process rest parsing alive parsed =>
      have logged : Calm before.conn (before.conn.afterParse process rest .lineTooLong) :=
        .record rfl id rfl (by simp)
      exact same (logged.trans ((Calm.shut _).trans (.checked _)))
  | reject writes process rest parsing alive parsed =>
      have logged : Calm before.conn (before.conn.afterParse process rest .error) :=
        .record rfl id rfl (by simp)
      have outcome := spared alive _ (send?_reject parsing alive parsed)
      exact same (logged.trans (.sent _ build400 false outcome))
  | answer writes process rest parsing alive parsed alone =>
      have logged : Calm before.conn
          (before.conn.afterParse fresh rest (.complete process.current)) :=
        .record rfl id rfl (by simp)
      have outcome := spared alive _ (send?_answer parsing alive parsed alone)
      exact same (logged.trans (.sent _ _ _ outcome))
  | dispatch process rest parsing alive parsed pooled =>
      exact ⟨before.conn.working + 1, .record rfl id rfl (by simp), fun dead => absurd dead alive⟩
  | raise parsing alive raised => exact same (.refl _)
  | afterResponse sent => exact same (.checked _)
  | afterRejection sent =>
      have reset : Calm before.conn { before.conn with httpProcess := fresh } :=
        .record rfl id (List.append_nil _).symm (by simp)
      exact same (reset.trans (.checked _))
  | afterBackPost sent => exact same (.checked _)
  | expire ready handled =>
      by_cases dead : before.conn.state = .dead
      · apply same
        simp only [died_of_dead dead]
        exact .refl _
      · exact (spared dead).elim
  | post job running => exact same (.refl _)
  | skip reply tasks ready handled next dead =>
      exact ⟨before.conn.working - 1, .refl _, fun _ => .inr (by simp [next])⟩
  | respond writes reply tasks ready handled next alive =>
      have outcome := spared alive _ (send?_respond next alive)
      exact ⟨before.conn.working - 1, .sent _ _ _ outcome, fun dead => absurd dead alive⟩
  | stop ready handled =>
      by_cases dead : before.conn.state = .dead
      · apply same
        have unchanged : before.conn.stopped = before.conn := if_pos dead
        simp only [unchanged]
        exact .refl _
      · exact (spared dead).elim

/-- In such a move `handleDead` runs only when no request is outstanding. -/
theorem working_eq_zero_of_death {before after : View} {share : Share} (wired : before.Wired)
    (spared : before.Spared share) (moves : Moves before share after)
    (died : before.conn.deathCount < after.conn.deathCount) : after.conn.working = 0 := by
  rcases calm_moves wired spared moves with ⟨working, calm, _⟩
  rcases calm.quiet with ⟨same, _⟩ | idle
  · exact absurd same died.ne'
  · exact idle

theorem idle_moves {before after : View} {share : Share} (wired : before.Wired)
    (counted : before.Counted) (idle : before.Idle) (spared : before.Spared share)
    (moves : Moves before share after) : after.Idle := by
  intro dead
  rcases calm_moves wired spared moves with ⟨working, calm, counts⟩
  rcases calm.quiet with ⟨_, earlier⟩ | done
  · have deadBefore := earlier dead
    have noWork := idle deadBefore
    have total := counted.working
    rcases counts deadBefore with same | waiting
    · rw [calm.working]
      exact same.trans noWork
    · have := List.length_pos_of_ne_nil waiting
      omega
  · exact done

end View

end MiniWebServer
