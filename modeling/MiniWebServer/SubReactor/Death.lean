import MiniWebServer.SubReactor.Projection

/-!
# The end of a connection

A connection that `handleDead` has run on should stay dead, and one that waits
for nothing should not be left in the reactor. Neither holds of every run: a
closing `sendHttpOnLoop` goes on after the `handleDead` in its write, and the
parse loop leaves for more input without a look at the state of the connection.
Each of the two properties holds in the runs in which its defect is not met.
-/

namespace MiniWebServer

open Connection HttpProcess

namespace Connection

/-- Once `handleDead` has run, the connection stays dead and out of epoll, gets
no timer any more, and its removal is enqueued at most once. -/
structure StaysDead (conn : Connection) : Prop where
  gone : ∀ earlier later, conn.log = earlier ++ .handleDead :: later →
    conn.state = .dead ∧ conn.channel.inEpoll = false ∧ .epollAdd ∉ later ∧ .addTimer ∉ later
  once : conn.log.count .enqueueRemoval ≤ 1

/-- The steps of `handleDead` in a history. -/
def deaths (log : List Event) : List Event :=
  log.filter fun event => event = .handleDead ∨ event = .enqueueRemoval

@[simp]
theorem deaths_append (log more : List Event) : deaths (log ++ more) = deaths log ++ deaths more :=
  List.filter_append ..

@[simp]
theorem deaths_map_received (chunks : List (List UInt8)) :
    deaths (chunks.map .received) = [] := by
  simp [deaths]

theorem notMem_of_deaths_eq_nil {log : List Event} (nothing : deaths log = []) :
    .handleDead ∉ log ∧ .enqueueRemoval ∉ log := by
  simp only [deaths, List.filter_eq_nil_iff, decide_eq_true_eq, not_or] at nothing
  exact ⟨fun member => (nothing _ member).1 rfl, fun member => (nothing _ member).2 rfl⟩

/-- `handleDead` has not run. -/
def Living (conn : Connection) : Prop :=
  deaths conn.log = []

/-- Nothing was done on the connection after `handleDead`. -/
inductive Buried (conn : Connection) : Prop where
  | living (living : conn.Living)
  | dead (gone : conn.state = .dead) (earlier : List Event)
      (log : conn.log = earlier ++ [.handleDead, .enqueueRemoval]) (before : deaths earlier = [])

namespace Living

variable {conn : Connection}

theorem keep {other : Connection} (living : conn.Living) (log : other.log = conn.log) :
    other.Living := by
  rwa [Living, log]

theorem update (living : conn.Living) (change : Channel → Channel) :
    (conn.update change).Living := by
  simp only [Living, Connection.update]
  split
  · exact living
  · rw [deaths_append, living]
    rfl

theorem shut (living : conn.Living) : conn.shut.Living :=
  (living.update .disableReading).keep rfl

theorem bufferToSck (living : conn.Living) (count : ℕ) : (conn.bufferToSck count).Living := by
  rw [Living, Connection.bufferToSck, deaths_append, living]
  rfl

theorem dataIn (living : conn.Living) (resp : List UInt8) : (conn.dataIn resp).Living := by
  rw [Living, Connection.dataIn, deaths_append, living]
  rfl

theorem afterParse (living : conn.Living) (process : HttpProcess) (rest : Buffer)
    (result : Parsed) : (conn.afterParse process rest result).Living := by
  rw [Living, Connection.afterParse, deaths_append, living]
  rfl

theorem died (living : conn.Living) : conn.died.Buried := by
  by_cases dead : conn.state = .dead
  · rw [died_of_dead dead]
    exact .living living
  · rw [died_of_ne_dead dead]
    exact .dead rfl conn.log rfl living

theorem drained (living : conn.Living) : conn.drained.Buried := by
  unfold Connection.drained
  split
  · exact (living.update _).died
  · exact .living (living.update _)

theorem wrote (living : conn.Living) (outcome : WriteOutcome) : (conn.wrote outcome).Buried := by
  cases outcome with
  | drained => exact (living.bufferToSck _).drained
  | partly count => exact .living ((living.bufferToSck count).update _)
  | blocked => exact .living (living.update _)
  | fatal => exact living.died

/-- A write that neither fails nor ends the connection leaves it living. -/
theorem wrote_of_survives (living : conn.Living) {outcome : WriteOutcome}
    (notFatal : outcome ≠ .fatal) (unfinished : outcome = .drained → ¬conn.Finished) :
    (conn.wrote outcome).Living := by
  cases outcome with
  | drained =>
      have still : ¬(conn.flushed.update .disableWriting).Finished := unfinished rfl
      rw [Connection.wrote, Connection.drained, if_neg still]
      exact (living.bufferToSck _).update _
  | partly count => exact (living.bufferToSck count).update _
  | blocked => exact living.update _
  | fatal => exact absurd rfl notFatal

theorem sent_keepAlive (living : conn.Living) (resp : List UInt8) (writes : List WriteResult) :
    (conn.sent resp true writes).Buried :=
  (living.dataIn resp).wrote _

theorem heard (living : conn.Living) (timerId : ℤ) (reads : List ReadResult) :
    ((conn.refreshed timerId).heard reads).Buried := by
  rcases (hears_spec (conn.refreshed timerId) reads).log with ⟨chunks, logEq⟩
  have hears : ((conn.refreshed timerId).hears reads).Living := by
    rw [Living, logEq, refreshed, deaths_append, deaths_append, deaths_map_received, living]
    rfl
  unfold Connection.heard
  cases readEnd reads with
  | again => exact .living hears
  | eof =>
      refine .living ?_
      rw [Living, readUntil, deaths_append, hears]
      rfl
  | failed => exact hears.died

end Living

namespace Buried

variable {conn : Connection}

theorem living_of_alive (buried : conn.Buried) (alive : conn.state ≠ .dead) : conn.Living := by
  cases buried with
  | living living => exact living
  | dead gone earlier log before => exact absurd gone alive

theorem keep {other : Connection} (buried : conn.Buried) (state : other.state = conn.state)
    (log : other.log = conn.log) : other.Buried := by
  cases buried with
  | living living => exact .living (living.keep log)
  | dead gone earlier logEq before =>
      exact .dead (state.trans gone) earlier (log.trans logEq) before

theorem died (buried : conn.Buried) : conn.died.Buried := by
  cases buried with
  | living living => exact living.died
  | dead gone earlier log before =>
      rw [died_of_dead gone]
      exact .dead gone earlier log before

theorem checked (buried : conn.Buried) : conn.checked.Buried := by
  unfold Connection.checked
  split
  · exact buried.died
  · exact buried

theorem stopped (buried : conn.Buried) : conn.stopped.Buried := by
  unfold Connection.stopped
  split
  · exact buried
  · next alive => exact .living ((buried.living_of_alive alive).keep rfl)

theorem handleWriteCallBack {scope : Scope} (buried : scope.conn.Buried) (now : Timespec)
    (writes : List WriteResult) : (scope.handleWriteCallBack now writes).conn.Buried := by
  unfold Scope.handleWriteCallBack
  split
  · exact buried
  · next alive =>
    have refreshed : (scope.refreshTimer now).conn.Living := by
      have living := buried.living_of_alive alive
      simp only [Scope.refreshTimer, Scope.addTimerCallBack, Scope.deleteTimerCallBack, Living,
        deaths_append]
      rw [living]
      rfl
    simp only
    split
    · exact .living (refreshed.update _)
    · next pending =>
      refine Scope.writeLoop_rule Living Buried ?_ ?_ ?_ ?_ refreshed pending
      · exact fun conn count living _ => living.bufferToSck count
      · exact fun conn living => (living.bufferToSck _).drained
      · exact fun conn living _ => .living living
      · exact fun _ conn living => living.died

/-- A buried connection, out of epoll once it is dead, stays dead. -/
theorem staysDead (buried : conn.Buried) (sound : conn.Sound) : conn.StaysDead := by
  cases buried with
  | living living =>
      rcases notMem_of_deaths_eq_nil living with ⟨notHandled, notRemoved⟩
      refine ⟨?_, ?_⟩
      · intro earlier later logEq
        simp [logEq] at notHandled
      · rw [List.count_eq_zero.mpr notRemoved]
        exact Nat.zero_le 1
  | dead gone earlier log before =>
      rcases notMem_of_deaths_eq_nil before with ⟨notHandled, notRemoved⟩
      refine ⟨?_, ?_⟩
      · intro front later logEq
        rw [log, List.append_cons_inj_of_notMem notHandled (by decide)] at logEq
        rcases logEq with ⟨_, _, rfl⟩
        exact ⟨gone, sound.removed gone, by decide, by decide⟩
      · rw [log, List.count_append, List.count_eq_zero.mpr notRemoved]
        decide

end Buried

theorem not_lingers_died (conn : Connection) : ¬conn.died.Lingers :=
  not_lingers_of_dead (state_died conn)

theorem not_lingers_checked (conn : Connection) : ¬conn.checked.Lingers := by
  unfold checked
  split
  · exact not_lingers_died conn
  · next unfinished => exact unfinished

theorem not_lingers_stopped (conn : Connection) : ¬conn.stopped.Lingers := by
  unfold stopped
  split
  · next dead => exact not_lingers_of_dead dead
  · exact not_lingers_of_dead rfl

theorem not_lingers_drained (conn : Connection) : ¬conn.drained.Lingers := by
  unfold drained
  split
  · exact not_lingers_died _
  · next unfinished => exact fun lingers => unfinished lingers.1

theorem not_lingers_handleWriteCallBack {scope : Scope} (open' : ¬scope.conn.Lingers)
    (now : Timespec) (writes : List WriteResult) :
    ¬(scope.handleWriteCallBack now writes).conn.Lingers := by
  unfold Scope.handleWriteCallBack
  split
  · exact open'
  · simp only
    split
    · exact open'
    · next pending =>
      refine Scope.writeLoop_rule (fun _ => True) (fun conn => ¬conn.Lingers)
        ?_ ?_ ?_ ?_ trivial pending
      · exact fun _ _ _ _ => trivial
      · exact fun conn _ => not_lingers_drained _
      · exact fun conn _ unsent lingers => unsent lingers.2
      · exact fun _ conn _ => not_lingers_died conn

end Connection

namespace View

/-- A closing `sendHttpOnLoop` neither meets a fatal error nor ends the connection. -/
def ClosesAlive (view : View) (share : Share) : Prop :=
  ∀ send ∈ view.send? share, send.keepAlive = false →
    send.outcome ≠ .fatal ∧ (send.outcome = .drained → ¬send.conn.Finished)

instance (view : View) (share : Share) : Decidable (view.ClosesAlive share) :=
  inferInstanceAs (Decidable (∀ send ∈ view.send? share, send.keepAlive = false →
    send.outcome ≠ .fatal ∧ (send.outcome = .drained → ¬send.conn.Finished)))

/-- A send that is allowed to close leaves the connection buried. -/
theorem buried_sent {view : View} {share : Share} {send : Send} (living : send.conn.Living)
    (allowed : view.ClosesAlive share) (sends : view.send? share = some send) :
    (send.conn.sent send.resp send.keepAlive send.writes).Buried := by
  cases closing : send.keepAlive with
  | true => exact living.sent_keepAlive send.resp send.writes
  | false =>
      rcases allowed send sends closing with ⟨notFatal, unfinished⟩
      exact .living ((living.dataIn send.resp).wrote_of_survives notFatal unfinished).shut

theorem buried_moves {before after : View} {share : Share} (wired : before.Wired)
    (buried : before.conn.Buried) (allowed : before.ClosesAlive share)
    (moves : Moves before share after) : after.conn.Buried := by
  cases moves with
  | poll revents ready handled reported => exact buried
  | readNothing reads timerId ready next empty =>
      have living := buried.living_of_alive (wired.reading (by simp [next])).2.1
      exact (living.heard timerId reads).checked
  | read reads timerId ready next more =>
      have living := buried.living_of_alive (wired.reading (by simp [next])).2.1
      exact living.heard timerId reads
  | write now writes eloop ready next =>
      exact Buried.handleWriteCallBack buried now writes
  | leave parsing dead => exact buried
  | needMore process rest parsing alive parsed => exact buried.keep rfl rfl
  | tooLong process rest parsing alive parsed =>
      have living := buried.living_of_alive alive
      exact (Buried.living (living.afterParse process rest .lineTooLong).shut).checked
  | reject writes process rest parsing alive parsed =>
      have living := (buried.living_of_alive alive).afterParse process rest .error
      exact buried_sent living allowed (send?_reject parsing alive parsed)
  | answer writes process rest parsing alive parsed alone =>
      have living :=
        (buried.living_of_alive alive).afterParse fresh rest (.complete process.current)
      exact buried_sent living allowed (send?_answer parsing alive parsed alone)
  | dispatch process rest parsing alive parsed pooled =>
      have living :=
        (buried.living_of_alive alive).afterParse fresh rest (.complete process.current)
      exact .living (living.keep rfl)
  | raise parsing alive raised => exact buried
  | afterResponse sent => exact buried.checked
  | afterRejection sent =>
      have reset : Buried { before.conn with httpProcess := fresh } := buried.keep rfl rfl
      exact reset.checked
  | afterBackPost sent => exact buried.checked
  | expire ready handled => exact buried.died
  | post job running => exact buried
  | skip reply tasks ready handled next dead => exact buried.keep rfl rfl
  | respond writes reply tasks ready handled next alive =>
      have living : Living { before.conn with working := before.conn.working - 1 } :=
        (buried.living_of_alive alive).keep rfl
      exact buried_sent living allowed (send?_respond next alive)
  | stop ready handled => exact buried.stopped

/-- Whether the next `parse` of the connection returns `kNeedMore`. -/
def asksForMore (view : View) : Bool :=
  match view.conn.httpProcess.parse view.conn.readBuffer with
  | .ok (.kNeedMore, _, _) => true
  | _ => false

/-- The parse loop leaves for more input only when the connection still waits for something. -/
def AsksOpen (view : View) : Share → Prop
  | .resume _ => view.frame = some .parseLoop → view.conn.Lingers → view.asksForMore = false
  | _ => True

instance (view : View) (share : Share) : Decidable (view.AsksOpen share) :=
  match share with
  | .resume _ =>
      inferInstanceAs (Decidable
        (view.frame = some .parseLoop → view.conn.Lingers → view.asksForMore = false))
  | .poll _ | .read _ _ | .write _ _ | .expire | .post _ | .respond _ | .stop => isTrue trivial

/-- No connection waits for nothing when the event loop has the control. -/
def Attended (view : View) : Prop :=
  view.frame = none → ¬view.conn.Lingers

theorem attended_starts {mode : Bool} {view : View} (starts : Starts mode view) :
    view.Attended := by
  cases starts with
  | startConnect self sck process timerId =>
      rintro _ ⟨⟨closed, _⟩, _⟩
      cases closed

theorem attended_moves {before after : View} {share : Share} (attended : before.Attended)
    (allowed : before.AsksOpen share) (moves : Moves before share after) : after.Attended := by
  intro left
  cases moves with
  | poll revents ready handled reported => exact attended ready
  | readNothing reads timerId ready next empty => exact not_lingers_checked _
  | read reads timerId ready next more => cases left
  | write now writes eloop ready next =>
      exact not_lingers_handleWriteCallBack (attended ready) now writes
  | leave parsing dead => exact not_lingers_of_dead dead
  | needMore process rest parsing alive parsed =>
      intro lingers
      have answered := allowed parsing lingers
      simp [asksForMore, parsed] at answered
  | tooLong process rest parsing alive parsed => exact not_lingers_checked _
  | reject writes process rest parsing alive parsed => cases left
  | answer writes process rest parsing alive parsed alone => cases left
  | dispatch process rest parsing alive parsed pooled => simp [parsing] at left
  | raise parsing alive raised => simp [parsing] at left
  | afterResponse sent => cases left
  | afterRejection sent => exact not_lingers_checked _
  | afterBackPost sent => exact not_lingers_checked _
  | expire ready handled => exact not_lingers_died _
  | post job running => exact attended left
  | skip reply tasks ready handled next dead => exact not_lingers_of_dead dead
  | respond writes reply tasks ready handled next alive => cases left
  | stop ready handled => exact not_lingers_stopped _

end View

namespace SubReactor

/-- Dead connections stay dead in the runs in which no closing response is sent
on a connection that the write ends. -/
theorem staysDead_of_closesAlive {c : ConnId} {mode : Bool} {workers : ℕ} {s : SubReactor}
    {view : View} (reaches : ReachableWith View.ClosesAlive c mode workers s)
    (shown : s.view c = some view) : view.conn.StaysDead := by
  have regular := regular_of_reachable reaches.reachable shown
  have buried : view.conn.Buried := by
    refine regular_view_invariant (fun view => view.conn.Buried) ?_ ?_ reaches shown
    · rintro view ⟨self, sck, process, timerId⟩
      exact .living rfl
    · exact fun regular buried allowed moves =>
        View.buried_moves regular.wired buried allowed moves
  exact buried.staysDead regular.wired.sound

/-- A closing response is written, and the connection dies behind it and stays dead. -/
theorem staysDead_of_closesAlive_closed :
    ∃ s view, ReachableWith View.ClosesAlive 0 false 0 s ∧ s.view 0 = some view ∧
      responses view.conn.log = [buildResponse { keepAlive := false }] ∧
      .handleDead ∈ view.conn.log ∧ view.conn.StaysDead := by
  rcases exists_of_run View.ClosesAlive 0 false 0
    (connecting false ++ reading [.delivered (ascii "GET / HTTP/1.0\r\n\r\n")] ++
      [.resume acceptAll, .resume [], .resume [], .drain, .task clock [], .endLoop])
    (fun view => (responses view.conn.log, view.conn.log.contains .handleDead))
    ([buildResponse { keepAlive := false }], true) (by decide +kernel) with
    ⟨s, view, reaches, shown, looked⟩
  simp only [Prod.mk.injEq] at looked
  exact ⟨s, view, reaches, shown, looked.1, List.contains_iff_mem.mp looked.2,
    staysDead_of_closesAlive reaches shown⟩

/-- The peer asks for `Connection: close` and closes: `handleDead` runs when the
response is written, and `sendHttpOnLoop` takes the connection back to `peerClose`. -/
theorem not_staysDead_of_drained_close :
    ¬∀ (c : ConnId) (mode : Bool) (workers : ℕ) (s : SubReactor) (view : View),
      Reachable mode workers s → s.view c = some view → view.conn.StaysDead := by
  intro always
  rcases exists_of_run anyMove 0 false 0
    (connecting false ++
      reading [.delivered (ascii "GET / HTTP/1.0\r\n\r\n"), .delivered []] ++
      [.resume acceptAll])
    (fun view => (view.conn.log.contains .handleDead, view.conn.state)) (true, .peerClose)
    (by decide +kernel) with ⟨s, view, reaches, shown, looked⟩
  simp only [Prod.mk.injEq] at looked
  rcases List.append_of_mem (List.contains_iff_mem.mp looked.1) with ⟨earlier, later, logEq⟩
  have gone := ((always 0 false 0 s view reaches.reachable shown).gone earlier later logEq).1
  rw [looked.2] at gone
  cases gone

/-- No connection lingers in the runs in which the parse loop does not leave for
more input on a connection that waits for nothing. -/
theorem attended_of_asksOpen {c : ConnId} {mode : Bool} {workers : ℕ} {s : SubReactor}
    {view : View} (reaches : ReachableWith View.AsksOpen c mode workers s)
    (shown : s.view c = some view) : view.Attended :=
  view_invariant View.Attended (fun _ => View.attended_starts)
    (fun attended allowed moves => View.attended_moves attended allowed moves) reaches view shown

/-- The response to a half-closed peer is written, and the connection does not linger. -/
theorem attended_of_asksOpen_answered :
    ∃ s view, ReachableWith View.AsksOpen 0 false 0 s ∧ s.view 0 = some view ∧
      view.frame = none ∧ view.conn.state = .dead ∧ ¬view.conn.Lingers := by
  rcases exists_of_run View.AsksOpen 0 false 0
    (connecting false ++
      reading [.delivered (ascii "GET / HTTP/1.1\r\n\r\n"), .delivered []] ++
      [.resume acceptAll, .resume [], .resume []])
    (fun view => (view.frame, view.conn.state)) (none, .dead) (by decide +kernel) with
    ⟨s, view, reaches, shown, looked⟩
  simp only [Prod.mk.injEq] at looked
  exact ⟨s, view, reaches, shown, looked.1, looked.2,
    attended_of_asksOpen reaches shown looked.1⟩

/-- The peer closes in the middle of a request: the parse loop leaves for more
input, and the connection waits for nothing. -/
theorem not_attended_of_partial_request :
    ¬∀ (c : ConnId) (mode : Bool) (workers : ℕ) (s : SubReactor) (view : View),
      Reachable mode workers s → s.view c = some view → view.Attended := by
  intro always
  rcases exists_of_run anyMove 0 false 0
    (connecting false ++ reading [.delivered (ascii "GET /"), .delivered []] ++ [.resume []])
    (fun view => (view.frame, decide view.conn.Lingers)) (none, true)
    (by decide +kernel) with ⟨s, view, reaches, shown, looked⟩
  simp only [Prod.mk.injEq, decide_eq_true_eq] at looked
  exact always 0 false 0 s view reaches.reachable shown looked.1 looked.2

end SubReactor

end MiniWebServer
