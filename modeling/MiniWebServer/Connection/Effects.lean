import MiniWebServer.Connection

/-!
# What the member functions of a connection do

Every member function changes the connection in one of few ways. The results
here say which, so that no later proof opens a member function again: the write
loops come down to an outcome computed from the answers of the kernel, the read
loop and the loop of the write callback have an induction rule each, and
`Keeps` says what no member function touches.
-/

namespace MiniWebServer

open HttpProcess

namespace Connection

/-- The connection after `handleDead`. -/
def died (conn : Connection) : Connection :=
  if conn.state = .dead then conn
  else
    { conn with
      state := .dead
      channel := conn.channel.remove
      log := conn.log ++ [.handleDead, .enqueueRemoval] }

/-- The connection after `stop`. -/
def stopped (conn : Connection) : Connection :=
  if conn.state = .dead then conn
  else { conn with state := .dead, channel := conn.channel.remove }

theorem died_of_dead {conn : Connection} (dead : conn.state = .dead) : conn.died = conn :=
  if_pos dead

theorem died_of_ne_dead {conn : Connection} (alive : conn.state ≠ .dead) :
    conn.died =
      { conn with
        state := .dead
        channel := conn.channel.remove
        log := conn.log ++ [.handleDead, .enqueueRemoval] } :=
  if_neg alive

@[simp]
theorem state_died (conn : Connection) : conn.died.state = .dead := by
  unfold died
  split <;> simp_all

theorem state_stopped (conn : Connection) : conn.stopped.state = .dead := by
  unfold stopped
  split
  · assumption
  · rfl

@[simp]
theorem stopped_stopped (conn : Connection) : conn.stopped.stopped = conn.stopped := by
  unfold stopped
  split <;> simp_all

/-- The peer has closed, no worker has a request, and nothing is to be sent. -/
def Lingers (conn : Connection) : Prop :=
  conn.Finished ∧ conn.writeBuffer.readable = 0

instance (conn : Connection) : Decidable conn.Lingers :=
  inferInstanceAs (Decidable (_ ∧ _))

theorem not_lingers_of_dead {conn : Connection} (dead : conn.state = .dead) : ¬conn.Lingers := by
  rintro ⟨⟨closed, _⟩, _⟩
  rw [dead] at closed
  cases closed

theorem Finished.alive {conn : Connection} (finished : conn.Finished) : conn.state ≠ .dead := by
  intro dead
  rw [finished.1] at dead
  cases dead

/-- The connection after `checkEmptyReadAfterEof`. -/
def checked (conn : Connection) : Connection :=
  if conn.Lingers then conn.died else conn

/-- The connection once the write buffer is empty and both write loops have looked at it. -/
def drained (conn : Connection) : Connection :=
  if (conn.update .disableWriting).Finished then (conn.update .disableWriting).died
  else conn.update .disableWriting

@[simp]
theorem writeBuffer_died (conn : Connection) : conn.died.writeBuffer = conn.writeBuffer := by
  unfold died
  split <;> rfl

@[simp]
theorem writeBuffer_drained (conn : Connection) : conn.drained.writeBuffer = conn.writeBuffer := by
  unfold drained
  split
  · exact writeBuffer_died _
  · rfl

/-- How `readFromSck` ends. -/
inductive ReadEnd where
  | again
  | eof
  | failed
deriving DecidableEq, Repr

/-- What ended the read loop. -/
def readEnd : List ReadResult → ReadEnd
  | [] => .again
  | .failed .eagain :: _ => .again
  | .failed .eintr :: reads => readEnd reads
  | .failed .other :: _ => .failed
  | .delivered bytes :: reads => if bytes = [] then .eof else readEnd reads

/-- The bytes that the read loop received. -/
def readBytes : List ReadResult → List UInt8
  | [] => []
  | .failed .eagain :: _ => []
  | .failed .eintr :: reads => readBytes reads
  | .failed .other :: _ => []
  | .delivered bytes :: reads => if bytes = [] then [] else bytes ++ readBytes reads

/-- The connection with these bytes in its read buffer. -/
def hears (conn : Connection) : List ReadResult → Connection
  | [] => conn
  | .failed .eagain :: _ => conn
  | .failed .eintr :: reads => conn.hears reads
  | .failed .other :: _ => conn
  | .delivered bytes :: reads =>
      if bytes = [] then conn else (conn.sckToBuffer bytes).hears reads

/-- What `readFromSck` does at its end. -/
def readUntil (conn : Connection) : ReadEnd → Connection
  | .again => conn
  | .eof => { conn with state := .peerClose, log := conn.log ++ [.eof] }
  | .failed => conn.died

/-- The connection with a new idle timer. -/
def refreshed (conn : Connection) (timerId : ℤ) : Connection :=
  { conn with timerId := timerId, log := conn.log ++ [.addTimer] }

/-- The connection after `readFromSck`. -/
def heard (conn : Connection) (reads : List ReadResult) : Connection :=
  (conn.hears reads).readUntil (readEnd reads)

/-- How `trySendToSck` ends. -/
inductive WriteOutcome where
  | drained
  | partly (count : ℕ)
  | blocked
  | fatal
deriving DecidableEq, Repr

/-- The outcome of writing `pending` bytes once, interruptions aside. -/
def writeOutcome (pending : ℕ) : List WriteResult → WriteOutcome
  | [] => .blocked
  | .failed .eagain :: _ => .blocked
  | .failed .eintr :: writes => writeOutcome pending writes
  | .failed .other :: _ => .fatal
  | .accepted count _ :: _ => if pending ≤ count then .drained else .partly count

theorem lt_of_writeOutcome_eq_partly {pending count : ℕ} {writes : List WriteResult}
    (outcome : writeOutcome pending writes = .partly count) : count < pending := by
  fun_induction writeOutcome pending writes with
  | case1 => cases outcome
  | case2 => cases outcome
  | case3 _ ih => exact ih outcome
  | case4 => cases outcome
  | case5 => cases outcome
  | case6 sent positive rest short =>
      cases outcome
      omega

/-- The connection after the whole write buffer was accepted. -/
def flushed (conn : Connection) : Connection :=
  conn.bufferToSck conn.writeBuffer.readable

theorem bufferToSck_eq_flushed {conn : Connection} {count : ℕ}
    (all : conn.writeBuffer.readable ≤ count) : conn.bufferToSck count = conn.flushed := by
  have same : min count conn.writeBuffer.readable = conn.writeBuffer.readable := by omega
  have taken : conn.writeBuffer.peek.take count = conn.writeBuffer.peek :=
    List.take_of_length_le (by rwa [Buffer.length_peek])
  have takenAll :
      conn.writeBuffer.peek.take conn.writeBuffer.readable = conn.writeBuffer.peek :=
    List.take_of_length_le (Buffer.length_peek _).le
  simp only [flushed, bufferToSck, taken, takenAll, Buffer.bufferToSck, Int.toNat_natCast, same,
    min_self]

@[simp]
theorem peek_flushed (conn : Connection) : conn.flushed.writeBuffer.peek = [] := by
  simp [flushed, bufferToSck, ← Buffer.length_peek]

theorem readable_flushed (conn : Connection) : conn.flushed.writeBuffer.readable = 0 := by
  rw [← Buffer.length_peek, peek_flushed, List.length_nil]

theorem readable_dataIn (conn : Connection) (resp : List UInt8) :
    (conn.dataIn resp).writeBuffer.readable = conn.writeBuffer.readable + resp.length := by
  rw [dataIn, ← Buffer.length_peek, Buffer.peek_dataIn, List.length_append, Buffer.length_peek]

theorem readable_dataIn_ne_zero (conn : Connection) {resp : List UInt8} (nonempty : resp ≠ []) :
    (conn.dataIn resp).writeBuffer.readable ≠ 0 := by
  have := List.length_pos_of_ne_nil nonempty
  rw [readable_dataIn]
  omega

theorem readable_bufferToSck (conn : Connection) (count : ℕ) :
    (conn.bufferToSck count).writeBuffer.readable = conn.writeBuffer.readable - count := by
  rw [← Buffer.length_peek, bufferToSck, Buffer.peek_bufferToSck, List.length_drop,
    Buffer.length_peek]
  omega

/-- The connection after `trySendToSck` had the given outcome. -/
def wrote (conn : Connection) : WriteOutcome → Connection
  | .drained => conn.flushed.drained
  | .partly count => (conn.bufferToSck count).update .enableWriting
  | .blocked => conn.update .enableWriting
  | .fatal => conn.died

/-- The connection after it has decided to read no more. -/
def shut (conn : Connection) : Connection :=
  { conn.update .disableReading with state := .peerClose }

/-- The connection after `sendHttpOnLoop`. -/
def sent (conn : Connection) (resp : List UInt8) (keepAlive : Bool)
    (writes : List WriteResult) : Connection :=
  let outcome := writeOutcome (conn.writeBuffer.readable + resp.length) writes
  let conn := (conn.dataIn resp).wrote outcome
  if keepAlive then conn else conn.shut

namespace Scope

@[simp]
theorem conn_modify (scope : Scope) (change : Connection → Connection) :
    (scope.modify change).conn = change scope.conn :=
  rfl

@[simp]
theorem eloop_modify (scope : Scope) (change : Connection → Connection) :
    (scope.modify change).eloop = scope.eloop :=
  rfl

@[simp]
theorem conn_handleDead (scope : Scope) : scope.handleDead.conn = scope.conn.died := by
  unfold handleDead died
  split <;> rfl

@[simp]
theorem conn_stop (scope : Scope) : scope.stop.conn = scope.conn.stopped := by
  unfold stop stopped
  split <;> rfl

@[simp]
theorem conn_checkEmptyReadAfterEof (scope : Scope) :
    scope.checkEmptyReadAfterEof.conn = scope.conn.checked := by
  unfold checkEmptyReadAfterEof checked
  by_cases lingers : scope.conn.Lingers
  · rw [if_pos lingers]
    exact (congrArg Scope.conn (if_pos lingers)).trans (conn_handleDead scope)
  · rw [if_neg lingers]
    exact congrArg Scope.conn (if_neg lingers)

@[simp]
theorem conn_drained (scope : Scope) : scope.drained.conn = scope.conn.drained := by
  unfold drained Connection.drained
  by_cases finished : (scope.conn.update .disableWriting).Finished
  · rw [if_pos finished]
    exact (congrArg Scope.conn (if_pos finished)).trans (conn_handleDead _)
  · rw [if_neg finished]
    exact congrArg Scope.conn (if_neg finished)

/-- What `trySendToSck` does depends on the outcome of the write alone. -/
theorem conn_trySendToSck {scope : Scope} (pending : scope.conn.writeBuffer.readable ≠ 0)
    (writes : List WriteResult) :
    (scope.trySendToSck writes).conn =
      scope.conn.wrote (writeOutcome scope.conn.writeBuffer.readable writes) := by
  induction writes with
  | nil => simp [trySendToSck, pending, writeOutcome, wrote]
  | cons write rest ih =>
      cases write with
      | failed errno =>
          cases errno with
          | eagain => simp [trySendToSck, pending, writeOutcome, wrote]
          | eintr => simpa [trySendToSck, pending, writeOutcome] using ih
          | other => simp [trySendToSck, pending, writeOutcome, wrote]
      | accepted count positive =>
          rw [trySendToSck, if_neg pending]
          simp only [writeOutcome, conn_modify, readable_bufferToSck]
          by_cases all : scope.conn.writeBuffer.readable ≤ count
          · rw [if_pos (by omega), if_pos all, conn_drained, conn_modify,
              bufferToSck_eq_flushed all, wrote]
          · rw [if_neg (by omega), if_neg all, wrote]
            rfl

theorem conn_sendHttpOnLoop_of_pending {scope : Scope} {resp : List UInt8}
    (pending : (scope.conn.dataIn resp).writeBuffer.readable ≠ 0) (keepAlive : Bool)
    (writes : List WriteResult) :
    (scope.sendHttpOnLoop resp keepAlive writes).conn =
      scope.conn.sent resp keepAlive writes := by
  have wrote := @conn_trySendToSck (scope.modify (dataIn · resp)) pending writes
  rw [conn_modify, readable_dataIn] at wrote
  simp only [sendHttpOnLoop, sent]
  split
  · exact wrote
  · simp only [conn_modify, wrote, shut]

theorem trySendToSck_of_empty {scope : Scope} (empty : scope.conn.writeBuffer.readable = 0)
    (writes : List WriteResult) : scope.trySendToSck writes = scope := by
  rw [trySendToSck.eq_def, if_pos empty]

/-- With nothing to write `sendHttpOnLoop` does not try to. -/
theorem conn_sendHttpOnLoop_of_empty {scope : Scope} {resp : List UInt8}
    (empty : (scope.conn.dataIn resp).writeBuffer.readable = 0) (keepAlive : Bool)
    (writes : List WriteResult) :
    (scope.sendHttpOnLoop resp keepAlive writes).conn =
      if keepAlive then scope.conn.dataIn resp else (scope.conn.dataIn resp).shut := by
  have untouched := @trySendToSck_of_empty (scope.modify (dataIn · resp)) empty writes
  rw [sendHttpOnLoop, untouched]
  split <;> rfl

theorem conn_sendHttpOnLoop {scope : Scope} {resp : List UInt8} (nonempty : resp ≠ [])
    (keepAlive : Bool) (writes : List WriteResult) :
    (scope.sendHttpOnLoop resp keepAlive writes).conn =
      scope.conn.sent resp keepAlive writes :=
  conn_sendHttpOnLoop_of_pending (readable_dataIn_ne_zero _ nonempty) keepAlive writes

theorem onComplete_of_pooled {scope : Scope} (pooled : scope.conn.useThreadPool = true)
    (req : HttpRequest) (ticket : ℕ) (writes : List WriteResult) :
    scope.onComplete req ticket writes =
      if scope.conn.process then
        .dispatch (scope.modify fun conn => { conn with working := conn.working + 1 })
          { self := scope.conn.weakThis, req, ticket }
      else .raise .badFunctionCall :=
  if_pos pooled

theorem onComplete_of_alone {scope : Scope} (alone : scope.conn.useThreadPool = false)
    (alive : scope.conn.state ≠ .dead) (req : HttpRequest) (ticket : ℕ)
    (writes : List WriteResult) :
    scope.onComplete req ticket writes =
      .go (scope.sendHttpOnLoop (buildResponse req) req.keepAlive writes)
        (some .afterResponse) := by
  rw [onComplete, alone, if_neg Bool.false_ne_true, if_neg alive]

/-- `readFromSck` hears what there is and looks at how it ended. -/
theorem conn_readFromSck (scope : Scope) (reads : List ReadResult) :
    (scope.readFromSck reads).conn = scope.conn.heard reads := by
  unfold heard
  induction reads generalizing scope with
  | nil => rfl
  | cons result rest ih =>
      cases result with
      | failed errno =>
          cases errno with
          | eagain => rfl
          | eintr => exact ih scope
          | other => exact conn_handleDead scope
      | delivered bytes =>
          by_cases ended : bytes = []
          · simp [readFromSck, hears, readEnd, readUntil, ended]
          · simp only [readFromSck, hears, readEnd, if_neg ended]
            exact ih _

/-- A read callback ends in the loop when it has not checked an empty read buffer. -/
theorem conn_handleReadCallBack (scope : Scope) (now : Timespec) (reads : List ReadResult) :
    ∃ timerId,
      (((scope.conn.refreshed timerId).heard reads).readBuffer.readable = 0 ∧
        (scope.handleReadCallBack now reads).1.conn =
          ((scope.conn.refreshed timerId).heard reads).checked ∧
        (scope.handleReadCallBack now reads).2 = none) ∨
      (((scope.conn.refreshed timerId).heard reads).readBuffer.readable ≠ 0 ∧
        (scope.handleReadCallBack now reads).1.conn =
          (scope.conn.refreshed timerId).heard reads ∧
        (scope.handleReadCallBack now reads).2 = some .parseLoop) := by
  refine ⟨(scope.refreshTimer now).conn.timerId, ?_⟩
  have read : ((scope.refreshTimer now).readFromSck reads).conn =
      (scope.conn.refreshed (scope.refreshTimer now).conn.timerId).heard reads :=
    conn_readFromSck _ reads
  rw [← read]
  unfold handleReadCallBack onHttp
  simp only
  split
  · next empty => exact .inl ⟨empty, conn_checkEmptyReadAfterEof _, rfl⟩
  · next more => exact .inr ⟨more, rfl, rfl⟩

/-- What is kept by every partial write is there when the loop of the write
callback ends, in one of its three ways. -/
theorem writeLoop_rule (Holds Result : Connection → Prop)
    (partly : ∀ conn count, Holds conn → count < conn.writeBuffer.readable →
      Holds (conn.bufferToSck count))
    (drained : ∀ conn, Holds conn → Result conn.flushed.drained)
    (blocked : ∀ conn, Holds conn → conn.writeBuffer.readable ≠ 0 → Result conn)
    {writes : List WriteResult}
    (failed : .failed .other ∈ writes → ∀ conn, Holds conn → Result conn.died)
    {scope : Scope} (holds : Holds scope.conn) (pending : scope.conn.writeBuffer.readable ≠ 0) :
    Result (scope.writeLoop writes).conn := by
  induction writes generalizing scope with
  | nil =>
      rw [writeLoop, if_neg pending]
      exact blocked _ holds pending
  | cons write rest ih =>
      have failedLater := fun member => failed (List.mem_cons_of_mem write member)
      cases write with
      | failed errno =>
          cases errno with
          | eagain =>
              rw [writeLoop, if_neg pending]
              exact blocked _ holds pending
          | eintr =>
              rw [writeLoop, if_neg pending]
              exact ih failedLater holds pending
          | other =>
              rw [writeLoop, if_neg pending, conn_handleDead]
              exact failed (by simp) _ holds
      | accepted count positive =>
          rw [writeLoop, if_neg pending]
          simp only [conn_modify, readable_bufferToSck]
          by_cases all : scope.conn.writeBuffer.readable ≤ count
          · rw [if_pos (by omega), conn_drained, conn_modify, bufferToSck_eq_flushed all]
            exact drained _ holds
          · rw [if_neg (by omega)]
            apply ih failedLater (partly _ _ holds (by omega))
            rw [conn_modify, readable_bufferToSck]
            omega

end Scope

/-- The fields that `SubReactor::addConnection` sets once and for all. -/
structure Wiring where
  weakThis : ConnId
  useThreadPool : Bool
  sck : SocketId
  process : Bool
  addTimerCallBack : ConnId

def wiring (conn : Connection) : Wiring where
  weakThis := conn.weakThis
  useThreadPool := conn.useThreadPool
  sck := conn.sck
  process := conn.process
  addTimerCallBack := conn.addTimerCallBack

namespace Scope

/-- A connection keeps its wiring, and gives its loop nothing but removal tasks. -/
structure Keeps (before after : Scope) : Prop where
  wiring : after.conn.wiring = before.conn.wiring
  stop : after.eloop.stop = before.eloop.stop
  tasks : ∃ removed : List ConnId,
    after.eloop.tasks = before.eloop.tasks ++ removed.map .removeConnection

namespace Keeps

theorem refl (scope : Scope) : Keeps scope scope :=
  ⟨rfl, rfl, [], by simp⟩

theorem trans {first second third : Scope} (earlier : Keeps first second)
    (later : Keeps second third) : Keeps first third := by
  rcases earlier.tasks with ⟨removed, tasksEq⟩
  rcases later.tasks with ⟨more, moreEq⟩
  refine ⟨later.wiring.trans earlier.wiring, later.stop.trans earlier.stop, removed ++ more, ?_⟩
  rw [moreEq, tasksEq, List.append_assoc, List.map_append]

theorem modify (scope : Scope) (change : Connection → Connection)
    (same : (change scope.conn).wiring = scope.conn.wiring) :
    Keeps scope (scope.modify change) :=
  ⟨same, rfl, [], by simp⟩

theorem addTimerCallBack (scope : Scope) (now : Timespec) :
    Keeps scope (scope.addTimerCallBack now) :=
  ⟨rfl, rfl, [], by simp [Scope.addTimerCallBack, EventLoop.addTimer]⟩

theorem deleteTimerCallBack (scope : Scope) : Keeps scope scope.deleteTimerCallBack :=
  ⟨rfl, rfl, [], by simp [Scope.deleteTimerCallBack, EventLoop.deleteTimer]⟩

theorem startConnect (scope : Scope) (now : Timespec) : Keeps scope (scope.startConnect now) :=
  (modify scope (update · .enableReading) rfl).trans (addTimerCallBack _ now)

theorem handleDead (scope : Scope) : Keeps scope scope.handleDead := by
  unfold Scope.handleDead
  split
  · exact refl scope
  · refine ⟨rfl, ?_, ?_⟩
    · simp only [EventLoop.enqueueTask]
      split <;> rfl
    · simp only [EventLoop.enqueueTask]
      split
      · exact ⟨[], by simp [Scope.deleteTimerCallBack, EventLoop.deleteTimer]⟩
      · exact ⟨[scope.conn.weakThis], by
          simp [Scope.deleteTimerCallBack, EventLoop.deleteTimer]⟩

theorem stopped (scope : Scope) : Keeps scope scope.stop := by
  unfold Scope.stop
  split
  · exact refl scope
  · exact (modify scope _ rfl).trans (deleteTimerCallBack _)

theorem checkEmptyReadAfterEof (scope : Scope) : Keeps scope scope.checkEmptyReadAfterEof := by
  unfold Scope.checkEmptyReadAfterEof
  split
  · exact handleDead scope
  · exact refl scope

theorem refreshTimer (scope : Scope) (now : Timespec) : Keeps scope (scope.refreshTimer now) :=
  (deleteTimerCallBack scope).trans (addTimerCallBack _ now)

theorem drained (scope : Scope) : Keeps scope scope.drained := by
  have updated : Keeps scope (scope.modify (update · .disableWriting)) := modify scope _ rfl
  unfold Scope.drained
  simp only
  split
  · exact updated.trans (handleDead _)
  · exact updated

theorem readFromSck (scope : Scope) (reads : List ReadResult) :
    Keeps scope (scope.readFromSck reads) := by
  fun_induction Scope.readFromSck scope reads with
  | case1 scope => exact refl scope
  | case2 scope rest ih => exact ih
  | case3 scope => exact refl scope
  | case4 scope => exact handleDead scope
  | case5 scope => exact modify scope _ rfl
  | case6 scope bytes rest nonempty ih =>
      exact (modify scope (sckToBuffer · bytes) rfl).trans ih

theorem trySendToSck (scope : Scope) (writes : List WriteResult) :
    Keeps scope (scope.trySendToSck writes) := by
  fun_induction Scope.trySendToSck scope writes with
  | case1 => exact refl scope
  | case2 => exact modify scope _ rfl
  | case3 => exact modify scope _ rfl
  | case4 _ _ ih => exact ih
  | case5 => exact handleDead scope
  | case6 _ count _ rest written empty =>
      exact (modify scope (bufferToSck · count) rfl).trans (drained _)
  | case7 _ count _ rest written more =>
      exact (modify scope (bufferToSck · count) rfl).trans (modify _ _ rfl)

theorem sendHttpOnLoop (scope : Scope) (resp : List UInt8) (keepAlive : Bool)
    (writes : List WriteResult) : Keeps scope (scope.sendHttpOnLoop resp keepAlive writes) := by
  have tried : Keeps scope ((scope.modify (dataIn · resp)).trySendToSck writes) :=
    (modify scope (dataIn · resp) rfl).trans (trySendToSck _ writes)
  unfold Scope.sendHttpOnLoop
  simp only
  split
  · exact tried
  · exact tried.trans (modify _ _ rfl)

theorem writeLoop (scope : Scope) (writes : List WriteResult) :
    Keeps scope (scope.writeLoop writes) := by
  fun_induction Scope.writeLoop scope writes with
  | case1 => exact refl _
  | case2 => exact refl _
  | case3 => exact refl _
  | case4 _ _ _ ih => exact ih
  | case5 => exact handleDead _
  | case6 scope _ count _ rest written empty =>
      exact (modify scope (bufferToSck · count) rfl).trans (drained _)
  | case7 scope _ count _ rest written more ih =>
      exact (modify scope (bufferToSck · count) rfl).trans ih

theorem handleWriteCallBack (scope : Scope) (now : Timespec) (writes : List WriteResult) :
    Keeps scope (scope.handleWriteCallBack now writes) := by
  unfold Scope.handleWriteCallBack
  split
  · exact refl scope
  · refine (refreshTimer scope now).trans ?_
    simp only
    split
    · exact modify _ _ rfl
    · exact writeLoop _ writes

theorem handleReadCallBack (scope : Scope) (now : Timespec) (reads : List ReadResult) :
    Keeps scope (scope.handleReadCallBack now reads).1 := by
  have read := (refreshTimer scope now).trans (readFromSck _ reads)
  unfold Scope.handleReadCallBack onHttp
  simp only
  split
  · exact read.trans (checkEmptyReadAfterEof _)
  · exact read

theorem respond (scope : Scope) (reply : Reply) (writes : List WriteResult) :
    Keeps scope (scope.respond reply writes).1 := by
  have counted : Keeps scope
      (scope.modify fun conn => { conn with working := conn.working - 1 }) :=
    modify scope _ rfl
  unfold Scope.respond
  simp only
  split
  · exact counted
  · exact counted.trans (sendHttpOnLoop _ _ _ writes)

end Keeps

end Scope

end Connection

end MiniWebServer
