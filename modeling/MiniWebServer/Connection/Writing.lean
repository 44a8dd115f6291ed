import MiniWebServer.Connection.Invariants
import MiniWebServer.Connection.Timing
import MiniWebServer.Library.Transition

/-!
# Nothing that is to be written is forgotten

Epoll is edge-triggered here, so a connection with bytes in its write buffer has
to be registered for `EPOLLOUT` when the loop thread leaves it. `Watched` is the
invariant. Both write loops keep it: the fast path changes the interest at each
of its exits, and the loop of the write callback starts from a connection that
is registered and drops the interest with the last byte only.
-/

namespace MiniWebServer

open HttpProcess

namespace Connection

/-- The channel is in epoll, and wants `EPOLLOUT` while there is something to write. -/
structure Registered (conn : Connection) : Prop where
  inEpoll : conn.channel.inEpoll = true
  epollOut : conn.channel.events.epollOut = true ↔ conn.writeBuffer.readable ≠ 0

namespace Registered

theorem keep {conn other : Connection} (registered : conn.Registered)
    (channel : other.channel = conn.channel)
    (readable : other.writeBuffer.readable = conn.writeBuffer.readable) : other.Registered := by
  refine ⟨?_, ?_⟩
  · rw [channel]
    exact registered.inEpoll
  · rw [channel, readable]
    exact registered.epollOut

theorem enableWriting {conn : Connection} (pending : conn.writeBuffer.readable ≠ 0) :
    (conn.update .enableWriting).Registered :=
  ⟨rfl, fun _ => pending, fun _ => rfl⟩

theorem disableWriting {conn : Connection} (empty : conn.writeBuffer.readable = 0) :
    (conn.update .disableWriting).Registered :=
  ⟨rfl, fun enabled => (Bool.false_ne_true enabled).elim, fun pending => absurd empty pending⟩

theorem shut {conn : Connection} (registered : conn.Registered) : conn.shut.Registered :=
  ⟨rfl, registered.epollOut⟩

end Registered

theorem ended_died (conn : Connection) : conn.died.Ended :=
  .inl (state_died conn)

theorem Ended.logged {conn : Connection} (ended : conn.Ended) (alive : conn.state ≠ .dead) :
    .handleDead ∈ conn.log :=
  ended.resolve_left alive

theorem Ended.heard {conn : Connection} (ended : conn.Ended) (alive : conn.state ≠ .dead)
    (reads : List ReadResult) : (conn.heard reads).Ended := by
  have settles := @Scope.Settles.readFromSck { conn, eloop := .init } alive reads
  have after := settles.ended ended
  rwa [Scope.conn_readFromSck] at after

theorem Ended.sent {conn : Connection} (ended : conn.Ended) (alive : conn.state ≠ .dead)
    {resp : List UInt8} (pending : (conn.dataIn resp).writeBuffer.readable ≠ 0)
    (keepAlive : Bool) (writes : List WriteResult) :
    (conn.sent resp keepAlive writes).Ended := by
  have settles :=
    @Scope.Settles.sendHttpOnLoop { conn, eloop := .init } alive resp keepAlive writes
  have after := settles.ended ended
  rwa [Scope.conn_sendHttpOnLoop_of_pending pending] at after

theorem Ended.handleWriteCallBack {scope : Scope} (ended : scope.conn.Ended)
    (alive : scope.conn.state ≠ .dead) (now : Timespec) (writes : List WriteResult) :
    (scope.handleWriteCallBack now writes).conn.Ended := by
  apply (Scope.Settles.handleWriteCallBack alive now writes).ended
  exact ended.of_eq rfl rfl

/-- The connection is registered as it has to be, unless it has ended. -/
def Watched (conn : Connection) : Prop :=
  conn.Ended ∨ conn.Registered

namespace Watched

theorem keep {conn other : Connection} (watched : conn.Watched)
    (state : other.state = conn.state) {more : List Event}
    (log : other.log = conn.log ++ more) (channel : other.channel = conn.channel)
    (writeBuffer : other.writeBuffer = conn.writeBuffer) : other.Watched := by
  rcases watched with ended | registered
  · exact .inl (ended.of_eq state log)
  · exact .inr (registered.keep channel (congrArg Buffer.readable writeBuffer))

theorem afterParse {conn : Connection} (watched : conn.Watched) (process : HttpProcess)
    (rest : Buffer) (result : Parsed) : (conn.afterParse process rest result).Watched :=
  watched.keep rfl rfl rfl rfl

theorem checked {conn : Connection} (watched : conn.Watched) : conn.checked.Watched := by
  unfold Connection.checked
  split
  · exact .inl (ended_died conn)
  · exact watched

theorem stopped (conn : Connection) : conn.stopped.Watched :=
  .inl (.inl (state_stopped conn))

theorem shut {conn : Connection} (watched : conn.Watched) (alive : conn.state ≠ .dead) :
    conn.shut.Watched := by
  rcases watched with ended | registered
  · rcases log_update conn .disableReading with ⟨more, log⟩
    left
    right
    show Event.handleDead ∈ (conn.update .disableReading).log
    rw [log]
    exact List.mem_append_left more (ended.logged alive)
  · exact .inr registered.shut

theorem heard {conn : Connection} (watched : conn.Watched) (alive : conn.state ≠ .dead)
    (timerId : ℤ) (reads : List ReadResult) :
    ((conn.refreshed timerId).heard reads).Watched := by
  rcases watched with ended | registered
  · have refreshed : (conn.refreshed timerId).Ended := ended.of_eq rfl rfl
    exact .inl (refreshed.heard alive reads)
  · have hears := hears_spec (conn.refreshed timerId) reads
    have still : ((conn.refreshed timerId).hears reads).Registered :=
      registered.keep hears.channel (congrArg Buffer.readable hears.writeBuffer)
    unfold Connection.heard
    cases readEnd reads with
    | again => exact .inr still
    | eof => exact .inr (still.keep rfl rfl)
    | failed => exact .inl (ended_died _)

/-- Every exit of the fast path leaves the interest that the write buffer calls
for, or has called `handleDead`. -/
theorem wrote {conn : Connection} (alive : conn.state ≠ .dead)
    (pending : conn.writeBuffer.readable ≠ 0) (writes : List WriteResult) :
    .handleDead ∈ (conn.wrote (writeOutcome conn.writeBuffer.readable writes)).log ∨
      (conn.wrote (writeOutcome conn.writeBuffer.readable writes)).Registered := by
  cases outcome : writeOutcome conn.writeBuffer.readable writes with
  | drained =>
      rw [Connection.wrote, Connection.drained]
      split
      · next finished =>
        left
        rw [died_of_ne_dead finished.alive]
        simp
      · exact .inr (Registered.disableWriting (readable_flushed conn))
  | partly count =>
      right
      apply Registered.enableWriting
      have short := lt_of_writeOutcome_eq_partly outcome
      rw [readable_bufferToSck]
      omega
  | blocked => exact .inr (Registered.enableWriting pending)
  | fatal =>
      left
      rw [Connection.wrote, died_of_ne_dead alive]
      simp

theorem sent {conn : Connection} (watched : conn.Watched) (alive : conn.state ≠ .dead)
    {resp : List UInt8} (pending : (conn.dataIn resp).writeBuffer.readable ≠ 0)
    (keepAlive : Bool) (writes : List WriteResult) :
    (conn.sent resp keepAlive writes).Watched := by
  rcases watched with ended | registered
  · exact .inl (ended.sent alive pending keepAlive writes)
  · have wrote := @wrote (conn.dataIn resp) alive pending writes
    rw [readable_dataIn] at wrote
    unfold Connection.sent
    cases keepAlive with
    | true => exact wrote.imp .inr id
    | false =>
        rcases wrote with logged | registered
        · rcases log_update ((conn.dataIn resp).wrote
            (writeOutcome (conn.writeBuffer.readable + resp.length) writes)) .disableReading
            with ⟨more, log⟩
          left
          right
          show Event.handleDead ∈ (Connection.update _ .disableReading).log
          rw [log]
          exact List.mem_append_left more logged
        · exact .inr registered.shut

theorem handleWriteCallBack {scope : Scope} (watched : scope.conn.Watched) (now : Timespec)
    (writes : List WriteResult) : (scope.handleWriteCallBack now writes).conn.Watched := by
  by_cases dead : scope.conn.state = .dead
  · rw [Scope.handleWriteCallBack, if_pos dead]
    exact .inl (.inl dead)
  · rcases watched with ended | registered
    · exact .inl (ended.handleWriteCallBack dead now writes)
    · rw [Scope.handleWriteCallBack, if_neg dead]
      simp only
      split
      · next empty => exact .inr (Registered.disableWriting empty)
      · next pending =>
        -- The interest is there from before the first byte of the loop to after the last.
        refine Scope.writeLoop_rule
          (fun conn => conn.channel.inEpoll = true ∧ conn.channel.events.epollOut = true)
          Watched ?_ ?_ ?_ ?_ ⟨registered.inEpoll, registered.epollOut.mpr pending⟩ pending
        · exact fun conn count known _ => known
        · intro conn known
          unfold Connection.drained
          split
          · exact .inl (ended_died _)
          · exact .inr (Registered.disableWriting (readable_flushed conn))
        · exact fun conn known more => .inr ⟨known.1, fun _ => more, fun _ => known.2⟩
        · exact fun _ conn known => .inl (ended_died conn)

end Watched

/-- No byte of a response is lost, and `EPOLLOUT` is registered while bytes are left. -/
structure Delivers (conn : Connection) : Prop where
  bytes : accepted conn.log ++ conn.writeBuffer.peek = (responses conn.log).flatten
  inEpoll : conn.channel.inEpoll = true
  epollOut : conn.channel.interest.epollOut = true ↔ conn.writeBuffer.readable ≠ 0

/-- What the member functions keep. -/
structure Standing (conn : Connection) : Prop where
  sound : conn.Sound
  balanced : conn.Balanced
  watched : conn.Watched

namespace Standing

theorem delivers {conn : Connection} (standing : conn.Standing) (lives : ¬conn.Ended) :
    conn.Delivers := by
  have registered := standing.watched.resolve_left lives
  have interest := standing.sound.interest registered.inEpoll
  refine ⟨standing.balanced, registered.inEpoll, ?_⟩
  rw [interest]
  exact registered.epollOut

theorem checked {conn : Connection} (standing : conn.Standing) : conn.checked.Standing :=
  ⟨standing.sound.checked, standing.balanced.quiet (.checked _), standing.watched.checked⟩

theorem shut {conn : Connection} (standing : conn.Standing) (alive : conn.state ≠ .dead) :
    conn.shut.Standing :=
  ⟨.ofUpdate (by simp) rfl, standing.balanced.quiet (.shut _ alive), standing.watched.shut alive⟩

theorem heard {conn : Connection} (standing : conn.Standing) (alive : conn.state ≠ .dead)
    (timerId : ℤ) (reads : List ReadResult) :
    ((conn.refreshed timerId).heard reads).Standing :=
  ⟨standing.sound.heard timerId reads,
    standing.balanced.listened (listened_heard conn timerId reads),
    standing.watched.heard alive timerId reads⟩

/-- Appending nothing to an empty write buffer. -/
theorem dataIn_of_empty {conn : Connection} (standing : conn.Standing) {resp : List UInt8}
    (empty : (conn.dataIn resp).writeBuffer.readable = 0) : (conn.dataIn resp).Standing := by
  refine ⟨standing.sound.keep rfl rfl, standing.balanced.sends (sends_dataIn conn resp), ?_⟩
  rcases standing.watched with ended | registered
  · exact .inl (ended.of_eq rfl rfl)
  · rw [readable_dataIn] at empty
    have same : (conn.dataIn resp).writeBuffer.readable = conn.writeBuffer.readable := by
      rw [readable_dataIn]
      omega
    exact .inr (registered.keep rfl same)

theorem sendHttpOnLoop {scope : Scope} (standing : scope.conn.Standing)
    (alive : scope.conn.state ≠ .dead) (resp : List UInt8) (keepAlive : Bool)
    (writes : List WriteResult) : (scope.sendHttpOnLoop resp keepAlive writes).conn.Standing := by
  by_cases empty : (scope.conn.dataIn resp).writeBuffer.readable = 0
  · have appended := standing.dataIn_of_empty empty
    rw [Scope.conn_sendHttpOnLoop_of_empty empty]
    cases keepAlive with
    | true => exact appended
    | false => exact appended.shut alive
  · rw [Scope.conn_sendHttpOnLoop_of_pending empty]
    exact ⟨standing.sound.sent alive resp keepAlive writes,
      standing.balanced.sends (sends_sent _ resp keepAlive writes),
      standing.watched.sent alive empty keepAlive writes⟩

theorem handleReadCallBack {scope : Scope} (standing : scope.conn.Standing)
    (alive : scope.conn.state ≠ .dead) (now : Timespec) (reads : List ReadResult) :
    (scope.handleReadCallBack now reads).1.conn.Standing := by
  rcases Scope.conn_handleReadCallBack scope now reads with
    ⟨timerId, ⟨_, connEq, _⟩ | ⟨_, connEq, _⟩⟩
  · rw [connEq]
    exact (standing.heard alive timerId reads).checked
  · rw [connEq]
    exact standing.heard alive timerId reads

theorem handleWriteCallBack {scope : Scope} (standing : scope.conn.Standing) (now : Timespec)
    (writes : List WriteResult) : (scope.handleWriteCallBack now writes).conn.Standing :=
  ⟨standing.sound.handleWriteCallBack now writes,
    standing.balanced.quiet (.handleWriteCallBack scope now writes),
    standing.watched.handleWriteCallBack now writes⟩

end Standing

/-- What the loop thread may do to a connection between two waits: a callback, a
response of any bytes, a check, a parse that leaves other unread bytes, and a
change of the number of requests that are being worked on. -/
inductive Call where
  | handleReadCallBack (now : Timespec) (reads : List ReadResult)
  | handleWriteCallBack (now : Timespec) (writes : List WriteResult)
  | sendHttpOnLoop (resp : List UInt8) (keepAlive : Bool) (writes : List WriteResult)
  | checkEmptyReadAfterEof
  | parsed (process : HttpProcess) (rest : Buffer) (result : Parsed) (working : ℤ)

/-- The scope after the call; a read callback goes up to its loop. -/
def Scope.call (scope : Scope) : Call → Scope
  | .handleReadCallBack now reads => (scope.handleReadCallBack now reads).1
  | .handleWriteCallBack now writes => scope.handleWriteCallBack now writes
  | .sendHttpOnLoop resp keepAlive writes => scope.sendHttpOnLoop resp keepAlive writes
  | .checkEmptyReadAfterEof => scope.checkEmptyReadAfterEof
  | .parsed process rest result working =>
      scope.modify fun conn => { conn.afterParse process rest result with working }

/-- The runs of calls on a connection that has not ended before any of them. -/
abbrev Scope.Calls : Scope → Scope → Prop :=
  Transition.Reaches (fun scope call => some (scope.call call)) fun scope _ => ¬scope.conn.Ended

theorem standing_call {scope : Scope} (standing : scope.conn.Standing)
    (lives : ¬scope.conn.Ended) (call : Call) : (scope.call call).conn.Standing := by
  have alive : scope.conn.state ≠ .dead := fun dead => lives (.inl dead)
  cases call with
  | handleReadCallBack now reads => exact standing.handleReadCallBack alive now reads
  | handleWriteCallBack now writes => exact standing.handleWriteCallBack now writes
  | sendHttpOnLoop resp keepAlive writes =>
      exact standing.sendHttpOnLoop alive resp keepAlive writes
  | checkEmptyReadAfterEof =>
      rw [Scope.call, Scope.conn_checkEmptyReadAfterEof]
      exact standing.checked
  | parsed process rest result working =>
      have balanced := standing.balanced.afterParse process rest result
      have watched := standing.watched.afterParse process rest result
      exact ⟨standing.sound.keep rfl rfl, balanced,
        watched.keep rfl (List.append_nil _).symm rfl rfl⟩

theorem standing_calls {start scope : Scope} (standing : start.conn.Standing)
    (calls : start.Calls scope) : scope.conn.Standing := by
  refine calls.invariant (fun scope => scope.conn.Standing) standing ?_
  intro state call next standing lives called
  cases called
  exact standing_call standing lives call

end Connection

end MiniWebServer
