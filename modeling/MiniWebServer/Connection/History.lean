import MiniWebServer.Connection.View

/-!
# What the member functions do to the history

Three relations between a connection before and after: `Quiet` when nothing is
read, parsed or appended, `Listened` when bytes are read, and `Sends` when a
response is appended. In all three the socket's bytes and those of the write
buffer together change by the response at most.
-/

namespace MiniWebServer

open HttpProcess

namespace Connection

/-- A change that keeps what was read and parsed and what was to be sent, that
does not enable reading and does not bring a dead connection back. -/
structure Quiet (before after : Connection) : Prop where
  readBuffer : after.readBuffer = before.readBuffer
  httpProcess : after.httpProcess = before.httpProcess
  working : after.working = before.working
  wiring : after.wiring = before.wiring
  received : received after.log = received before.log
  results : results after.log = results before.log
  responses : responses after.log = responses before.log
  bytes : accepted after.log ++ after.writeBuffer.peek =
    accepted before.log ++ before.writeBuffer.peek
  epollIn : after.channel.events.epollIn = true → before.channel.events.epollIn = true
  dead : before.state = .dead → after.state = .dead

namespace Quiet

theorem useThreadPool {before after : Connection} (quiet : Quiet before after) :
    after.useThreadPool = before.useThreadPool :=
  congrArg Wiring.useThreadPool quiet.wiring

theorem refl (conn : Connection) : Quiet conn conn :=
  ⟨rfl, rfl, rfl, rfl, rfl, rfl, rfl, rfl, id, id⟩

theorem trans {first second third : Connection} (earlier : Quiet first second)
    (later : Quiet second third) : Quiet first third where
  readBuffer := later.readBuffer.trans earlier.readBuffer
  httpProcess := later.httpProcess.trans earlier.httpProcess
  working := later.working.trans earlier.working
  wiring := later.wiring.trans earlier.wiring
  received := later.received.trans earlier.received
  results := later.results.trans earlier.results
  responses := later.responses.trans earlier.responses
  bytes := later.bytes.trans earlier.bytes
  epollIn := fun enabled => earlier.epollIn (later.epollIn enabled)
  dead := fun dead => later.dead (earlier.dead dead)

/-- Events that are neither input nor output leave no trace. -/
theorem update (conn : Connection) {change : Channel → Channel}
    (epollIn : (change conn.channel).events.epollIn = true →
      conn.channel.events.epollIn = true) : Quiet conn (conn.update change) := by
  refine ⟨rfl, rfl, rfl, rfl, ?_, ?_, ?_, ?_, epollIn, id⟩ <;>
    · simp only [Connection.update]
      split <;> simp

theorem disableReading (conn : Connection) : Quiet conn (conn.update .disableReading) :=
  update conn (by simp [Channel.disableReading, Channel.updateChannel])

theorem enableWriting (conn : Connection) : Quiet conn (conn.update .enableWriting) :=
  update conn id

theorem disableWriting (conn : Connection) : Quiet conn (conn.update .disableWriting) :=
  update conn id

theorem died (conn : Connection) : Quiet conn conn.died := by
  unfold Connection.died
  split
  · exact refl conn
  · refine ⟨rfl, rfl, rfl, rfl, ?_, ?_, ?_, ?_, ?_, fun _ => rfl⟩ <;> simp

theorem stopped (conn : Connection) : Quiet conn conn.stopped := by
  unfold Connection.stopped
  split
  · exact refl conn
  · refine ⟨rfl, rfl, rfl, rfl, rfl, rfl, rfl, rfl, ?_, fun _ => rfl⟩
    simp

theorem checked (conn : Connection) : Quiet conn conn.checked := by
  unfold Connection.checked
  split
  · exact died conn
  · exact refl conn

theorem shut (conn : Connection) (alive : conn.state ≠ .dead) : Quiet conn conn.shut :=
  { disableReading conn with dead := fun dead => absurd dead alive }

theorem bufferToSck (conn : Connection) (count : ℕ) : Quiet conn (conn.bufferToSck count) := by
  refine ⟨rfl, rfl, rfl, rfl, ?_, ?_, ?_, ?_, id, id⟩
  · simp [Connection.bufferToSck]
  · simp [Connection.bufferToSck]
  · simp [Connection.bufferToSck]
  · have dropEq : conn.writeBuffer.peek.drop (min count conn.writeBuffer.readable) =
        conn.writeBuffer.peek.drop count := by
      rw [← Buffer.length_peek]
      rcases Nat.le_total count conn.writeBuffer.peek.length with less | more
      · rw [Nat.min_eq_left less]
      · rw [Nat.min_eq_right more, List.drop_length, List.drop_of_length_le more]
    simp [Connection.bufferToSck, dropEq]

theorem flushed (conn : Connection) : Quiet conn conn.flushed :=
  bufferToSck conn _

theorem drained (conn : Connection) : Quiet conn conn.drained := by
  unfold Connection.drained
  split
  · exact (disableWriting conn).trans (died _)
  · exact disableWriting conn

theorem wrote (conn : Connection) (outcome : WriteOutcome) : Quiet conn (conn.wrote outcome) := by
  cases outcome with
  | drained => exact (flushed conn).trans (drained _)
  | partly count => exact (bufferToSck conn count).trans (enableWriting _)
  | blocked => exact enableWriting conn
  | fatal => exact died conn

theorem refreshTimer (scope : Scope) (now : Timespec) :
    Quiet scope.conn (scope.refreshTimer now).conn := by
  refine ⟨rfl, rfl, rfl, rfl, ?_, ?_, ?_, ?_, id, id⟩ <;>
    simp [Scope.refreshTimer, Scope.addTimerCallBack, Scope.deleteTimerCallBack]

theorem writeLoop {scope : Scope} (pending : scope.conn.writeBuffer.readable ≠ 0)
    (writes : List WriteResult) : Quiet scope.conn (scope.writeLoop writes).conn := by
  refine Scope.writeLoop_rule (Quiet scope.conn) _ ?_ ?_ ?_ ?_ (refl _) pending
  · exact fun conn count quiet _ => quiet.trans (bufferToSck conn count)
  · exact fun conn quiet => quiet.trans ((flushed conn).trans (drained _))
  · exact fun conn quiet _ => quiet
  · exact fun _ conn quiet => quiet.trans (died conn)

theorem handleWriteCallBack (scope : Scope) (now : Timespec) (writes : List WriteResult) :
    Quiet scope.conn (scope.handleWriteCallBack now writes).conn := by
  unfold Scope.handleWriteCallBack
  split
  · exact refl _
  · refine (refreshTimer scope now).trans ?_
    simp only
    split
    · exact disableWriting _
    · next pending => exact writeLoop pending writes

end Quiet

/-- A change that adds bytes to the read buffer, and is quiet otherwise. -/
structure Listened (before after : Connection) (bytes : List UInt8) : Prop where
  peek : after.readBuffer.peek = before.readBuffer.peek ++ bytes
  received : received after.log = received before.log ++ bytes
  httpProcess : after.httpProcess = before.httpProcess
  working : after.working = before.working
  wiring : after.wiring = before.wiring
  results : results after.log = results before.log
  responses : responses after.log = responses before.log
  bytes : accepted after.log ++ after.writeBuffer.peek =
    accepted before.log ++ before.writeBuffer.peek
  epollIn : after.channel.events.epollIn = true → before.channel.events.epollIn = true

theorem Listened.useThreadPool {before after : Connection} {bytes : List UInt8}
    (listened : Listened before after bytes) : after.useThreadPool = before.useThreadPool :=
  congrArg Wiring.useThreadPool listened.wiring

theorem Listened.quiet {first second third : Connection} {bytes : List UInt8}
    (earlier : Listened first second bytes) (later : Quiet second third) :
    Listened first third bytes where
  peek := by rw [later.readBuffer, earlier.peek]
  received := later.received.trans earlier.received
  httpProcess := later.httpProcess.trans earlier.httpProcess
  working := later.working.trans earlier.working
  wiring := later.wiring.trans earlier.wiring
  results := later.results.trans earlier.results
  responses := later.responses.trans earlier.responses
  bytes := later.bytes.trans earlier.bytes
  epollIn := fun enabled => earlier.epollIn (later.epollIn enabled)

/-- What `hears` leaves as it was, besides what listening does. -/
structure Hears (before after : Connection) (bytes : List UInt8) : Prop where
  listened : Listened before after bytes
  state : after.state = before.state
  channel : after.channel = before.channel
  writeBuffer : after.writeBuffer = before.writeBuffer
  log : ∃ chunks : List (List UInt8), after.log = before.log ++ chunks.map .received

theorem Hears.refl (conn : Connection) : Hears conn conn [] :=
  ⟨⟨by simp, by simp, rfl, rfl, rfl, rfl, rfl, rfl, id⟩, rfl, rfl, rfl, [], by simp⟩

theorem Hears.sckToBuffer (conn : Connection) (bytes : List UInt8) :
    Hears conn (conn.sckToBuffer bytes) bytes := by
  refine ⟨⟨?_, ?_, rfl, rfl, rfl, ?_, ?_, ?_, id⟩, rfl, rfl, rfl, [bytes], rfl⟩ <;>
    simp [Connection.sckToBuffer]

theorem Hears.trans {first second third : Connection} {bytes more : List UInt8}
    (earlier : Hears first second bytes) (later : Hears second third more) :
    Hears first third (bytes ++ more) := by
  rcases earlier with ⟨listened, state, channel, writeBuffer, chunks, log⟩
  rcases later with ⟨listened', state', channel', writeBuffer', chunks', log'⟩
  refine ⟨?_, state'.trans state, channel'.trans channel, writeBuffer'.trans writeBuffer,
    chunks ++ chunks', ?_⟩
  · exact
      { peek := by rw [listened'.peek, listened.peek, List.append_assoc]
        received := by rw [listened'.received, listened.received, List.append_assoc]
        httpProcess := listened'.httpProcess.trans listened.httpProcess
        working := listened'.working.trans listened.working
        wiring := listened'.wiring.trans listened.wiring
        results := listened'.results.trans listened.results
        responses := listened'.responses.trans listened.responses
        bytes := listened'.bytes.trans listened.bytes
        epollIn := fun enabled => listened.epollIn (listened'.epollIn enabled) }
  · rw [log', log, List.append_assoc, List.map_append]

theorem hears_spec (conn : Connection) (reads : List ReadResult) :
    Hears conn (conn.hears reads) (readBytes reads) := by
  induction reads generalizing conn with
  | nil => exact Hears.refl conn
  | cons result rest ih =>
      cases result with
      | failed errno =>
          cases errno with
          | eagain => exact Hears.refl conn
          | eintr => exact ih conn
          | other => exact Hears.refl conn
      | delivered bytes =>
          by_cases ended : bytes = []
          · simp only [hears, readBytes, if_pos ended]
            exact Hears.refl conn
          · simp only [hears, readBytes, if_neg ended]
            exact (Hears.sckToBuffer conn bytes).trans (ih _)

theorem listened_heard (conn : Connection) (timerId : ℤ) (reads : List ReadResult) :
    Listened conn ((conn.refreshed timerId).heard reads) (readBytes reads) := by
  have heard := (hears_spec (conn.refreshed timerId) reads).listened
  have hears : Listened conn ((conn.refreshed timerId).hears reads) (readBytes reads) :=
    { heard with
      received := by simpa [refreshed] using heard.received
      results := by simpa [refreshed] using heard.results
      responses := by simpa [refreshed] using heard.responses
      bytes := by simpa [refreshed] using heard.bytes }
  unfold Connection.heard
  cases readEnd reads with
  | again => exact hears
  | eof =>
      exact
        { hears with
          received := by simpa [readUntil] using hears.received
          results := by simpa [readUntil] using hears.results
          responses := by simpa [readUntil] using hears.responses
          bytes := by simpa [readUntil] using hears.bytes }
  | failed => exact hears.quiet (Quiet.died _)

/-- What `sendHttpOnLoop` does to the history: it appends the response. -/
structure Sends (before after : Connection) (resp : List UInt8) : Prop where
  readBuffer : after.readBuffer = before.readBuffer
  httpProcess : after.httpProcess = before.httpProcess
  working : after.working = before.working
  wiring : after.wiring = before.wiring
  received : received after.log = received before.log
  results : results after.log = results before.log
  responses : responses after.log = responses before.log ++ [resp]
  bytes : accepted after.log ++ after.writeBuffer.peek =
    accepted before.log ++ before.writeBuffer.peek ++ resp
  epollIn : after.channel.events.epollIn = true → before.channel.events.epollIn = true

theorem Sends.useThreadPool {before after : Connection} {resp : List UInt8}
    (sends : Sends before after resp) : after.useThreadPool = before.useThreadPool :=
  congrArg Wiring.useThreadPool sends.wiring

theorem sends_dataIn (conn : Connection) (resp : List UInt8) :
    Sends conn (conn.dataIn resp) resp := by
  refine ⟨rfl, rfl, rfl, rfl, ?_, ?_, ?_, ?_, id⟩ <;> simp [Connection.dataIn]

theorem Sends.quiet {first second third : Connection} {resp : List UInt8}
    (earlier : Sends first second resp) (later : Quiet second third) : Sends first third resp where
  readBuffer := later.readBuffer.trans earlier.readBuffer
  httpProcess := later.httpProcess.trans earlier.httpProcess
  working := later.working.trans earlier.working
  wiring := later.wiring.trans earlier.wiring
  received := later.received.trans earlier.received
  results := later.results.trans earlier.results
  responses := later.responses.trans earlier.responses
  bytes := later.bytes.trans earlier.bytes
  epollIn := fun enabled => earlier.epollIn (later.epollIn enabled)

theorem sends_sent (conn : Connection) (resp : List UInt8) (keepAlive : Bool)
    (writes : List WriteResult) : Sends conn (conn.sent resp keepAlive writes) resp := by
  have wrote := (sends_dataIn conn resp).quiet
    (Quiet.wrote _ (writeOutcome (conn.writeBuffer.readable + resp.length) writes))
  unfold sent
  cases keepAlive with
  | true => exact wrote
  | false =>
      have closed := wrote.quiet (Quiet.disableReading _)
      exact { closed with }

/-- After a response that closes the connection nothing more is read. -/
theorem sent_closing (conn : Connection) (resp : List UInt8) (writes : List WriteResult) :
    (conn.sent resp false writes).state = .peerClose ∧
      (conn.sent resp false writes).channel.events.epollIn = false :=
  ⟨rfl, rfl⟩

end Connection

namespace View

open Connection

/-- A move that calls `sendHttpOnLoop` with the given arguments. -/
structure Sending (before : View) (share : Share) (after : View) (send : Send) : Prop where
  call : before.send? share = some send
  conn : after.conn = send.conn.sent send.resp send.keepAlive send.writes
  frame : after.frame = some send.frame
  notParsing : send.frame ≠ .parseLoop
  earlier : responses send.conn.log = responses before.conn.log
  built : send.resp = build400 ∧ send.keepAlive = false ∨
    ∃ req, send.resp = buildResponse req ∧ send.keepAlive = req.keepAlive

theorem Sending.responses_eq {before after : View} {share : Share} {send : Send}
    (sending : Sending before share after send) :
    responses after.conn.log = responses before.conn.log ++ [send.resp] := by
  rw [sending.conn, (sends_sent _ _ _ _).responses, sending.earlier]

/-- A response is appended by a call of `sendHttpOnLoop` alone. -/
theorem sending_or_silent {before after : View} {share : Share}
    (moves : Moves before share after) :
    (∃ send, Sending before share after send) ∨
      responses after.conn.log = responses before.conn.log := by
  cases moves with
  | readNothing reads timerId ready next empty =>
      exact .inr ((listened_heard before.conn timerId reads).quiet (.checked _)).responses
  | read reads timerId ready next more =>
      exact .inr (listened_heard before.conn timerId reads).responses
  | write now writes eloop ready next =>
      exact .inr (Quiet.handleWriteCallBack { conn := before.conn, eloop } now writes).responses
  | tooLong process rest parsing alive parsed =>
      have quiet := (Quiet.shut (before.conn.afterParse process rest .lineTooLong) alive).trans
        (.checked _)
      refine .inr ?_
      rw [quiet.responses]
      simp [afterParse]
  | reject writes process rest parsing alive parsed =>
      exact .inl ⟨_, send?_reject parsing alive parsed, rfl, rfl, by simp, by simp [afterParse],
        .inl ⟨rfl, rfl⟩⟩
  | answer writes process rest parsing alive parsed alone =>
      exact .inl ⟨_, send?_answer parsing alive parsed alone, rfl, rfl, by simp,
        by simp [afterParse], .inr ⟨process.current, rfl, rfl⟩⟩
  | dispatch process rest parsing alive parsed pooled => exact .inr (by simp [afterParse])
  | afterResponse sent => exact .inr (Quiet.checked _).responses
  | afterRejection sent =>
      exact .inr (Quiet.checked { before.conn with httpProcess := fresh }).responses
  | afterBackPost sent => exact .inr (Quiet.checked _).responses
  | expire ready handled => exact .inr (Quiet.died _).responses
  | respond writes reply tasks ready handled next alive =>
      rcases reply.built with ⟨req, built, keepAlive⟩
      exact .inl ⟨_, send?_respond next alive, rfl, rfl, by simp, rfl,
        .inr ⟨req, built.symm, keepAlive.symm⟩⟩
  | stop ready handled => exact .inr (Quiet.stopped _).responses
  | _ => exact .inr rfl

end View

end MiniWebServer
