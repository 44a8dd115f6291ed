import MiniWebServer.SubReactor.Projection

/-!
# What the client gets for what it sends

Without a thread pool a connection is a server that reads a stream and writes
the responses of the plain parse loop, however the stream is cut and however
the socket takes the responses. A client that sends its requests and closes its
side should get all the responses; it does not when the parse loop writes a
response out before the last one, and the drained write ends the connection.
-/

namespace MiniWebServer

open Connection HttpProcess

namespace Share

/-- No fatal error of the socket, no idle expiry and no stop of the reactor. -/
def Undisturbed : Share → Prop
  | .read _ reads => .failed .other ∉ reads
  | .write _ writes | .resume writes | .respond writes => .failed .other ∉ writes
  | .poll _ | .post _ => True
  | .expire | .stop => False

instance (share : Share) : Decidable share.Undisturbed :=
  match share with
  | .read _ reads => inferInstanceAs (Decidable (.failed .other ∉ reads))
  | .write _ writes | .resume writes | .respond writes =>
      inferInstanceAs (Decidable (.failed .other ∉ writes))
  | .poll _ | .post _ => isTrue trivial
  | .expire | .stop => isFalse id

/-- The results of the reads of a read callback. -/
def reads? : Share → Option (List ReadResult)
  | .read _ reads => some reads
  | _ => none

end Share

namespace Connection

theorem readEnd_ne_failed {reads : List ReadResult} (noFailure : .failed .other ∉ reads) :
    readEnd reads ≠ .failed := by
  fun_induction readEnd reads with
  | case1 => simp
  | case2 => simp
  | case3 reads ih => exact ih fun member => noFailure (List.mem_cons_of_mem _ member)
  | case4 => simp at noFailure
  | case5 => simp
  | case6 bytes reads nonempty ih =>
      exact ih fun member => noFailure (List.mem_cons_of_mem _ member)

theorem writeOutcome_ne_fatal {writes : List WriteResult} (noFailure : .failed .other ∉ writes)
    (pending : ℕ) : writeOutcome pending writes ≠ .fatal := by
  fun_induction writeOutcome pending writes with
  | case1 => simp
  | case2 => simp
  | case3 writes ih => exact ih fun member => noFailure (List.mem_cons_of_mem _ member)
  | case4 => simp at noFailure
  | case5 => simp
  | case6 => simp

theorem received_afterParse (conn : Connection) (process : HttpProcess) (rest : Buffer)
    (result : Parsed) :
    received (conn.afterParse process rest result).log = received conn.log := by
  simp [afterParse]

theorem checked_of_not_lingers {conn : Connection} (waits : ¬conn.Lingers) :
    conn.checked = conn :=
  if_neg waits

theorem not_finished_of_connected {conn : Connection} (connected : conn.state = .connected) :
    ¬conn.Finished := by
  rintro ⟨closed, _⟩
  rw [connected] at closed
  cases closed

/-- What was heard ends as the last read did. -/
theorem state_heard (conn : Connection) (timerId : ℤ) {reads : List ReadResult}
    (noFailure : .failed .other ∉ reads) :
    ((conn.refreshed timerId).heard reads).state =
      if readEnd reads = .eof then .peerClose else conn.state := by
  have hears := (hears_spec (conn.refreshed timerId) reads).state
  unfold heard
  cases ended : readEnd reads with
  | again => simpa [readUntil, refreshed] using hears
  | eof => rfl
  | failed => exact absurd ended (readEnd_ne_failed noFailure)

/-- A write without a fatal error either ends a finished connection or leaves
its state, and in that case something to send or to wait for. -/
theorem state_wrote {conn : Connection} {pending : ℕ} {writes : List WriteResult}
    (sizeEq : conn.writeBuffer.readable = pending) (nonempty : pending ≠ 0)
    (noFailure : .failed .other ∉ writes) :
    ((conn.wrote (writeOutcome pending writes)).state = conn.state ∧
        ¬(conn.wrote (writeOutcome pending writes)).Lingers) ∨
      writeOutcome pending writes = .drained ∧ conn.Finished ∧
        (conn.wrote (writeOutcome pending writes)).state = .dead := by
  cases outcome : writeOutcome pending writes with
  | drained =>
      by_cases finished : (conn.flushed.update .disableWriting).Finished
      · refine .inr ⟨rfl, finished, ?_⟩
        rw [wrote, drained, if_pos finished, state_died]
      · refine .inl ?_
        rw [wrote, drained, if_neg finished]
        exact ⟨rfl, fun lingers => finished lingers.1⟩
  | partly count =>
      have more := lt_of_writeOutcome_eq_partly outcome
      have left := readable_bufferToSck conn count
      refine .inl ⟨rfl, fun lingers => ?_⟩
      have empty : (conn.bufferToSck count).writeBuffer.readable = 0 := lingers.2
      omega
  | blocked =>
      refine .inl ⟨rfl, fun lingers => ?_⟩
      have empty : conn.writeBuffer.readable = 0 := lingers.2
      omega
  | fatal => exact absurd outcome (writeOutcome_ne_fatal noFailure pending)

/-- The same for a response that keeps the connection. -/
theorem state_sent_keepAlive (conn : Connection) {resp : List UInt8} (nonempty : resp ≠ [])
    {writes : List WriteResult} (noFailure : .failed .other ∉ writes) :
    ((conn.sent resp true writes).state = conn.state ∧
        ¬(conn.sent resp true writes).Lingers) ∨
      writeOutcome (conn.writeBuffer.readable + resp.length) writes = .drained ∧
        conn.Finished ∧ (conn.sent resp true writes).state = .dead := by
  have positive := List.length_pos_of_ne_nil nonempty
  exact state_wrote (readable_dataIn conn resp) (by omega) noFailure

/-- A write callback without a fatal error either ends a finished connection or
leaves its state. -/
theorem state_handleWriteCallBack (scope : Scope) (now : Timespec) {writes : List WriteResult}
    (noFailure : .failed .other ∉ writes) :
    (scope.handleWriteCallBack now writes).conn.state = scope.conn.state ∨
      scope.conn.Finished ∧ (scope.handleWriteCallBack now writes).conn.state = .dead := by
  unfold Scope.handleWriteCallBack
  split
  · exact .inl rfl
  · simp only
    split
    · exact .inl rfl
    · next pending =>
      refine Scope.writeLoop_rule
        (fun conn => conn.state = scope.conn.state ∧ conn.working = scope.conn.working)
        (fun conn => conn.state = scope.conn.state ∨ scope.conn.Finished ∧ conn.state = .dead)
        ?_ ?_ ?_ ?_ ⟨rfl, rfl⟩ pending
      · exact fun conn count same _ => same
      · rintro conn ⟨stateEq, workingEq⟩
        unfold drained
        split
        · next finished =>
          refine .inr ⟨⟨stateEq.symm.trans finished.1, workingEq.symm.trans finished.2⟩, ?_⟩
          exact state_died _
        · exact .inl stateEq
      · exact fun conn same _ => .inl same.1
      · exact fun member => absurd member noFailure

end Connection

/-- The stream is a list of requests that keep the connection. -/
structure KeepAliveStream (stream : List UInt8) (requests : List HttpRequest) : Prop where
  consumed : consume fresh stream = (requests.map .complete, some (fresh, []))
  keepAlive : ∀ req ∈ requests, req.keepAlive = true

theorem keepAliveStream_of_messages {messages : List (List UInt8 × HttpRequest)}
    (alone : ∀ pair ∈ messages, ParsedAlone pair.1 pair.2 ∧ pair.2.keepAlive = true) :
    KeepAliveStream (messages.map Prod.fst).flatten (messages.map Prod.snd) := by
  have consumed := consume_messages_append (fun pair member => (alone pair member).1) []
  rw [List.append_nil, consume_nil, List.append_nil] at consumed
  refine ⟨by simpa [Function.comp_def] using consumed, ?_⟩
  intro req member
  rcases List.mem_map.mp member with ⟨pair, inside, rfl⟩
  exact (alone pair inside).2

/-- The stream of two requests for the root. -/
def rootTwice : List (List UInt8 × HttpRequest) :=
  let request : HttpRequest :=
    { method := ascii "GET", path := ascii "/", version := ascii "HTTP/1.1" }
  [(ascii "GET / HTTP/1.1\r\n\r\n", request), (ascii "GET / HTTP/1.1\r\n\r\n", request)]

theorem requests_rootTwice :
    ∀ pair ∈ rootTwice, ParsedAlone pair.1 pair.2 ∧ pair.2.keepAlive = true := by
  intro pair member
  simp only [rootTwice, List.mem_cons, List.not_mem_nil, or_false, or_self] at member
  subst member
  exact ⟨parsedAlone_of_run (by decide +kernel), rfl⟩

namespace View

theorem received_moves {before after : View} {share : Share} (moves : Moves before share after) :
    received after.conn.log =
      received before.conn.log ++ (share.reads?.map readBytes).getD [] := by
  cases moves with
  | readNothing reads timerId ready next empty =>
      exact ((listened_heard before.conn timerId reads).quiet (.checked _)).received
  | read reads timerId ready next more => exact (listened_heard before.conn timerId reads).received
  | write now writes eloop ready next =>
      have quiet := Quiet.handleWriteCallBack { conn := before.conn, eloop } now writes
      simpa [Share.reads?] using quiet.received
  | tooLong process rest parsing alive parsed =>
      have quiet := (Quiet.shut (before.conn.afterParse process rest .lineTooLong) alive).trans
        (.checked _)
      simpa [Share.reads?, afterParse] using quiet.received
  | reject writes process rest parsing alive parsed =>
      have sends := sends_sent (before.conn.afterParse process rest .error) build400 false writes
      simpa [Share.reads?, afterParse] using sends.received
  | answer writes process rest parsing alive parsed alone =>
      have sends := sends_sent (before.conn.afterParse fresh rest (.complete process.current))
        (buildResponse process.current) process.current.keepAlive writes
      simpa [Share.reads?, afterParse] using sends.received
  | dispatch process rest parsing alive parsed pooled => simp [Share.reads?, afterParse]
  | afterResponse sent => simpa [Share.reads?] using (Quiet.checked before.conn).received
  | afterRejection sent =>
      simpa [Share.reads?] using (Quiet.checked { before.conn with httpProcess := fresh }).received
  | afterBackPost sent => simpa [Share.reads?] using (Quiet.checked before.conn).received
  | expire ready handled => simpa [Share.reads?] using (Quiet.died before.conn).received
  | respond writes reply tasks ready handled next alive =>
      have sends := sends_sent { before.conn with working := before.conn.working - 1 } reply.resp
        reply.keepAlive writes
      simpa [Share.reads?] using sends.received
  | stop ready handled => simpa [Share.reads?] using (Quiet.stopped before.conn).received
  | _ => simp [Share.reads?]

/-- The connection is served without a pool, and goes on as long as the parser
does not refuse it. -/
structure Serving (stream : List UInt8) (view : View) : Prop where
  alone : view.conn.useThreadPool = false
  heard : received view.conn.log <+: stream
  going : view.conn.state = .connected ∨ view.Refused

/-- An undisturbed run in which the client sends the stream, or a part of it. -/
def KeepsSending (stream : List UInt8) (view : View) (share : Share) : Prop :=
  share.Undisturbed ∧ ∀ reads ∈ share.reads?,
    readEnd reads ≠ .eof ∧ received view.conn.log ++ readBytes reads <+: stream

instance (stream : List UInt8) (view : View) (share : Share) :
    Decidable (view.KeepsSending stream share) :=
  inferInstanceAs (Decidable (share.Undisturbed ∧ ∀ reads ∈ share.reads?,
    readEnd reads ≠ .eof ∧ received view.conn.log ++ readBytes reads <+: stream))

theorem serving_starts {stream : List UInt8} {view : View} (starts : Starts false view) :
    view.Serving stream := by
  cases starts with
  | startConnect self sck process timerId => exact ⟨rfl, List.nil_prefix, .inl rfl⟩

/-- The bytes received so far are a part of the stream. -/
theorem heard_moves {before after : View} {share : Share} {stream : List UInt8}
    (heard : received before.conn.log <+: stream)
    (allowed : ∀ reads ∈ share.reads?,
      received before.conn.log ++ readBytes reads <+: stream)
    (moves : Moves before share after) : received after.conn.log <+: stream := by
  rw [received_moves moves]
  cases reading : share.reads? with
  | none => simpa using heard
  | some reads => exact allowed reads (by simp [reading])

/-- A request taken out of a part of the stream is one of the stream. -/
theorem Live.complete_mem {view : View} (live : view.Live) {process : HttpProcess} {rest : Buffer}
    {stream : List UInt8} (heard : received view.conn.log <+: stream)
    (parsed : view.conn.httpProcess.parse view.conn.readBuffer =
      .ok (.kComplete, process, rest)) :
    .complete process.current ∈ (consume fresh stream).1 := by
  have front := Incremental.Consumer.outputs_prefix_of_prefix consume_resumable fresh heard
  rw [live.consumed_of_parse parsed] at front
  exact front.subset (by simp)

theorem serving_moves {before after : View} {share : Share} {stream : List UInt8}
    (keepAlive : ∀ req, .complete req ∈ (consume fresh stream).1 → req.keepAlive = true)
    (regular : before.Regular) (serving : before.Serving stream)
    (allowed : before.KeepsSending stream share) (moves : Moves before share after) :
    after.Serving stream := by
  rcases allowed with ⟨undisturbed, reading⟩
  refine ⟨?_, heard_moves serving.heard (fun reads member => (reading reads member).2) moves, ?_⟩
  · exact (congrArg Wiring.useThreadPool (wiring_moves moves)).trans serving.alone
  have refusedAfter : before.Refused → after.Refused := fun refused =>
    refused_moves regular.wired refused moves
  rcases serving.going with connected | refused
  case inr => exact .inr (refusedAfter refused)
  rcases regular.counted.alone serving.alone with ⟨noTask, _, _⟩
  have unchecked : before.conn.checked = before.conn :=
    checked_of_not_lingers fun lingers => not_finished_of_connected connected lingers.1
  cases moves with
  | poll revents ready handled reported => exact .inl connected
  | readNothing reads timerId ready next empty =>
      have stays := state_heard before.conn timerId undisturbed
      rw [if_neg (reading reads rfl).1, connected] at stays
      rw [checked_of_not_lingers fun lingers => not_finished_of_connected stays lingers.1]
      exact .inl stays
  | read reads timerId ready next more =>
      have stays := state_heard before.conn timerId undisturbed
      rw [if_neg (reading reads rfl).1, connected] at stays
      exact .inl stays
  | write now writes eloop ready next =>
      have written := state_handleWriteCallBack { conn := before.conn, eloop } now undisturbed
      rcases written with same | ⟨finished, _⟩
      · exact .inl (same.trans connected)
      · exact absurd finished (not_finished_of_connected connected)
  | leave parsing dead => exact .inl connected
  | needMore process rest parsing alive parsed => exact .inl connected
  | tooLong process rest parsing alive parsed =>
      exact .inr (refused_tooLong (regular.parses.of_parsing parsing) alive parsed)
  | reject writes process rest parsing alive parsed =>
      exact .inr (refused_reject (regular.parses.of_parsing parsing) parsed writes)
  | answer writes process rest parsing alive parsed alone =>
      have live := regular.parses.of_parsing parsing
      rw [keepAlive _ (live.complete_mem serving.heard parsed)]
      have sent := state_sent_keepAlive
        (before.conn.afterParse fresh rest (.complete process.current))
        (buildResponse_ne_nil process.current) undisturbed
      rcases sent with ⟨same, _⟩ | ⟨_, finished, _⟩
      · exact .inl (same.trans connected)
      · exact absurd finished (not_finished_of_connected connected)
  | dispatch process rest parsing alive parsed pooled =>
      exact absurd (pooled.symm.trans serving.alone) Bool.noConfusion
  | raise parsing alive raised => exact .inl connected
  | afterResponse sent =>
      rw [unchecked]
      exact .inl connected
  | afterRejection sent =>
      cases regular.parses with
      | live live => exact absurd sent live.accepting
      | refused refused => exact .inr (refusedAfter refused)
  | afterBackPost sent =>
      rw [unchecked]
      exact .inl connected
  | expire ready handled => exact undisturbed.elim
  | post job running => exact .inl connected
  | skip reply tasks ready handled next dead => exact absurd (next.symm.trans noTask) (by simp)
  | respond writes reply tasks ready handled next alive =>
      exact absurd (next.symm.trans noTask) (by simp)
  | stop ready handled => exact undisturbed.elim

end View

/-- The plain server: it parses all it has received at once, and writes the
responses of what it finds up to the first message that it rejects. -/
def oneShot (bytes : List UInt8) : List UInt8 :=
  ((feed [bytes]).1.flatMap answers).flatten

theorem feed_singleton_eq_consume (bytes : List UInt8) :
    (feed [bytes]).1 = (consume fresh bytes).1 := by
  have fed := congrArg Prod.fst (onBytes_feed [bytes])
  rwa [List.flatten_singleton] at fed

namespace View

/-- At the event loop a served connection has answered all that it has received. -/
theorem Serving.sent_eq_oneShot {view : View} {stream : List UInt8}
    (serving : view.Serving stream) (regular : view.Regular) (returned : view.frame = none) :
    accepted view.conn.log ++ view.conn.writeBuffer.peek = oneShot (received view.conn.log) := by
  have all : (consume fresh (received view.conn.log)).1 = results view.conn.log := by
    rcases serving.going with connected | refused
    · cases regular.parses with
      | live live =>
          rw [live.consumed_of_settled (by simp [returned]) (by simp [returned])
            (by simp [connected])]
      | refused refused => rw [refused.consumed]
    · rw [refused.consumed]
  rw [regular.conserved, (regular.counted.alone serving.alone).2.2, oneShot,
    feed_singleton_eq_consume, all]

end View

namespace SubReactor

/-- Without a thread pool a connection that the client keeps open, and on which
it asks for no close, is the plain server: whenever it is back at the event
loop, what the socket has accepted and what waits in the write buffer are the
output of the plain server on what was received. -/
theorem sent_eq_oneShot_of_keepsSending {c : ConnId} {workers : ℕ} {s : SubReactor}
    {view : View} {stream : List UInt8}
    (keepAlive : ∀ req, .complete req ∈ (feed [stream]).1 → req.keepAlive = true)
    (reaches : ReachableWith (View.KeepsSending stream) c false workers s)
    (shown : s.view c = some view) (returned : view.frame = none) :
    received view.conn.log <+: stream ∧
      accepted view.conn.log ++ view.conn.writeBuffer.peek =
        oneShot (received view.conn.log) := by
  rw [feed_singleton_eq_consume] at keepAlive
  have serving : view.Serving stream :=
    regular_view_invariant (View.Serving stream) (fun _ => View.serving_starts)
      (fun regular serving allowed moves =>
        View.serving_moves keepAlive regular serving allowed moves) reaches shown
  exact ⟨serving.heard,
    serving.sent_eq_oneShot (regular_of_reachable reaches.reachable shown) returned⟩

/-- A request and a half arrive; the socket takes ten bytes of the response. -/
theorem sent_eq_oneShot_of_keepsSending_partial :
    ∃ (s : SubReactor) (view : View),
      ReachableWith (View.KeepsSending (rootTwice.map Prod.fst).flatten) 0 false 0 s ∧
      s.view 0 = some view ∧ (accepted view.conn.log).length = 10 ∧
      accepted view.conn.log ++ view.conn.writeBuffer.peek =
        oneShot (received view.conn.log) := by
  rcases exists_of_run (View.KeepsSending (rootTwice.map Prod.fst).flatten) 0 false 0
    (connecting false ++
      reading [.delivered ((rootTwice.map Prod.fst).flatten.take 27)] ++
      [.resume [.accepted 10 (Nat.succ_pos 9)], .resume [], .resume []])
    (fun view => (view.frame, (accepted view.conn.log).length)) (none, 10)
    (by decide +kernel) with ⟨s, view, reaches, shown, looked⟩
  rw [Prod.mk.injEq] at looked
  refine ⟨s, view, reaches, shown, looked.2,
    (sent_eq_oneShot_of_keepsSending ?_ reaches shown looked.1).2⟩
  intro req member
  have serves := keepAliveStream_of_messages requests_rootTwice
  rw [feed_singleton_eq_consume, serves.consumed, List.mem_map] at member
  rcases member with ⟨other, inside, same⟩
  exact Parsed.complete.inj same ▸ serves.keepAlive other inside

end SubReactor

namespace View

/-- An undisturbed run in which the client sends the stream and closes its side. -/
def HalfCloses (stream : List UInt8) (view : View) (share : Share) : Prop :=
  share.Undisturbed ∧ ∀ reads ∈ share.reads?,
    received view.conn.log ++ readBytes reads <+: stream ∧
      (readEnd reads = .eof → received view.conn.log ++ readBytes reads = stream)

instance (stream : List UInt8) (view : View) (share : Share) :
    Decidable (view.HalfCloses stream share) :=
  inferInstanceAs (Decidable (share.Undisturbed ∧ ∀ reads ∈ share.reads?,
    received view.conn.log ++ readBytes reads <+: stream ∧
      (readEnd reads = .eof → received view.conn.log ++ readBytes reads = stream)))

/-- A response of the parse loop whose write ends the connection is the last one. -/
def EndsWithLast (view : View) (share : Share) : Prop :=
  ∀ send ∈ view.send? share, send.frame = .afterResponse → send.conn.Finished →
    send.outcome = .drained → send.conn.readBuffer.readable = 0

instance (view : View) (share : Share) : Decidable (view.EndsWithLast share) :=
  inferInstanceAs (Decidable (∀ send ∈ view.send? share, send.frame = .afterResponse →
    send.conn.Finished → send.outcome = .drained → send.conn.readBuffer.readable = 0))

/-- A client that has sent `count` requests and closed gets as many responses
before its connection dies, and until then misses those that workers still have. -/
structure AllAnswered (count : ℕ) (view : View) : Prop where
  atMost : (responses view.conn.log).length ≤ count
  dead : view.conn.state = .dead → (responses view.conn.log).length = count
  closed : view.conn.state = .peerClose → view.frame = none →
    ((responses view.conn.log).length : ℤ) + view.conn.working = count

/-- What holds while a half-closing client is served. -/
structure Delivering (stream : List UInt8) (count : ℕ) (view : View) : Prop where
  heard : received view.conn.log <+: stream
  closed : view.conn.state = .peerClose → received view.conn.log = stream
  busy : view.frame = some .afterResponse ∨ view.frame = some .afterBackPost →
    ¬view.conn.Lingers
  queued : (∀ job ∈ view.pool, job.req.keepAlive = true) ∧
    ∀ reply ∈ view.tasks, reply.keepAlive = true
  done : view.conn.state = .dead →
    (responses view.conn.log).length = count ∧ view.conn.working = 0

theorem delivering_starts {mode : Bool} {stream : List UInt8} {count : ℕ} {view : View}
    (starts : Starts mode view) : view.Delivering stream count := by
  cases starts with
  | startConnect self sck process timerId =>
      exact ⟨List.nil_prefix, by simp, by simp, ⟨by simp, by simp⟩, by simp⟩

/-- The end of the stream was read when the connection is closed. -/
theorem received_of_heard_closed {view : View} {stream : List UInt8} {count : ℕ}
    (delivering : view.Delivering stream count) {reads : List ReadResult}
    (noFailure : .failed .other ∉ reads)
    (reading : ∀ others ∈ some reads,
      received view.conn.log ++ readBytes others <+: stream ∧
        (readEnd others = .eof → received view.conn.log ++ readBytes others = stream))
    (timerId : ℤ) (closed : ((view.conn.refreshed timerId).heard reads).state = .peerClose) :
    received ((view.conn.refreshed timerId).heard reads).log = stream := by
  rw [(listened_heard view.conn timerId reads).received]
  rcases reading reads rfl with ⟨front, atEnd⟩
  by_cases ended : readEnd reads = .eof
  · exact atEnd ended
  · rw [state_heard view.conn timerId noFailure, if_neg ended] at closed
    rw [delivering.closed closed] at front ⊢
    exact front.eq_of_length_le (by simp)

section Requests

variable {stream : List UInt8} {requests : List HttpRequest}
  (serves : KeepAliveStream stream requests)

include serves

/-- The parser refuses no part of the stream. -/
theorem not_stopped {bytes : List UInt8} (heard : bytes <+: stream) :
    (consume fresh bytes).2 ≠ none := by
  intro stopped
  have whole := Incremental.Consumer.eq_of_stopped_of_prefix consume_resumable heard stopped
  rw [serves.consumed] at whole
  rw [← whole] at stopped
  cases stopped

theorem live_of_heard {view : View} (parses : view.Parses)
    (heard : received view.conn.log <+: stream) : view.Live := by
  cases parses with
  | live live => exact live
  | refused refused => exact absurd (by rw [refused.consumed]) (not_stopped serves heard)

/-- No message of the stream is rejected. -/
theorem not_rejected {view : View} {result : ParseResult} {process : HttpProcess} {rest : Buffer}
    (live : view.Live) (heard : received view.conn.log <+: stream)
    (rejected : result = .kError ∨ result = .kLineTooLong)
    (parsed : view.conn.httpProcess.parse view.conn.readBuffer = .ok (result, process, rest)) :
    False := by
  have consumed := live.consumed_of_parse parsed
  apply not_stopped serves heard
  rcases rejected with rfl | rfl <;> rw [consumed]

theorem keepAlive_of_parsed {view : View} {process : HttpProcess} {rest : Buffer}
    (live : view.Live) (heard : received view.conn.log <+: stream)
    (parsed : view.conn.httpProcess.parse view.conn.readBuffer =
      .ok (.kComplete, process, rest)) : process.current.keepAlive = true := by
  have member := live.complete_mem heard parsed
  rw [serves.consumed, List.mem_map] at member
  rcases member with ⟨req, inside, same⟩
  exact Parsed.complete.inj same ▸ serves.keepAlive req inside

theorem results_within {view : View} (live : view.Live)
    (heard : received view.conn.log <+: stream) :
    results view.conn.log <+: requests.map .complete := by
  have front := Incremental.Consumer.outputs_prefix_of_prefix consume_resumable fresh heard
  rw [serves.consumed, live.consumed] at front
  exact (List.prefix_append _ _).trans front

/-- Once all is received and parsed, each request is answered or still to be answered. -/
theorem answered_of_exhausted {view : View} (live : view.Live)
    (all : received view.conn.log = stream)
    (exhausted : (consume view.conn.httpProcess view.conn.readBuffer.peek).1 = [])
    (tallied : Tallied view.conn) :
    ((responses view.conn.log).length : ℤ) + view.conn.working = requests.length := by
  have resultsEq : requests.map .complete = results view.conn.log := by
    have whole := congrArg Prod.fst live.consumed
    rwa [all, serves.consumed, exhausted, List.append_nil] at whole
  rw [Tallied, ← resultsEq, List.length_map] at tallied
  exact tallied.symm

/-- A connection that dies behind the stream has nothing left to answer. -/
theorem done_of_exhausted {view : View} (live : view.Live) (all : received view.conn.log = stream)
    (exhausted : (consume view.conn.httpProcess view.conn.readBuffer.peek).1 = [])
    (tallied : Tallied view.conn) (idle : view.conn.working = 0) :
    (responses view.conn.log).length = requests.length ∧ view.conn.working = 0 := by
  have answered := answered_of_exhausted serves live all exhausted tallied
  exact ⟨by omega, idle⟩

theorem tallied_of_heard {view : View} (regular : view.Regular)
    (heard : received view.conn.log <+: stream) (alive : view.conn.state ≠ .dead) :
    Tallied view.conn := by
  apply regular.numbered alive
  intro refused
  apply not_stopped serves heard
  rw [refused.consumed]

/-- A response that keeps the connection alive, of the parse loop or of a worker. The
connection dies with it when it was the last one of a client that has closed. -/
theorem delivering_of_sent {view : View} {conn : Connection} {resp : List UInt8}
    {writes : List WriteResult} (sent : view.conn = conn.sent resp true writes)
    (nonempty : resp ≠ []) (noFailure : .failed .other ∉ writes) (live : view.Live)
    (heard : received view.conn.log <+: stream) (tallied : Tallied view.conn)
    (alive : conn.state ≠ .dead) (closed : conn.state = .peerClose → received conn.log = stream)
    (exhausted : writeOutcome (conn.writeBuffer.readable + resp.length) writes = .drained →
      conn.Finished → (consume conn.httpProcess conn.readBuffer.peek).1 = [])
    (queued : (∀ job ∈ view.pool, job.req.keepAlive = true) ∧
      ∀ reply ∈ view.tasks, reply.keepAlive = true) :
    view.Delivering stream requests.length := by
  have sends : conn.Sends view.conn resp := by
    rw [sent]
    exact sends_sent conn resp true writes
  have outcome := state_sent_keepAlive conn nonempty noFailure
  rw [← sent] at outcome
  rcases outcome with ⟨same, waits⟩ | ⟨drained, finished, dead⟩
  · refine ⟨heard, fun closedAfter => ?_, fun _ => waits, queued, fun dead => ?_⟩
    · exact sends.received.trans (closed (same.symm.trans closedAfter))
    · exact absurd (same.symm.trans dead) alive
  · have all := sends.received.trans (closed finished.1)
    have empty : (consume view.conn.httpProcess view.conn.readBuffer.peek).1 = [] := by
      rw [sends.httpProcess, sends.readBuffer]
      exact exhausted drained finished
    have done := done_of_exhausted serves live all empty tallied (sends.working.trans finished.2)
    exact ⟨heard, fun _ => all, fun _ => not_lingers_of_dead dead, queued, fun _ => done⟩

theorem delivering_moves {before after : View} {share : Share} (regular : before.Regular)
    (delivering : before.Delivering stream requests.length)
    (allowed : before.HalfCloses stream share ∧ before.EndsWithLast share)
    (moves : Moves before share after) : after.Delivering stream requests.length := by
  rcases allowed with ⟨⟨undisturbed, reading⟩, last⟩
  have heard := heard_moves delivering.heard (fun reads member => (reading reads member).1) moves
  have liveAfter := live_of_heard serves (regular_moves regular moves).parses heard
  have live := live_of_heard serves regular.parses delivering.heard
  have queued := delivering.queued
  have tallied := tallied_of_heard serves regular delivering.heard
  have settled : before.frame = none ∨ before.frame = some .afterBackPost →
      before.conn.state ≠ .dead →
      (consume before.conn.httpProcess before.conn.readBuffer.peek).1 = [] := fun outside alive => by
    rw [live.settled (by rcases outside with frame | frame <;> simp [frame])
      (by rcases outside with frame | frame <;> simp [frame]) alive]
  have ends := done_of_exhausted serves liveAfter
  cases moves with
  | poll revents ready handled reported =>
      exact ⟨heard, delivering.closed, delivering.busy, queued, delivering.done⟩
  | readNothing reads timerId ready next empty =>
      have alive := (regular.wired.reading (by simp [next])).2.1
      have listened := listened_heard before.conn timerId reads
      have all := received_of_heard_closed delivering undisturbed reading timerId
      have noBytes :
          ((before.conn.refreshed timerId).heard reads).checked.readBuffer.readable = 0 := by
        rw [(Quiet.checked _).readBuffer]
        exact empty
      by_cases lingers : ((before.conn.refreshed timerId).heard reads).Lingers
      · have quiet := Quiet.checked ((before.conn.refreshed timerId).heard reads)
        have dead : ((before.conn.refreshed timerId).heard reads).checked.state = .dead := by
          rw [checked, if_pos lingers, state_died]
        refine ⟨heard, fun closed => ?_, by simp [ready], queued, fun _ => ends ?_ ?_ ?_ ?_⟩
        · exact quiet.received.trans (all lingers.1.1)
        · exact quiet.received.trans (all lingers.1.1)
        · rw [consume_of_readable_eq_zero noBytes]
        · exact ((tallied alive).keepListened listened).keepQuiet quiet
        · exact quiet.working.trans lingers.1.2
      · have same := checked_of_not_lingers lingers
        have stateEq := state_heard before.conn timerId undisturbed
        refine ⟨heard, ?_, by simp [ready], queued, ?_⟩
        · rw [same]
          exact all
        · rw [same, stateEq]
          intro dead
          split at dead
          · cases dead
          · exact absurd dead alive
  | read reads timerId ready next more =>
      have alive := (regular.wired.reading (by simp [next])).2.1
      have all := received_of_heard_closed delivering undisturbed reading timerId
      have stateEq := state_heard before.conn timerId undisturbed
      refine ⟨heard, all, by simp, queued, ?_⟩
      rw [stateEq]
      intro dead
      split at dead
      · cases dead
      · exact absurd dead alive
  | write now writes eloop ready next =>
      have quiet := Quiet.handleWriteCallBack { conn := before.conn, eloop } now writes
      have written := state_handleWriteCallBack { conn := before.conn, eloop } now undisturbed
      rcases written with same | ⟨finished, dead⟩
      · refine ⟨heard, fun closed => ?_, by simp [ready], queued, fun dead => ?_⟩
        · exact quiet.received.trans (delivering.closed (same.symm.trans closed))
        · rw [quiet.responses, quiet.working]
          exact delivering.done (same.symm.trans dead)
      · have alive : before.conn.state ≠ .dead := finished.alive
        have all := quiet.received.trans (delivering.closed finished.1)
        refine ⟨heard, fun _ => all, by simp [ready], queued, fun _ => ends all ?_ ?_ ?_⟩
        · rw [quiet.httpProcess, quiet.readBuffer]
          exact settled (.inl ready) alive
        · exact (tallied alive).keepQuiet quiet
        · exact quiet.working.trans finished.2
  | leave parsing dead =>
      exact ⟨heard, delivering.closed, by simp, queued, delivering.done⟩
  | needMore process rest parsing alive parsed =>
      exact ⟨heard, delivering.closed, by simp, queued, delivering.done⟩
  | tooLong process rest parsing alive parsed =>
      exact (not_rejected serves live delivering.heard (.inr rfl) parsed).elim
  | reject writes process rest parsing alive parsed =>
      exact (not_rejected serves live delivering.heard (.inl rfl) parsed).elim
  | answer writes process rest parsing alive parsed alone =>
      have keepAlive := keepAlive_of_parsed serves live delivering.heard parsed
      rw [keepAlive] at heard liveAfter ⊢
      refine delivering_of_sent serves rfl (buildResponse_ne_nil _) undisturbed liveAfter heard
        ?_ alive ?_ ?_ queued
      · exact (tallied alive).answer fresh rest process.current _ true writes
      · exact fun closed =>
          (received_afterParse before.conn fresh rest _).trans (delivering.closed closed)
      · intro drained finished
        have noBytes := last _ (send?_answer parsing alive parsed alone) rfl finished drained
        exact congrArg Prod.fst (consume_of_readable_eq_zero noBytes)
  | dispatch process rest parsing alive parsed pooled =>
      refine ⟨heard, fun closed => ?_, by simp [parsing], ⟨fun job member => ?_, queued.2⟩,
        fun dead => absurd dead alive⟩
      · exact (received_afterParse before.conn fresh rest _).trans (delivering.closed closed)
      · rcases Multiset.mem_cons.mp member with rfl | earlier
        · exact keepAlive_of_parsed serves live delivering.heard parsed
        · exact queued.1 job earlier
  | raise parsing alive raised => exact delivering
  | afterResponse sent =>
      rw [checked_of_not_lingers (delivering.busy (.inl sent))] at heard ⊢
      exact ⟨heard, delivering.closed, by simp, queued, delivering.done⟩
  | afterRejection sent => exact absurd sent live.accepting
  | afterBackPost sent =>
      rw [checked_of_not_lingers (delivering.busy (.inr sent))] at heard ⊢
      exact ⟨heard, delivering.closed, by simp, queued, delivering.done⟩
  | expire ready handled => exact undisturbed.elim
  | post job running =>
      refine ⟨heard, delivering.closed, delivering.busy, ⟨fun other member => ?_,
        fun reply member => ?_⟩, delivering.done⟩
      · exact queued.1 other (Multiset.mem_of_mem_erase member)
      · rcases List.mem_append.mp member with earlier | posted
        · exact queued.2 reply earlier
        · rw [List.mem_singleton.mp posted]
          exact queued.1 job running
  | skip reply tasks ready handled next dead =>
      have working := regular.counted.working
      rw [(delivering.done dead).2, next, List.length_cons] at working
      omega
  | respond writes reply tasks ready handled next alive =>
      have keepAlive : reply.keepAlive = true := queued.2 reply (by simp [next])
      rw [keepAlive] at heard liveAfter ⊢
      have queuedAfter : ∀ other ∈ tasks, other.keepAlive = true := fun other member =>
        queued.2 other (by simp [next, member])
      exact delivering_of_sent serves rfl reply.resp_ne_nil undisturbed liveAfter heard
        ((tallied alive).respond reply.resp true writes) alive delivering.closed
        (fun _ _ => settled (.inl ready) alive) ⟨queued.1, queuedAfter⟩
  | stop ready handled => exact undisturbed.elim

theorem Delivering.allAnswered {view : View}
    (delivering : view.Delivering stream requests.length) (regular : view.Regular) :
    view.AllAnswered requests.length := by
  have live := live_of_heard serves regular.parses delivering.heard
  have tallied := tallied_of_heard serves regular delivering.heard
  refine ⟨?_, fun dead => (delivering.done dead).1, fun closed returned => ?_⟩
  · by_cases dead : view.conn.state = .dead
    · exact (delivering.done dead).1.le
    · have count := tallied dead
      have working := regular.counted.working
      have few := (results_within serves live delivering.heard).length_le
      rw [List.length_map] at few
      rw [Tallied] at count
      omega
  · have alive : view.conn.state ≠ .dead := by simp [closed]
    have settled := live.settled (by simp [returned]) (by simp [returned]) alive
    exact answered_of_exhausted serves live (delivering.closed closed) (by rw [settled])
      (tallied alive)

end Requests

end View

namespace SubReactor

/-- A half-close loses no request in the runs in which the parse loop writes no
response out before the last one on a connection that the client has closed. -/
theorem allAnswered_of_endsWithLast {c : ConnId} {mode : Bool} {workers : ℕ} {s : SubReactor}
    {view : View} {messages : List (List UInt8 × HttpRequest)}
    (requests : ∀ pair ∈ messages, ParsedAlone pair.1 pair.2 ∧ pair.2.keepAlive = true)
    (reaches : ReachableWith
      (fun view share => view.HalfCloses (messages.map Prod.fst).flatten share ∧
        view.EndsWithLast share) c mode workers s)
    (shown : s.view c = some view) : view.AllAnswered messages.length := by
  have serves := keepAliveStream_of_messages requests
  have delivering :
      view.Delivering (messages.map Prod.fst).flatten (messages.map Prod.snd).length :=
    regular_view_invariant
      (View.Delivering (messages.map Prod.fst).flatten (messages.map Prod.snd).length)
      (fun _ => View.delivering_starts)
      (fun regular delivering allowed moves =>
        View.delivering_moves serves regular delivering allowed moves) reaches shown
  have answered :=
    delivering.allAnswered serves (regular_of_reachable reaches.reachable shown)
  rwa [List.length_map] at answered

/-- Both responses wait until the socket is writable again, and it takes them together. -/
theorem allAnswered_of_endsWithLast_blocked :
    ∃ (s : SubReactor) (view : View), s.view 0 = some view ∧ view.conn.state = .dead ∧
      (responses view.conn.log).length = 2 ∧ view.AllAnswered rootTwice.length := by
  rcases exists_of_run
    (fun view share => view.HalfCloses (rootTwice.map Prod.fst).flatten share ∧
      view.EndsWithLast share) 0 false 0
    (connecting false ++
      reading [.delivered (rootTwice.map Prod.fst).flatten, .delivered []] ++
      [.resume [], .resume [], .resume [], .resume [], .resume [], .drain, .endLoop,
        .poll [(0, { epollOut := true })] false, .handle clock [] acceptAll])
    (fun view => (view.conn.state, (responses view.conn.log).length)) (.dead, 2)
    (by decide +kernel) with ⟨s, view, reaches, shown, looked⟩
  rw [Prod.mk.injEq] at looked
  exact ⟨s, view, shown, looked.1, looked.2,
    allAnswered_of_endsWithLast requests_rootTwice reaches shown⟩

/-- Both requests and the end of the stream are read at once, and the write of
the first response ends the connection. -/
theorem not_allAnswered_of_drained_first :
    ¬∀ (c : ConnId) (mode : Bool) (workers : ℕ) (s : SubReactor) (view : View)
      (messages : List (List UInt8 × HttpRequest)),
      (∀ pair ∈ messages, ParsedAlone pair.1 pair.2 ∧ pair.2.keepAlive = true) →
      ReachableWith (View.HalfCloses (messages.map Prod.fst).flatten) c mode workers s →
      s.view c = some view → view.AllAnswered messages.length := by
  intro always
  rcases exists_of_run (View.HalfCloses (rootTwice.map Prod.fst).flatten) 0 false 0
    (connecting false ++
      reading [.delivered (rootTwice.map Prod.fst).flatten, .delivered []] ++
      [.resume acceptAll])
    (fun view => (view.conn.state, (responses view.conn.log).length)) (.dead, 1)
    (by decide +kernel) with ⟨s, view, reaches, shown, looked⟩
  rw [Prod.mk.injEq] at looked
  have answered :=
    (always 0 false 0 s view rootTwice requests_rootTwice reaches shown).dead looked.1
  rw [looked.2] at answered
  exact absurd answered (by decide)

end SubReactor

end MiniWebServer
