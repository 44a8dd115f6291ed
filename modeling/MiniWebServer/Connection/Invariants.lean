import MiniWebServer.Connection.History

/-!
# What holds of every connection in every run

Five facts need no assumption on the run. A dead connection is out of epoll and
is not read from (`Wired`). The bytes of the responses are those that the socket
accepted and those still in the write buffer (`Conserved`). The parser is where
the received bytes have brought it (`Parses`). `working` counts the requests
that are still to be answered (`Counted`), and while the connection lives these
are all that miss a response (`Numbered`).
-/

namespace MiniWebServer

open HttpProcess

namespace Connection

/-- A dead connection is out of epoll, and epoll knows the events of the others. -/
structure Sound (conn : Connection) : Prop where
  removed : conn.state = .dead → conn.channel.inEpoll = false
  interest : conn.channel.inEpoll = true → conn.channel.interest = conn.channel.events

namespace Sound

theorem keep {conn other : Connection} (sound : Sound conn) (state : other.state = conn.state)
    (channel : other.channel = conn.channel) : Sound other := by
  refine ⟨fun dead => ?_, ?_⟩
  · rw [channel]
    exact sound.removed (state.symm.trans dead)
  · rw [channel]
    exact sound.interest

theorem ofUpdate {conn : Connection} {change : Channel → Channel} {state : ConnState}
    (alive : state ≠ .dead)
    (updated : (change conn.channel).interest = (change conn.channel).events) :
    Sound { conn.update change with state := state } :=
  ⟨fun dead => absurd dead alive, fun _ => updated⟩

theorem update {conn : Connection} {change : Channel → Channel} (alive : conn.state ≠ .dead)
    (updated : (change conn.channel).interest = (change conn.channel).events) :
    Sound (conn.update change) :=
  ofUpdate alive updated

theorem died {conn : Connection} (sound : Sound conn) : Sound conn.died := by
  by_cases dead : conn.state = .dead
  · rwa [died_of_dead dead]
  · rw [died_of_ne_dead dead]
    exact ⟨fun _ => Channel.inEpoll_remove _, fun inEpoll => by simp at inEpoll⟩

theorem stopped {conn : Connection} (sound : Sound conn) : Sound conn.stopped := by
  unfold Connection.stopped
  split
  · exact sound
  · exact ⟨fun _ => Channel.inEpoll_remove _, fun inEpoll => by simp at inEpoll⟩

theorem checked {conn : Connection} (sound : Sound conn) : Sound conn.checked := by
  unfold Connection.checked
  split
  · exact sound.died
  · exact sound

theorem drained {conn : Connection} (alive : conn.state ≠ .dead) : Sound conn.drained := by
  have updated : Sound (conn.update .disableWriting) := update alive rfl
  unfold Connection.drained
  split
  · exact updated.died
  · exact updated

theorem wrote {conn : Connection} (sound : Sound conn) (alive : conn.state ≠ .dead)
    (outcome : WriteOutcome) : Sound (conn.wrote outcome) := by
  cases outcome with
  | drained => exact drained alive
  | partly count => exact update alive rfl
  | blocked => exact update alive rfl
  | fatal => exact sound.died

theorem sent {conn : Connection} (sound : Sound conn) (alive : conn.state ≠ .dead)
    (resp : List UInt8) (keepAlive : Bool) (writes : List WriteResult) :
    Sound (conn.sent resp keepAlive writes) := by
  have appended : Sound (conn.dataIn resp) := sound.keep rfl rfl
  unfold Connection.sent
  cases keepAlive with
  | true => exact appended.wrote alive _
  | false => exact ofUpdate (by simp) rfl

theorem heard {conn : Connection} (sound : Sound conn)
    (timerId : ℤ) (reads : List ReadResult) :
    Sound ((conn.refreshed timerId).heard reads) := by
  have hears := hears_spec (conn.refreshed timerId) reads
  have still : Sound ((conn.refreshed timerId).hears reads) :=
    sound.keep hears.state hears.channel
  unfold Connection.heard
  cases readEnd reads with
  | again => exact still
  | eof => exact ⟨fun dead => (nomatch dead), still.interest⟩
  | failed => exact still.died

theorem handleWriteCallBack {scope : Scope} (sound : Sound scope.conn) (now : Timespec)
    (writes : List WriteResult) : Sound (scope.handleWriteCallBack now writes).conn := by
  unfold Scope.handleWriteCallBack
  split
  · exact sound
  · next alive =>
    have refreshed : Sound (scope.refreshTimer now).conn ∧
        (scope.refreshTimer now).conn.state ≠ .dead :=
      ⟨sound.keep rfl rfl, alive⟩
    simp only
    split
    · exact update alive rfl
    · next pending =>
      refine Scope.writeLoop_rule (fun conn => Sound conn ∧ conn.state ≠ .dead) Sound
        ?_ ?_ ?_ ?_ refreshed pending
      · exact fun conn count known _ => ⟨known.1.keep rfl rfl, known.2⟩
      · exact fun conn known => drained known.2
      · exact fun conn known _ => known.1
      · exact fun _ conn known => known.1.died

end Sound

/-- The responses that a result of the parser calls for. -/
def answers : Parsed → List (List UInt8)
  | .complete req => [buildResponse req]
  | .error => [build400]
  | .lineTooLong => []
  | .raised _ => []

/-- The accepted and the waiting bytes are those of the responses. -/
def Balanced (conn : Connection) : Prop :=
  accepted conn.log ++ conn.writeBuffer.peek = (responses conn.log).flatten

namespace Balanced

theorem quiet {before after : Connection} (balanced : before.Balanced)
    (quiet : before.Quiet after) : after.Balanced := by
  rw [Balanced, quiet.bytes, quiet.responses]
  exact balanced

theorem sends {before after : Connection} {resp : List UInt8} (balanced : before.Balanced)
    (sends : before.Sends after resp) : after.Balanced := by
  rw [Balanced] at balanced ⊢
  rw [sends.bytes, sends.responses, List.flatten_append, List.flatten_singleton, balanced]

theorem listened {before after : Connection} {bytes : List UInt8} (balanced : before.Balanced)
    (listened : before.Listened after bytes) : after.Balanced := by
  rw [Balanced, listened.bytes, listened.responses]
  exact balanced

theorem afterParse {conn : Connection} (balanced : conn.Balanced) (process : HttpProcess)
    (rest : Buffer) (result : Parsed) : (conn.afterParse process rest result).Balanced := by
  simpa [Balanced, Connection.afterParse] using balanced

end Balanced

end Connection

open Connection

namespace View

/-- A callback that reads comes first, and finds a connection that may be read from. -/
structure Wired (view : View) : Prop where
  sound : view.conn.Sound
  readOnce : .readCallBack ∉ view.pending.tail
  reading : view.pending.head? = some .readCallBack →
    view.frame = none ∧ view.conn.state ≠ .dead ∧ view.conn.channel.events.epollIn = true

theorem Wired.of_pending_eq_nil {view : View} (sound : view.conn.Sound)
    (handled : view.pending = []) : view.Wired :=
  ⟨sound, by simp [handled], by simp [handled]⟩

/-- No callback reads while the loop thread is in the code of the connection. -/
theorem Wired.not_reading {view : View} (wired : view.Wired) (busy : view.frame ≠ none) :
    .readCallBack ∉ view.pending := by
  intro member
  cases pendingEq : view.pending with
  | nil => simp [pendingEq] at member
  | cons first rest =>
      rw [pendingEq] at member
      rcases List.mem_cons.mp member with rfl | later
      · exact busy (wired.reading (by simp [pendingEq])).1
      · exact wired.readOnce (by simpa [pendingEq] using later)

/-- A step in the code of the connection keeps it wired. -/
theorem Wired.resume {view : View} (wired : view.Wired) (busy : view.frame ≠ none)
    {conn : Connection} (sound : conn.Sound) (frame : Option Frame) (pool : Multiset Job) :
    Wired { view with conn := conn, frame := frame, pool := pool } := by
  refine ⟨sound, wired.readOnce, ?_⟩
  intro first
  exact absurd (List.mem_of_mem_head? first) (wired.not_reading busy)

theorem wired_starts {mode : Bool} {view : View} (starts : Starts mode view) : view.Wired := by
  cases starts with
  | startConnect self sck process timerId =>
      exact .of_pending_eq_nil ⟨fun dead => (nomatch dead), fun _ => rfl⟩ rfl

theorem wired_moves {before after : View} {share : Share} (wired : before.Wired)
    (moves : Moves before share after) : after.Wired := by
  have sound := wired.sound
  cases moves with
  | poll revents ready handled reported =>
      rcases reported with ⟨inEpoll, readable, _⟩
      refine ⟨sound, ?_, ?_⟩
      · rcases revents with ⟨_ | _, _ | _, _⟩ <;> simp [Events.handle]
      · intro first
        have reads : revents.epollIn = true := by
          rcases revents with ⟨_ | _, _ | _, _⟩ <;> simp_all [Events.handle]
        refine ⟨ready, fun dead => ?_, ?_⟩
        · simp [sound.removed dead] at inEpoll
        · rw [← sound.interest inEpoll]
          exact readable reads
  | readNothing reads timerId ready next empty =>
      have tail := wired.readOnce
      rw [next, List.tail_cons] at tail
      refine ⟨(sound.heard _ _).checked, ?_, ?_⟩
      · exact fun member => tail (List.mem_of_mem_tail member)
      · exact fun again => absurd (List.mem_of_mem_head? again) tail
  | read reads timerId ready next more =>
      have tail := wired.readOnce
      rw [next, List.tail_cons] at tail
      refine ⟨sound.heard _ _, ?_, ?_⟩
      · exact fun member => tail (List.mem_of_mem_tail member)
      · exact fun again => absurd (List.mem_of_mem_head? again) tail
  | write now writes eloop ready next =>
      have tail := wired.readOnce
      rw [next, List.tail_cons] at tail
      have written :
          Sound (Scope.handleWriteCallBack { conn := before.conn, eloop } now writes).conn :=
        Sound.handleWriteCallBack sound now writes
      refine ⟨written, ?_, ?_⟩
      · exact fun member => tail (List.mem_of_mem_tail member)
      · exact fun again => absurd (List.mem_of_mem_head? again) tail
  | leave parsing dead => exact wired.resume (by simp [parsing]) sound _ _
  | needMore process rest parsing alive parsed =>
      refine wired.resume (by simp [parsing]) ?_ none before.pool
      exact sound.keep rfl rfl
  | tooLong process rest parsing alive parsed =>
      exact wired.resume (by simp [parsing]) (Sound.ofUpdate (by simp) rfl).checked _ _
  | reject writes process rest parsing alive parsed =>
      have parsedSound : Sound (before.conn.afterParse process rest .error) :=
        sound.keep rfl rfl
      exact wired.resume (by simp [parsing]) (parsedSound.sent alive _ _ _) _ _
  | answer writes process rest parsing alive parsed alone =>
      have parsedSound : Sound
          (before.conn.afterParse fresh rest (.complete process.current)) :=
        sound.keep rfl rfl
      exact wired.resume (by simp [parsing]) (parsedSound.sent alive _ _ _) _ _
  | dispatch process rest parsing alive parsed pooled =>
      refine wired.resume (by simp [parsing]) ?_ before.frame _
      exact sound.keep rfl rfl
  | raise parsing alive raised => exact wired
  | afterResponse sent => exact wired.resume (by simp [sent]) sound.checked _ _
  | afterRejection sent =>
      have resetSound : Sound { before.conn with httpProcess := fresh } :=
        sound.keep rfl rfl
      exact wired.resume (by simp [sent]) resetSound.checked _ _
  | afterBackPost sent => exact wired.resume (by simp [sent]) sound.checked _ _
  | expire ready handled => exact .of_pending_eq_nil sound.died handled
  | post job running => exact ⟨sound, wired.readOnce, wired.reading⟩
  | skip reply tasks ready handled next dead =>
      exact .of_pending_eq_nil (sound.keep rfl rfl) handled
  | respond writes reply tasks ready handled next alive =>
      have counted : Sound { before.conn with working := before.conn.working - 1 } :=
        sound.keep rfl rfl
      exact .of_pending_eq_nil (counted.sent alive _ _ _) handled
  | stop ready handled => exact .of_pending_eq_nil sound.stopped handled

/-- What the socket accepted and what waits in the write buffer are the
responses, one after the other. -/
def Conserved (view : View) : Prop :=
  view.conn.Balanced

theorem conserved_starts {mode : Bool} {view : View} (starts : Starts mode view) :
    view.Conserved := by
  cases starts with
  | startConnect self sck process timerId =>
      rfl

theorem conserved_moves {before after : View} {share : Share} (conserved : before.Conserved)
    (moves : Moves before share after) : after.Conserved := by
  cases moves with
  | poll revents ready handled reported => exact conserved
  | readNothing reads timerId ready next empty =>
      exact (conserved.listened (listened_heard before.conn timerId reads)).quiet (.checked _)
  | read reads timerId ready next more =>
      exact conserved.listened (listened_heard before.conn timerId reads)
  | write now writes eloop ready next =>
      exact conserved.quiet (Quiet.handleWriteCallBack { conn := before.conn, eloop } now writes)
  | leave parsing dead => exact conserved
  | needMore process rest parsing alive parsed => exact conserved
  | tooLong process rest parsing alive parsed =>
      have logged := conserved.afterParse process rest .lineTooLong
      exact (logged.quiet (.shut _ alive)).quiet (.checked _)
  | reject writes process rest parsing alive parsed =>
      have logged := conserved.afterParse process rest .error
      exact logged.sends (sends_sent _ build400 false writes)
  | answer writes process rest parsing alive parsed alone =>
      have logged := conserved.afterParse fresh rest (.complete process.current)
      exact logged.sends (sends_sent _ (buildResponse process.current) _ writes)
  | dispatch process rest parsing alive parsed pooled =>
      exact conserved.afterParse fresh rest (.complete process.current)
  | raise parsing alive raised => exact conserved
  | afterResponse sent => exact conserved.quiet (.checked _)
  | afterRejection sent =>
      have reset : Balanced { before.conn with httpProcess := fresh } := conserved
      exact reset.quiet (.checked _)
  | afterBackPost sent => exact conserved.quiet (.checked _)
  | expire ready handled => exact conserved.quiet (.died _)
  | post job running => exact conserved
  | skip reply tasks ready handled next dead => exact conserved
  | respond writes reply tasks ready handled next alive =>
      have counted : Balanced { before.conn with working := before.conn.working - 1 } := conserved
      exact counted.sends (sends_sent _ reply.resp _ writes)
  | stop ready handled => exact conserved.quiet (.stopped _)

/-- The parser goes on with the unread bytes. -/
structure Live (view : View) : Prop where
  consumed : consume fresh (received view.conn.log) =
    (results view.conn.log ++ (consume view.conn.httpProcess view.conn.readBuffer.peek).1,
      (consume view.conn.httpProcess view.conn.readBuffer.peek).2)
  settled : view.frame ≠ some .parseLoop → view.frame ≠ some .afterResponse →
    view.conn.state ≠ .dead →
    consume view.conn.httpProcess view.conn.readBuffer.peek =
      ([], some (view.conn.httpProcess, view.conn.readBuffer.peek))
  accepting : view.frame ≠ some .afterRejection

/-- The parser has refused the connection, which is not read from any more. -/
structure Refused (view : View) : Prop where
  consumed : consume fresh (received view.conn.log) = (results view.conn.log, none)
  left : view.frame ≠ some .parseLoop ∧ view.frame ≠ some .afterResponse
  closed : view.conn.channel.events.epollIn = false

inductive Parses (view : View) : Prop where
  | live (live : view.Live)
  | refused (refused : view.Refused)

theorem live_starts {mode : Bool} {view : View} (starts : Starts mode view) : view.Live := by
  cases starts with
  | startConnect self sck process timerId =>
      refine ⟨?_, fun _ _ _ => ?_, by simp⟩
      · simp
      · simp

/-- A change that the parser does not notice. -/
theorem Live.keep {before after : View} (live : before.Live)
    (quiet : before.conn.Quiet after.conn) (frame : after.frame = before.frame) :
    after.Live := by
  refine ⟨?_, ?_, ?_⟩
  · rw [quiet.received, quiet.results, quiet.httpProcess, quiet.readBuffer]
    exact live.consumed
  · rw [frame, quiet.httpProcess, quiet.readBuffer]
    exact fun notParsing notAnswered alive =>
      live.settled notParsing notAnswered fun dead => alive (quiet.dead dead)
  · rw [frame]
    exact live.accepting

/-- A refused connection stays so when it neither reads nor parses. -/
theorem Refused.keep {before after : View} (refused : before.Refused)
    (receivedEq : received after.conn.log = received before.conn.log)
    (resultsEq : results after.conn.log = results before.conn.log)
    (epollIn : after.conn.channel.events.epollIn = true →
      before.conn.channel.events.epollIn = true)
    (left : after.frame ≠ some .parseLoop ∧ after.frame ≠ some .afterResponse) :
    after.Refused := by
  refine ⟨?_, left, ?_⟩
  · rw [receivedEq, resultsEq]
    exact refused.consumed
  · rw [← Bool.not_eq_true]
    intro enabled
    have still := epollIn enabled
    rw [refused.closed] at still
    cases still

theorem Refused.keepQuiet {before after : View} (refused : before.Refused)
    (quiet : before.conn.Quiet after.conn)
    (left : after.frame ≠ some .parseLoop ∧ after.frame ≠ some .afterResponse) :
    after.Refused :=
  refused.keep quiet.received quiet.results quiet.epollIn left

theorem refused_moves {before after : View} {share : Share} (wired : before.Wired)
    (refused : before.Refused) (moves : Moves before share after) : after.Refused := by
  have notReading : before.pending.head? ≠ some .readCallBack := by
    intro first
    have enabled := (wired.reading first).2.2
    rw [refused.closed] at enabled
    cases enabled
  have left := refused.left
  cases moves with
  | poll revents ready handled reported => exact refused.keepQuiet (.refl _) left
  | readNothing reads timerId ready next empty => exact absurd (by simp [next]) notReading
  | read reads timerId ready next more => exact absurd (by simp [next]) notReading
  | write now writes eloop ready next =>
      exact refused.keepQuiet
        (Quiet.handleWriteCallBack { conn := before.conn, eloop } now writes) left
  | leave parsing dead => exact absurd parsing left.1
  | needMore process rest parsing alive parsed => exact absurd parsing left.1
  | tooLong process rest parsing alive parsed => exact absurd parsing left.1
  | reject writes process rest parsing alive parsed => exact absurd parsing left.1
  | answer writes process rest parsing alive parsed alone => exact absurd parsing left.1
  | dispatch process rest parsing alive parsed pooled => exact absurd parsing left.1
  | raise parsing alive raised => exact absurd parsing left.1
  | afterResponse sent => exact absurd sent left.2
  | afterRejection sent =>
      have quiet := Quiet.checked { before.conn with httpProcess := fresh }
      exact refused.keep quiet.received quiet.results quiet.epollIn (by simp)
  | afterBackPost sent => exact refused.keepQuiet (.checked _) (by simp)
  | expire ready handled => exact refused.keepQuiet (.died _) left
  | post job running => exact refused.keepQuiet (.refl _) left
  | skip reply tasks ready handled next dead => exact refused.keep rfl rfl id left
  | respond writes reply tasks ready handled next alive =>
      have sends := sends_sent { before.conn with working := before.conn.working - 1 } reply.resp
        reply.keepAlive writes
      exact refused.keep sends.received sends.results sends.epollIn (by simp)
  | stop ready handled => exact refused.keepQuiet (.stopped _) left

/-- The result of `parse` is the next result of the stream. -/
theorem consume_of_parse {process next : HttpProcess} {readBuf rest : Buffer}
    {result : ParseResult} (parsed : process.parse readBuf = .ok (result, next, rest)) :
    consume process readBuf.peek =
      match result with
      | .kNeedMore => ([], some (next, rest.peek))
      | .kError => ([.error], none)
      | .kLineTooLong => ([.lineTooLong], none)
      | .kComplete =>
          (.complete next.current :: (consume fresh rest.peek).1,
            (consume fresh rest.peek).2) := by
  rw [consume_eq, scan_of_parse parsed]
  cases result <;> rfl

/-- Parsing an empty buffer asks for more. -/
theorem consume_of_readable_eq_zero {process : HttpProcess} {readBuf : Buffer}
    (empty : readBuf.readable = 0) :
    consume process readBuf.peek = ([], some (process, readBuf.peek)) := by
  rw [(readBuf.peek_eq_nil_iff).mpr empty, consume_nil]

/-- After `kNeedMore` there is nothing to do until bytes arrive. -/
theorem settled_of_needMore {process next : HttpProcess} {readBuf rest : Buffer}
    (parsed : process.parse readBuf = .ok (.kNeedMore, next, rest)) :
    consume next rest.peek = ([], some (next, rest.peek)) := by
  have consumed := consume_of_parse parsed
  have again := Incremental.Consumer.extend_nil_of_resumable consume_resumable process readBuf.peek
  rw [consumed] at again
  simpa [Incremental.Consumer.extend] using again

/-- A settled parser consumes what it hears from where it is. -/
theorem consume_received_append {before after : Connection} {bytes : List UInt8}
    (consumed : consume fresh (received before.log) =
      (results before.log, some (before.httpProcess, before.readBuffer.peek)))
    (listened : before.Listened after bytes) :
    consume fresh (received after.log) =
      (results after.log ++ (consume after.httpProcess after.readBuffer.peek).1,
        (consume after.httpProcess after.readBuffer.peek).2) := by
  rw [listened.received, consume_resumable, consumed, listened.results, listened.httpProcess,
    listened.peek]
  rfl

/-- Outside of the parse loop a live parser has consumed all that was received. -/
theorem Live.consumed_of_settled {view : View} (live : view.Live)
    (notParsing : view.frame ≠ some .parseLoop) (notAnswered : view.frame ≠ some .afterResponse)
    (alive : view.conn.state ≠ .dead) :
    consume fresh (received view.conn.log) =
      (results view.conn.log, some (view.conn.httpProcess, view.conn.readBuffer.peek)) := by
  rw [live.consumed, live.settled notParsing notAnswered alive, List.append_nil]

/-- Before a read callback the parser is live, settled and may go on. -/
theorem Parses.of_reading {view : View} (parses : view.Parses) (wired : view.Wired)
    (first : view.pending.head? = some .readCallBack) :
    consume fresh (received view.conn.log) =
      (results view.conn.log, some (view.conn.httpProcess, view.conn.readBuffer.peek)) := by
  rcases wired.reading first with ⟨ready, alive, enabled⟩
  cases parses with
  | live live => exact live.consumed_of_settled (by simp [ready]) (by simp [ready]) alive
  | refused refused => simp [refused.closed] at enabled

/-- In the parse loop the parser is live. -/
theorem Parses.of_parsing {view : View} (parses : view.Parses)
    (parsing : view.frame = some .parseLoop) : view.Live := by
  cases parses with
  | live live => exact live
  | refused refused => exact absurd parsing refused.left.1

/-- What is received so far, before an iteration of the parse loop. -/
theorem Live.consumed_of_parse {view : View} (live : view.Live) {result : ParseResult}
    {process : HttpProcess} {rest : Buffer}
    (parsed : view.conn.httpProcess.parse view.conn.readBuffer = .ok (result, process, rest)) :
    consume fresh (received view.conn.log) =
      match result with
      | .kNeedMore => (results view.conn.log, some (process, rest.peek))
      | .kError => (results view.conn.log ++ [.error], none)
      | .kLineTooLong => (results view.conn.log ++ [.lineTooLong], none)
      | .kComplete =>
          (results view.conn.log ++ .complete process.current :: (consume fresh rest.peek).1,
            (consume fresh rest.peek).2) := by
  rw [live.consumed, consume_of_parse parsed]
  cases result with
  | kNeedMore => simp
  | _ => rfl

theorem refused_tooLong {view : View} (live : view.Live) {process : HttpProcess} {rest : Buffer}
    (alive : view.conn.state ≠ .dead)
    (parsed : view.conn.httpProcess.parse view.conn.readBuffer =
      .ok (.kLineTooLong, process, rest)) :
    Refused
      { view with
        conn := (view.conn.afterParse process rest .lineTooLong).shut.checked
        frame := none } := by
  have consumed := live.consumed_of_parse parsed
  have quiet := (Quiet.shut (view.conn.afterParse process rest .lineTooLong) alive).trans
    (.checked _)
  refine ⟨?_, by simp, ?_⟩
  · rw [quiet.received, quiet.results]
    simpa [afterParse] using consumed
  · rw [← Bool.not_eq_true]
    intro enabled
    have still := (Quiet.checked _).epollIn enabled
    exact absurd still (by simp [shut, update, Channel.disableReading, Channel.updateChannel])

theorem refused_reject {view : View} (live : view.Live) {process : HttpProcess} {rest : Buffer}
    (parsed : view.conn.httpProcess.parse view.conn.readBuffer = .ok (.kError, process, rest))
    (writes : List WriteResult) :
    Refused
      { view with
        conn := (view.conn.afterParse process rest .error).sent build400 false writes
        frame := some .afterRejection } := by
  have consumed := live.consumed_of_parse parsed
  have sends := sends_sent (view.conn.afterParse process rest .error) build400 false writes
  refine ⟨?_, by simp, (sent_closing _ _ _).2⟩
  rw [sends.received, sends.results]
  simpa [afterParse] using consumed

/-- The parse loop keeps the parser live until it is settled, or refuses. -/
theorem parses_moves_of_live {before after : View} {share : Share} (wired : before.Wired)
    (live : before.Live) (moves : Moves before share after) : after.Parses := by
  have reading := Parses.of_reading (.live live) wired
  cases moves with
  | poll revents ready handled reported => exact .live (live.keep (.refl _) rfl)
  | readNothing reads timerId ready next empty =>
      have listened := (listened_heard before.conn timerId reads).quiet (.checked _)
      have consumed := reading (by simp [next])
      have noBytes :
          ((before.conn.refreshed timerId).heard reads).checked.readBuffer.readable = 0 := by
        rw [(Quiet.checked _).readBuffer]
        exact empty
      refine .live ⟨consume_received_append consumed listened, fun _ _ _ => ?_, by simp [ready]⟩
      exact consume_of_readable_eq_zero noBytes
  | read reads timerId ready next more =>
      have listened := listened_heard before.conn timerId reads
      have consumed := reading (by simp [next])
      exact .live ⟨consume_received_append consumed listened,
        fun notParsing => absurd rfl notParsing, by simp⟩
  | write now writes eloop ready next =>
      exact .live (live.keep
        (Quiet.handleWriteCallBack { conn := before.conn, eloop } now writes) rfl)
  | leave parsing dead =>
      exact .live ⟨live.consumed, fun _ _ alive => absurd dead alive, by simp⟩
  | needMore process rest parsing alive parsed =>
      have settled := settled_of_needMore parsed
      refine .live ⟨?_, fun _ _ _ => settled, by simp⟩
      simp only [settled, List.append_nil]
      exact live.consumed_of_parse parsed
  | tooLong process rest parsing alive parsed =>
      exact .refused (refused_tooLong live alive parsed)
  | reject writes process rest parsing alive parsed =>
      exact .refused (refused_reject live parsed writes)
  | answer writes process rest parsing alive parsed alone =>
      have consumed := live.consumed_of_parse parsed
      have sends := sends_sent (before.conn.afterParse fresh rest (.complete process.current))
        (buildResponse process.current) process.current.keepAlive writes
      refine .live ⟨?_, fun _ notAnswered => absurd rfl notAnswered, by simp⟩
      rw [sends.received, sends.results, sends.httpProcess, sends.readBuffer]
      simpa [afterParse] using consumed
  | dispatch process rest parsing alive parsed pooled =>
      have consumed := live.consumed_of_parse parsed
      refine .live ⟨?_, fun notParsing => absurd parsing notParsing, by simp [parsing]⟩
      simpa [afterParse] using consumed
  | raise parsing alive raised => exact .live live
  | afterResponse sent =>
      have quiet := Quiet.checked before.conn
      refine .live ⟨?_, fun notParsing => absurd rfl notParsing, by simp⟩
      rw [quiet.received, quiet.results, quiet.httpProcess, quiet.readBuffer]
      exact live.consumed
  | afterRejection sent => exact absurd sent live.accepting
  | afterBackPost sent =>
      have quiet := Quiet.checked before.conn
      refine .live ⟨?_, fun _ _ alive => ?_, by simp⟩
      · rw [quiet.received, quiet.results, quiet.httpProcess, quiet.readBuffer]
        exact live.consumed
      · rw [quiet.httpProcess, quiet.readBuffer]
        exact live.settled (by simp [sent]) (by simp [sent]) fun dead => alive (quiet.dead dead)
  | expire ready handled => exact .live (live.keep (.died _) rfl)
  | post job running => exact .live (live.keep (.refl _) rfl)
  | skip reply tasks ready handled next dead =>
      exact .live ⟨live.consumed, live.settled, live.accepting⟩
  | respond writes reply tasks ready handled next alive =>
      have sends := sends_sent { before.conn with working := before.conn.working - 1 } reply.resp
        reply.keepAlive writes
      refine .live ⟨?_, fun _ _ _ => ?_, by simp⟩
      · rw [sends.received, sends.results, sends.httpProcess, sends.readBuffer]
        exact live.consumed
      · rw [sends.httpProcess, sends.readBuffer]
        exact live.settled (by simp [ready]) (by simp [ready]) alive
  | stop ready handled => exact .live (live.keep (.stopped _) rfl)

theorem parses_moves {before after : View} {share : Share} (wired : before.Wired)
    (parses : before.Parses) (moves : Moves before share after) : after.Parses := by
  cases parses with
  | live live => exact parses_moves_of_live wired live moves
  | refused refused => exact .refused (refused_moves wired refused moves)

/-- `working` counts the requests in the pool and the replies that wait. Without
a pool every result of the parser is answered at once. -/
structure Counted (view : View) : Prop where
  working : view.conn.working = view.tasks.length + view.pool.card
  alone : view.conn.useThreadPool = false → view.tasks = [] ∧ view.pool = 0 ∧
    responses view.conn.log = (results view.conn.log).flatMap answers

theorem counted_starts {mode : Bool} {view : View} (starts : Starts mode view) : view.Counted := by
  cases starts with
  | startConnect self sck process timerId => exact ⟨by simp, fun _ => ⟨rfl, rfl, rfl⟩⟩

theorem Counted.keep {before after : View} (counted : before.Counted)
    (quiet : before.conn.Quiet after.conn) (tasks : after.tasks = before.tasks)
    (pool : after.pool = before.pool) : after.Counted := by
  refine ⟨?_, ?_⟩
  · rw [quiet.working, tasks, pool]
    exact counted.working
  · rw [quiet.useThreadPool, tasks, pool, quiet.responses, quiet.results]
    exact counted.alone

theorem Counted.keepListened {before after : View} {bytes : List UInt8} (counted : before.Counted)
    (listened : before.conn.Listened after.conn bytes) (tasks : after.tasks = before.tasks)
    (pool : after.pool = before.pool) : after.Counted := by
  refine ⟨?_, ?_⟩
  · rw [listened.working, tasks, pool]
    exact counted.working
  · rw [listened.useThreadPool, tasks, pool, listened.responses, listened.results]
    exact counted.alone

theorem counted_moves {before after : View} {share : Share} (counted : before.Counted)
    (moves : Moves before share after) : after.Counted := by
  have working := counted.working
  have alone := counted.alone
  cases moves with
  | poll revents ready handled reported => exact ⟨working, alone⟩
  | readNothing reads timerId ready next empty =>
      exact counted.keepListened
        ((listened_heard before.conn timerId reads).quiet (.checked _)) rfl rfl
  | read reads timerId ready next more =>
      exact counted.keepListened (listened_heard before.conn timerId reads) rfl rfl
  | write now writes eloop ready next =>
      exact counted.keep
        (Quiet.handleWriteCallBack { conn := before.conn, eloop } now writes) rfl rfl
  | leave parsing dead => exact ⟨working, alone⟩
  | needMore process rest parsing alive parsed => exact ⟨working, alone⟩
  | tooLong process rest parsing alive parsed =>
      have quiet := (Quiet.shut (before.conn.afterParse process rest .lineTooLong) alive).trans
        (.checked _)
      refine ⟨quiet.working.trans working, fun noPool => ?_⟩
      rcases alone (quiet.useThreadPool.symm.trans noPool) with ⟨noTask, noJob, answered⟩
      refine ⟨noTask, noJob, ?_⟩
      rw [quiet.responses, quiet.results]
      simpa [afterParse, answers] using answered
  | reject writes process rest parsing alive parsed =>
      have sends := sends_sent (before.conn.afterParse process rest .error) build400 false writes
      refine ⟨sends.working.trans working, fun noPool => ?_⟩
      rcases alone (sends.useThreadPool.symm.trans noPool) with ⟨noTask, noJob, answered⟩
      refine ⟨noTask, noJob, ?_⟩
      rw [sends.responses, sends.results]
      simpa [afterParse, answers] using answered
  | answer writes process rest parsing alive parsed noPool =>
      have sends := sends_sent (before.conn.afterParse fresh rest (.complete process.current))
        (buildResponse process.current) process.current.keepAlive writes
      refine ⟨sends.working.trans working, fun _ => ?_⟩
      rcases alone noPool with ⟨noTask, noJob, answered⟩
      refine ⟨noTask, noJob, ?_⟩
      rw [sends.responses, sends.results]
      simpa [afterParse, answers] using answered
  | dispatch process rest parsing alive parsed pooled =>
      refine ⟨?_, fun noPool => ?_⟩
      · simp only [Multiset.card_cons]
        rw [working]
        push_cast
        ring
      · exact absurd (pooled.symm.trans noPool) Bool.noConfusion
  | raise parsing alive raised => exact counted
  | afterResponse sent => exact counted.keep (.checked _) rfl rfl
  | afterRejection sent =>
      have reset : Counted { before with conn := { before.conn with httpProcess := fresh } } :=
        ⟨working, alone⟩
      exact reset.keep (.checked _) rfl rfl
  | afterBackPost sent => exact counted.keep (.checked _) rfl rfl
  | expire ready handled => exact counted.keep (.died _) rfl rfl
  | post job running =>
      refine ⟨?_, fun noPool => ?_⟩
      · have smaller := Multiset.card_erase_add_one running
        simp only [List.length_append, List.length_singleton]
        omega
      · rw [(alone noPool).2.1] at running
        exact absurd running (Multiset.notMem_zero job)
  | skip reply tasks ready handled next dead =>
      refine ⟨?_, fun noPool => ?_⟩
      · rw [next, List.length_cons] at working
        simp only
        omega
      · exact absurd (next.symm.trans (alone noPool).1) (by simp)
  | respond writes reply tasks ready handled next alive =>
      have sends := sends_sent { before.conn with working := before.conn.working - 1 } reply.resp
        reply.keepAlive writes
      refine ⟨?_, fun noPool => ?_⟩
      · rw [next, List.length_cons] at working
        rw [sends.working]
        simp only
        omega
      · have noTask := (alone (sends.useThreadPool.symm.trans noPool)).1
        exact absurd (next.symm.trans noTask) (by simp)
  | stop ready handled => exact counted.keep (.stopped _) rfl rfl

/-- The numbers of results, responses and requests to be answered. -/
def Tallied (conn : Connection) : Prop :=
  ((results conn.log).length : ℤ) = (responses conn.log).length + conn.working

theorem Tallied.keepQuiet {before after : Connection} (tallied : Tallied before)
    (quiet : before.Quiet after) : Tallied after := by
  rw [Tallied, quiet.results, quiet.responses, quiet.working]
  exact tallied

theorem Tallied.keepListened {before after : Connection} {bytes : List UInt8}
    (tallied : Tallied before) (listened : before.Listened after bytes) : Tallied after := by
  rw [Tallied, listened.results, listened.responses, listened.working]
  exact tallied

/-- A request that is answered at once counts as one result and one response. -/
theorem Tallied.answer {conn : Connection} (tallied : Tallied conn) (process : HttpProcess)
    (rest : Buffer) (req : HttpRequest) (resp : List UInt8) (keepAlive : Bool)
    (writes : List WriteResult) :
    Tallied ((conn.afterParse process rest (.complete req)).sent resp keepAlive writes) := by
  have sends := sends_sent (conn.afterParse process rest (.complete req)) resp keepAlive writes
  rw [Tallied] at tallied
  rw [Tallied, sends.results, sends.responses, sends.working]
  simp only [afterParse, results_append, responses_append, List.length_append]
  simp [tallied, add_right_comm]

/-- A reply that a worker has posted becomes a response. -/
theorem Tallied.respond {conn : Connection} (tallied : Tallied conn) (resp : List UInt8)
    (keepAlive : Bool) (writes : List WriteResult) :
    Tallied (Connection.sent { conn with working := conn.working - 1 } resp keepAlive writes) := by
  have sends := sends_sent { conn with working := conn.working - 1 } resp keepAlive writes
  rw [Tallied] at tallied
  rw [Tallied, sends.results, sends.responses, sends.working]
  simp only [List.length_append, List.length_singleton]
  omega

/-- While the connection lives and its parser has not refused it, each request
is answered or still to be answered. -/
def Numbered (view : View) : Prop :=
  view.conn.state ≠ .dead → ¬view.Refused → Tallied view.conn

theorem numbered_starts {mode : Bool} {view : View} (starts : Starts mode view) :
    view.Numbered := by
  cases starts with
  | startConnect self sck process timerId => exact fun _ _ => rfl

theorem numbered_moves {before after : View} {share : Share} (wired : before.Wired)
    (parses : before.Parses) (numbered : before.Numbered) (moves : Moves before share after) :
    after.Numbered := by
  intro stillAlive stillOpen
  have tallied : before.conn.state ≠ .dead → Tallied before.conn := fun alive =>
    numbered alive fun refused => stillOpen (refused_moves wired refused moves)
  cases moves with
  | poll revents ready handled reported => exact tallied stillAlive
  | readNothing reads timerId ready next empty =>
      exact (tallied (wired.reading (by simp [next])).2.1).keepListened
        ((listened_heard before.conn timerId reads).quiet (.checked _))
  | read reads timerId ready next more =>
      exact (tallied (wired.reading (by simp [next])).2.1).keepListened
        (listened_heard before.conn timerId reads)
  | write now writes eloop ready next =>
      have quiet := Quiet.handleWriteCallBack { conn := before.conn, eloop } now writes
      exact (tallied fun dead => stillAlive (quiet.dead dead)).keepQuiet quiet
  | leave parsing dead => exact absurd dead stillAlive
  | needMore process rest parsing alive parsed => exact tallied alive
  | tooLong process rest parsing alive parsed =>
      exact absurd (refused_tooLong (parses.of_parsing parsing) alive parsed) stillOpen
  | reject writes process rest parsing alive parsed =>
      exact absurd (refused_reject (parses.of_parsing parsing) parsed writes) stillOpen
  | answer writes process rest parsing alive parsed alone =>
      exact (tallied alive).answer fresh rest process.current _ _ writes
  | dispatch process rest parsing alive parsed pooled =>
      have count := tallied alive
      rw [Tallied] at count
      simp only [Tallied, afterParse, results_append, responses_append, List.length_append]
      simp [count, add_assoc]
  | raise parsing alive raised => exact tallied stillAlive
  | afterResponse sent =>
      have quiet := Quiet.checked before.conn
      exact (tallied fun dead => stillAlive (quiet.dead dead)).keepQuiet quiet
  | afterRejection sent =>
      have quiet := Quiet.checked { before.conn with httpProcess := fresh }
      have reset : Tallied { before.conn with httpProcess := fresh } :=
        tallied fun dead => stillAlive (quiet.dead dead)
      exact reset.keepQuiet quiet
  | afterBackPost sent =>
      have quiet := Quiet.checked before.conn
      exact (tallied fun dead => stillAlive (quiet.dead dead)).keepQuiet quiet
  | expire ready handled => exact absurd (state_died _) stillAlive
  | post job running => exact tallied stillAlive
  | skip reply tasks ready handled next dead => exact absurd dead stillAlive
  | respond writes reply tasks ready handled next alive =>
      exact (tallied alive).respond reply.resp reply.keepAlive writes
  | stop ready handled =>
      have quiet := Quiet.stopped before.conn
      exact (tallied fun dead => stillAlive (quiet.dead dead)).keepQuiet quiet

theorem wiring_moves {before after : View} {share : Share} (moves : Moves before share after) :
    after.conn.wiring = before.conn.wiring := by
  cases moves with
  | readNothing reads timerId ready next empty =>
      exact ((listened_heard before.conn timerId reads).quiet (.checked _)).wiring
  | read reads timerId ready next more => exact (listened_heard before.conn timerId reads).wiring
  | write now writes eloop ready next =>
      exact (Quiet.handleWriteCallBack { conn := before.conn, eloop } now writes).wiring
  | tooLong process rest parsing alive parsed => exact (Quiet.checked _).wiring
  | reject writes process rest parsing alive parsed =>
      exact (sends_sent (before.conn.afterParse process rest .error) build400 false writes).wiring
  | answer writes process rest parsing alive parsed alone =>
      exact (sends_sent (before.conn.afterParse fresh rest (.complete process.current)) _ _
        writes).wiring
  | afterResponse sent => exact (Quiet.checked _).wiring
  | afterRejection sent => exact (Quiet.checked { before.conn with httpProcess := fresh }).wiring
  | afterBackPost sent => exact (Quiet.checked _).wiring
  | expire ready handled => exact (Quiet.died _).wiring
  | respond writes reply tasks ready handled next alive =>
      exact (sends_sent { before.conn with working := before.conn.working - 1 } _ _ writes).wiring
  | stop ready handled => exact (Quiet.stopped _).wiring
  | _ => rfl

/-- The invariant of a connection. -/
structure Regular (view : View) : Prop where
  wired : view.Wired
  conserved : view.Conserved
  parses : view.Parses
  counted : view.Counted
  numbered : view.Numbered

theorem regular_starts {mode : Bool} {view : View} (starts : Starts mode view) : view.Regular :=
  ⟨wired_starts starts, conserved_starts starts, .live (live_starts starts),
    counted_starts starts, numbered_starts starts⟩

theorem regular_moves {before after : View} {share : Share} (regular : before.Regular)
    (moves : Moves before share after) : after.Regular :=
  ⟨wired_moves regular.wired moves, conserved_moves regular.conserved moves,
    parses_moves regular.wired regular.parses moves, counted_moves regular.counted moves,
    numbered_moves regular.wired regular.parses regular.numbered moves⟩

end View

end MiniWebServer
