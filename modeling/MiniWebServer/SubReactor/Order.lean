import MiniWebServer.Library.Pipeline
import MiniWebServer.SubReactor.Projection

/-!
# The order of the responses of a connection

HTTP/1.1 wants the responses of a connection in the order of its requests, and
nothing after a response that closes the connection. With a thread pool workers
may overtake each other, and the illegal request is answered by the loop thread
while they work; without one the parse loop goes on after a closing response
that the socket did not take at once. The results here say what is left when
none of this happens.
-/

namespace MiniWebServer

open Connection HttpProcess Pipeline

/-- A response with `Connection: close`. -/
def Closing (resp : List UInt8) : Prop :=
  resp = build400 ∨ ∃ req, req.keepAlive = false ∧ resp = buildResponse req

theorem buildResponse_eq_of_keepAlive (req other : HttpRequest)
    (same : req.keepAlive = other.keepAlive) : buildResponse req = buildResponse other := by
  rw [buildResponse, buildResponse, same]

theorem not_closing_buildResponse {req : HttpRequest} (keepAlive : req.keepAlive = true) :
    ¬Closing (buildResponse req) := by
  have differs : buildResponse {} ≠ build400 ∧
      buildResponse {} ≠ buildResponse { keepAlive := false } := by
    decide +kernel
  rw [buildResponse_eq_of_keepAlive req {} keepAlive]
  rintro (rejection | ⟨closing, closes, built⟩)
  · exact differs.1 rejection
  · rw [buildResponse_eq_of_keepAlive closing { keepAlive := false } closes] at built
    exact differs.2 built

namespace View

theorem Sending.closing_iff {before after : View} {share : Share} {send : Send}
    (sending : Sending before share after send) :
    Closing send.resp ↔ send.keepAlive = false := by
  rcases sending.built with ⟨rejection, closes⟩ | ⟨req, built, keepAlive⟩
  · simp [rejection, closes, Closing]
  · rw [built, keepAlive]
    refine ⟨fun closing => ?_, fun closes => .inr ⟨req, closes, rfl⟩⟩
    rw [← Bool.not_eq_true]
    exact fun keeps => not_closing_buildResponse keeps closing

end View

namespace Connection

/-- Nothing is appended after a closing response. -/
def ClosesLast (conn : Connection) : Prop :=
  ∀ earlier resp later, responses conn.log = earlier ++ resp :: later → Closing resp → later = []

/-- Whether an iteration of the parse loop would append a response. -/
def answersNext (conn : Connection) : Bool :=
  match conn.httpProcess.parse conn.readBuffer with
  | .ok (.kComplete, _, _) => true
  | .ok (.kError, _, _) => true
  | _ => false

end Connection

namespace View

/-- A closing response is sent when no request of the connection is with a
worker, and in the parse loop it is taken at once or the next message is not
answered. -/
def ClosesAlone (view : View) (share : Share) : Prop :=
  ∀ send ∈ view.send? share, send.keepAlive = false →
    send.conn.working = 0 ∧
      (send.frame = .afterResponse →
        send.outcome = .drained ∨ send.conn.answersNext = false)

instance (view : View) (share : Share) : Decidable (view.ClosesAlone share) :=
  inferInstanceAs (Decidable (∀ send ∈ view.send? share, send.keepAlive = false →
    send.conn.working = 0 ∧
      (send.frame = .afterResponse →
        send.outcome = .drained ∨ send.conn.answersNext = false)))

/-- Nothing is left in the connection that could append a response. -/
structure Silent (view : View) : Prop where
  closed : view.conn.channel.events.epollIn = false
  noReads : .readCallBack ∉ view.pending
  idle : view.conn.working = 0
  ending : view.frame = some .afterResponse →
    view.conn.state = .dead ∨ view.conn.Lingers ∨
      view.conn.answersNext = false
  ended : view.frame = some .parseLoop →
    view.conn.state = .dead ∨ view.conn.answersNext = false

theorem Silent.keep {before after : View} (silent : before.Silent)
    (quiet : before.conn.Quiet after.conn) (noReads : .readCallBack ∉ after.pending)
    (left : after.frame ≠ some .afterResponse ∧ after.frame ≠ some .parseLoop) :
    after.Silent := by
  refine ⟨?_, noReads, quiet.working.trans silent.idle, fun sent => absurd sent left.1,
    fun parsing => absurd parsing left.2⟩
  rw [← Bool.not_eq_true]
  intro enabled
  have still := quiet.epollIn enabled
  rw [silent.closed] at still
  cases still

/-- Nothing is appended in a silent connection, and it stays silent. -/
theorem silent_moves {before after : View} {share : Share} (regular : before.Regular)
    (silent : before.Silent) (moves : Moves before share after) :
    after.Silent ∧ responses after.conn.log = responses before.conn.log := by
  have noReads := silent.noReads
  have nothing : before.tasks = [] ∧ before.pool = 0 := by
    have working := regular.counted.working
    rw [silent.idle] at working
    exact ⟨List.length_eq_zero_iff.mp (by omega), Multiset.card_eq_zero.mp (by omega)⟩
  have mute : before.frame = some .parseLoop → before.conn.state ≠ .dead →
      before.conn.answersNext = false := fun parsing alive =>
    (silent.ended parsing).resolve_left alive
  cases moves with
  | poll revents ready handled reported =>
      refine ⟨silent.keep (.refl _) ?_ (by simp [ready]), rfl⟩
      have unreadable : revents.epollIn = false := by
        rw [← Bool.not_eq_true]
        intro reads
        have enabled := reported.2.1 reads
        rw [regular.wired.sound.interest reported.1, silent.closed] at enabled
        cases enabled
      rcases revents with ⟨_ | _, _ | _, _⟩ <;> simp_all [Events.handle]
  | readNothing reads timerId ready next empty => exact absurd (by simp [next]) noReads
  | read reads timerId ready next more => exact absurd (by simp [next]) noReads
  | write now writes eloop ready next =>
      have quiet := Quiet.handleWriteCallBack { conn := before.conn, eloop } now writes
      rw [next] at noReads
      exact ⟨silent.keep quiet (List.not_mem_of_not_mem_cons noReads) (by simp [ready]),
        quiet.responses⟩
  | leave parsing dead => exact ⟨silent.keep (.refl _) noReads (by simp), rfl⟩
  | needMore process rest parsing alive parsed =>
      exact ⟨⟨silent.closed, noReads, silent.idle, by simp, by simp⟩, rfl⟩
  | tooLong process rest parsing alive parsed =>
      have quiet := (Quiet.shut (before.conn.afterParse process rest .lineTooLong) alive).trans
        (.checked _)
      refine ⟨⟨?_, noReads, quiet.working.trans silent.idle, by simp, by simp⟩, ?_⟩
      · exact (refused_tooLong (regular.parses.of_parsing parsing) alive parsed).closed
      · rw [quiet.responses]
        simp [afterParse]
  | reject writes process rest parsing alive parsed =>
      exact absurd (mute parsing alive) (by simp [answersNext, parsed])
  | answer writes process rest parsing alive parsed alone =>
      exact absurd (mute parsing alive) (by simp [answersNext, parsed])
  | dispatch process rest parsing alive parsed pooled =>
      exact absurd (mute parsing alive) (by simp [answersNext, parsed])
  | raise parsing alive raised => exact ⟨silent, rfl⟩
  | afterResponse sent =>
      have quiet := Quiet.checked before.conn
      refine ⟨⟨?_, noReads, quiet.working.trans silent.idle, by simp, fun _ => ?_⟩,
        quiet.responses⟩
      · exact (silent.keep quiet noReads ⟨by simp, by simp⟩ :
          Silent { before with conn := before.conn.checked, frame := none }).closed
      · rcases silent.ending sent with dead | lingers | unanswered
        · exact .inl (quiet.dead dead)
        · exact .inl (by rw [checked, if_pos lingers, state_died])
        · refine .inr ?_
          rw [answersNext, quiet.httpProcess, quiet.readBuffer]
          exact unanswered
  | afterRejection sent =>
      have quiet := Quiet.checked { before.conn with httpProcess := fresh }
      have reset : Silent
          { before with conn := { before.conn with httpProcess := fresh }, frame := none } :=
        ⟨silent.closed, noReads, silent.idle, by simp, by simp⟩
      exact ⟨reset.keep quiet noReads (by simp), quiet.responses⟩
  | afterBackPost sent =>
      have quiet := Quiet.checked before.conn
      exact ⟨silent.keep quiet noReads (by simp), quiet.responses⟩
  | expire ready handled =>
      exact ⟨silent.keep (.died _) noReads (by simp [ready]), (Quiet.died _).responses⟩
  | post job running =>
      rw [nothing.2] at running
      exact absurd running (Multiset.notMem_zero job)
  | skip reply tasks ready handled next dead => simp [nothing.1] at next
  | respond writes reply tasks ready handled next alive => simp [nothing.1] at next
  | stop ready handled =>
      exact ⟨silent.keep (.stopped _) noReads (by simp [ready]), (Quiet.stopped _).responses⟩

/-- The write that takes everything leaves a closed idle connection with nothing to do. -/
theorem lingers_sent_of_drained {conn : Connection} {resp : List UInt8}
    {writes : List WriteResult} (idle : conn.working = 0)
    (drained : writeOutcome (conn.writeBuffer.readable + resp.length) writes = .drained) :
    (conn.sent resp false writes).Lingers := by
  refine ⟨⟨(sent_closing _ _ _).1, (sends_sent _ _ _ _).working.trans idle⟩, ?_⟩
  rw [← Buffer.length_peek, sent, drained]
  simp [wrote, shut, update]

theorem silent_of_sending {before after : View} {share : Share} {send : Send}
    (afterRegular : after.Regular) (sending : Sending before share after send)
    (closes : send.keepAlive = false) (allowed : before.ClosesAlone share) : after.Silent := by
  rcases allowed send sending.call closes with ⟨idle, last⟩
  have sends := sends_sent send.conn send.resp send.keepAlive send.writes
  have connEq := sending.conn
  refine ⟨?_, ?_, ?_, ?_, ?_⟩
  · rw [connEq, closes]
    exact (sent_closing _ _ _).2
  · exact afterRegular.wired.not_reading (by simp [sending.frame])
  · rw [connEq, sends.working, idle]
  · intro sent
    rw [sending.frame, Option.some.injEq] at sent
    rcases last sent with drained | unanswered
    · refine .inr (.inl ?_)
      rw [connEq, closes]
      exact lingers_sent_of_drained idle drained
    · refine .inr (.inr ?_)
      rw [connEq, answersNext, sends.httpProcess, sends.readBuffer]
      exact unanswered
  · intro parsing
    rw [sending.frame, Option.some.injEq] at parsing
    exact absurd parsing sending.notParsing

/-- Either no response so far closes the connection, or the last one does and
nothing follows. -/
inductive Closes (view : View) : Prop where
  | notYet (still : ∀ resp ∈ responses view.conn.log, ¬Closing resp)
  | atLast (earlier : List (List UInt8)) (resp : List UInt8)
      (log : responses view.conn.log = earlier ++ [resp])
      (before : ∀ other ∈ earlier, ¬Closing other) (silent : view.Silent)

theorem closes_moves {before after : View} {share : Share} (regular : before.Regular)
    (closes : before.Closes) (allowed : before.ClosesAlone share)
    (moves : Moves before share after) : after.Closes := by
  cases closes with
  | notYet still =>
      rcases sending_or_silent moves with ⟨send, sending⟩ | same
      · by_cases keepAlive : send.keepAlive = false
        · exact .atLast _ send.resp sending.responses_eq still
            (silent_of_sending (regular_moves regular moves) sending keepAlive allowed)
        · refine .notYet fun resp member => ?_
          rw [sending.responses_eq, List.mem_append, List.mem_singleton] at member
          rcases member with earlier | rfl
          · exact still resp earlier
          · exact fun closing => keepAlive (sending.closing_iff.mp closing)
      · refine .notYet ?_
        rw [same]
        exact still
  | atLast earlier resp log first silent =>
      rcases silent_moves regular silent moves with ⟨stillSilent, same⟩
      exact .atLast earlier resp (same.trans log) first stillSilent

theorem closes_starts {mode : Bool} {view : View} (starts : Starts mode view) : view.Closes := by
  cases starts with
  | startConnect self sck process timerId => exact .notYet (by simp)

theorem Closes.closesLast {view : View} (closes : view.Closes) : view.conn.ClosesLast := by
  intro earlier resp later logEq closing
  cases closes with
  | notYet still => exact absurd closing (still resp (by simp [logEq]))
  | atLast front last log first silent =>
      rcases List.eq_nil_or_concat' later with rfl | ⟨middle, final, rfl⟩
      · rfl
      · rw [log, ← List.cons_append, ← List.append_assoc] at logEq
        have frontEq := (List.append_inj' logEq rfl).1
        exact absurd closing (first resp (by simp [frontEq]))

/-- The keep-alive flag of the first request whose reply was not posted yet. -/
def turnKeepAlive? (view : View) : Option Bool :=
  match (results view.conn.log)[(responses view.conn.log).length + view.tasks.length]? with
  | some (.complete req) => some req.keepAlive
  | _ => none

end View

/-- The job whose reply is posted. -/
def Share.posted? : Share → Option Job
  | .post job => some job
  | _ => none

/-- Each response is the one that the request parsed in its place calls for. -/
def Connection.AnswersInOrder (conn : Connection) : Prop :=
  InOrder (fun parsed resp => answers parsed = [resp]) (results conn.log) (responses conn.log)

namespace View

/-- A worker posts the reply whose turn it is, or one that is not told from it,
and an illegal request is answered when no request is with a worker. -/
def TakesTurns (view : View) (share : Share) : Prop :=
  (∀ job ∈ share.posted?, view.conn.state ≠ .dead →
    view.turnKeepAlive? = some job.req.keepAlive) ∧
  ∀ send ∈ view.send? share, send.frame = .afterRejection → send.conn.working = 0

instance (view : View) (share : Share) : Decidable (view.TakesTurns share) :=
  inferInstanceAs (Decidable ((∀ job ∈ share.posted?, view.conn.state ≠ .dead →
      view.turnKeepAlive? = some job.req.keepAlive) ∧
    ∀ send ∈ view.send? share, send.frame = .afterRejection → send.conn.working = 0))

/-- The responses, and behind them the replies that wait, are in order. -/
structure Ordered (view : View) : Prop where
  sent : view.conn.AnswersInOrder
  posted : view.conn.state ≠ .dead →
    InOrder (fun parsed resp => answers parsed = [resp]) (results view.conn.log)
      (responses view.conn.log ++ view.tasks.map Reply.resp)

theorem ordered_starts {mode : Bool} {view : View} (starts : Starts mode view) :
    view.Ordered := by
  cases starts with
  | startConnect self sck process timerId => exact ⟨.nil _, fun _ => .nil _⟩

theorem Ordered.keepQuiet {before after : View} (ordered : before.Ordered)
    (quiet : before.conn.Quiet after.conn) (tasks : after.tasks = before.tasks) :
    after.Ordered := by
  refine ⟨?_, fun alive => ?_⟩
  · rw [AnswersInOrder, quiet.results, quiet.responses]
    exact ordered.sent
  · rw [quiet.results, quiet.responses, tasks]
    exact ordered.posted fun dead => alive (quiet.dead dead)

theorem Ordered.keepListened {before after : View} {bytes : List UInt8} (ordered : before.Ordered)
    (alive : before.conn.state ≠ .dead) (listened : before.conn.Listened after.conn bytes)
    (tasks : after.tasks = before.tasks) : after.Ordered := by
  refine ⟨?_, fun _ => ?_⟩
  · rw [AnswersInOrder, listened.results, listened.responses]
    exact ordered.sent
  · rw [listened.results, listened.responses, tasks]
    exact ordered.posted alive

/-- A result of the parser that is not answered yet. -/
theorem Ordered.arrive {before after : View} (ordered : before.Ordered) (parsed : Parsed)
    (alive : before.conn.state ≠ .dead)
    (resultsEq : results after.conn.log = results before.conn.log ++ [parsed])
    (responsesEq : responses after.conn.log = responses before.conn.log)
    (tasks : after.tasks = before.tasks) : after.Ordered := by
  refine ⟨?_, fun _ => ?_⟩
  · rw [AnswersInOrder, resultsEq, responsesEq]
    exact ordered.sent.arrive [parsed]
  · rw [resultsEq, responsesEq, tasks]
    exact (ordered.posted alive).arrive [parsed]

/-- A result of the parser that is answered at once, when nothing else is to be answered. -/
theorem Ordered.answer {before after : View} (ordered : before.Ordered) (parsed : Parsed)
    {resp : List UInt8} (tallied : Tallied before.conn) (idle : before.conn.working = 0)
    (noTask : after.tasks = [])
    (resultsEq : results after.conn.log = results before.conn.log ++ [parsed])
    (responsesEq : responses after.conn.log = responses before.conn.log ++ [resp])
    (answered : answers parsed = [resp]) : after.Ordered := by
  rw [Tallied, idle] at tallied
  have inOrder := ordered.sent.answer (by omega) answered
  refine ⟨?_, fun _ => ?_⟩
  · rw [AnswersInOrder, resultsEq, responsesEq]
    exact inOrder
  · rw [resultsEq, responsesEq, noTask, List.map_nil, List.append_nil]
    exact inOrder

/-- In the parse loop each request is answered or still to be answered. -/
theorem Regular.tallied_of_parsing {view : View} (regular : view.Regular)
    (parsing : view.frame = some .parseLoop) (alive : view.conn.state ≠ .dead) :
    Tallied view.conn :=
  regular.numbered alive fun refused => refused.left.1 parsing

/-- A connection of which no worker has a request waits for no reply. -/
theorem Counted.tasks_eq_nil {view : View} (counted : view.Counted)
    (idle : view.conn.working = 0) : view.tasks = [] := by
  have working := counted.working
  rw [idle] at working
  exact List.length_eq_zero_iff.mp (by omega)

theorem ordered_moves {before after : View} {share : Share} (regular : before.Regular)
    (ordered : before.Ordered) (allowed : before.TakesTurns share)
    (moves : Moves before share after) : after.Ordered := by
  cases moves with
  | poll revents ready handled reported => exact ordered.keepQuiet (.refl _) rfl
  | readNothing reads timerId ready next empty =>
      exact ordered.keepListened (regular.wired.reading (by simp [next])).2.1
        ((listened_heard before.conn timerId reads).quiet (.checked _)) rfl
  | read reads timerId ready next more =>
      exact ordered.keepListened (regular.wired.reading (by simp [next])).2.1
        (listened_heard before.conn timerId reads) rfl
  | write now writes eloop ready next =>
      exact ordered.keepQuiet
        (Quiet.handleWriteCallBack { conn := before.conn, eloop } now writes) rfl
  | leave parsing dead => exact ordered.keepQuiet (.refl _) rfl
  | needMore process rest parsing alive parsed => exact ⟨ordered.sent, ordered.posted⟩
  | tooLong process rest parsing alive parsed =>
      have quiet := (Quiet.shut (before.conn.afterParse process rest .lineTooLong) alive).trans
        (.checked _)
      refine ordered.arrive .lineTooLong alive ?_ ?_ rfl
      · rw [quiet.results]
        simp [afterParse]
      · rw [quiet.responses]
        simp [afterParse]
  | reject writes process rest parsing alive parsed =>
      have sends := sends_sent (before.conn.afterParse process rest .error) build400 false writes
      have idle : before.conn.working = 0 :=
        allowed.2 _ (send?_reject parsing alive parsed) rfl
      refine ordered.answer .error (regular.tallied_of_parsing parsing alive) idle
        (regular.counted.tasks_eq_nil idle) ?_ ?_ rfl
      · rw [sends.results]
        simp [afterParse]
      · rw [sends.responses]
        simp [afterParse]
  | answer writes process rest parsing alive parsed alone =>
      have sends := sends_sent (before.conn.afterParse fresh rest (.complete process.current))
        (buildResponse process.current) process.current.keepAlive writes
      rcases regular.counted.alone alone with ⟨noTask, noJob, _⟩
      have idle : before.conn.working = 0 := by
        rw [regular.counted.working, noTask, noJob]
        rfl
      refine ordered.answer (.complete process.current)
        (regular.tallied_of_parsing parsing alive) idle noTask ?_ ?_ rfl
      · rw [sends.results]
        simp [afterParse]
      · rw [sends.responses]
        simp [afterParse]
  | dispatch process rest parsing alive parsed pooled =>
      refine ordered.arrive (.complete process.current) alive ?_ ?_ rfl <;> simp [afterParse]
  | raise parsing alive raised => exact ordered
  | afterResponse sent => exact ordered.keepQuiet (.checked _) rfl
  | afterRejection sent =>
      have reset : Ordered { before with conn := { before.conn with httpProcess := fresh } } :=
        ⟨ordered.sent, ordered.posted⟩
      exact reset.keepQuiet (.checked _) rfl
  | afterBackPost sent => exact ordered.keepQuiet (.checked _) rfl
  | expire ready handled => exact ordered.keepQuiet (.died _) rfl
  | post job running =>
      refine ⟨ordered.sent, fun alive => ?_⟩
      have turn := allowed.1 job rfl alive
      unfold turnKeepAlive? at turn
      split at turn
      · next req asked =>
        have sameReply : buildResponse req = buildResponse job.req :=
          buildResponse_eq_of_keepAlive req job.req (by simpa using turn)
        have itsTurn : (results before.conn.log)[(responses before.conn.log ++
            before.tasks.map Reply.resp).length]? = some (.complete req) := by
          simpa using asked
        rw [List.map_append, ← List.append_assoc]
        exact (ordered.posted alive).reply itsTurn (by simp [answers, Job.reply, sameReply])
      · cases turn
  | skip reply tasks ready handled next dead =>
      exact ⟨ordered.sent, fun alive => absurd dead alive⟩
  | respond writes reply tasks ready handled next alive =>
      have sends := sends_sent { before.conn with working := before.conn.working - 1 } reply.resp
        reply.keepAlive writes
      have posted := ordered.posted alive
      rw [next, List.map_cons] at posted
      have inOrder : InOrder (fun parsed resp => answers parsed = [resp])
          (results before.conn.log)
          ((responses before.conn.log ++ [reply.resp]) ++ tasks.map Reply.resp) := by
        rwa [List.append_assoc]
      refine ⟨?_, fun _ => ?_⟩
      · rw [AnswersInOrder, sends.results, sends.responses]
        exact inOrder.of_append
      · rw [sends.results, sends.responses]
        exact inOrder
  | stop ready handled => exact ordered.keepQuiet (.stopped _) rfl

end View

namespace SubReactor

/-- The responses are in request order in the runs in which the workers post
their replies in turn and no illegal request overtakes them. -/
theorem answersInOrder_of_takesTurns {c : ConnId} {mode : Bool} {workers : ℕ} {s : SubReactor}
    {view : View} (reaches : ReachableWith View.TakesTurns c mode workers s)
    (shown : s.view c = some view) : view.conn.AnswersInOrder := by
  have ordered : view.Ordered :=
    regular_view_invariant View.Ordered (fun _ => View.ordered_starts)
      (fun regular ordered allowed moves => View.ordered_moves regular ordered allowed moves)
      reaches shown
  exact ordered.sent

/-- Two workers post their replies in the order of the requests. -/
theorem answersInOrder_of_takesTurns_pair :
    ∃ s view, ReachableWith View.TakesTurns 0 true 2 s ∧ s.view 0 = some view ∧
      responses view.conn.log = [buildResponse {}, buildResponse { keepAlive := false }] ∧
      view.conn.AnswersInOrder := by
  rcases exists_of_run View.TakesTurns 0 true 2
    (connecting true ++
      reading [.delivered (ascii "GET / HTTP/1.1\r\n\r\nGET / HTTP/1.0\r\n\r\n")] ++
      [.resume [], .resume [], .resume [], .take, .take, .post 0, .post 0, .drain,
        .task clock acceptAll, .resume [], .task clock acceptAll])
    (fun view => responses view.conn.log)
    [buildResponse {}, buildResponse { keepAlive := false }] (by decide +kernel) with
    ⟨s, view, reaches, shown, looked⟩
  exact ⟨s, view, reaches, shown, looked, answersInOrder_of_takesTurns reaches shown⟩

/-- The worker with the second request posts first: its response closes the
connection in the place of the first. -/
theorem not_answersInOrder_of_overtaking :
    ¬∀ (c : ConnId) (mode : Bool) (workers : ℕ) (s : SubReactor) (view : View),
      Reachable mode workers s → s.view c = some view → view.conn.AnswersInOrder := by
  intro always
  rcases exists_of_run anyMove 0 true 2
    (connecting true ++
      reading [.delivered (ascii "GET / HTTP/1.1\r\n\r\nGET / HTTP/1.0\r\n\r\n")] ++
      [.resume [], .resume [], .resume [], .take, .take, .post 1, .drain,
        .task clock acceptAll])
    (fun view => ((responses view.conn.log)[0]?, (results view.conn.log)[0]?.map answers))
    (some (buildResponse { keepAlive := false }), some [buildResponse {}]) (by decide +kernel) with
    ⟨s, view, reaches, shown, looked⟩
  rw [Prod.mk.injEq] at looked
  rcases always 0 true 2 s view reaches.reachable shown 0 _ looked.1 with
    ⟨parsed, asked, answered⟩
  rw [asked, Option.map_some, answered] at looked
  exact absurd looked.2 (by decide +kernel)

/-- Nothing follows a closing response in the runs in which it is sent alone. -/
theorem closesLast_of_closesAlone {c : ConnId} {mode : Bool} {workers : ℕ} {s : SubReactor}
    {view : View} (reaches : ReachableWith View.ClosesAlone c mode workers s)
    (shown : s.view c = some view) : view.conn.ClosesLast := by
  have closes : view.Closes :=
    regular_view_invariant View.Closes (fun _ => View.closes_starts)
      (fun regular closes allowed moves => View.closes_moves regular closes allowed moves)
      reaches shown
  exact closes.closesLast

/-- The socket takes a closing response at once, and the request behind it is
not answered. -/
theorem closesLast_of_closesAlone_drained :
    ∃ s view, ReachableWith View.ClosesAlone 0 false 0 s ∧ s.view 0 = some view ∧
      responses view.conn.log = [buildResponse { keepAlive := false }] ∧
      view.frame = none ∧ view.conn.ClosesLast := by
  rcases exists_of_run View.ClosesAlone 0 false 0
    (connecting false ++
      reading [.delivered (ascii "GET / HTTP/1.0\r\n\r\nGET / HTTP/1.1\r\n\r\n")] ++
      [.resume acceptAll, .resume [], .resume []])
    (fun view => (responses view.conn.log, view.frame))
    ([buildResponse { keepAlive := false }], none) (by decide +kernel) with
    ⟨s, view, reaches, shown, looked⟩
  rw [Prod.mk.injEq] at looked
  exact ⟨s, view, reaches, shown, looked.1, looked.2, closesLast_of_closesAlone reaches shown⟩

/-- The socket does not take a closing response at once, and the parse loop
answers the request behind it. -/
theorem not_closesLast_of_blocked_close :
    ¬∀ (c : ConnId) (mode : Bool) (workers : ℕ) (s : SubReactor) (view : View),
      Reachable mode workers s → s.view c = some view → view.conn.ClosesLast := by
  intro always
  rcases exists_of_run anyMove 0 false 0
    (connecting false ++
      reading [.delivered (ascii "GET / HTTP/1.0\r\n\r\nGET / HTTP/1.1\r\n\r\n")] ++
      [.resume [], .resume [], .resume []])
    (fun view => responses view.conn.log)
    [buildResponse { keepAlive := false }, buildResponse {}] (by decide +kernel) with
    ⟨s, view, reaches, shown, looked⟩
  have last := always 0 false 0 s view reaches.reachable shown [] _ _ looked
    (.inr ⟨{ keepAlive := false }, rfl, rfl⟩)
  cases last

end SubReactor

end MiniWebServer
