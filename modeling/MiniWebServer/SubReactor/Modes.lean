import MiniWebServer.SubReactor.Delivery
import MiniWebServer.SubReactor.Order

/-!
# Both modes serve alike

With a thread pool the responses of a connection come from workers, in any
order; without one they come from the parse loop. For a client that asks for no
close, or sends a single message, the two cannot be told apart: what a
connection has sent are the responses of the plain server, without the last
`working` ones, which the workers still owe.
-/

namespace MiniWebServer

open Connection HttpProcess

/-- All messages of the stream are requests that keep the connection, or there is
no more than one message. -/
def Modest (stream : List UInt8) : Prop :=
  (∀ parsed ∈ (feed [stream]).1, ∃ req, parsed = .complete req ∧ req.keepAlive = true) ∨
    (feed [stream]).1.length ≤ 1

theorem Connection.checked_of_connected {conn : Connection} (connected : conn.state = .connected) :
    conn.checked = conn :=
  checked_of_not_lingers fun lingers => not_finished_of_connected connected lingers.1

/-- A response that keeps the connection leaves it open. -/
theorem Connection.connected_sent_keepAlive {conn : Connection}
    (connected : conn.state = .connected) {resp : List UInt8} (nonempty : resp ≠ [])
    {writes : List WriteResult} (noFailure : .failed .other ∉ writes) :
    (conn.sent resp true writes).state = .connected := by
  rcases state_sent_keepAlive conn nonempty noFailure with ⟨same, _⟩ | ⟨_, finished, _⟩
  · exact same.trans connected
  · exact absurd finished (not_finished_of_connected connected)

namespace View

variable {before after view : View} {share : Share} {stream : List UInt8} {flag : Bool}

/-- The connection is open, and each of its requests has this keep-alive flag and
is answered or owed. -/
structure Open (flag : Bool) (view : View) : Prop where
  connected : view.conn.state = .connected
  requests : ∀ parsed ∈ results view.conn.log, ∃ req, parsed = .complete req
  tallied : Tallied view.conn
  pool : ∀ job ∈ view.pool, job.req.keepAlive = flag
  tasks : ∀ reply ∈ view.tasks, reply.keepAlive = flag
  sent : ∀ resp ∈ responses view.conn.log, resp = buildResponse { keepAlive := flag }

/-- All messages of the stream are answered. -/
structure Done (stream : List UInt8) (view : View) : Prop where
  found : results view.conn.log = (consume fresh stream).1
  sent : responses view.conn.log = (consume fresh stream).1.flatMap answers
  idle : view.conn.working = 0

inductive Serves (flag : Bool) (stream : List UInt8) (view : View) : Prop where
  | running (isOpen : view.Open flag)
  | finished (done : view.Done stream)

/-- What the messages of a modest stream have in common. -/
structure Fits (flag : Bool) (outputs : List Parsed) : Prop where
  agree : ∀ req, .complete req ∈ outputs → req.keepAlive = flag
  modest : (flag = true ∧ ∀ parsed ∈ outputs, ∃ req, parsed = .complete req) ∨ outputs.length ≤ 1

theorem exists_fits (modest : Modest stream) : ∃ flag, Fits flag (consume fresh stream).1 := by
  rw [Modest, feed_singleton_eq_consume] at modest
  rcases modest with keeps | single
  · refine ⟨true, fun req member => ?_, .inl ⟨rfl, fun parsed member => ?_⟩⟩
    · rcases keeps _ member with ⟨other, same, keepAlive⟩
      cases same
      exact keepAlive
    · rcases keeps parsed member with ⟨req, same, _⟩
      exact ⟨req, same⟩
  · cases outputs : (consume fresh stream).1 with
    | nil => exact ⟨true, by simp, .inr (by simp)⟩
    | cons parsed rest =>
        rw [outputs, List.length_cons] at single
        have none : rest = [] := List.length_eq_zero_iff.mp (by omega)
        subst none
        cases parsed with
        | complete req =>
            refine ⟨req.keepAlive, fun other member => ?_, .inr le_rfl⟩
            rw [List.mem_singleton, Parsed.complete.injEq] at member
            rw [member]
        | _ => exact ⟨true, by simp, .inr le_rfl⟩

/-- What the parser has found is the beginning of what there is to find. -/
theorem Parses.results_prefix (parses : view.Parses) (heard : received view.conn.log <+: stream) :
    results view.conn.log <+: (consume fresh stream).1 := by
  have front := Incremental.Consumer.outputs_prefix_of_prefix consume_resumable fresh heard
  cases parses with
  | live live =>
      rw [live.consumed] at front
      exact (List.prefix_append _ _).trans front
  | refused refused => rwa [refused.consumed] at front

/-- At the event loop the parser has found all there is in what was received. -/
theorem Parses.results_eq (parses : view.Parses) (returned : view.frame = none)
    (alive : view.conn.state ≠ .dead) :
    (consume fresh (received view.conn.log)).1 = results view.conn.log := by
  cases parses with
  | live live => rw [live.consumed_of_settled (by simp [returned]) (by simp [returned]) alive]
  | refused refused => rw [refused.consumed]

namespace Open

theorem keep (isOpen : before.Open flag) (state : after.conn.state = before.conn.state)
    (resultsEq : results after.conn.log = results before.conn.log)
    (responsesEq : responses after.conn.log = responses before.conn.log)
    (working : after.conn.working = before.conn.working) (pool : after.pool = before.pool)
    (tasks : after.tasks = before.tasks) : after.Open flag := by
  refine ⟨state.trans isOpen.connected, ?_, ?_, ?_, ?_, ?_⟩
  · rw [resultsEq]
    exact isOpen.requests
  · rw [Tallied, resultsEq, responsesEq, working]
    exact isOpen.tallied
  · rw [pool]
    exact isOpen.pool
  · rw [tasks]
    exact isOpen.tasks
  · rw [responsesEq]
    exact isOpen.sent

theorem requests_append (isOpen : before.Open flag) {req : HttpRequest}
    (resultsEq : results after.conn.log = results before.conn.log ++ [.complete req]) :
    ∀ parsed ∈ results after.conn.log, ∃ req, parsed = .complete req := by
  intro parsed member
  rw [resultsEq] at member
  rcases List.mem_append.mp member with earlier | last
  · exact isOpen.requests parsed earlier
  · exact ⟨req, List.mem_singleton.mp last⟩

theorem sent_append (isOpen : before.Open flag) {resp : List UInt8}
    (respEq : resp = buildResponse { keepAlive := flag })
    (responsesEq : responses after.conn.log = responses before.conn.log ++ [resp]) :
    ∀ sent ∈ responses after.conn.log, sent = buildResponse { keepAlive := flag } := by
  intro sent member
  rw [responsesEq] at member
  rcases List.mem_append.mp member with earlier | last
  · exact isOpen.sent sent earlier
  · exact (List.mem_singleton.mp last).trans respEq

/-- A message that ends the connection is the only one of the stream. -/
theorem nothing_before (isOpen : before.Open flag) (counted : before.Counted)
    {outputs : List Parsed} (fits : Fits flag outputs) {parsed : Parsed}
    (found : results before.conn.log ++ [parsed] <+: outputs)
    (last : (∀ req, parsed ≠ .complete req) ∨ flag = false) :
    outputs = [parsed] ∧ results before.conn.log = [] ∧ responses before.conn.log = [] ∧
      before.conn.working = 0 := by
  have single : outputs.length ≤ 1 := by
    rcases fits.modest with ⟨keeps, requests⟩ | single
    · rcases last with other | closes
      · rcases requests parsed (found.subset (by simp)) with ⟨req, same⟩
        exact absurd same (other req)
      · exact absurd (closes.symm.trans keeps) (by simp)
    · exact single
  have shorter := found.length_le
  rw [List.length_append, List.length_singleton] at shorter
  have none : results before.conn.log = [] := List.length_eq_zero_iff.mp (by omega)
  have tallied := isOpen.tallied
  have working := counted.working
  rw [Tallied, none, List.length_nil] at tallied
  rw [none, List.nil_append] at found
  refine ⟨(found.eq_of_length (by simp; omega)).symm, none, ?_, by omega⟩
  exact List.length_eq_zero_iff.mp (by omega)

/-- The loop thread answers a request. -/
theorem answered (isOpen : before.Open flag) (counted : before.Counted)
    (fits : Fits flag (consume fresh stream).1) (process : HttpProcess) (rest : Buffer)
    {writes : List WriteResult} (noFailure : .failed .other ∉ writes)
    (found : results before.conn.log ++ [.complete process.current] <+: (consume fresh stream).1)
    (connEq : after.conn = (before.conn.afterParse fresh rest (.complete process.current)).sent
      (buildResponse process.current) process.current.keepAlive writes)
    (pool : after.pool = before.pool) (tasks : after.tasks = before.tasks) :
    after.Serves flag stream := by
  have agree := fits.agree process.current (found.subset (by simp))
  have sends := sends_sent (before.conn.afterParse fresh rest (.complete process.current))
    (buildResponse process.current) process.current.keepAlive writes
  have resultsEq :
      results after.conn.log = results before.conn.log ++ [.complete process.current] := by
    rw [connEq, sends.results]
    simp [afterParse]
  have responsesEq :
      responses after.conn.log = responses before.conn.log ++ [buildResponse process.current] := by
    rw [connEq, sends.responses]
    simp [afterParse]
  cases keepAlive : process.current.keepAlive with
  | true =>
      have built := buildResponse_eq_of_keepAlive process.current { keepAlive := flag } agree
      refine .running ⟨?_, isOpen.requests_append resultsEq, ?_, ?_, ?_,
        isOpen.sent_append built responsesEq⟩
      · rw [connEq, keepAlive]
        have open_ : (before.conn.afterParse fresh rest (.complete process.current)).state =
            .connected := isOpen.connected
        exact connected_sent_keepAlive open_ (buildResponse_ne_nil process.current) noFailure
      · rw [connEq]
        exact isOpen.tallied.answer fresh rest process.current _ _ writes
      · rw [pool]
        exact isOpen.pool
      · rw [tasks]
        exact isOpen.tasks
  | false =>
      rcases isOpen.nothing_before counted fits found (.inr (agree.symm.trans keepAlive)) with
        ⟨outputs, none, unsent, idle⟩
      refine .finished ⟨?_, ?_, ?_⟩
      · rw [resultsEq, outputs, none, List.nil_append]
      · rw [responsesEq, outputs, unsent]
        rfl
      · rw [connEq, sends.working]
        exact idle

/-- A reply that a worker has posted is sent. -/
theorem responded (isOpen : before.Open flag) (counted : before.Counted)
    (fits : Fits flag (consume fresh stream).1)
    (found : results before.conn.log <+: (consume fresh stream).1) {reply : Reply}
    {tasks : List Reply} {writes : List WriteResult} (noFailure : .failed .other ∉ writes)
    (next : before.tasks = reply :: tasks)
    (connEq : after.conn = Connection.sent { before.conn with working := before.conn.working - 1 }
      reply.resp reply.keepAlive writes)
    (pool : after.pool = before.pool) (tasksEq : after.tasks = tasks) :
    after.Serves flag stream := by
  have agree := isOpen.tasks reply (by simp [next])
  have respEq : reply.resp = buildResponse { keepAlive := flag } := by
    rcases reply.built with ⟨req, built, keepAlive⟩
    rw [← built]
    exact buildResponse_eq_of_keepAlive _ _ (keepAlive.trans agree)
  have sends := sends_sent { before.conn with working := before.conn.working - 1 } reply.resp
    reply.keepAlive writes
  have resultsEq : results after.conn.log = results before.conn.log := by
    rw [connEq, sends.results]
  have responsesEq : responses after.conn.log = responses before.conn.log ++ [reply.resp] := by
    rw [connEq, sends.responses]
  cases keepAlive : reply.keepAlive with
  | true =>
      refine .running ⟨?_, ?_, ?_, ?_, ?_, isOpen.sent_append respEq responsesEq⟩
      · rw [connEq, keepAlive]
        have open_ : Connection.state { before.conn with working := before.conn.working - 1 } =
            .connected := isOpen.connected
        exact connected_sent_keepAlive open_ reply.resp_ne_nil noFailure
      · rw [resultsEq]
        exact isOpen.requests
      · rw [connEq]
        exact isOpen.tallied.respond reply.resp reply.keepAlive writes
      · rw [pool]
        exact isOpen.pool
      · rw [tasksEq]
        exact fun other member => isOpen.tasks other (by simp [next, member])
  | false =>
      -- the only request of the stream is the one that is answered
      have single : (consume fresh stream).1.length ≤ 1 := by
        rcases fits.modest with ⟨keeps, _⟩ | single
        · exact absurd ((keeps.symm.trans agree.symm).trans keepAlive) (by simp)
        · exact single
      have tallied := isOpen.tallied
      have working := counted.working
      have shorter := found.length_le
      rw [next, List.length_cons] at working
      rw [Tallied] at tallied
      have unsent : responses before.conn.log = [] := List.length_eq_zero_iff.mp (by omega)
      have whole := found.eq_of_length (by omega)
      have one : (results before.conn.log).length = 1 := by omega
      rcases List.length_eq_one_iff.mp one with ⟨parsed, only⟩
      rcases isOpen.requests parsed (by simp [only]) with ⟨req, rfl⟩
      refine .finished ⟨resultsEq.trans whole, ?_, ?_⟩
      · rw [responsesEq, ← whole, only, unsent, respEq]
        have same := fits.agree req (found.subset (by simp [only]))
        rw [← buildResponse_eq_of_keepAlive req { keepAlive := flag } same]
        rfl
      · rw [connEq, sends.working]
        simp only
        omega

end Open

theorem Done.keep (done : before.Done stream)
    (resultsEq : results after.conn.log = results before.conn.log)
    (responsesEq : responses after.conn.log = responses before.conn.log)
    (working : after.conn.working = before.conn.working) : after.Done stream :=
  ⟨resultsEq.trans done.found, responsesEq.trans done.sent, working.trans done.idle⟩

theorem Done.keepQuiet (done : before.Done stream) (quiet : before.conn.Quiet after.conn) :
    after.Done stream :=
  done.keep quiet.results quiet.responses quiet.working

/-- After the last message nothing is parsed, and no reply is waited for. -/
theorem done_moves (counted : before.Counted) (done : before.Done stream)
    (found : results after.conn.log <+: (consume fresh stream).1)
    (moves : Moves before share after) : after.Done stream := by
  have working := counted.working
  have noMore : ∀ parsed, results after.conn.log ≠ results before.conn.log ++ [parsed] := by
    intro parsed more
    have longer := found.length_le
    rw [more, done.found, List.length_append, List.length_singleton] at longer
    omega
  rw [done.idle] at working
  have noTask : before.tasks = [] := List.length_eq_zero_iff.mp (by omega)
  have noJob : before.pool = 0 := Multiset.card_eq_zero.mp (by omega)
  cases moves with
  | poll revents ready handled reported => exact done.keepQuiet (.refl _)
  | readNothing reads timerId ready next empty =>
      have listened := (listened_heard before.conn timerId reads).quiet (.checked _)
      exact done.keep listened.results listened.responses listened.working
  | read reads timerId ready next more =>
      have listened := listened_heard before.conn timerId reads
      exact done.keep listened.results listened.responses listened.working
  | write now writes eloop ready next =>
      exact done.keepQuiet (Quiet.handleWriteCallBack { conn := before.conn, eloop } now writes)
  | leave parsing dead => exact done.keepQuiet (.refl _)
  | needMore process rest parsing alive parsed => exact done.keep rfl rfl rfl
  | tooLong process rest parsing alive parsed =>
      have quiet := (Quiet.shut (before.conn.afterParse process rest .lineTooLong) alive).trans
        (.checked _)
      refine absurd quiet.results fun same => noMore .lineTooLong (same.trans ?_)
      simp [afterParse]
  | reject writes process rest parsing alive parsed =>
      have sends := sends_sent (before.conn.afterParse process rest .error) build400 false writes
      refine absurd sends.results fun same => noMore .error (same.trans ?_)
      simp [afterParse]
  | answer writes process rest parsing alive parsed alone =>
      have sends := sends_sent (before.conn.afterParse fresh rest (.complete process.current))
        (buildResponse process.current) process.current.keepAlive writes
      refine absurd sends.results fun same => noMore (.complete process.current) (same.trans ?_)
      simp [afterParse]
  | dispatch process rest parsing alive parsed pooled =>
      exact absurd (by simp [afterParse]) (noMore (.complete process.current))
  | raise parsing alive raised => exact done
  | afterResponse sent => exact done.keepQuiet (.checked _)
  | afterRejection sent =>
      have reset : Done stream { before with conn := { before.conn with httpProcess := fresh } } :=
        done.keep rfl rfl rfl
      exact reset.keepQuiet (.checked _)
  | afterBackPost sent => exact done.keepQuiet (.checked _)
  | expire ready handled => exact done.keepQuiet (.died _)
  | post job running =>
      rw [noJob] at running
      exact absurd running (Multiset.notMem_zero job)
  | skip reply tasks ready handled next dead => exact absurd (next.symm.trans noTask) (by simp)
  | respond writes reply tasks ready handled next alive =>
      exact absurd (next.symm.trans noTask) (by simp)
  | stop ready handled => exact done.keepQuiet (.stopped _)

theorem open_moves (regular : before.Regular) (isOpen : before.Open flag)
    (fits : Fits flag (consume fresh stream).1) (allowed : before.KeepsSending stream share)
    (earlier : results before.conn.log <+: (consume fresh stream).1)
    (found : results after.conn.log <+: (consume fresh stream).1)
    (moves : Moves before share after) : after.Serves flag stream := by
  rcases allowed with ⟨undisturbed, reading⟩
  have connected := isOpen.connected
  have counted := regular.counted
  have lives : before.conn.state ≠ .dead := by simp [connected]
  have unchecked : before.conn.checked = before.conn := checked_of_connected connected
  cases moves with
  | poll revents ready handled reported =>
      exact .running (isOpen.keep rfl rfl rfl rfl rfl rfl)
  | readNothing reads timerId ready next empty =>
      have stays := state_heard before.conn timerId undisturbed
      rw [if_neg (reading reads rfl).1] at stays
      rw [checked_of_connected (stays.trans connected)]
      have listened := listened_heard before.conn timerId reads
      exact .running
        (isOpen.keep stays listened.results listened.responses listened.working rfl rfl)
  | read reads timerId ready next more =>
      have stays := state_heard before.conn timerId undisturbed
      rw [if_neg (reading reads rfl).1] at stays
      have listened := listened_heard before.conn timerId reads
      exact .running
        (isOpen.keep stays listened.results listened.responses listened.working rfl rfl)
  | write now writes eloop ready next =>
      have quiet := Quiet.handleWriteCallBack { conn := before.conn, eloop } now writes
      have written := state_handleWriteCallBack { conn := before.conn, eloop } now undisturbed
      rcases written with same | ⟨finished, _⟩
      · exact .running (isOpen.keep same quiet.results quiet.responses quiet.working rfl rfl)
      · exact absurd finished (not_finished_of_connected connected)
  | leave parsing dead => exact absurd dead lives
  | needMore process rest parsing alive parsed =>
      exact .running (isOpen.keep rfl rfl rfl rfl rfl rfl)
  | tooLong process rest parsing alive parsed =>
      have quiet := (Quiet.shut (before.conn.afterParse process rest .lineTooLong) alive).trans
        (.checked _)
      simp only [quiet.results] at found
      simp only [afterParse, results_append] at found
      rcases isOpen.nothing_before counted fits found (.inl (by simp)) with
        ⟨outputs, none, unsent, idle⟩
      refine .finished ⟨?_, ?_, quiet.working.trans idle⟩
      · rw [quiet.results, outputs]
        simp [afterParse, none]
      · rw [quiet.responses, outputs]
        simp [afterParse, unsent, answers]
  | reject writes process rest parsing alive parsed =>
      have sends := sends_sent (before.conn.afterParse process rest .error) build400 false writes
      simp only [sends.results] at found
      simp only [afterParse, results_append] at found
      rcases isOpen.nothing_before counted fits found (.inl (by simp)) with
        ⟨outputs, none, unsent, idle⟩
      refine .finished ⟨?_, ?_, sends.working.trans idle⟩
      · rw [sends.results, outputs]
        simp [afterParse, none]
      · rw [sends.responses, outputs]
        simp [afterParse, unsent, answers]
  | answer writes process rest parsing alive parsed alone =>
      have sends := sends_sent (before.conn.afterParse fresh rest (.complete process.current))
        (buildResponse process.current) process.current.keepAlive writes
      simp only [sends.results] at found
      simp only [afterParse, results_append] at found
      exact isOpen.answered counted fits process rest undisturbed found rfl rfl rfl
  | dispatch process rest parsing alive parsed pooled =>
      simp only [afterParse, results_append] at found
      have tallied := isOpen.tallied
      rw [Tallied] at tallied
      have resultsEq : results (before.conn.afterParse fresh rest
          (.complete process.current)).log = results before.conn.log ++
            [.complete process.current] := by
        simp [afterParse]
      refine .running ⟨connected, isOpen.requests_append resultsEq, ?_, ?_, isOpen.tasks, ?_⟩
      · simp only [Tallied, afterParse, results_append, responses_append, List.length_append]
        simp [tallied, add_assoc]
      · intro job member
        rcases Multiset.mem_cons.mp member with rfl | known
        · exact fits.agree process.current (found.subset (by simp))
        · exact isOpen.pool job known
      · simpa [afterParse] using isOpen.sent
  | raise parsing alive raised => exact .running isOpen
  | afterResponse sent =>
      rw [unchecked]
      exact .running (isOpen.keep rfl rfl rfl rfl rfl rfl)
  | afterRejection sent =>
      have same : Connection.checked { before.conn with httpProcess := fresh } =
          { before.conn with httpProcess := fresh } := checked_of_connected connected
      rw [same]
      exact .running (isOpen.keep rfl rfl rfl rfl rfl rfl)
  | afterBackPost sent =>
      rw [unchecked]
      exact .running (isOpen.keep rfl rfl rfl rfl rfl rfl)
  | expire ready handled => exact undisturbed.elim
  | post job running =>
      refine .running ⟨connected, isOpen.requests, isOpen.tallied, ?_, ?_, isOpen.sent⟩
      · exact fun other member => isOpen.pool other (Multiset.mem_of_mem_erase member)
      · intro reply member
        rcases List.mem_append.mp member with known | last
        · exact isOpen.tasks reply known
        · rw [List.mem_singleton.mp last]
          exact isOpen.pool job running
  | skip reply tasks ready handled next dead => exact absurd dead lives
  | respond writes reply tasks ready handled next alive =>
      exact isOpen.responded counted fits earlier undisturbed next rfl rfl rfl
  | stop ready handled => exact undisturbed.elim

theorem serves_starts {mode : Bool} (starts : Starts mode view) : view.Serves flag stream := by
  cases starts with
  | startConnect self sck process timerId =>
      exact .running ⟨rfl, by simp, rfl, by simp, by simp, by simp⟩

theorem serves_moves (regular : before.Regular) (serves : before.Serves flag stream)
    (fits : Fits flag (consume fresh stream).1) (heard : received before.conn.log <+: stream)
    (allowed : before.KeepsSending stream share) (moves : Moves before share after) :
    received after.conn.log <+: stream ∧ after.Serves flag stream := by
  have heardAfter := heard_moves heard (fun reads member => (allowed.2 reads member).2) moves
  have found := (regular_moves regular moves).parses.results_prefix heardAfter
  refine ⟨heardAfter, ?_⟩
  cases serves with
  | running isOpen =>
      exact open_moves regular isOpen fits allowed (regular.parses.results_prefix heard) found moves
  | finished done => exact .finished (done_moves regular.counted done found moves)

/-- All requests found so far have one answer. -/
theorem Open.exists_owed (isOpen : view.Open flag) (counted : view.Counted)
    (fits : Fits flag (consume fresh stream).1)
    (found : results view.conn.log <+: (consume fresh stream).1) :
    ∃ owed : List (List UInt8),
      responses view.conn.log ++ owed = (results view.conn.log).flatMap answers ∧
        (owed.length : ℤ) = view.conn.working := by
  let resp := buildResponse { keepAlive := flag }
  have sent : responses view.conn.log =
      List.replicate (responses view.conn.log).length resp :=
    List.eq_replicate_of_mem isOpen.sent
  have all : (results view.conn.log).flatMap answers =
      List.replicate (results view.conn.log).length resp := by
    have each : ∀ parsed ∈ results view.conn.log, answers parsed = [resp] := by
      intro parsed member
      rcases isOpen.requests parsed member with ⟨req, rfl⟩
      have agree := fits.agree req (found.subset member)
      exact congrArg (fun bytes => [bytes]) (buildResponse_eq_of_keepAlive _ _ agree)
    rw [List.flatMap_congr each, ← List.map_eq_flatMap, List.map_const']
  have tallied := isOpen.tallied
  have working := counted.working
  rw [Tallied] at tallied
  refine ⟨List.replicate view.conn.working.toNat resp, ?_, ?_⟩
  · rw [sent, all, ← List.replicate_add]
    congr 1
    omega
  · rw [List.length_replicate]
    omega

/-- At the event loop a connection owes as many answers as requests are with the workers. -/
theorem Serves.exists_owed (serves : view.Serves flag stream) (regular : view.Regular)
    (fits : Fits flag (consume fresh stream).1) (heard : received view.conn.log <+: stream)
    (returned : view.frame = none) :
    ∃ owed : List (List UInt8),
      responses view.conn.log ++ owed =
          (consume fresh (received view.conn.log)).1.flatMap answers ∧
        (owed.length : ℤ) = view.conn.working := by
  have found := regular.parses.results_prefix heard
  cases serves with
  | running isOpen =>
      have all := regular.parses.results_eq returned (by simp [isOpen.connected])
      rw [all]
      exact isOpen.exists_owed regular.counted fits found
  | finished done =>
      have front := Incremental.Consumer.outputs_prefix_of_prefix consume_resumable fresh heard
      have back := regular.parses.results_prefix (List.prefix_refl _)
      rw [done.found] at back
      have same := front.eq_of_length (le_antisymm front.length_le back.length_le)
      refine ⟨[], ?_, by simp [done.idle]⟩
      rw [List.append_nil, done.sent, same]

end View

namespace SubReactor

variable {c : ConnId} {mode : Bool} {workers : ℕ} {s : SubReactor} {view : View}
  {stream : List UInt8}

/-- A connection serves its stream, in the mode that the stream fits. -/
theorem exists_serves (modest : Modest stream)
    (reaches : ReachableWith (View.KeepsSending stream) c mode workers s)
    (shown : s.view c = some view) :
    ∃ flag, View.Fits flag (consume fresh stream).1 ∧ received view.conn.log <+: stream ∧
      view.Serves flag stream := by
  rcases View.exists_fits modest with ⟨flag, fits⟩
  refine ⟨flag, fits, ?_⟩
  exact regular_view_invariant
    (fun view => received view.conn.log <+: stream ∧ view.Serves flag stream)
    (fun view starts => ⟨by cases starts; exact List.nil_prefix, View.serves_starts starts⟩)
    (fun regular served allowed moves =>
      View.serves_moves regular served.2 fits served.1 allowed moves) reaches shown

/-- In an undisturbed run, in either mode, with any number of workers: what a
connection at the event loop has sent are the responses of the plain server to what was received, without
those that the workers owe. -/
theorem served_in_both_modes (modest : Modest stream)
    (reaches : ReachableWith (View.KeepsSending stream) c mode workers s)
    (shown : s.view c = some view) (returned : view.frame = none) :
    received view.conn.log <+: stream ∧
      accepted view.conn.log ++ view.conn.writeBuffer.peek =
        (responses view.conn.log).flatten ∧
      ∃ owed : List (List UInt8),
        responses view.conn.log ++ owed = (feed [received view.conn.log]).1.flatMap answers ∧
          (owed.length : ℤ) = view.conn.working := by
  rcases exists_serves modest reaches shown with ⟨flag, fits, heard, serves⟩
  have regular := regular_of_reachable reaches.reachable shown
  rcases serves.exists_owed regular fits heard returned with ⟨owed, all, counted⟩
  rw [feed_singleton_eq_consume]
  exact ⟨heard, regular.conserved, owed, all, counted⟩

/-- Two requests are with two workers, and the second one has posted its reply. -/
theorem served_in_both_modes_owing :
    ∃ (s : SubReactor) (view : View),
      ReachableWith (View.KeepsSending (rootTwice.map Prod.fst).flatten) 0 true 2 s ∧
        s.view 0 = some view ∧ (responses view.conn.log).length = 1 ∧
        ∃ owed : List (List UInt8), owed.length = 1 ∧
          responses view.conn.log ++ owed =
            (feed [received view.conn.log]).1.flatMap answers := by
  rcases exists_of_run (View.KeepsSending (rootTwice.map Prod.fst).flatten) 0 true 2
    (connecting true ++ reading [.delivered (rootTwice.map Prod.fst).flatten] ++
      [.resume [], .resume [], .resume [], .take, .take, .post 1, .drain, .task clock acceptAll,
        .resume []])
    (fun view => (view.frame, view.conn.working, (responses view.conn.log).length)) (none, 1, 1)
    (by decide +kernel) with ⟨s, view, reaches, shown, looked⟩
  rw [Prod.mk.injEq, Prod.mk.injEq] at looked
  rcases looked with ⟨returned, working, one⟩
  have modest : Modest (rootTwice.map Prod.fst).flatten := by
    have serves := keepAliveStream_of_messages requests_rootTwice
    refine .inl fun parsed member => ?_
    rw [feed_singleton_eq_consume, serves.consumed, List.mem_map] at member
    rcases member with ⟨req, inside, rfl⟩
    exact ⟨req, rfl, serves.keepAlive req inside⟩
  rcases (served_in_both_modes modest reaches shown returned).2.2 with ⟨owed, all, counted⟩
  exact ⟨s, view, reaches, shown, one, owed, by omega, all⟩

theorem sent_eq_oneShot_of_idle (modest : Modest stream)
    (reaches : ReachableWith (View.KeepsSending stream) c mode workers s)
    (shown : s.view c = some view) (returned : view.frame = none)
    (idle : view.conn.working = 0) :
    accepted view.conn.log ++ view.conn.writeBuffer.peek = oneShot (received view.conn.log) := by
  rcases exists_serves modest reaches shown with ⟨flag, fits, heard, serves⟩
  have regular := regular_of_reachable reaches.reachable shown
  rcases serves.exists_owed regular fits heard returned with ⟨owed, all, counted⟩
  have none : owed = [] := List.length_eq_zero_iff.mp (by omega)
  rw [regular.conserved, oneShot, feed_singleton_eq_consume, ← all, none, List.append_nil]

end SubReactor

end MiniWebServer
