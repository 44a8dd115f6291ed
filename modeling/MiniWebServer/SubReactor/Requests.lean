import MiniWebServer.Connection.Faults
import MiniWebServer.SubReactor.Projection
import MiniWebServer.SubReactor.Table

/-!
# The requests that a connection has with the workers

Every request that `onHttp` hands to `process` comes back as a task of the loop.
What a connection did is read off its share of the trace: the requests it
dispatched, the back-posted tasks that have started, and the responses it
appended. `working` counts the first that are not among the second.
-/

namespace MiniWebServer

open Connection HttpProcess

/-- The job that a step in the code of a connection hands to `process`. -/
def Connection.Scope.Next.job? : Scope.Next → Option Job
  | .dispatch _ job => some job
  | _ => none

namespace View

/-- The reply whose back-posted task starts in a move. -/
def reply? (view : View) : Share → Option Reply
  | .respond _ => view.tasks.head?
  | _ => none

/-- The response that a move appends, and the reply that it is of. -/
def appends? (view : View) (share : Share) : Option (List UInt8 × Option Reply) :=
  (view.send? share).map fun send => (send.resp, view.reply? share)

/-- A history of a connection, with the jobs that it handed over. -/
abbrev Past :=
  List (View × Share × Option Job)

/-- The replies of the requests that were handed to `process`. -/
def dispatched (past : Past) : List Reply :=
  past.filterMap fun entry => entry.2.2.map Job.reply

/-- The replies whose back-posted tasks have started. -/
def started (past : Past) : List Reply :=
  past.filterMap fun entry => entry.1.reply? entry.2.1

/-- The responses that were appended. -/
def appended (past : Past) : List (List UInt8 × Option Reply) :=
  past.filterMap fun entry => entry.1.appends? entry.2.1

/-- The replies among them. -/
def answered (past : Past) : List Reply :=
  (appended past).filterMap Prod.snd

/-- The requests of a connection are accounted for. -/
structure Accounted (past : Past) (view : View) : Prop where
  balance : (dispatched past : Multiset Reply) =
    (started past : Multiset Reply) + (view.tasks + view.pool.map Job.reply)
  numbered : ∀ reply ∈ dispatched past, reply.ticket < (results view.conn.log).length
  distinct : ((dispatched past).map Reply.ticket).Nodup
  answers : (answered past).Sublist (started past)
  responses : responses view.conn.log = (appended past).map Prod.fst
  own : ∀ resp reply, (resp, some reply) ∈ appended past → resp = reply.resp

theorem length_results_moves {before after : View} {share : Share}
    (moves : Moves before share after) :
    (results before.conn.log).length ≤ (results after.conn.log).length := by
  cases moves with
  | poll => exact le_rfl
  | readNothing reads timerId ready next empty =>
      rw [((listened_heard before.conn timerId reads).quiet (.checked _)).results]
  | read reads timerId ready next more =>
      rw [(listened_heard before.conn timerId reads).results]
  | write now writes eloop ready next =>
      rw [(Quiet.handleWriteCallBack { conn := before.conn, eloop } now writes).results]
  | tooLong process rest parsing alive parsed =>
      have quiet := (Quiet.shut (before.conn.afterParse process rest .lineTooLong) alive).trans
        (.checked _)
      rw [quiet.results]
      simp [afterParse]
  | reject writes process rest parsing alive parsed =>
      rw [(sends_sent _ build400 false writes).results]
      simp [afterParse]
  | answer writes process rest parsing alive parsed alone =>
      rw [(sends_sent _ _ _ writes).results]
      simp [afterParse]
  | dispatch process rest parsing alive parsed pooled => simp [afterParse]
  | leave => exact le_rfl
  | needMore => exact le_rfl
  | raise => exact le_rfl
  | afterResponse sent => rw [(Quiet.checked _).results]
  | afterRejection sent => rw [(Quiet.checked { before.conn with httpProcess := fresh }).results]
  | afterBackPost sent => rw [(Quiet.checked _).results]
  | expire ready handled => rw [(Quiet.died _).results]
  | post => exact le_rfl
  | skip => exact le_rfl
  | respond writes reply tasks ready handled next alive =>
      rw [(sends_sent { before.conn with working := before.conn.working - 1 } reply.resp
        reply.keepAlive writes).results]
  | stop ready handled => rw [(Quiet.stopped _).results]

/-- A move that calls `sendHttpOnLoop` appends what it is called with, and no other move does. -/
theorem sends_or_silent {before after : View} {share : Share} (moves : Moves before share after) :
    (∃ send, before.send? share = some send ∧
        responses after.conn.log = responses before.conn.log ++ [send.resp]) ∨
      before.send? share = none ∧ responses after.conn.log = responses before.conn.log := by
  rcases sending_or_silent moves with ⟨send, sending⟩ | silent
  · exact .inl ⟨send, sending.call, sending.responses_eq⟩
  · refine .inr ⟨?_, silent⟩
    cases moves with
    | poll => rfl
    | readNothing => rfl
    | read => rfl
    | write => rfl
    | leave parsing dead => simp [send?, dead]
    | needMore process rest parsing alive parsed => simp [send?, parsed]
    | tooLong process rest parsing alive parsed => simp [send?, parsed]
    | reject writes process rest parsing alive parsed =>
        rw [(sends_sent _ build400 false writes).responses] at silent
        simp [afterParse] at silent
    | answer writes process rest parsing alive parsed alone =>
        rw [(sends_sent _ _ _ writes).responses] at silent
        simp [afterParse] at silent
    | dispatch process rest parsing alive parsed pooled => simp [send?, parsed, pooled]
    | raise parsing alive raised =>
        simp only [send?]
        split
        · cases parsed : before.conn.httpProcess.parse before.conn.readBuffer with
          | error exception => rfl
          | ok outcome =>
              rcases outcome with ⟨result, process, rest⟩
              rcases raised result process rest parsed with ⟨rfl, pooled⟩
              exact if_pos pooled
        · rfl
    | afterResponse sent => simp [send?, sent]
    | afterRejection sent => simp [send?, sent]
    | afterBackPost sent => simp [send?, sent]
    | expire => rfl
    | post => rfl
    | skip reply tasks ready handled next dead => simp [send?, next, dead]
    | respond writes reply tasks ready handled next alive =>
        rw [(sends_sent { before.conn with working := before.conn.working - 1 } reply.resp
          reply.keepAlive writes).responses] at silent
        simp at silent
    | stop => rfl

/-- The way of a request: from the parse loop to the pool, from there to the
tasks of the loop, and away. -/
inductive Passes (before : View) (share : Share) (after : View) : Prop where
  | dispatches (job : Job) (writes : List WriteResult) (resumes : share = .resume writes)
      (pool : after.pool = job ::ₘ before.pool) (tasks : after.tasks = before.tasks)
      (numbered : job.ticket = (results before.conn.log).length)
      (counted : job.ticket < (results after.conn.log).length)
  | posts (job : Job) (running : job ∈ before.pool) (silent : before.reply? share = none)
      (pool : after.pool = before.pool.erase job)
      (tasks : after.tasks = before.tasks ++ [job.reply])
  | starts (reply : Reply) (begins : before.reply? share = some reply)
      (pool : after.pool = before.pool) (tasks : before.tasks = reply :: after.tasks)
  | stays (silent : before.reply? share = none) (pool : after.pool = before.pool)
      (tasks : after.tasks = before.tasks)

theorem passes_moves {before after : View} {share : Share} (moves : Moves before share after) :
    Passes before share after := by
  cases moves with
  | dispatch process rest parsing alive parsed pooled =>
      exact .dispatches _ _ rfl rfl rfl rfl (by simp [afterParse])
  | post job running => exact .posts job running rfl rfl rfl
  | skip reply tasks ready handled next dead =>
      exact .starts reply (by simp [reply?, next]) rfl next
  | respond writes reply tasks ready handled next alive =>
      exact .starts reply (by simp [reply?, next]) rfl next
  | _ => exact .stays rfl rfl rfl

theorem Passes.handed {before after : View} {share : Share} (passes : Passes before share after)
    {job : Job} (pool : after.pool = job ::ₘ before.pool) :
    (∃ writes, share = .resume writes) ∧ after.tasks = before.tasks ∧
      job.ticket = (results before.conn.log).length ∧
      job.ticket < (results after.conn.log).length := by
  have more := congrArg Multiset.card pool
  rw [Multiset.card_cons] at more
  cases passes with
  | dispatches other writes resumes grown tasks numbered counted =>
      have same : other = job := (Multiset.cons_inj_left _).mp (grown.symm.trans pool)
      subst same
      exact ⟨⟨writes, resumes⟩, tasks, numbered, counted⟩
  | posts other running silent erased tasks =>
      have fewer := Multiset.card_erase_le (a := other) (s := before.pool)
      rw [erased] at more
      omega
  | starts reply begins same tasks =>
      rw [same] at more
      omega
  | stays silent same tasks =>
      rw [same] at more
      omega

/-- No request is lost on the way. -/
theorem Passes.balance {before after : View} {share : Share} {job? : Option Job}
    (passes : Passes before share after)
    (handed : ∀ job, job? = some job ↔ after.pool = job ::ₘ before.pool) :
    ((job?.map Job.reply).toList : Multiset Reply) +
        (before.tasks + before.pool.map Job.reply) =
      ((before.reply? share).toList : Multiset Reply) +
        (after.tasks + after.pool.map Job.reply) := by
  cases given : job? with
  | some job =>
      have pool := (handed job).mp given
      rcases passes.handed pool with ⟨⟨writes, rfl⟩, tasks, _⟩
      rw [pool, tasks, Multiset.map_cons]
      simp [reply?]
  | none =>
      cases passes with
      | dispatches job writes resumes pool tasks numbered counted =>
          rw [(handed job).mpr pool] at given
          cases given
      | posts job running silent pool tasks =>
          have taken := congrArg (Multiset.map Job.reply) (Multiset.cons_erase running)
          rw [Multiset.map_cons] at taken
          rw [silent, pool, tasks, ← taken]
          simp [← Multiset.coe_add, add_assoc]
      | starts reply begins pool tasks =>
          rw [begins, pool, tasks, ← Multiset.cons_coe, Multiset.cons_add]
          simp
      | stays silent pool tasks => rw [silent, pool, tasks]; rfl

theorem resp_of_send? {view : View} {share : Share} {send : Send} {reply : Reply}
    (call : view.send? share = some send) (begins : view.reply? share = some reply) :
    send.resp = reply.resp := by
  cases share with
  | respond writes =>
      rcases List.head?_eq_some_iff.mp begins with ⟨rest, waiting⟩
      simp only [send?, waiting] at call
      split at call
      · cases call
      · cases call
        rfl
  | _ => cases begins

theorem accounted_moves {past : Past} {before after : View} {share : Share} {job? : Option Job}
    (accounted : Accounted past before) (moves : Moves before share after)
    (handed : ∀ job, job? = some job ↔ after.pool = job ::ₘ before.pool) :
    Accounted (past ++ [(before, share, job?)]) after := by
  have passes := passes_moves moves
  have monotone := length_results_moves moves
  have dispatchedEq : dispatched (past ++ [(before, share, job?)]) =
      dispatched past ++ (job?.map Job.reply).toList := by
    cases given : job? <;> simp [dispatched, List.filterMap_append]
  have startedEq : started (past ++ [(before, share, job?)]) =
      started past ++ (before.reply? share).toList := by
    cases given : before.reply? share <;> simp [started, List.filterMap_append, given]
  have appendedEq : appended (past ++ [(before, share, job?)]) =
      appended past ++ (before.appends? share).toList := by
    cases given : before.appends? share <;> simp [appended, List.filterMap_append, given]
  refine ⟨?_, ?_, ?_, ?_, ?_, ?_⟩
  · rw [dispatchedEq, startedEq, ← Multiset.coe_add, ← Multiset.coe_add, accounted.balance,
      add_assoc, add_comm _ (Multiset.ofList _), passes.balance handed, ← add_assoc]
  · rw [dispatchedEq]
    intro reply member
    rcases List.mem_append.mp member with earlier | new
    · exact (accounted.numbered reply earlier).trans_le monotone
    · rw [Option.mem_toList, Option.map_eq_some_iff] at new
      rcases new with ⟨job, given, rfl⟩
      exact (passes.handed ((handed job).mp given)).2.2.2
  · rw [dispatchedEq, List.map_append]
    refine List.nodup_append.mpr ⟨accounted.distinct, ?_, ?_⟩
    · cases job? <;> simp
    · intro ticket earlier other new
      rw [List.mem_map] at earlier new
      rcases earlier with ⟨reply, known, rfl⟩
      rcases new with ⟨fresh, given, rfl⟩
      rw [Option.mem_toList, Option.map_eq_some_iff] at given
      rcases given with ⟨job, given, rfl⟩
      have smaller := accounted.numbered reply known
      have numbered := (passes.handed ((handed job).mp given)).2.2.1
      simp only [Job.reply]
      omega
  · rw [answered, appendedEq, startedEq, List.filterMap_append]
    apply accounted.answers.append
    unfold appends?
    cases before.send? share with
    | none => exact List.nil_sublist _
    | some send =>
        cases before.reply? share <;> simp
  · rw [appendedEq, List.map_append, ← accounted.responses]
    rcases sends_or_silent moves with ⟨send, call, appends⟩ | ⟨noCall, same⟩
    · simp [appends, appends?, call]
    · simp [same, appends?, noCall]
  · rw [appendedEq]
    intro resp reply member
    rcases List.mem_append.mp member with earlier | new
    · exact accounted.own resp reply earlier
    · rw [Option.mem_toList, appends?, Option.map_eq_some_iff] at new
      rcases new with ⟨send, call, entry⟩
      rw [Prod.mk.injEq] at entry
      rw [← entry.1]
      exact resp_of_send? call entry.2

/-- A reply whose task starts is appended, unless the connection is dead. -/
theorem appends?_of_reply? {before after : View} {share : Share} {reply : Reply}
    (counted : before.Counted) (idle : before.Idle) (moves : Moves before share after)
    (begins : before.reply? share = some reply) :
    before.appends? share = some (reply.resp, some reply) := by
  cases moves with
  | skip other tasks ready handled next dead =>
      have working := counted.working
      rw [idle dead, next, List.length_cons] at working
      omega
  | respond writes other tasks ready handled next alive =>
      rw [appends?, send?_respond next alive, begins]
      rw [reply?, next, List.head?_cons, Option.some.injEq] at begins
      rw [begins]
      rfl
  | _ => cases begins

/-- What holds of a connection and its history in every run. -/
structure Served (past : Past) (view : View) : Prop where
  regular : view.Regular
  accounted : Accounted past view
  spared : (∀ entry ∈ past, entry.1.Spared entry.2.1) → view.Idle ∧ answered past = started past

theorem served_moves {past : Past} {before after : View} {share : Share} {job? : Option Job}
    (served : Served past before) (moves : Moves before share after)
    (handed : ∀ job, job? = some job ↔ after.pool = job ::ₘ before.pool) :
    Served (past ++ [(before, share, job?)]) after := by
  have regular := served.regular
  refine ⟨regular_moves regular moves, accounted_moves served.accounted moves handed, ?_⟩
  intro spared
  rcases served.spared fun entry member => spared entry (List.mem_append_left _ member) with
    ⟨idle, complete⟩
  have last := spared _ (List.mem_append_right past (List.mem_singleton_self _))
  refine ⟨idle_moves regular.wired regular.counted idle last moves, ?_⟩
  have startedEq : started (past ++ [(before, share, job?)]) =
      started past ++ (before.reply? share).toList := by
    cases given : before.reply? share <;> simp [started, List.filterMap_append, given]
  have answeredEq : answered (past ++ [(before, share, job?)]) =
      answered past ++ ((before.appends? share).bind Prod.snd).toList := by
    cases given : before.appends? share with
    | none => simp [answered, appended, List.filterMap_append, given]
    | some entry =>
        rcases entry with ⟨resp, _ | reply⟩ <;>
          simp [answered, appended, List.filterMap_append, given]
  rw [startedEq, answeredEq, complete]
  cases begins : before.reply? share with
  | some reply => rw [appends?_of_reply? regular.counted idle moves begins]; rfl
  | none =>
      unfold appends?
      rw [begins]
      cases before.send? share <;> rfl

theorem accounted_starts {mode : Bool} {view : View} (starts : Starts mode view) :
    Accounted [] view := by
  cases starts with
  | startConnect self sck process timerId =>
      refine ⟨rfl, ?_, List.nodup_nil, List.Sublist.refl _, rfl, ?_⟩
      · intro reply member
        cases member
      · intro resp reply member
        cases member

end View

namespace SubReactor

/-- The job that a step hands to `process`. -/
def dispatched? (s : SubReactor) : Action → Option Job
  | .resume writes =>
      match s.frame with
      | none => none
      | some (c, frame) =>
          (s.heap c).bind fun conn =>
            (Scope.resume { conn, eloop := s.eloop } writes frame).job?
  | _ => none

section

variable {mode : Bool} {s next : SubReactor} {action : Action} {c : ConnId} {before after : View}

theorem action_of_share_resume {writes : List WriteResult}
    (shared : s.share c action = some (.resume writes)) : action = .resume writes := by
  cases action with
  | resume other =>
      simp only [share] at shared
      split at shared
      · cases shared
      · split at shared <;> cases shared
        rfl
  | poll ready hastime => simp [share] at shared
  | handle now reads other =>
      simp only [share] at shared
      grind
  | expire =>
      simp only [share] at shared
      grind
  | post index =>
      simp only [share] at shared
      grind
  | task now other =>
      simp only [share] at shared
      grind
  | _ => cases shared

/-- A step hands over the job that comes into the pool. -/
theorem dispatched?_iff (valid : s.Valid mode) (stepped : s.step action = some next)
    (shown : s.view c = some before) (shownAfter : next.view c = some after) {part : Share}
    (shared : s.share c action = some part) (moves : View.Moves before part after) (job : Job) :
    s.dispatched? action = some job ↔ after.pool = job ::ₘ before.pool := by
  have passes := View.passes_moves moves
  by_cases resumes : ∃ writes, action = .resume writes
  · rcases resumes with ⟨writes, rfl⟩
    rcases Option.map_eq_some_iff.mp shown with ⟨conn, found, rfl⟩
    rcases Option.map_eq_some_iff.mp shownAfter with ⟨object, foundAfter, rfl⟩
    have resumed : s.resume writes = some next := by
      unfold step at stepped
      split at stepped
      · cases stepped
      · exact stepped
    have unchanged : ∀ {moved : SubReactor}, moved.queue = s.queue → moved.running = s.running →
        moved.refused = s.refused →
        (none = some job ↔ (moved.viewOf c object).pool = job ::ₘ (s.viewOf c conn).pool) := by
      intro moved queue running refused
      have same : (moved.viewOf c object).pool = (s.viewOf c conn).pool := by
        simp only [viewOf, queue, running, refused]
      rw [same]
      constructor
      · intro given
        cases given
      · intro grown
        exact absurd (congrArg Multiset.card grown) (by simp)
    unfold resume at resumed
    cases framed : s.frame with
    | none =>
        rw [framed] at resumed
        cases resumed
    | some entry =>
        rcases entry with ⟨self, frame⟩
        have own : self = c := by
          by_contra other
          simp [share, framed, other] at shared
        subst own
        have framedView : (s.viewOf self conn).frame = some frame := by simp [viewOf, framed]
        have continues := continues_resume framedView s.eloop writes
        change Continues _ _ _ (Scope.resume { conn, eloop := s.eloop } writes frame) at continues
        simp only [framed, found, Option.map_some, Option.some.injEq] at resumed
        simp only [dispatched?, framed, found, Option.bind_some]
        revert resumed continues
        generalize Scope.resume { conn, eloop := s.eloop } writes frame = outcome
        intro continues resumed
        cases outcome with
        | go scope frame =>
            subst resumed
            exact unchanged rfl rfl rfl
        | dispatch scope other =>
            subst resumed
            have selfEq : other.self = self :=
              continues.2.2.trans (valid.heap self conn found).2.1
            have grown : (viewOf { s.leave self scope (some .parseLoop) with
                queue := s.queue ++ [other] } self object).pool =
                  other ::ₘ (s.viewOf self conn).pool :=
              pool_viewOf_append selfEq
            rw [grown, Multiset.cons_inj_left]
            exact Option.some_inj
        | raise exception =>
            subst resumed
            exact unchanged rfl rfl rfl
  · have silent : s.dispatched? action = none := by
      cases action with
      | resume writes => exact absurd ⟨writes, rfl⟩ resumes
      | _ => rfl
    rw [silent]
    constructor
    · intro given
      cases given
    intro pool
    rcases (passes.handed pool).1 with ⟨writes, rfl⟩
    exact absurd ⟨writes, action_of_share_resume shared⟩ resumes

theorem valid_of_step (mode : Bool) {s : SubReactor} {action : Action} {next : SubReactor}
    (valid : s.Valid mode) (stepped : s.step action = some next) : next.Valid mode :=
  (follows_step valid 0 stepped).valid

/-- A connection of a reactor with the jobs that it hands over. -/
def requestPart (mode : Bool) (c : ConnId) :
    Transition.Part step View (Share × Option Job) where
  valid := Valid mode
  valid_step := @valid_of_step mode
  view := view c
  label := fun s action => (share c s action).map fun part => (part, s.dispatched? action)
  moves := fun before entry after => View.Moves before entry.1 after ∧
    ∀ job, entry.2 = some job ↔ after.pool = job ::ₘ before.pool
  appears := View.Starts mode
  follows := by
    intro s action next after valid stepped shown
    rcases (follows_step valid c stepped).moves _ shown with appeared | ⟨before, shownBefore, moved⟩
    · exact .inl appeared
    · refine .inr ⟨before, shownBefore, ?_⟩
      rcases moved with ⟨idle, same⟩ | ⟨part, shared, moves⟩
      · exact .inl ⟨by rw [idle]; rfl, same⟩
      · exact .inr ⟨(part, s.dispatched? action), by rw [shared]; rfl, moves,
          dispatched?_iff valid stepped shownBefore shown shared moves⟩

/-- The history of a connection in a run. -/
def pastOf (mode : Bool) (c : ConnId) (trace : List (SubReactor × Action)) : View.Past :=
  (requestPart mode c).history trace

theorem view_eq_none_of_step (valid : s.Valid mode) (stepped : s.step action = some next)
    (hidden : next.view c = none) : s.view c = none := by
  cases found : s.heap c with
  | none => rw [view, found, Option.map_none]
  | some conn =>
      have made := (valid.heap c conn found).1.trans_le (tables_step stepped).made
      rcases (follows_step valid c stepped).valid.kept c made with ⟨after, foundAfter, _⟩
      rw [view, foundAfter] at hidden
      cases hidden

theorem served_of_traces {workers : ℕ} {trace : List (SubReactor × Action)}
    (traces : Transition.Traces step Transition.anyAction (init mode workers) trace s)
    (shown : s.view c = some before) : View.Served (pastOf mode c trace) before := by
  have lifted : Transition.Traces step ((requestPart mode c).lift fun _ _ => True)
      (init mode workers) trace s :=
    traces.weaken fun _ _ _ _ _ _ _ => trivial
  refine ((requestPart mode c).history_invariant View.Served (valid_init mode workers) rfl
    (fun valid stepped hidden => view_eq_none_of_step valid stepped hidden) ?_ ?_ lifted).1
    before shown
  · intro fresh starts
    refine ⟨View.regular_starts starts, View.accounted_starts starts, fun _ => ⟨?_, rfl⟩⟩
    cases starts with
    | startConnect self sck process timerId => exact fun dead => by cases dead
  · intro past before share after served _ moves
    exact View.served_moves served moves.1 moves.2

/-- The replies that workers or the loop still have are those that were
dispatched and have not started. -/
theorem working_eq_length {past : View.Past} {view : View} (counted : view.Counted)
    (accounted : View.Accounted past view) :
    view.conn.working =
      ((View.dispatched past).filter fun reply => reply ∉ View.started past).length := by
  have nodup : (View.dispatched past : Multiset Reply).Nodup := accounted.distinct.of_map _
  have balance := accounted.balance
  rw [balance] at nodup
  rcases Multiset.nodup_add.mp nodup with ⟨_, _, disjoint⟩
  have waiting : (View.dispatched past : Multiset Reply).filter (· ∉ View.started past) =
      view.tasks + view.pool.map Job.reply := by
    rw [balance, Multiset.filter_add]
    have gone : (View.started past : Multiset Reply).filter (· ∉ View.started past) = 0 :=
      Multiset.filter_eq_nil.mpr fun reply member => not_not.mpr member
    have kept : ((view.tasks : Multiset Reply) + view.pool.map Job.reply).filter
        (· ∉ View.started past) = view.tasks + view.pool.map Job.reply :=
      Multiset.filter_eq_self.mpr fun reply member =>
        Multiset.disjoint_right.mp disjoint member
    rw [gone, kept, zero_add]
  have sizes := congrArg Multiset.card waiting
  rw [Multiset.filter_coe, Multiset.coe_card, Multiset.card_add, Multiset.coe_card,
    Multiset.card_map] at sizes
  rw [sizes, counted.working]
  push_cast
  rfl

/-- `working` counts the requests that were dispatched and whose back-posted task
has not started. A connection dies with such a request only by a fatal error, by
idle expiry or through `stop`; without them each reply that starts is appended, and
none is appended twice. -/
theorem working_counts_in_flight {workers : ℕ} {trace : List (SubReactor × Action)}
    (traces : Transition.Traces step Transition.anyAction (init mode workers) trace s)
    {conn : Connection} (found : s.heap c = some conn) :
    let past := pastOf mode c trace
    View.Accounted past (s.viewOf c conn) ∧
      conn.working =
        ((View.dispatched past).filter fun reply => reply ∉ View.started past).length ∧
      (View.answered past).Nodup ∧
      ((∀ entry ∈ past, entry.1.Spared entry.2.1) →
        View.answered past = View.started past ∧
          (conn.working = 0 → (View.answered past).Perm (View.dispatched past))) ∧
      ∀ action next after, s.step action = some next → next.heap c = some after →
        (∀ part ∈ s.share c action, (s.viewOf c conn).Spared part) →
        conn.deathCount < after.deathCount → after.working = 0 := by
  intro past
  have served : View.Served past (s.viewOf c conn) :=
    served_of_traces traces (by rw [view, found, Option.map_some])
  have accounted := served.accounted
  have working := working_eq_length served.regular.counted accounted
  have nodup : (View.dispatched past).Nodup := accounted.distinct.of_map _
  have nodupStarted : (View.started past).Nodup := by
    have both : (View.dispatched past : Multiset Reply).Nodup := nodup
    rw [accounted.balance] at both
    exact (Multiset.nodup_add.mp both).1
  refine ⟨accounted, working, accounted.answers.nodup nodupStarted, ?_, ?_⟩
  · intro spared
    have complete := (served.spared spared).2
    refine ⟨complete, fun none => ?_⟩
    rw [complete]
    have counted := served.regular.counted.working
    have nothing : (s.viewOf c conn).tasks = [] ∧ (s.viewOf c conn).pool = 0 := by
      have zero : (s.viewOf c conn).conn.working = 0 := none
      rw [zero] at counted
      exact ⟨List.length_eq_zero_iff.mp (by omega), Multiset.card_eq_zero.mp (by omega)⟩
    have balance := accounted.balance
    rw [nothing.1, nothing.2] at balance
    exact (Multiset.coe_eq_coe.mp (by simpa using balance)).symm
  · intro action next after stepped foundAfter spared died
    have valid := valid_of_reachable traces.reaches
    have shownAfter : next.view c = some (next.viewOf c after) := by
      rw [view, foundAfter, Option.map_some]
    have shown : s.view c = some (s.viewOf c conn) := by rw [view, found, Option.map_some]
    rcases (follows_step valid c stepped).moves _ shownAfter with ⟨hidden, _⟩ | ⟨before, same, moved⟩
    · exact absurd (shown.symm.trans hidden) (by simp)
    · rw [shown, Option.some.injEq] at same
      subst same
      rcases moved with ⟨_, same⟩ | ⟨part, shared, moves⟩
      · have unchanged : after = conn := congrArg View.conn same
        rw [unchanged] at died
        exact absurd died (lt_irrefl _)
      · exact View.working_eq_zero_of_death served.regular.wired (spared part shared) moves died

/-- Two requests are dispatched; the reply to the first is sent, the second waits. -/
theorem working_counts_in_flight_second :
    ∃ trace s conn, Transition.Traces step Transition.anyAction (init true 1) trace s ∧
      s.heap 0 = some conn ∧ conn.working = 1 ∧
      (conn.working =
        ((View.dispatched (pastOf true 0 trace)).filter
          fun reply => reply ∉ View.started (pastOf true 0 trace)).length) ∧
      (View.answered (pastOf true 0 trace)).Nodup := by
  have ran : ((Transition.run step Transition.anyAction (init true 1)
      (connecting true ++
        reading [.delivered (ascii "GET / HTTP/1.1\r\n\r\nGET / HTTP/1.1\r\n\r\n")] ++
        [.resume [], .resume [], .resume [], .take, .post 0, .drain,
          .task clock acceptAll])).bind fun s => (s.heap 0).map Connection.working) = some 1 := by
    decide +kernel
  rcases Option.bind_eq_some_iff.mp ran with ⟨s, ran, looked⟩
  rcases Option.map_eq_some_iff.mp looked with ⟨conn, found, working⟩
  have traces := Transition.traces_of_run ran
  rcases working_counts_in_flight traces found with ⟨_, counts, once, _⟩
  exact ⟨_, s, conn, traces, found, working, counts, once⟩

end

end SubReactor

end MiniWebServer
