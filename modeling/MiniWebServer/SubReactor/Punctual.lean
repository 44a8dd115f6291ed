import MiniWebServer.SubReactor.Turns

/-!
# The timers of a reactor are punctual

A reactor drives its timer queue through the code of its connections, and the
second loop of `handleRead` erases timers one by one while this code runs. The
clock is armed at the first timer all the same, and the timers stay in the order
of their expirations, so a timer pass misses no connection that is idle.
-/

namespace MiniWebServer

open Connection

namespace SubReactor

section

variable {mode : Bool} {workers : ℕ} {s next : SubReactor} {action : Action}

theorem armed_foldl_stopConnection (armed : s.eloop.timerQueue.Armed)
    (entries : List (SocketId × ConnId)) :
    (entries.foldl stopConnection s).eloop.timerQueue.Armed := by
  induction entries generalizing s with
  | nil => exact armed
  | cons entry rest ih =>
      refine ih ?_
      unfold stopConnection
      split
      · exact armed
      · exact (Scope.Acts.stop _).armed armed

theorem armed_resume (armed : s.eloop.timerQueue.Armed) {writes : List WriteResult}
    (stepped : s.resume writes = some next) : next.eloop.timerQueue.Armed := by
  unfold resume at stepped
  split at stepped
  · cases stepped
  · next c frame framed =>
    rw [Option.map_eq_some_iff] at stepped
    rcases stepped with ⟨conn, found, stepped⟩
    have acts := Scope.acts_resume { conn, eloop := s.eloop } writes frame
    revert stepped acts
    generalize Scope.resume _ writes frame = outcome
    intro stepped acts
    subst stepped
    cases outcome with
    | go scope frame => exact acts.armed armed
    | dispatch scope job => exact acts.armed armed
    | raise exception => exact armed

theorem armed_task (armed : s.eloop.timerQueue.Armed) {now : Timespec} {writes : List WriteResult}
    (stepped : s.task now writes = some next) : next.eloop.timerQueue.Armed := by
  unfold task at stepped
  split at stepped
  · next done func todo framed phased =>
    cases func with
    | addConnection sck taskSubmit =>
        cases stepped
        exact (Scope.Acts.startConnect _ now).armed armed
    | removeConnection self =>
        simp only [runTask, Option.map_eq_some_iff] at stepped
        rcases stepped with ⟨conn, found, stepped⟩
        subst stepped
        exact armed
    | respond self reply =>
        simp only [runTask, Option.map_eq_some_iff] at stepped
        rcases stepped with ⟨conn, found, stepped⟩
        subst stepped
        exact (Scope.Acts.respond _ reply writes).armed armed
    | stop =>
        cases stepped
        exact armed_foldl_stopConnection
          (s := { s with phase := .running (done ++ [.stop]) todo }) armed s.connections
  · cases stepped

theorem armed_step (valid : s.Valid mode) (timed : s.Timed) (armed : s.eloop.timerQueue.Armed)
    (stepped : s.step action = some next) : next.eloop.timerQueue.Armed := by
  have whole := stepped
  unfold step at stepped
  split at stepped
  · cases stepped
  · next running =>
    have runs : s.failure = none := by simpa using running
    cases action with
    | resume writes => exact armed_resume armed stepped
    | task now writes => exact armed_task armed stepped
    | expire =>
        cases phased : s.phase with
        | expiring ids =>
            cases ids with
            | nil =>
                simp only [expire, timed.ready _ phased, phased, Option.some.injEq] at stepped
                subst stepped
                exact TimerQueue.armed_refreshClock _
            | cons id rest =>
                rcases exists_step_expire timed runs phased with
                  ⟨timer, after, _, steppedAfter, _, _, queueEq⟩
                rw [whole, Option.some.injEq] at steppedAfter
                subst steppedAfter
                have deleted := TimerQueue.armed_deleteTimer armed id
                rw [queueEq, TimerQueue.timers_deleteTimer, OrderedMap.erase_erase,
                  ← TimerQueue.timers_deleteTimer]
                exact deleted
        | _ => simp [expire, phased] at stepped
    | handle now reads writes =>
        simp only [handle] at stepped
        split at stepped
        · next c callback batch hastime framed phased =>
          rw [Option.map_eq_some_iff] at stepped
          rcases stepped with ⟨conn, found, stepped⟩
          subst stepped
          cases callback with
          | readCallBack => exact (Scope.Acts.handleReadCallBack _ now reads).armed armed
          | writeCallBack => exact (Scope.Acts.handleWriteCallBack _ now writes).armed armed
        · cases stepped
    | addConnection taskSubmit =>
        cases stepped
        simpa using armed
    | stop =>
        cases stepped
        simpa using armed
    | poll ready hastime =>
        simp only [poll] at stepped
        split at stepped <;> cases stepped
        exact armed
    | timer now =>
        simp only [timer] at stepped
        split at stepped
        · split at stepped <;> cases stepped <;> exact armed
        · cases stepped
    | drain =>
        simp only [drain] at stepped
        split at stepped <;> cases stepped
        exact armed
    | endLoop =>
        simp only [endLoop] at stepped
        split at stepped <;> cases stepped
        exact armed
    | take =>
        simp only [take] at stepped
        split at stepped
        · cases stepped
        · split at stepped <;> cases stepped
          exact armed
    | post index =>
        simp only [post, Option.map_eq_some_iff] at stepped
        rcases stepped with ⟨job, _, stepped⟩
        subst stepped
        split
        · exact armed
        · simpa using armed
    | destroy gone => exact absurd (stepped.symm.trans (destroy_eq_none valid gone)) (by simp)

theorem armed_of_reachable (reachable : Reachable mode workers s) : s.eloop.timerQueue.Armed := by
  refine reachable.reachable_invariant (fun s => s.eloop.timerQueue.Armed) rfl ?_
  intro state action next reachable armed _ stepped
  exact armed_step (valid_of_reachable reachable) (timed_of_reachable reachable) armed stepped

/-- A timer expires no earlier than those of smaller ids. -/
def InTime (timers : OrderedMap ℤ (Timer ConnId)) : Prop :=
  timers.entries.Pairwise fun first second =>
    second.2.expiration.before first.2.expiration = false

theorem inTime_of_runs {one other : Clockwork} (inTime : InTime one.timers)
    (runs : Relation.ReflTransGen Clockwork.Runs one other) : InTime other.timers := by
  refine Clockwork.invariant_of_runs (fun clockwork => InTime clockwork.timers) ?_ inTime runs
  rintro first second ordered ⟨c, before, after, shown, settles⟩
  have ordered : InTime before.timers := shown.timers ▸ ordered
  rcases settles.timers with ⟨same, _⟩ | ⟨erased, _⟩
  · rw [Clockwork.put, same]
    exact ordered
  · rw [Clockwork.put, erased]
    exact ordered.filter _

/-- A timer of the latest reading and with a new id comes last. -/
theorem inTime_insert {timers : OrderedMap ℤ (Timer ConnId)} (inTime : InTime timers) {id : ℤ}
    {timer : Timer ConnId} (fresh : ∀ entry ∈ timers.entries, entry.1 < id)
    (latest : ∀ entry ∈ timers.entries,
      timer.expiration.before entry.2.expiration = false) : InTime (timers.insert id timer) := by
  rw [InTime, OrderedMap.entries_insert_of_lt fresh, List.pairwise_append]
  refine ⟨inTime, List.pairwise_singleton _ _, ?_⟩
  intro entry member new newMember
  rw [List.mem_singleton.mp newMember]
  exact latest entry member

/-- No timer has an id that was not issued. -/
theorem key_le_counter (timed : s.Timed) (issued : s.clockwork.Issued)
    {entry : ℤ × Timer ConnId} (member : entry ∈ s.timers.entries) :
    entry.1 ≤ s.clockwork.counter := by
  rcases timed.kept entry member with ⟨conn, found, known, _⟩
  rw [← known]
  exact issued.issued _ conn found

/-- A refresh takes a new id, if the ids grow. -/
theorem counter_lt_nextTimerId {counter : ℤ} {queue : TimerQueue ConnId}
    (same : counter = queue.timerId) (grows : counter ≤ queue.nextTimerId) :
    counter < queue.nextTimerId := by
  apply lt_of_le_of_ne grows
  rw [same]
  exact queue.nextTimerId_ne.symm

theorem inTime_treats (timed : s.Timed) (issued : s.clockwork.Issued) (inTime : InTime s.timers)
    (treats : Treats s action next) (grows : s.clockwork.counter ≤ next.clockwork.counter)
    (latest : ∀ c now, s.refresh? action = some (c, now) → ∀ entry ∈ s.timers.entries,
      (afterIdle now).before entry.2.expiration = false) : InTime next.timers := by
  have known : ∀ {entry}, entry ∈ s.timers.entries → entry.1 ≤ s.clockwork.counter :=
    fun member => key_le_counter timed issued member
  cases treats with
  | runs silent runs phase => exact @inTime_of_runs s.clockwork _ inTime runs
  | refreshes c now before reads shown alive runs phase =>
      refine inTime_of_runs ?_ runs
      let left := before.deleteTimerCallBack
      have counterLeft : s.clockwork.counter = left.eloop.timerQueue.timerId := by
        rw [shown.counter]
        exact (TimerQueue.timerId_deleteTimer _ _).symm
      have counterNext : next.clockwork.counter = left.eloop.timerQueue.nextTimerId := by
        refine Clockwork.invariant_of_runs (fun clockwork => clockwork.counter = _)
          (fun same runs => (Clockwork.counter_of_runs runs).trans same) ?_ runs
        rfl
      have fresh := counter_lt_nextTimerId counterLeft (counterNext ▸ grows)
      have within : ∀ entry ∈ left.timers.entries, entry ∈ s.timers.entries := by
        intro entry member
        rw [Scope.timers_deleteTimerCallBack, OrderedMap.mem_entries_erase] at member
        exact (congrArg OrderedMap.entries shown.timers).symm ▸ member.1
      have ordered : InTime left.timers := by
        rw [Scope.timers_deleteTimerCallBack, ← shown.timers]
        exact inTime.filter _
      refine inTime_insert ordered ?_ ?_
      · intro entry member
        exact (known (within entry member)).trans_lt fresh
      · intro entry member
        exact latest c now reads entry (within entry member)
  | starts now before reads timers counter alive self clockworkEq phase =>
      have timersEq : next.timers = (before.addTimerCallBack now).timers :=
        congrArg Clockwork.timers clockworkEq
      have counterNext : next.clockwork.counter = before.eloop.timerQueue.nextTimerId :=
        congrArg Clockwork.counter clockworkEq
      have fresh : s.clockwork.counter < before.eloop.timerQueue.nextTimerId :=
        counter_lt_nextTimerId counter (counterNext ▸ grows)
      rw [timersEq, Scope.timers_addTimerCallBack, ← timers]
      refine inTime_insert inTime ?_ (latest _ now reads)
      intro entry member
      exact (known member).trans_lt fresh
  | expires id rest timer before expire phased found shown clockworkEq frame phase =>
      have timersEq : next.timers = before.handleDead.timers.erase id :=
        congrArg Clockwork.timers clockworkEq
      have died := Clockwork.Runs.put timer.callBack before before.handleDead shown
        (Scope.Settles.handleDead before)
      have ordered := @inTime_of_runs s.clockwork _ inTime (.single died)
      rw [timersEq]
      exact ordered.filter _

theorem NeverDecreases.of_append {trace more : List (SubReactor × Action)}
    (monotonic : NeverDecreases (trace ++ more)) : NeverDecreases trace := by
  rw [NeverDecreases, readings, List.filterMap_append] at monotonic
  exact (List.pairwise_append.mp monotonic).1

/-- A reading is not before those that were made earlier. -/
theorem NeverDecreases.latest {trace : List (SubReactor × Action)}
    (monotonic : NeverDecreases (trace ++ [(s, action)])) {reader : Option ConnId}
    {now : Timespec} (reads : s.reading? action = some (reader, now)) {other : Option ConnId}
    {earlier : Timespec} (member : earlier ∈ timesOf other trace) :
    now.before earlier = false := by
  rw [NeverDecreases, readings, List.filterMap_append, List.pairwise_append] at monotonic
  rw [timesOf, List.mem_map] at member
  rcases member with ⟨reading, member, rfl⟩
  exact monotonic.2.2 reading (List.mem_filter.mp member).1 (reader, now) (by simp [reads])

theorem afterIdle_before {earlier now : Timespec} (ordered : now.before earlier = false) :
    (afterIdle now).before (afterIdle earlier) = false := by
  simp only [Timespec.before, decide_eq_false_iff_not] at *
  omega

theorem inTime_of_traces {trace : List (SubReactor × Action)}
    (traces : Transition.Traces step IdsGrow (init mode workers) trace s)
    (monotonic : NeverDecreases trace) : InTime s.timers := by
  revert monotonic
  induction traces with
  | nil => exact fun _ => .nil
  | @snoc trace state next action earlier grows stepped ih =>
      intro monotonic
      have reachable : Reachable mode workers state := earlier.reaches.weaken fun _ _ _ => trivial
      have stamped := stamped_of_traces (earlier.weaken fun _ _ _ => trivial)
      refine inTime_treats (timed_of_reachable reachable) (issued_of_reachable earlier.reaches)
        (ih monotonic.of_append) (treats_of_reachable reachable stepped) (grows next stepped) ?_
      intro c now reads entry member
      rcases stamped.latest entry member with ⟨r, last, expiration⟩
      rw [expiration]
      exact afterIdle_before
        (monotonic.latest (reading?_of_refresh? reads) (List.mem_of_getLast? last))

/-- As long as the clock does not go back and the ids do not wrap around, the timer
queue of a reactor fires exactly what is due, whatever its connections do, and its
clock goes off in time for every connection that is idle. -/
theorem timers_punctual {trace : List (SubReactor × Action)}
    (traces : Transition.Traces step IdsGrow (init mode workers) trace s)
    (monotonic : NeverDecreases trace) :
    Timekeeper.Punctual s.eloop.timerQueue ∧
      ∀ c conn, s.heap c = some conn → ¬conn.Ended →
        ∃ r, (timesOf (some c) trace).getLast? = some r ∧
          ∀ now, (afterIdle r).before now = true →
            ∃ time ∈ s.eloop.timerQueue.armed, time.before now = true := by
  have reachable : Reachable mode workers s := traces.reaches.weaken fun _ _ _ => trivial
  have punctual := Timekeeper.punctual_of_ordered (armed_of_reachable reachable)
    (inTime_of_traces traces monotonic)
  refine ⟨punctual, ?_⟩
  intro c conn found open_
  rcases (issued_of_reachable traces.reaches).present c conn found open_ with
    ⟨timer, member, target⟩
  rcases (stamped_of_traces (traces.weaken fun _ _ _ => trivial)).latest _ member with
    ⟨r, last, expiration⟩
  simp only [target] at last
  refine ⟨r, last, ?_⟩
  intro now idle
  rcases punctual.wakes now _ member (expiration ▸ idle) with ⟨time, armed, _, passed⟩
  exact ⟨time, armed, passed⟩

/-- The timers that `handleRead` has still to run are all that expired before the
time it read. -/
def Passing (trace : List (SubReactor × Action)) (s : SubReactor) : Prop :=
  ∀ ids, s.phase = .expiring ids → ∃ t, (timesOf none trace).getLast? = some t ∧
    ∀ entry ∈ s.timers.entries, entry.2.expiration.before t = true → entry.1 ∈ ids

theorem passing_step {trace : List (SubReactor × Action)} (timed : s.Timed)
    (inTime : InTime s.timers) (passing : Passing trace s) (stepped : s.step action = some next)
    (treats : Treats s action next) : Passing (trace ++ [(s, action)]) next := by
  intro ids expiring
  cases treats with
  | runs silent runs phase =>
      rcases phase ids expiring with ⟨phased, ⟨same, _⟩ | busy⟩ | ⟨same, _, now, rfl, rfl⟩
      · rcases passing ids phased with ⟨t, last, left⟩
        have unread : s.reading? action = none := reading?_of_expiring phased stepped silent
        have timersEq : next.timers = s.timers := congrArg Clockwork.timers same
        refine ⟨t, by simpa [unread] using last, ?_⟩
        rw [timersEq]
        exact left
      · exact absurd (timed.ready ids phased) busy
      · have timersEq : next.timers = s.timers := congrArg Clockwork.timers same
        have scan := OrderedMap.takeWhile_eq_filter
          (inTime.imp fun earlier => @Timespec.before_of_not_before _ _ now earlier)
        refine ⟨now, by simp [reading?, Option.filter], ?_⟩
        intro entry member due
        rw [timersEq] at member
        rw [TimerQueue.dyingTimers, scan.1]
        exact List.mem_map_of_mem (List.mem_filter.mpr ⟨member, due⟩)
  | refreshes c now before reads shown alive runs phase => exact absurd expiring (phase ids)
  | starts now before reads timers counter alive self clockworkEq phase =>
      exact absurd expiring (phase ids)
  | expires id rest timer before expire phased found shown clockworkEq frame phase =>
      rw [phase, Phase.expiring.injEq] at expiring
      subst expiring expire
      rcases passing _ phased with ⟨t, last, left⟩
      refine ⟨t, by simpa [reading?, refresh?] using last, ?_⟩
      intro entry member due
      have timersEq : next.timers = before.handleDead.timers.erase id :=
        congrArg Clockwork.timers clockworkEq
      rw [timersEq, OrderedMap.mem_entries_erase] at member
      have died := Clockwork.Runs.put timer.callBack before before.handleDead shown
        (Scope.Settles.handleDead before)
      have listed := left entry (died.mem_entries member.1) due
      exact List.mem_of_ne_of_mem member.2 listed

theorem passing_of_traces {trace : List (SubReactor × Action)}
    (traces : Transition.Traces step IdsGrow (init mode workers) trace s)
    (monotonic : NeverDecreases trace) : Passing trace s := by
  revert monotonic
  induction traces with
  | nil =>
      intro _ ids expiring
      cases expiring
  | @snoc trace state next action earlier grows stepped ih =>
      intro monotonic
      have reachable : Reachable mode workers state := earlier.reaches.weaken fun _ _ _ => trivial
      exact passing_step (timed_of_reachable reachable)
        (inTime_of_traces earlier monotonic.of_append) (ih monotonic.of_append) stepped
        (treats_of_reachable reachable stepped)

/-- When a timer pass ends, the connections that have not ended are those that
refreshed at most 60 seconds before the time that the pass read. -/
theorem idle_connections_end {trace : List (SubReactor × Action)}
    (traces : Transition.Traces step IdsGrow (init mode workers) trace s)
    (monotonic : NeverDecreases trace) (passed : s.phase = .expiring []) {c : ConnId}
    {conn : Connection} (found : s.heap c = some conn) (open_ : ¬conn.Ended) :
    ∃ t r, (timesOf none trace).getLast? = some t ∧
      (timesOf (some c) trace).getLast? = some r ∧ (afterIdle r).before t = false := by
  rcases passing_of_traces traces monotonic [] passed with ⟨t, read, left⟩
  rcases (issued_of_reachable traces.reaches).present c conn found open_ with
    ⟨timer, member, target⟩
  rcases (stamped_of_traces (traces.weaken fun _ _ _ => trivial)).latest _ member with
    ⟨r, last, expiration⟩
  simp only [target] at last
  refine ⟨t, r, read, last, ?_⟩
  rw [Bool.eq_false_iff]
  intro idle
  exact List.not_mem_nil (left _ member (expiration ▸ idle))

/-- Connections of the seconds 0 and 30, and a pass after the second 60. -/
def passing : List Action :=
  connecting false ++
    ([.addConnection false, .poll [] false, .drain, .task { tvSec := 30, tvNsec := 0 } [],
      .endLoop, .poll [] true, .timer (some { tvSec := 60, tvNsec := 1 }),
      .expire] : List Action)

instance (trace : List (SubReactor × Action)) : Decidable (NeverDecreases trace) :=
  inferInstanceAs (Decidable (List.Pairwise _ _))

theorem exists_passing : ∃ trace s, Transition.Traces step IdsGrow (init false 0) trace s ∧
    NeverDecreases trace ∧ s.phase = .expiring [] ∧
      (∃ conn, s.heap 0 = some conn ∧ conn.Ended) ∧ ∃ conn, s.heap 1 = some conn ∧ ¬conn.Ended := by
  have ran : ((Transition.run step IdsGrow (init false 0) passing).bind fun s =>
      (s.heap 0).bind fun first => (s.heap 1).map fun second =>
        (decide (NeverDecreases (Transition.recording step (init false 0) passing)), s.phase,
          decide first.Ended, decide second.Ended)) =
        some (true, .expiring [], true, false) := by
    decide +kernel
  rcases Option.bind_eq_some_iff.mp ran with ⟨s, ran, looked⟩
  rcases Option.bind_eq_some_iff.mp looked with ⟨first, found, looked⟩
  rcases Option.map_eq_some_iff.mp looked with ⟨second, foundSecond, looked⟩
  simp only [Prod.mk.injEq, decide_eq_true_eq, decide_eq_false_iff_not] at looked
  rcases looked with ⟨monotonic, phased, ended, open_⟩
  exact ⟨_, s, Transition.traces_of_run ran, monotonic, phased, ⟨first, found, ended⟩, second,
    foundSecond, open_⟩

theorem timers_punctual_pass :
    ∃ trace s, Transition.Traces step IdsGrow (init false 0) trace s ∧
      Timekeeper.Punctual s.eloop.timerQueue ∧
      ∃ r, (timesOf (some 1) trace).getLast? = some r := by
  rcases exists_passing with ⟨trace, s, traces, monotonic, _, _, second, found, open_⟩
  have punctual := timers_punctual traces monotonic
  rcases punctual.2 1 second found open_ with ⟨r, last, _⟩
  exact ⟨trace, s, traces, punctual.1, r, last⟩

theorem idle_connections_end_pass :
    ∃ trace s, Transition.Traces step IdsGrow (init false 0) trace s ∧
      (∃ conn, s.heap 0 = some conn ∧ conn.Ended) ∧
      ∃ t r, (timesOf none trace).getLast? = some t ∧
        (timesOf (some 1) trace).getLast? = some r ∧ (afterIdle r).before t = false := by
  rcases exists_passing with ⟨trace, s, traces, monotonic, passed, first, second, found, open_⟩
  exact ⟨trace, s, traces, first, idle_connections_end traces monotonic passed found open_⟩

end

end SubReactor

end MiniWebServer
