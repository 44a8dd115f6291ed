import MiniWebServer.SubReactor.Timers
import MiniWebServer.TimerQueue.Firing

/-!
# Idle timers

Timers and connections match one to one, and `TimerQueue::handleRead` finds
every id that its first loop has collected, although the callbacks of its
second loop delete timers; the steps of a reactor leave the timer queue that
`TimerQueue.handleRead` computes. A timer that fires is the one of the latest refresh
of its connection, so a connection is closed as idle only when that refresh is
more than 60 seconds old.
-/

namespace MiniWebServer

open Connection

theorem TimerQueue.nextTimerId_ne {κ : Type} (queue : TimerQueue κ) :
    queue.nextTimerId ≠ queue.timerId := by
  intro same
  have wrapped := Int.bmod_emod (x := queue.timerId + 1) (m := 2 ^ 32)
  rw [TimerQueue.nextTimerId] at same
  rw [same] at wrapped
  omega

namespace SubReactor

section

variable {mode : Bool} {workers : ℕ} {s next : SubReactor} {action : Action}

theorem treats_of_reachable (reachable : Reachable mode workers s)
    (stepped : s.step action = some next) : Treats s action next :=
  treats_step (valid_of_reachable reachable)
    (fun _ _ shown => regular_of_reachable reachable shown) stepped

theorem Valid.addTimerCallBack_eq (valid : s.Valid mode) {c : ConnId} {conn : Connection}
    (found : s.heap c = some conn) : conn.addTimerCallBack = c := by
  rcases valid.kept c (valid.heap c conn found).1 with ⟨other, foundOther, self⟩
  rw [found, Option.some.injEq] at foundOther
  subst foundOther
  exact self

theorem Valid.heap_nextConn (valid : s.Valid mode) : s.heap s.nextConn = none := by
  cases found : s.heap s.nextConn with
  | none => rfl
  | some conn => exact absurd (valid.heap _ conn found).1 (lt_irrefl _)

/-- What holds of the timers in every run. While the second loop of `handleRead`
runs, the ids that are left have their timers. -/
structure Timed (s : SubReactor) : Prop where
  kept : s.clockwork.Kept
  ready : ∀ ids, s.phase = .expiring ids → s.frame = none
  dying : ∀ ids, s.phase = .expiring ids →
    ids.Nodup ∧ ∀ id ∈ ids, ∃ timer, s.timers.find? id = some timer

theorem nodup_dyingTimers (queue : TimerQueue ConnId) (now : Timespec) :
    (queue.dyingTimers now).Nodup := by
  have sublist := (List.takeWhile_sublist
    (fun entry : ℤ × Timer ConnId => entry.2.expiration.before now)
    (l := queue.timers.entries)).map Prod.fst
  exact sublist.nodup queue.timers.nodup_keys

theorem exists_of_mem_dyingTimers {queue : TimerQueue ConnId} {now : Timespec} {id : ℤ}
    (member : id ∈ queue.dyingTimers now) :
    ∃ timer, queue.timers.find? id = some timer ∧ timer.expiration.before now = true := by
  rcases List.mem_map.mp member with ⟨⟨key, timer⟩, collected, rfl⟩
  have expired := List.mem_takeWhile_imp
    (p := fun entry : ℤ × Timer ConnId => entry.2.expiration.before now) collected
  exact ⟨timer, OrderedMap.find?_eq_some_iff.mpr (List.takeWhile_subset _ collected), expired⟩

/-- The callback of a timer deletes no other timer. -/
theorem find?_expired {clockwork : Clockwork} (kept : clockwork.Kept) {id other : ℤ}
    {timer target : Timer ConnId} {before : Scope}
    (found : clockwork.timers.find? id = some timer)
    (shown : clockwork.Shows timer.callBack before) (differs : other ≠ id)
    (foundOther : clockwork.timers.find? other = some target) :
    (before.handleDead.timers.erase id).find? other = some target := by
  rw [OrderedMap.find?_eq_some_iff] at found foundOther ⊢
  rcases kept _ found with ⟨conn, target, known, _⟩
  rw [shown.heap, Option.some.injEq] at target
  subst target
  rw [OrderedMap.mem_entries_erase]
  refine ⟨?_, differs⟩
  rcases (Scope.Settles.handleDead before).timers with ⟨same, _⟩ | ⟨erased, _⟩
  · rw [same, ← shown.timers]
    exact foundOther
  · rw [erased, OrderedMap.mem_entries_erase, ← shown.timers, known]
    exact ⟨foundOther, differs⟩

theorem timed_treats (valid : s.Valid mode) (timed : s.Timed) (treats : Treats s action next) :
    next.Timed := by
  have invariant : ∀ {one other : Clockwork}, one.Kept → one.Runs other → other.Kept :=
    fun kept runs => kept.runs runs
  cases treats with
  | runs silent runs phase =>
      refine ⟨Clockwork.invariant_of_runs _ invariant timed.kept runs, ?_, ?_⟩
      · intro ids expiring
        rcases phase ids expiring with ⟨phased, ⟨_, frame⟩ | busy⟩ | ⟨_, frame, _⟩
        · exact frame.trans (timed.ready ids phased)
        · exact absurd (timed.ready ids phased) busy
        · exact frame
      · intro ids expiring
        rcases phase ids expiring with ⟨phased, ⟨same, _⟩ | busy⟩ | ⟨same, _, now, _, rfl⟩
        · have timersEq : next.timers = s.timers := congrArg Clockwork.timers same
          rw [timersEq]
          exact timed.dying ids phased
        · exact absurd (timed.ready ids phased) busy
        · have timersEq : next.timers = s.timers := congrArg Clockwork.timers same
          rw [timersEq]
          refine ⟨nodup_dyingTimers _ now, ?_⟩
          intro id member
          rcases exists_of_mem_dyingTimers member with ⟨timer, found, _⟩
          exact ⟨timer, found⟩
  | refreshes c now before reads shown alive runs phase =>
      have self := valid.addTimerCallBack_eq shown.heap
      have refreshed := timed.kept.refresh shown now self alive
      exact ⟨Clockwork.invariant_of_runs _ invariant refreshed runs,
        fun ids expiring => absurd expiring (phase ids),
        fun ids expiring => absurd expiring (phase ids)⟩
  | starts now before reads timers counter alive self clockworkEq phase =>
      refine ⟨?_, fun ids expiring => absurd expiring (phase ids),
        fun ids expiring => absurd expiring (phase ids)⟩
      rw [clockworkEq]
      apply timed.kept.arm now self alive
      intro entry member
      rw [← timers] at member
      refine ⟨member, ?_⟩
      rintro own
      rcases timed.kept entry member with ⟨conn, found, _⟩
      have absent : s.heap s.nextConn = none := valid.heap_nextConn
      rw [own] at found
      exact absurd (absent.symm.trans found) (by simp)
  | expires id rest timer before expire phased found shown clockworkEq frame phase =>
      have died := timed.kept.runs
        (.put timer.callBack before before.handleDead shown (.handleDead before))
      refine ⟨?_, fun ids expiring => frame, ?_⟩
      · rw [clockworkEq]
        exact died.erase id
      · intro ids expiring
        rw [phase, Phase.expiring.injEq] at expiring
        subst expiring
        rcases timed.dying _ phased with ⟨nodup, present⟩
        rcases List.nodup_cons.mp nodup with ⟨notAgain, nodup⟩
        refine ⟨nodup, ?_⟩
        intro other member
        rcases present other (List.mem_cons_of_mem id member) with ⟨target, foundOther⟩
        have timersEq : next.timers = before.handleDead.timers.erase id :=
          congrArg Clockwork.timers clockworkEq
        rw [timersEq]
        refine ⟨target, find?_expired timed.kept found shown ?_ foundOther⟩
        rintro rfl
        exact notAgain member

theorem timed_of_reachable (reachable : Reachable mode workers s) : s.Timed := by
  refine reachable.reachable_invariant Timed ⟨?_, ?_, ?_⟩ ?_
  · intro entry member
    cases member
  · intro ids expiring
    cases expiring
  · intro ids expiring
    cases expiring
  · intro state action next reachable timed _ stepped
    exact timed_treats (valid_of_reachable reachable) timed (treats_of_reachable reachable stepped)

/-- The callback of a timer deletes the timer, and the loop erases it again. -/
theorem exists_step_expire (timed : s.Timed) (runs : s.failure = none) {id : ℤ} {rest : List ℤ}
    (phased : s.phase = .expiring (id :: rest)) :
    ∃ timer next, s.timers.find? id = some timer ∧ s.step .expire = some next ∧
      next.failure = none ∧ next.phase = .expiring rest ∧
      next.eloop.timerQueue =
        { s.eloop.timerQueue.deleteTimer id with
          timers := (s.eloop.timerQueue.deleteTimer id).timers.erase id } := by
  have framed := timed.ready _ phased
  rcases (timed.dying _ phased).2 id (List.mem_cons_self ..) with ⟨timer, found⟩
  rcases timed.kept _ (OrderedMap.find?_eq_some_iff.mp found) with ⟨conn, target, known, alive⟩
  have foundConn : s.heap timer.callBack = some conn := target
  let scope := Scope.handleDead { conn, eloop := s.eloop }
  have deleted : scope.eloop.timerQueue = s.eloop.timerQueue.deleteTimer id := by
    simp only [scope, Scope.handleDead, if_neg alive]
    rw [EventLoop.timerQueue_enqueueTask]
    exact congrArg s.eloop.timerQueue.deleteTimer known
  let timerQueue := scope.eloop.timerQueue
  let next : SubReactor :=
    { s.leave timer.callBack scope none with
      phase := .expiring rest
      eloop :=
        { scope.eloop with
          timerQueue := { timerQueue with timers := timerQueue.timers.erase id } } }
  refine ⟨timer, next, found, ?_, runs, rfl, ?_⟩
  · simp only [step, runs, expire, framed, phased, found, foundConn]
    rfl
  · simp only [next, timerQueue, deleted]

/-- The steps from the first scan of `handleRead` on. -/
def isExpire (_ : SubReactor) (action : Action) : Prop :=
  action = .expire

/-- The second loop of `handleRead` runs to its end, and leaves the timer queue
that `runCallBacks` computes. -/
theorem exists_expired (reachable : Reachable mode workers s) (runs : s.failure = none)
    {ids : List ℤ} (phased : s.phase = .expiring ids) :
    ∃ next fired queue, Transition.Reaches step isExpire s next ∧ next.failure = none ∧
      next.phase = .handling [] false ∧
      s.eloop.timerQueue.runCallBacks (fun _ => true) ids = some (fired, queue) ∧
      next.eloop.timerQueue = queue.refreshClock := by
  have timed := timed_of_reachable reachable
  induction ids generalizing s with
  | nil =>
      have framed := timed.ready _ phased
      let next : SubReactor :=
        { s with
          phase := .handling [] false
          eloop := { s.eloop with timerQueue := s.eloop.timerQueue.refreshClock } }
      have stepped : s.step .expire = some next := by
        simp [step, runs, expire, framed, phased, next]
      exact ⟨next, [], _, .single ⟨.expire, rfl, stepped⟩, runs, rfl, rfl, rfl⟩
  | cons id rest ih =>
      rcases exists_step_expire timed runs phased with
        ⟨timer, next, found, stepped, runsNext, phasedNext, queueNext⟩
      have reachableNext := reachable.tail ⟨.expire, trivial, stepped⟩
      rcases ih reachableNext runsNext phasedNext (timed_of_reachable reachableNext) with
        ⟨last, fired, queue, reaches, runsLast, phasedLast, ran, queueLast⟩
      refine ⟨last, (id, timer) :: fired, queue, reaches.head ⟨.expire, rfl, stepped⟩, runsLast,
        phasedLast, ?_, queueLast⟩
      rw [queueNext] at ran
      simp only [TimerQueue.runCallBacks, found, if_true, ran]
      rfl

/-- The steps of the reactor in its timer channel's callback are `handleRead`, where
the callback of every timer deletes it. -/
theorem exists_handleRead (reachable : Reachable mode workers s) (runs : s.failure = none)
    (framed : s.frame = none) (phased : s.phase = .handling [] true) (now : Option Timespec) :
    ∃ first next fired, s.step (.timer now) = some first ∧
      Transition.Reaches step isExpire first next ∧ next.phase = .handling [] false ∧
      s.eloop.timerQueue.handleRead (fun _ => true) now = some (fired, next.eloop.timerQueue) := by
  have stepped : s.step (.timer now) = s.timer now := by
    simp [step, runs]
  cases now with
  | none =>
      refine ⟨{ s with phase := .handling [] false }, _, [], ?_, .refl, rfl, rfl⟩
      simp only [stepped, timer, framed, phased]
  | some now =>
      let first : SubReactor :=
        { s with phase := .expiring (s.eloop.timerQueue.dyingTimers now) }
      have scanned : s.step (.timer (some now)) = some first := by
        simp only [stepped, timer, framed, phased, first]
      have reachableFirst := reachable.tail ⟨.timer (some now), trivial, scanned⟩
      rcases exists_expired reachableFirst runs rfl with
        ⟨next, fired, queue, reaches, _, phasedNext, ran, queueNext⟩
      have ranHere : s.eloop.timerQueue.runCallBacks (fun _ => true)
          (s.eloop.timerQueue.dyingTimers now) = some (fired, queue) := ran
      refine ⟨first, next, fired, scanned, reaches, phasedNext, ?_⟩
      rw [TimerQueue.handleRead, ranHere, queueNext]
      rfl

/-- The last id does not fall in the step: it does not wrap around. -/
def IdsGrow (s : SubReactor) (action : Action) : Prop :=
  ∀ next ∈ s.step action, s.eloop.timerQueue.timerId ≤ next.eloop.timerQueue.timerId

instance (s : SubReactor) (action : Action) : Decidable (IdsGrow s action) :=
  inferInstanceAs (Decidable (∀ next ∈ s.step action, _))

theorem issued_treats (valid : s.Valid mode) (timed : s.Timed) (issued : s.clockwork.Issued)
    (treats : Treats s action next) (grows : s.clockwork.counter ≤ next.clockwork.counter) :
    next.clockwork.Issued := by
  have invariant : ∀ {one other : Clockwork}, one.Issued → one.Runs other → other.Issued :=
    fun issued runs => issued.runs runs
  -- The counter that a refresh has moved is not smaller, and it is another one.
  have larger : ∀ before : Scope, s.clockwork.counter = before.eloop.timerQueue.timerId →
      next.clockwork.counter = before.eloop.timerQueue.nextTimerId →
      s.clockwork.counter < before.eloop.timerQueue.nextTimerId := by
    intro before counter moved
    rw [moved] at grows
    apply lt_of_le_of_ne grows
    rw [counter]
    exact before.eloop.timerQueue.nextTimerId_ne.symm
  cases treats with
  | runs silent runs phase => exact Clockwork.invariant_of_runs _ invariant issued runs
  | refreshes c now before reads shown alive runs phase =>
      have self := valid.addTimerCallBack_eq shown.heap
      have counterEq : next.clockwork.counter = before.eloop.timerQueue.nextTimerId := by
        refine Clockwork.invariant_of_runs (fun clockwork => clockwork.counter = _)
          (fun same runs => (Clockwork.counter_of_runs runs).trans same) ?_ runs
        simp [Clockwork.put, Scope.refreshTimer, Scope.addTimerCallBack, EventLoop.addTimer,
          TimerQueue.addTimer, TimerQueue.refreshClock, TimerQueue.nextTimerId,
          Scope.deleteTimerCallBack, EventLoop.deleteTimer]
      have refreshed := issued.refresh shown now self (larger before shown.counter counterEq)
      exact Clockwork.invariant_of_runs _ invariant refreshed runs
  | starts now before reads timers counter alive self clockworkEq phase =>
      rw [clockworkEq] at larger ⊢
      apply issued.arm now self (larger before counter rfl)
      intro d conn found differs timer member
      rw [← timers]
      exact member
  | expires id rest timer before expire phased found shown clockworkEq frame phase =>
      have died := issued.runs
        (.put timer.callBack before before.handleDead shown (.handleDead before))
      rw [clockworkEq]
      refine ⟨died.issued, died.distinct, ?_⟩
      intro d conn foundLater notEnded
      rcases died.present d conn foundLater notEnded with ⟨target, member, own⟩
      refine ⟨target, ?_, own⟩
      rw [OrderedMap.mem_entries_erase]
      refine ⟨member, fun same => ?_⟩
      -- The timer that is erased is the one of the connection that has just died.
      rcases timed.kept _ (OrderedMap.find?_eq_some_iff.mp found) with
        ⟨earlier, foundEarlier, known, _⟩
      rw [shown.heap, Option.some.injEq] at foundEarlier
      subst foundEarlier
      have settles := Scope.Settles.handleDead before
      have sameId : conn.timerId = before.handleDead.conn.timerId :=
        same.trans (known.symm.trans settles.timerId.symm)
      have dead := died.distinct d timer.callBack conn before.handleDead.conn foundLater
        (Clockwork.heap_put_self ..) sameId
      subst dead
      rw [Clockwork.heap_put_self, Option.some.injEq] at foundLater
      subst foundLater
      apply notEnded
      left
      rw [Scope.conn_handleDead, state_died]

theorem issued_of_reachable (reachable : ReachableUnder IdsGrow mode workers s) :
    s.clockwork.Issued := by
  have atStart : (init mode workers).clockwork.Issued :=
    ⟨fun _ _ found => (nomatch found), fun _ _ _ _ found => (nomatch found),
      fun _ _ found => (nomatch found)⟩
  refine reachable.reachable_invariant (fun s => s.clockwork.Issued) atStart ?_
  intro state action next reachable issued grows stepped
  have anyRun : Reachable mode workers state := reachable.weaken fun _ _ _ => trivial
  exact issued_treats (valid_of_reachable anyRun) (timed_of_reachable anyRun) issued
    (treats_of_reachable anyRun stepped) (grows next stepped)

/-- The timers whose callback targets a connection. -/
def timersOf (s : SubReactor) (c : ConnId) : List (ℤ × Timer ConnId) :=
  s.timers.entries.filter fun entry => entry.2.callBack = c

/-- The timers of a connection are all at the id that it knows, so there is one at most. -/
theorem timersOf_eq_replicate (timed : s.Timed) {c : ConnId} {conn : Connection}
    (found : s.heap c = some conn) :
    (s.timersOf c).map Prod.fst = List.replicate (s.timersOf c).length conn.timerId ∧
      (s.timersOf c).length ≤ 1 := by
  have same : (s.timersOf c).map Prod.fst =
      List.replicate (s.timersOf c).length conn.timerId := by
    rw [List.eq_replicate_iff, List.length_map]
    refine ⟨rfl, ?_⟩
    intro key member
    rcases List.mem_map.mp member with ⟨entry, own, rfl⟩
    rcases List.mem_filter.mp own with ⟨live, target⟩
    rcases timed.kept entry live with ⟨other, foundOther, known, _⟩
    rw [decide_eq_true_eq.mp target] at foundOther
    have sameConn : conn = other := Option.some.inj (found.symm.trans foundOther)
    rw [sameConn, known]
  refine ⟨same, ?_⟩
  have nodup : ((s.timersOf c).map Prod.fst).Nodup :=
    (List.filter_sublist.map Prod.fst).nodup s.timers.nodup_keys
  rw [same, List.nodup_replicate] at nodup
  exact nodup

/-- Timers and connections match one to one, and the second loop of
`handleRead` finds the timer of every id that the first has collected. -/
theorem timers_match_connections (reachable : ReachableUnder IdsGrow mode workers s) :
    (∀ c conn, s.heap c = some conn → ¬conn.Ended →
      (s.timersOf c).map Prod.fst = [conn.timerId]) ∧
    (∀ c, (s.timersOf c).length ≤ 1) ∧
    (∀ entry ∈ s.timers.entries, ∃ conn, s.heap entry.2.callBack = some conn ∧
      conn.timerId = entry.1) ∧
    ∀ id rest, s.phase = .expiring (id :: rest) → ∃ timer, s.timers.find? id = some timer := by
  have timed : s.Timed := timed_of_reachable (reachable.weaken fun _ _ _ => trivial)
  have issued := issued_of_reachable reachable
  refine ⟨?_, ?_, ?_, ?_⟩
  · intro c conn found notEnded
    rcases timersOf_eq_replicate timed found with ⟨same, atMostOne⟩
    rcases issued.present c conn found notEnded with ⟨timer, member, target⟩
    have own : (conn.timerId, timer) ∈ s.timersOf c :=
      List.mem_filter.mpr ⟨member, by simpa using target⟩
    have one : (s.timersOf c).length = 1 :=
      le_antisymm atMostOne (List.length_pos_of_mem own)
    rw [same, one]
    rfl
  · intro c
    cases found : s.heap c with
    | some conn => exact (timersOf_eq_replicate timed found).2
    | none =>
        have empty : s.timersOf c = [] := by
          rw [timersOf, List.filter_eq_nil_iff]
          intro entry member own
          rcases timed.kept entry member with ⟨conn, foundOther, _⟩
          rw [decide_eq_true_eq.mp own] at foundOther
          exact absurd (found.symm.trans foundOther) (by simp)
        simp [empty]
  · intro entry member
    rcases timed.kept entry member with ⟨conn, found, known, _⟩
    exact ⟨conn, found, known⟩
  · intro id rest expiring
    exact (timed.dying _ expiring).2 id (List.mem_cons_self ..)

/-- Two connections; the first refreshes, and both expire in one pass. -/
theorem timers_match_connections_refreshed :
    ∃ s conn, ReachableUnder IdsGrow false 0 s ∧ s.heap 0 = some conn ∧
      (s.timersOf 0).map Prod.fst = [conn.timerId] ∧ s.phase = .expiring [2, 3] ∧
      ∃ timer, s.timers.find? 2 = some timer := by
  let actions := connecting false ++ connecting false ++ reading [] ++
    [.drain, .endLoop, .poll [] true, .timer (some { tvSec := 61, tvNsec := 0 })]
  have ran : ((Transition.run step IdsGrow (init false 0) actions).bind fun s =>
      (s.heap 0).map fun conn => (s.phase, decide conn.Ended)) =
        some (.expiring [2, 3], false) := by
    decide +kernel
  rcases Option.bind_eq_some_iff.mp ran with ⟨s, ran, looked⟩
  rcases Option.map_eq_some_iff.mp looked with ⟨conn, found, looked⟩
  rw [Prod.mk.injEq, decide_eq_false_iff_not] at looked
  have reachable : ReachableUnder IdsGrow false 0 s := Transition.reaches_of_run ran
  rcases timers_match_connections reachable with ⟨timed, _, _, present⟩
  exact ⟨s, conn, reachable, found, timed 0 conn found looked.2, looked.1,
    present 2 [3] looked.1⟩

/-- The expiration of the timer of a connection that reads this time. -/
abbrev afterIdle (now : Timespec) : Timespec :=
  { now with tvSec := now.tvSec + 60 }

theorem before_afterIdle {earlier later now : Timespec} (ordered : later.before earlier = false)
    (idle : (afterIdle later).before now = true) : (afterIdle earlier).before now = true := by
  simp only [Timespec.before, decide_eq_false_iff_not, decide_eq_true_eq] at *
  omega

/-- What is read of the clock in a step, and for which connection; `none` is
the reading of `handleRead`. -/
def reading? (s : SubReactor) : Action → Option (Option ConnId × Timespec)
  | .timer now => now.map fun now => (none, now)
  | action => (s.refresh? action).map fun entry => (some entry.1, entry.2)

def readings (trace : List (SubReactor × Action)) : List (Option ConnId × Timespec) :=
  trace.filterMap fun entry => entry.1.reading? entry.2

/-- The times that `handleRead` read, or `startConnect` and `refreshTimer` of a connection. -/
def timesOf (reader : Option ConnId) (trace : List (SubReactor × Action)) : List Timespec :=
  ((readings trace).filter fun reading => reading.1 = reader).map Prod.snd

/-- The clock is monotonic. -/
def NeverDecreases (trace : List (SubReactor × Action)) : Prop :=
  (readings trace).Pairwise fun earlier later => later.2.before earlier.2 = false

@[simp]
theorem timesOf_snoc (reader : Option ConnId) (trace : List (SubReactor × Action)) :
    timesOf reader (trace ++ [(s, action)]) =
      timesOf reader trace ++
        (((s.reading? action).filter fun reading => reading.1 = reader).map Prod.snd).toList := by
  cases read : s.reading? action <;>
    simp [timesOf, readings, read, Option.filter, List.filter_cons]
  split <;> rfl

theorem reading?_of_refresh? {c : ConnId} {now : Timespec}
    (reads : s.refresh? action = some (c, now)) : s.reading? action = some (some c, now) := by
  cases action <;> simp_all [reading?, refresh?]

/-- A timer in the next state was there before, and is not of a connection that
refreshes in the step, or it is the new one of a connection that does. -/
theorem mem_entries_treats (valid : s.Valid mode) (timed : s.Timed) (treats : Treats s action next)
    {entry : ℤ × Timer ConnId} (member : entry ∈ next.timers.entries) :
    (entry ∈ s.timers.entries ∧ ∀ now, s.refresh? action ≠ some (entry.2.callBack, now)) ∨
      ∃ now, s.refresh? action = some (entry.2.callBack, now) ∧
        entry.2.expiration = afterIdle now := by
  have fewer : ∀ {one other : Clockwork}, Relation.ReflTransGen Clockwork.Runs one other →
      ∀ entry ∈ other.timers.entries, entry ∈ one.timers.entries := by
    intro one other runs
    refine Clockwork.invariant_of_runs
      (fun clockwork => ∀ entry ∈ clockwork.timers.entries, entry ∈ one.timers.entries)
      (fun contained runs entry member => contained entry (runs.mem_entries member))
      (fun entry member => member) runs
  cases treats with
  | runs silent runs phase =>
      refine .inl ⟨fewer runs entry member, ?_⟩
      intro now reads
      exact absurd (silent.symm.trans reads) (by simp)
  | refreshes c now before reads shown alive runs phase =>
      have self := valid.addTimerCallBack_eq shown.heap
      have refreshed := fewer runs entry member
      rw [Clockwork.put, Scope.refreshTimer, Scope.timers_addTimerCallBack,
        OrderedMap.mem_entries_insert] at refreshed
      rcases refreshed with rfl | ⟨earlier, _⟩
      · exact .inr ⟨now, by rw [reads]; exact congrArg (fun d => some (d, now)) self.symm, rfl⟩
      · rcases timed.kept.erased shown entry earlier with ⟨earlier, other⟩
        refine .inl ⟨earlier, ?_⟩
        intro later reads'
        rw [reads, Option.some.injEq, Prod.mk.injEq] at reads'
        exact other reads'.1.symm
  | starts now before reads timers counter alive self clockworkEq phase =>
      have started : entry ∈ (before.addTimerCallBack now).timers.entries := by
        have timersEq : next.timers = (before.addTimerCallBack now).timers :=
          congrArg Clockwork.timers clockworkEq
        rw [← timersEq]
        exact member
      rw [Scope.timers_addTimerCallBack, OrderedMap.mem_entries_insert, ← timers] at started
      rcases started with rfl | ⟨earlier, _⟩
      · exact .inr ⟨now, by rw [reads]; exact congrArg (fun d => some (d, now)) self.symm, rfl⟩
      · refine .inl ⟨earlier, ?_⟩
        intro later reads'
        rw [reads, Option.some.injEq, Prod.mk.injEq] at reads'
        rcases timed.kept entry earlier with ⟨conn, found, _⟩
        rw [← reads'.1] at found
        exact absurd (valid.heap_nextConn.symm.trans found) (by simp)
  | expires id rest timer before expire phased found shown clockworkEq frame phase =>
      have timersEq : next.timers = before.handleDead.timers.erase id :=
        congrArg Clockwork.timers clockworkEq
      rw [timersEq, OrderedMap.mem_entries_erase] at member
      have died := Clockwork.Runs.put timer.callBack before before.handleDead shown
        (Scope.Settles.handleDead before)
      refine .inl ⟨died.mem_entries member.1, ?_⟩
      intro now reads
      rw [expire] at reads
      cases reads

theorem reading?_of_expiring {ids : List ℤ} (phased : s.phase = .expiring ids)
    (stepped : s.step action = some next) (silent : s.refresh? action = none) :
    s.reading? action = none := by
  cases action with
  | timer now => simp [step, timer, phased] at stepped
  | _ => simp [reading?, silent]

/-- Every timer is of the latest refresh of its connection, and the timers that
`handleRead` has still to run expired before the time it read. -/
structure Stamped (trace : List (SubReactor × Action)) (s : SubReactor) : Prop where
  latest : ∀ entry ∈ s.timers.entries, ∃ r,
    (timesOf (some entry.2.callBack) trace).getLast? = some r ∧
      entry.2.expiration = afterIdle r
  due : ∀ ids, s.phase = .expiring ids → ∃ t, (timesOf none trace).getLast? = some t ∧
    ∀ id ∈ ids, ∀ timer, s.timers.find? id = some timer → timer.expiration.before t = true

theorem stamped_step {trace : List (SubReactor × Action)} (valid : s.Valid mode)
    (timed : s.Timed) (stamped : Stamped trace s) (stepped : s.step action = some next)
    (treats : Treats s action next) : Stamped (trace ++ [(s, action)]) next := by
  refine ⟨?_, ?_⟩
  · intro entry member
    rcases mem_entries_treats valid timed treats member with ⟨earlier, others⟩ | ⟨now, reads, stamp⟩
    · rcases stamped.latest entry earlier with ⟨r, last, expiration⟩
      refine ⟨r, ?_, expiration⟩
      have silent : ((s.reading? action).filter
          fun reading => reading.1 = some entry.2.callBack) = none := by
        rw [Option.filter_eq_none_iff]
        rintro ⟨reader, time⟩ read own
        cases action <;> simp_all [reading?]
      rw [timesOf_snoc, silent]
      simpa using last
    · refine ⟨now, ?_, stamp⟩
      rw [timesOf_snoc, reading?_of_refresh? reads]
      simp [Option.filter]
  · intro ids expiring
    cases treats with
    | runs silent runs phase =>
        rcases phase ids expiring with ⟨phased, ⟨same, _⟩ | busy⟩ | ⟨same, _, now, rfl, rfl⟩
        · rcases stamped.due ids phased with ⟨t, last, expired⟩
          refine ⟨t, ?_, ?_⟩
          · have unread : s.reading? action = none := reading?_of_expiring phased stepped silent
            simpa [unread] using last
          · have timersEq : next.timers = s.timers := congrArg Clockwork.timers same
            rw [timersEq]
            exact expired
        · exact absurd (timed.ready ids phased) busy
        · refine ⟨now, by simp [reading?, Option.filter], ?_⟩
          intro id member timer found
          rcases exists_of_mem_dyingTimers member with ⟨collected, foundBefore, expired⟩
          have timersEq : next.timers = s.timers := congrArg Clockwork.timers same
          rw [timersEq] at found
          rw [foundBefore, Option.some.injEq] at found
          rw [← found]
          exact expired
    | refreshes c now before reads shown alive runs phase => exact absurd expiring (phase ids)
    | starts now before reads timers counter alive self clockworkEq phase =>
        exact absurd expiring (phase ids)
    | expires id rest timer before expire phased found shown clockworkEq frame phase =>
        rw [phase, Phase.expiring.injEq] at expiring
        subst expiring expire
        rcases stamped.due _ phased with ⟨t, last, expired⟩
        refine ⟨t, by simpa [reading?, refresh?] using last, ?_⟩
        intro other member target foundNext
        apply expired other (List.mem_cons_of_mem id member) target
        have timersEq : next.timers = before.handleDead.timers.erase id :=
          congrArg Clockwork.timers clockworkEq
        rw [timersEq, OrderedMap.find?_eq_some_iff, OrderedMap.mem_entries_erase] at foundNext
        have died := Clockwork.Runs.put timer.callBack before before.handleDead shown
          (Scope.Settles.handleDead before)
        exact OrderedMap.find?_eq_some_iff.mpr (died.mem_entries foundNext.1)

theorem stamped_of_traces {trace : List (SubReactor × Action)}
    (traces : Transition.Traces step Transition.anyAction (init mode workers) trace s) :
    Stamped trace s := by
  refine traces.invariant Stamped ⟨?_, ?_⟩ ?_
  · intro entry member
    cases member
  · intro ids expiring
    cases expiring
  · intro trace state action next reachable stamped _ stepped
    exact stamped_step (valid_of_reachable reachable) (timed_of_reachable reachable) stamped
      stepped (treats_of_reachable reachable stepped)

/-- An iteration of the second loop of `handleRead` runs code of one connection at most. -/
theorem expire_cases (stepped : s.step .expire = some next) :
    next.heap = s.heap ∨ ∃ id rest timer, s.phase = .expiring (id :: rest) ∧
      s.timers.find? id = some timer ∧ ∀ c ≠ timer.callBack, next.heap c = s.heap c := by
  unfold step at stepped
  split at stepped
  · cases stepped
  · simp only [expire] at stepped
    split at stepped
    · cases stepped
      exact .inl rfl
    · next id rest framed phased =>
      cases foundTimer : s.eloop.timerQueue.timers.find? id with
      | none =>
          rw [foundTimer] at stepped
          cases stepped
          exact .inl rfl
      | some timer =>
          simp only [foundTimer, Option.map_eq_some_iff] at stepped
          rcases stepped with ⟨conn, known, stepped⟩
          subst stepped
          refine .inr ⟨id, rest, timer, phased, foundTimer, ?_⟩
          intro c other
          exact Function.update_of_ne other ..
    · cases stepped

/-- A connection that the timers close refreshed last more than 60 seconds before
the time that `handleRead` read. -/
theorem refreshed_before_expiry {trace : List (SubReactor × Action)}
    (traces : Transition.Traces step Transition.anyAction (init mode workers) trace s)
    (stepped : s.step .expire = some next) {c : ConnId} {conn closed : Connection}
    (found : s.heap c = some conn) (alive : conn.state ≠ .dead)
    (foundNext : next.heap c = some closed) (dead : closed.state = .dead) :
    ∃ t r, (timesOf none trace).getLast? = some t ∧
      (timesOf (some c) trace).getLast? = some r ∧ (afterIdle r).before t = true ∧
      (NeverDecreases trace →
        ∀ earlier ∈ timesOf (some c) trace, (afterIdle earlier).before t = true) := by
  rcases expire_cases stepped with same | ⟨id, rest, timer, phased, foundTimer, others⟩
  · rw [same, found, Option.some.injEq] at foundNext
    subst foundNext
    exact absurd dead alive
  · have own : timer.callBack = c := by
      by_contra other
      rw [others c (Ne.symm other), found, Option.some.injEq] at foundNext
      subst foundNext
      exact alive dead
    have stamped := stamped_of_traces traces
    rcases stamped.due _ phased with ⟨t, readLast, expired⟩
    rcases stamped.latest _ (OrderedMap.find?_eq_some_iff.mp foundTimer) with
      ⟨r, refreshedLast, expiration⟩
    have idle := expired id (List.mem_cons_self ..) timer foundTimer
    simp only at refreshedLast expiration
    rw [own] at refreshedLast
    rw [expiration] at idle
    refine ⟨t, r, readLast, refreshedLast, idle, ?_⟩
    intro monotonic earlier member
    rcases List.getLast?_eq_some_iff.mp refreshedLast with ⟨before, timesEq⟩
    have ordered : (timesOf (some c) trace).Pairwise
        fun earlier later => later.before earlier = false :=
      List.pairwise_map.mpr (monotonic.sublist List.filter_sublist)
    rw [timesEq] at ordered member
    rcases List.mem_append.mp member with sooner | last
    · have notLater := (List.pairwise_append.mp ordered).2.2 earlier sooner r
        (List.mem_singleton_self r)
      exact before_afterIdle notLater idle
    · rw [List.mem_singleton.mp last]
      exact idle

/-- A connection that sends nothing is closed in the 61st second. -/
theorem refreshed_before_expiry_silent :
    ∃ trace s next, Transition.Traces step Transition.anyAction (init false 0) trace s ∧
      s.step .expire = some next ∧
      ∃ t r, (timesOf none trace).getLast? = some t ∧
        (timesOf (some 0) trace).getLast? = some r ∧ (afterIdle r).before t = true := by
  let actions := connecting false ++
    [.poll [] true, .timer (some { tvSec := 60, tvNsec := 1 })]
  have ran : ((Transition.run step Transition.anyAction (init false 0) actions).bind fun s =>
      (s.step .expire).bind fun next => (s.heap 0).bind fun conn => (next.heap 0).map fun closed =>
        (conn.state, closed.state)) = some (.connected, .dead) := by
    decide +kernel
  rcases Option.bind_eq_some_iff.mp ran with ⟨s, ran, looked⟩
  rcases Option.bind_eq_some_iff.mp looked with ⟨next, stepped, looked⟩
  rcases Option.bind_eq_some_iff.mp looked with ⟨conn, found, looked⟩
  rcases Option.map_eq_some_iff.mp looked with ⟨closed, foundNext, looked⟩
  rw [Prod.mk.injEq] at looked
  have traces := Transition.traces_of_run ran
  rcases refreshed_before_expiry traces stepped found (by simp [looked.1]) foundNext looked.2 with
    ⟨t, r, read, refreshed, idle, _⟩
  exact ⟨_, s, next, traces, stepped, t, r, read, refreshed, idle⟩

end

end SubReactor

end MiniWebServer
