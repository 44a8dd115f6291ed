import MiniWebServer.Library.Transition
import MiniWebServer.TimerQueue

/-!
# What a timer queue fires, and when

`TimerQueue::handleRead` stops its scan at the first timer that is not due, and
`refreshClock` arms the `timerfd` at the first timer of the map. Both rely on an
order that no function states: the map is ordered by ids, and it has to be
ordered by expirations as well. A `Timekeeper` is a timer queue under any
sequence of calls, and the order is an invariant of its runs as long as the
clock does not go back and no id wraps around over live timers.
-/

namespace MiniWebServer

namespace Timespec

theorem before_self (time : Timespec) : time.before time = false := by
  simp [before]

/-- Times that are in order stay in order through a third one. -/
theorem not_before_trans {first second third : Timespec}
    (earlier : second.before first = false) (later : third.before second = false) :
    third.before first = false := by
  rw [before, decide_eq_false_iff_not] at *
  omega

/-- What is not later than a due time is due. -/
theorem before_of_not_before {first second third : Timespec}
    (earlier : second.before first = false) (due : second.before third = true) :
    first.before third = true := by
  rw [before, decide_eq_false_iff_not] at earlier
  rw [before, decide_eq_true_eq] at *
  omega

end Timespec

namespace TimerQueue

variable {κ : Type}

/-- The second loop of `TimerQueue::handleRead`, with the timers whose callbacks
run. A callback deletes its own timer or none, and `timers[id]` of an id that has
no timer is a null pointer. -/
def runCallBacks (queue : TimerQueue κ) (deletes : ℤ → Bool) :
    List ℤ → Option (List (ℤ × Timer κ) × TimerQueue κ)
  | [] => some ([], queue)
  | id :: rest =>
      match queue.timers.find? id with
      | none => none
      | some timer =>
          let queue := if deletes id then queue.deleteTimer id else queue
          (runCallBacks { queue with timers := queue.timers.erase id } deletes rest).map
            fun (fired, queue) => ((id, timer) :: fired, queue)

/-- `TimerQueue::handleRead`, with the timers whose callbacks run. Without a time
the read of the `timerfd` ends in `EAGAIN`. -/
def handleRead (queue : TimerQueue κ) (deletes : ℤ → Bool) :
    Option Timespec → Option (List (ℤ × Timer κ) × TimerQueue κ)
  | none => some ([], queue)
  | some now =>
      (queue.runCallBacks deletes (queue.dyingTimers now)).map
        fun (fired, queue) => (fired, queue.refreshClock)

theorem timers_runCallBack (queue : TimerQueue κ) (deletes : ℤ → Bool) (id : ℤ) :
    (if deletes id then queue.deleteTimer id else queue).timers.erase id =
      queue.timers.erase id := by
  split
  · rw [timers_deleteTimer, OrderedMap.erase_erase]
  · rfl

theorem timerId_runCallBack (queue : TimerQueue κ) (deletes : ℤ → Bool) (id : ℤ) :
    (if deletes id then queue.deleteTimer id else queue).timerId = queue.timerId := by
  split
  · exact timerId_deleteTimer queue id
  · rfl

/-- The loop finds the timers of distinct live ids, and erases these. -/
theorem runCallBacks_spec (deletes : ℤ → Bool) {dying : List (ℤ × Timer κ)}
    {queue : TimerQueue κ} (distinct : (dying.map Prod.fst).Nodup)
    (live : ∀ entry ∈ dying, entry ∈ queue.timers.entries) :
    ∃ after, queue.runCallBacks deletes (dying.map Prod.fst) = some (dying, after) ∧
      after.timers.entries =
        queue.timers.entries.filter (fun entry => entry.1 ∉ dying.map Prod.fst) ∧
      after.timerId = queue.timerId := by
  induction dying generalizing queue with
  | nil => exact ⟨queue, rfl, by simp, rfl⟩
  | cons entry rest ih =>
      rcases entry with ⟨id, timer⟩
      have found : queue.timers.find? id = some timer :=
        OrderedMap.find?_eq_some_iff.mpr (live _ (List.mem_cons_self ..))
      rw [List.map_cons, List.nodup_cons] at distinct
      let treated := if deletes id then queue.deleteTimer id else queue
      let next : TimerQueue κ := { treated with timers := treated.timers.erase id }
      have erased : next.timers = queue.timers.erase id := timers_runCallBack queue deletes id
      have liveLater : ∀ entry ∈ rest, entry ∈ next.timers.entries := by
        intro entry member
        rw [erased, OrderedMap.mem_entries_erase]
        refine ⟨live entry (List.mem_cons_of_mem _ member), fun same => distinct.1 ?_⟩
        exact List.mem_map.mpr ⟨entry, member, same⟩
      rcases ih distinct.2 liveLater with ⟨after, ran, entries, counter⟩
      refine ⟨after, ?_, ?_, counter.trans (timerId_runCallBack queue deletes id)⟩
      · simp only [List.map_cons, runCallBacks, found]
        rw [ran]
        rfl
      · rw [entries, erased, OrderedMap.erase, List.filter_filter]
        apply List.filter_congr
        intro other _
        simp only [List.map_cons, List.mem_cons, ne_eq, not_or, Bool.decide_and, Bool.and_comm]

/-- The `timerfd` is armed at the first timer of the map. -/
def Armed (queue : TimerQueue κ) : Prop :=
  queue.armed = queue.timers.first?.map fun entry => entry.2.expiration

theorem armed_refreshClock (queue : TimerQueue κ) : queue.refreshClock.Armed :=
  rfl

theorem armed_deleteTimer {queue : TimerQueue κ} (armed : queue.Armed) (id : ℤ) :
    (queue.deleteTimer id).Armed := by
  unfold deleteTimer
  split
  · exact armed
  · exact armed_refreshClock _

/-- `handleRead` fires the timers that its scan has passed over, keeps the others
and arms the clock, whatever the order of the timers. -/
theorem handleRead_spec (queue : TimerQueue κ) (deletes : ℤ → Bool) (now : Timespec) :
    ∃ after,
      queue.handleRead deletes (some now) =
        some (queue.timers.entries.takeWhile fun entry => entry.2.expiration.before now, after) ∧
      after.timers.entries =
        queue.timers.entries.dropWhile (fun entry => entry.2.expiration.before now) ∧
      after.timerId = queue.timerId ∧ after.Armed := by
  let due := queue.timers.entries.takeWhile fun entry => entry.2.expiration.before now
  have sublist : due.Sublist queue.timers.entries := List.takeWhile_sublist _
  have distinct : (due.map Prod.fst).Nodup :=
    (sublist.map Prod.fst).nodup queue.timers.nodup_keys
  rcases runCallBacks_spec deletes distinct fun _ member => sublist.subset member with
    ⟨after, ran, entries, counter⟩
  refine ⟨after.refreshClock, ?_, ?_, counter, armed_refreshClock after⟩
  · rw [handleRead, dyingTimers, ran]
    rfl
  · exact entries.trans (OrderedMap.filter_notMem_takeWhile _ _)

end TimerQueue

/-- A call of a member function. A `handleRead` comes with the time that it reads,
if there is something to read, and the timers whose callbacks delete them. -/
inductive TimerCall (κ : Type) where
  | addTimer (now : Timespec) (cb : κ)
  | deleteTimer (id : ℤ)
  | handleRead (expired : Option Timespec) (deletes : ℤ → Bool)

/-- The reading of the clock that a call makes. -/
def TimerCall.reading? {κ : Type} : TimerCall κ → Option Timespec
  | addTimer now _ => some now
  | deleteTimer _ => none
  | handleRead expired _ => expired

/-- A timer queue, the last reading of the clock, and the ids of the timers that
were added and neither deleted nor fired, in the order of their creation. -/
structure Timekeeper (κ : Type) where
  queue : TimerQueue κ
  clock : Timespec
  live : List ℤ

namespace Timekeeper

variable {κ : Type}

def init : Timekeeper κ where
  queue := .init
  clock := { tvSec := 0, tvNsec := 0 }
  live := []

def step (s : Timekeeper κ) : TimerCall κ → Option (Timekeeper κ)
  | .addTimer now cb =>
      let (id, queue) := s.queue.addTimer now cb
      some { queue, clock := now, live := s.live ++ [id] }
  | .deleteTimer id =>
      some { s with queue := s.queue.deleteTimer id, live := s.live.filter (· ≠ id) }
  | .handleRead expired deletes =>
      (s.queue.handleRead deletes expired).map fun (fired, queue) =>
        { queue
          clock := expired.getD s.clock
          live := s.live.filter (· ∉ fired.map Prod.fst) }

abbrev ReachableUnder (guard : Timekeeper κ → TimerCall κ → Prop) (s : Timekeeper κ) : Prop :=
  Transition.Reaches step guard init s

/-- The clock does not go back. -/
def Steady (s : Timekeeper κ) (call : TimerCall κ) : Prop :=
  ∀ now ∈ call.reading?, now.before s.clock = false

instance (s : Timekeeper κ) (call : TimerCall κ) : Decidable (Steady s call) :=
  inferInstanceAs (Decidable (∀ now ∈ call.reading?, _))

/-- The ids do not wrap around. -/
def IdsGrow (s : Timekeeper κ) (call : TimerCall κ) : Prop :=
  ∀ next ∈ s.step call, s.queue.timerId ≤ next.queue.timerId

instance (s : Timekeeper κ) (call : TimerCall κ) : Decidable (IdsGrow s call) :=
  inferInstanceAs (Decidable (∀ next ∈ s.step call, _))

/-- What a call does: it adds a timer, or it drops some timers. -/
inductive Treats (s : Timekeeper κ) (call : TimerCall κ) (next : Timekeeper κ) : Prop where
  | adds (now : Timespec) (cb : κ) (called : call = .addTimer now cb)
      (added : next =
        { queue := (s.queue.addTimer now cb).2
          clock := now
          live := s.live ++ [s.queue.nextTimerId] })
  | drops (gone : ℤ → Bool)
      (entries : next.queue.timers.entries =
        s.queue.timers.entries.filter fun entry => !gone entry.1)
      (live : next.live = s.live.filter fun id => !gone id)
      (counter : next.queue.timerId = s.queue.timerId)
      (armed : s.queue.Armed → next.queue.Armed)
      (clock : next.clock = s.clock ∨ call.reading? = some next.clock)

theorem treats_step {s next : Timekeeper κ} {call : TimerCall κ}
    (stepped : s.step call = some next) : Treats s call next := by
  cases call with
  | addTimer now cb =>
      rw [step, Option.some.injEq] at stepped
      exact .adds now cb rfl stepped.symm
  | deleteTimer id =>
      rw [step, Option.some.injEq] at stepped
      subst stepped
      refine .drops (fun other => decide (other = id)) ?_ ?_
        (s.queue.timerId_deleteTimer id) ?_ (.inl rfl)
      · simp only [TimerQueue.timers_deleteTimer, OrderedMap.erase, ne_eq, decide_not]
      · simp only [ne_eq, decide_not]
      · exact fun armed => TimerQueue.armed_deleteTimer armed id
  | handleRead expired deletes =>
      cases expired with
      | none =>
          rw [step, TimerQueue.handleRead, Option.map_some, Option.some.injEq] at stepped
          subst stepped
          exact .drops (fun _ => false) (by simp) (by simp) rfl id (.inl rfl)
      | some now =>
          rcases s.queue.handleRead_spec deletes now with ⟨after, read, entries, counter, armed⟩
          rw [step, read, Option.map_some, Option.some.injEq] at stepped
          subst stepped
          refine .drops (fun id => decide (id ∈ (s.queue.timers.entries.takeWhile
            fun entry => entry.2.expiration.before now).map Prod.fst)) ?_ ?_ counter
            (fun _ => armed) (.inr rfl)
          · simp only [entries, ← OrderedMap.filter_notMem_takeWhile, decide_not]
          · simp only [decide_not]

/-- The clock is armed at the first timer after every call. -/
theorem armed_of_reachable {guard : Timekeeper κ → TimerCall κ → Prop} {s : Timekeeper κ}
    (reachable : ReachableUnder guard s) : s.queue.Armed := by
  refine reachable.invariant (fun s => s.queue.Armed) rfl ?_
  intro state call next armed _ stepped
  cases treats_step stepped with
  | adds now cb called added =>
      rw [added]
      exact TimerQueue.armed_refreshClock _
  | drops gone entries live counter keeps clock => exact keeps armed

/-- The ids are 32-bit integers. -/
structure Ranged (s : Timekeeper κ) : Prop where
  least : -2 ^ 31 ≤ s.queue.timerId
  greatest : s.queue.timerId < 2 ^ 31
  live : ∀ id ∈ s.live, -2 ^ 31 ≤ id
  keys : ∀ entry ∈ s.queue.timers.entries, -2 ^ 31 ≤ entry.1

theorem nextTimerId_eq {s : Timekeeper κ} (ranged : s.Ranged) :
    s.queue.nextTimerId =
      if s.queue.timerId = 2 ^ 31 - 1 then -2 ^ 31 else s.queue.timerId + 1 := by
  rcases ranged with ⟨least, greatest, _, _⟩
  rw [TimerQueue.nextTimerId, Int.bmod_def]
  split <;> split <;> omega

theorem ranged_of_reachable {guard : Timekeeper κ → TimerCall κ → Prop} {s : Timekeeper κ}
    (reachable : ReachableUnder guard s) : s.Ranged := by
  have atStart : (init : Timekeeper κ).Ranged := by
    refine ⟨?_, ?_, ?_, ?_⟩ <;> simp [init, TimerQueue.init, OrderedMap.empty]
  refine reachable.invariant Ranged atStart ?_
  intro state call next ranged _ stepped
  cases treats_step stepped with
  | adds now cb called added =>
      have bounds : -2 ^ 31 ≤ state.queue.nextTimerId ∧ state.queue.nextTimerId < 2 ^ 31 := by
        have least := ranged.least
        have greatest := ranged.greatest
        rw [nextTimerId_eq ranged]
        split <;> omega
      rw [added]
      refine ⟨bounds.1, bounds.2, ?_, ?_⟩
      · intro id member
        rcases List.mem_append.mp member with earlier | new
        · exact ranged.live id earlier
        · rw [List.mem_singleton.mp new]
          exact bounds.1
      · intro entry member
        rcases OrderedMap.mem_entries_insert.mp member with rfl | ⟨earlier, _⟩
        · exact bounds.1
        · exact ranged.keys entry earlier
  | drops gone entries live counter keeps clock =>
      refine ⟨?_, ?_, ?_, ?_⟩
      · rw [counter]
        exact ranged.least
      · rw [counter]
        exact ranged.greatest
      · intro id member
        rw [live] at member
        exact ranged.live id (List.mem_of_mem_filter member)
      · intro entry member
        rw [entries] at member
        exact ranged.keys entry (List.mem_of_mem_filter member)

/-- The ids of the live timers increase in the order of creation, and the map
holds these timers in this order. -/
structure InOrder (s : Timekeeper κ) : Prop where
  increasing : s.live.Pairwise fun first second => first < second
  keys : s.queue.timers.entries.map Prod.fst = s.live

/-- A call that wraps the ids around finds no live timer. -/
def WrapsEmpty (s : Timekeeper κ) : TimerCall κ → Prop
  | .addTimer _ _ => s.queue.timerId = 2 ^ 31 - 1 → s.queue.timers.entries = []
  | .deleteTimer _ => True
  | .handleRead _ _ => True

instance (s : Timekeeper κ) (call : TimerCall κ) : Decidable (WrapsEmpty s call) :=
  match call with
  | .addTimer _ _ =>
      inferInstanceAs (Decidable (s.queue.timerId = 2 ^ 31 - 1 → s.queue.timers.entries = []))
  | .deleteTimer _ | .handleRead _ _ => isTrue trivial

/-- The live timers are in order, and the counter is at the latest id. -/
structure Issued (s : Timekeeper κ) : Prop where
  inOrder : s.InOrder
  latest : ∀ id ∈ s.live, id ≤ s.queue.timerId

theorem Issued.lt_nextTimerId {s : Timekeeper κ} (issued : s.Issued) (ranged : s.Ranged)
    (alone : s.queue.timerId = 2 ^ 31 - 1 → s.queue.timers.entries = []) :
    ∀ id ∈ s.live, id < s.queue.nextTimerId := by
  intro id member
  have known := issued.latest id member
  rw [nextTimerId_eq ranged]
  split
  · next last =>
    rw [← issued.inOrder.keys, alone last] at member
    cases member
  · omega

theorem Issued.entries_addTimer {s : Timekeeper κ} (issued : s.Issued) (ranged : s.Ranged)
    (alone : s.queue.timerId = 2 ^ 31 - 1 → s.queue.timers.entries = []) (now : Timespec)
    (cb : κ) :
    (s.queue.addTimer now cb).2.timers.entries =
      s.queue.timers.entries ++
        [(s.queue.nextTimerId,
          { timerId := s.queue.nextTimerId
            expiration := { now with tvSec := now.tvSec + 60 }
            callBack := cb })] := by
  apply OrderedMap.entries_insert_of_lt
  intro entry member
  apply issued.lt_nextTimerId ranged alone
  rw [← issued.inOrder.keys]
  exact List.mem_map_of_mem member

theorem issued_step {s next : Timekeeper κ} {call : TimerCall κ} (ranged : s.Ranged)
    (issued : s.Issued) (alone : s.WrapsEmpty call) (stepped : s.step call = some next) :
    next.Issued := by
  cases treats_step stepped with
  | adds now cb called added =>
      subst called
      have fresh := issued.lt_nextTimerId ranged alone
      rw [added]
      refine ⟨⟨?_, ?_⟩, ?_⟩
      · rw [List.pairwise_append]
        refine ⟨issued.inOrder.increasing, List.pairwise_singleton _ _, ?_⟩
        intro id member new newMember
        rw [List.mem_singleton.mp newMember]
        exact fresh id member
      · rw [issued.entries_addTimer ranged alone, List.map_append, issued.inOrder.keys]
        rfl
      · intro id member
        rcases List.mem_append.mp member with earlier | new
        · exact (fresh id earlier).le
        · exact (List.mem_singleton.mp new).le
  | drops gone entries live counter keeps clock =>
      refine ⟨⟨?_, ?_⟩, ?_⟩
      · rw [live]
        exact issued.inOrder.increasing.filter _
      · rw [entries, live, ← issued.inOrder.keys, List.filter_map]
        rfl
      · intro id member
        rw [live] at member
        rw [counter]
        exact issued.latest id (List.mem_of_mem_filter member)

theorem issued_of_reachable {s : Timekeeper κ} (reachable : ReachableUnder WrapsEmpty s) :
    s.Issued := by
  refine reachable.reachable_invariant Issued ⟨⟨.nil, rfl⟩, by simp [init]⟩ ?_
  intro state call next reachable issued alone stepped
  exact issued_step (ranged_of_reachable reachable) issued alone stepped

/-- The timers of the map are in the order of their expirations, none of which is
more than a minute after the last reading of the clock. -/
structure Timely (s : Timekeeper κ) : Prop where
  expirations : s.queue.timers.entries.Pairwise fun first second =>
    second.2.expiration.before first.2.expiration = false
  elapsed : ∀ entry ∈ s.queue.timers.entries,
    ({ s.clock with tvSec := s.clock.tvSec + 60 } : Timespec).before entry.2.expiration = false

theorem elapsed_of_not_before {earlier later time : Timespec} (steady : later.before earlier = false)
    (elapsed : ({ earlier with tvSec := earlier.tvSec + 60 } : Timespec).before time = false) :
    ({ later with tvSec := later.tvSec + 60 } : Timespec).before time = false := by
  apply Timespec.not_before_trans elapsed
  rw [Timespec.before, decide_eq_false_iff_not] at steady ⊢
  simp only at steady ⊢
  omega

theorem timely_step {s next : Timekeeper κ} {call : TimerCall κ} (ranged : s.Ranged)
    (issued : s.Issued) (timely : s.Timely) (alone : s.WrapsEmpty call) (steady : s.Steady call)
    (stepped : s.step call = some next) : next.Timely := by
  cases treats_step stepped with
  | adds now cb called added =>
      subst called
      have notBack : now.before s.clock = false := steady now rfl
      have elapsed : ∀ entry ∈ s.queue.timers.entries,
          ({ now with tvSec := now.tvSec + 60 } : Timespec).before entry.2.expiration = false :=
        fun entry member => elapsed_of_not_before notBack (timely.elapsed entry member)
      rw [added]
      constructor
      · rw [issued.entries_addTimer ranged alone, List.pairwise_append]
        refine ⟨timely.expirations, List.pairwise_singleton _ _, ?_⟩
        intro entry member new newMember
        rw [List.mem_singleton.mp newMember]
        exact elapsed entry member
      · intro entry member
        rw [issued.entries_addTimer ranged alone] at member
        rcases List.mem_append.mp member with earlier | new
        · exact elapsed entry earlier
        · rw [List.mem_singleton.mp new]
          exact Timespec.before_self _
  | drops gone entries live counter keeps clock =>
      constructor
      · rw [entries]
        exact timely.expirations.filter _
      · intro entry member
        rw [entries] at member
        have known := timely.elapsed entry (List.mem_of_mem_filter member)
        rcases clock with same | read
        · rw [same]
          exact known
        · exact elapsed_of_not_before (steady _ read) known

theorem timely_of_reachable {s : Timekeeper κ}
    (reachable : ReachableUnder (fun s call => s.WrapsEmpty call ∧ s.Steady call) s) :
    s.Timely := by
  have atStart : (init : Timekeeper κ).Timely :=
    ⟨.nil, by simp [init, TimerQueue.init, OrderedMap.empty]⟩
  refine reachable.reachable_invariant Timely atStart ?_
  intro state call next reachable timely allowed stepped
  have issued : state.Issued := issued_of_reachable (reachable.weaken fun _ _ => And.left)
  exact timely_step (ranged_of_reachable reachable) issued timely allowed.1 allowed.2 stepped

/-- What the callers of a timer queue rely on. -/
structure Punctual (queue : TimerQueue κ) : Prop where
  /-- A smaller id has no later expiration. -/
  ordered : ∀ first ∈ queue.timers.entries, ∀ second ∈ queue.timers.entries,
    first.1 < second.1 → second.2.expiration.before first.2.expiration = false
  /-- The scan collects all ids that are due, as a full scan would. -/
  scans : ∀ now, queue.dyingTimers now =
    (queue.timers.entries.filter fun entry => entry.2.expiration.before now).map Prod.fst
  /-- `handleRead` fires each timer that is due once, and keeps the others. -/
  fires : ∀ deletes now, ∃ after,
    queue.handleRead deletes (some now) =
      some (queue.timers.entries.filter fun entry => entry.2.expiration.before now, after) ∧
    after.timers.entries =
      queue.timers.entries.filter fun entry => !entry.2.expiration.before now
  disarmed : queue.armed = none ↔ queue.timers.entries = []
  armed : ∀ time ∈ queue.armed,
    (∃ entry ∈ queue.timers.entries, entry.2.expiration = time) ∧
      ∀ entry ∈ queue.timers.entries, entry.2.expiration.before time = false
  /-- A `handleRead` that has nothing to read changes nothing. -/
  drained : ∀ deletes, queue.handleRead deletes none = some ([], queue)
  /-- While a timer is due, the `timerfd` is armed at a time that has passed and
  that is not after the expiration of the timer. -/
  wakes : ∀ now, ∀ entry ∈ queue.timers.entries, entry.2.expiration.before now = true →
    ∃ time ∈ queue.armed, entry.2.expiration.before time = false ∧ time.before now = true

theorem punctual_of_ordered {queue : TimerQueue κ} (armed : queue.Armed)
    (expirations : queue.timers.entries.Pairwise fun first second =>
      second.2.expiration.before first.2.expiration = false) : Punctual queue := by
  have scan : ∀ now, _ := fun now => OrderedMap.takeWhile_eq_filter
    (expirations.imp fun earlier => @Timespec.before_of_not_before _ _ now earlier)
  have least : ∀ time ∈ queue.armed,
      (∃ entry ∈ queue.timers.entries, entry.2.expiration = time) ∧
        ∀ entry ∈ queue.timers.entries, entry.2.expiration.before time = false := by
    intro time armedAt
    rw [armed, OrderedMap.first?] at armedAt
    cases entriesEq : queue.timers.entries with
    | nil => simp [entriesEq] at armedAt
    | cons first rest =>
        rw [entriesEq] at expirations armedAt
        simp only [List.head?_cons, Option.map_some, Option.mem_some_iff] at armedAt
        subst armedAt
        refine ⟨⟨first, List.mem_cons_self .., rfl⟩, ?_⟩
        intro entry member
        rcases List.mem_cons.mp member with rfl | later
        · exact Timespec.before_self _
        · exact (List.pairwise_cons.mp expirations).1 entry later
  have disarmed : queue.armed = none ↔ queue.timers.entries = [] := by
    rw [armed, Option.map_eq_none_iff, OrderedMap.first?, List.head?_eq_none_iff]
  refine ⟨?_, ?_, ?_, disarmed, least, fun _ => rfl, ?_⟩
  · exact fun first firstMem second secondMem less =>
      OrderedMap.rel_of_pairwise expirations firstMem secondMem less
  · intro now
    rw [TimerQueue.dyingTimers, (scan now).1]
  · intro deletes now
    rcases queue.handleRead_spec deletes now with ⟨after, read, entries, _⟩
    refine ⟨after, ?_, ?_⟩
    · rw [read, (scan now).1]
    · rw [entries, (scan now).2]
  · intro now entry member due
    cases armedEq : queue.armed with
    | none =>
        rw [disarmed.mp armedEq] at member
        cases member
    | some time =>
        have known := (least time armedEq).2 entry member
        exact ⟨time, rfl, known, Timespec.before_of_not_before known due⟩

end Timekeeper

end MiniWebServer
