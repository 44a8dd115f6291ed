import MiniWebServer.Channel
import MiniWebServer.Library.OrderedMap

/-!
# The timer queue of an event loop

The live timers are ordered by their ids, and one `timerfd` is armed at the
expiration of the first of them. Ids are 32-bit integers that wrap around.
The queue is generic in what a timer calls back.

`handleRead` is split where the source makes its two loops: `dyingTimers`
selects, and the callbacks run one after the other.
-/

namespace MiniWebServer

/-- `struct timespec` of the monotonic clock. -/
structure Timespec where
  tvSec : ℕ
  tvNsec : ℕ
deriving DecidableEq, Repr

/-- The comparison that `TimerQueue::handleRead` makes. -/
def Timespec.before (first second : Timespec) : Bool :=
  first.tvSec < second.tvSec ∨ first.tvSec = second.tvSec ∧ first.tvNsec < second.tvNsec

/-- It is the order of time, as the nanoseconds of a time are less than a second. -/
theorem Timespec.before_iff {first second : Timespec} (normal : first.tvNsec < 10 ^ 9)
    (normalSecond : second.tvNsec < 10 ^ 9) : first.before second = true ↔
      first.tvSec * 10 ^ 9 + first.tvNsec < second.tvSec * 10 ^ 9 + second.tvNsec := by
  rw [before, decide_eq_true_eq]
  omega

structure Timer (κ : Type) where
  timerId : ℤ
  expiration : Timespec
  callBack : κ

structure TimerQueue (κ : Type) where
  timerId : ℤ
  timers : OrderedMap ℤ (Timer κ)
  /-- The absolute time at which the `timerfd` is armed. -/
  armed : Option Timespec
  timeChannel : Channel

namespace TimerQueue

variable {κ : Type}

/-- The constructor `TimerQueue::TimerQueue`. -/
def init : TimerQueue κ where
  timerId := 0
  timers := .empty
  armed := none
  timeChannel := Channel.enableReading {}

/-- `timerId + 1` as a 32-bit `int`. -/
def nextTimerId (queue : TimerQueue κ) : ℤ :=
  (queue.timerId + 1).bmod (2 ^ 32)

/-- `TimerQueue::refreshClock`. -/
def refreshClock (queue : TimerQueue κ) : TimerQueue κ :=
  { queue with armed := queue.timers.first?.map fun entry => entry.2.expiration }

/-- `TimerQueue::addTimer`, which also returns the new id. -/
def addTimer (queue : TimerQueue κ) (now : Timespec) (cb : κ) : ℤ × TimerQueue κ :=
  let id := queue.nextTimerId
  let timer : Timer κ :=
    { timerId := id
      expiration := { now with tvSec := now.tvSec + 60 }
      callBack := cb }
  (id, refreshClock { queue with timerId := id, timers := queue.timers.insert id timer })

/-- `TimerQueue::deleteTimer`. -/
def deleteTimer (queue : TimerQueue κ) (id : ℤ) : TimerQueue κ :=
  match queue.timers.find? id with
  | none => queue
  | some _ => refreshClock { queue with timers := queue.timers.erase id }

theorem timers_deleteTimer (queue : TimerQueue κ) (id : ℤ) :
    (queue.deleteTimer id).timers = queue.timers.erase id := by
  unfold deleteTimer
  split
  · next absent => exact (OrderedMap.erase_of_find?_eq_none absent).symm
  · rfl

@[simp]
theorem timerId_deleteTimer (queue : TimerQueue κ) (id : ℤ) :
    (queue.deleteTimer id).timerId = queue.timerId := by
  unfold deleteTimer
  split <;> rfl

/-- The ids that the first loop of `TimerQueue::handleRead` collects. -/
def dyingTimers (queue : TimerQueue κ) (now : Timespec) : List ℤ :=
  (queue.timers.entries.takeWhile fun entry => entry.2.expiration.before now).map Prod.fst

/-- `TimerQueue::stop`. -/
def stop (queue : TimerQueue κ) : TimerQueue κ :=
  { queue with timeChannel := queue.timeChannel.disableAll }

end TimerQueue

end MiniWebServer
