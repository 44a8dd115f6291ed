import MiniWebServer.TimerQueue.Firing

/-!
# Timer ids that wrap around

`timerId` is a 32-bit `int` that every `addTimer` increments. When it wraps
around while a timer is live, the new timer comes before the live one in the
map, although it expires later: the clock is armed at it, and the scan of
`handleRead` stops at it. The ids are in the order of creation in exactly the
runs in which the counter wraps around over no live timer.
-/

namespace MiniWebServer

namespace Timekeeper

variable {κ : Type}

theorem nextTimerId_of_last {s : Timekeeper κ} (ranged : s.Ranged)
    (last : s.queue.timerId = 2 ^ 31 - 1) : s.queue.nextTimerId = -2 ^ 31 := by
  rw [nextTimerId_eq ranged, if_pos last]

/-- After the wrap the clock is armed at the new timer, whatever timers are live,
and until that one is due `handleRead` fires nothing. -/
theorem wrapped_hides_others {s : Timekeeper κ} (ranged : s.Ranged)
    (last : s.queue.timerId = 2 ^ 31 - 1) (now : Timespec) (cb : κ) :
    (s.queue.addTimer now cb).2.armed = some { now with tvSec := now.tvSec + 60 } ∧
      ∀ time, ({ now with tvSec := now.tvSec + 60 } : Timespec).before time = false →
        (s.queue.addTimer now cb).2.dyingTimers time = [] := by
  have least : ∀ entry ∈ s.queue.timers.entries, s.queue.nextTimerId ≤ entry.1 := by
    intro entry member
    rw [nextTimerId_of_last ranged last]
    exact ranged.keys entry member
  rcases OrderedMap.entries_insert_of_le least
    { timerId := s.queue.nextTimerId
      expiration := { now with tvSec := now.tvSec + 60 }
      callBack := cb } with ⟨rest, entries⟩
  constructor
  · simp only [TimerQueue.addTimer, TimerQueue.refreshClock, OrderedMap.first?, entries]
    rfl
  · intro time early
    rw [TimerQueue.dyingTimers]
    simp only [TimerQueue.addTimer, TimerQueue.refreshClock, entries]
    rw [List.takeWhile_cons_of_neg (by simp [early]), List.map_nil]

/-- The timers of the map are in the order of their expirations. -/
def ExpiresInOrder (s : Timekeeper κ) : Prop :=
  s.queue.timers.entries.Pairwise fun first second =>
    second.2.expiration.before first.2.expiration = false

/-- A wrap over a live timer ends the order of the ids. -/
theorem wrapsEmpty_of_inOrder {s next : Timekeeper κ} {call : TimerCall κ} (ranged : s.Ranged)
    (before : s.InOrder) (after : next.InOrder) (stepped : s.step call = some next) :
    s.WrapsEmpty call := by
  cases call with
  | addTimer now cb =>
      intro last
      rw [step, Option.some.injEq] at stepped
      have increasing := after.increasing
      rw [← stepped] at increasing
      have smaller := (List.pairwise_append.mp increasing).2.2
      have none : s.live = [] := by
        rw [List.eq_nil_iff_forall_not_mem]
        intro id member
        have less : id < s.queue.nextTimerId := smaller id member _ (List.mem_singleton_self _)
        have least := ranged.live id member
        rw [nextTimerId_of_last ranged last] at less
        omega
      rw [← List.map_eq_nil_iff, before.keys, none]
  | deleteTimer id => trivial
  | handleRead expired deletes => trivial

/-- Timers are added and deleted, and the clock does not go back. -/
def AddsOrDeletes (s : Timekeeper κ) : TimerCall κ → Prop
  | .addTimer now _ => now.before s.clock = false
  | .deleteTimer _ => True
  | .handleRead _ _ => False

theorem AddsOrDeletes.steady {s : Timekeeper κ} {call : TimerCall κ}
    (addsOrDeletes : s.AddsOrDeletes call) : s.Steady call := by
  intro now reading
  cases call with
  | addTimer time cb =>
      obtain rfl : time = now := by simpa [TimerCall.reading?] using reading
      exact addsOrDeletes
  | deleteTimer id => simp [TimerCall.reading?] at reading
  | handleRead expired deletes => exact addsOrDeletes.elim

theorem step_addTimer (s : Timekeeper κ) (now : Timespec) (cb : κ) :
    s.step (.addTimer now cb) =
      some
        { queue := (s.queue.addTimer now cb).2
          clock := now
          live := s.live ++ [s.queue.nextTimerId] } :=
  rfl

/-- Timers can be added and deleted until the counter has any value up to the last,
and no wrap has happened on the way. -/
theorem counter_reaches (cb : κ) {n : ℕ} (small : n < 2 ^ 31) :
    ∃ s : Timekeeper κ, ReachableUnder (fun s call => s.AddsOrDeletes call ∧ s.WrapsEmpty call) s ∧
      s.queue.timerId = n ∧ s.live = [] := by
  induction n with
  | zero => exact ⟨init, .refl, rfl, rfl⟩
  | succ n ih =>
      rcases ih (by omega) with ⟨s, reachable, counter, none⟩
      have ranged := ranged_of_reachable reachable
      have next : s.queue.nextTimerId = (n + 1 : ℕ) := by
        rw [nextTimerId_eq ranged, if_neg (by omega), counter]
        rfl
      have early : s.WrapsEmpty (.addTimer s.clock cb) := fun last => by omega
      have added := reachable.tail
        ⟨.addTimer s.clock cb, ⟨Timespec.before_self s.clock, early⟩, step_addTimer ..⟩
      refine ⟨_, added.tail ⟨.deleteTimer (n + 1 : ℕ), ⟨trivial, trivial⟩, rfl⟩, ?_, ?_⟩
      · rw [TimerQueue.timerId_deleteTimer]
        exact next
      · simp [none, next]

/-- In the runs of a timer queue the ids of the live timers are in the order of
creation throughout if and only if no wrap finds a live timer, and then the
order of the map is that of the expirations. -/
theorem inOrder_iff_wrapsEmpty {trace : List (Timekeeper κ × TimerCall κ)} {s : Timekeeper κ}
    (traces : Transition.Traces step Transition.anyAction init trace s) :
    ((∀ r ∈ Transition.visited trace s, r.InOrder) ↔
      ∀ entry ∈ trace, entry.1.WrapsEmpty entry.2) ∧
    ((∀ entry ∈ trace, entry.1.WrapsEmpty entry.2) →
      (∀ entry ∈ trace, entry.1.Steady entry.2) →
      ∀ r ∈ Transition.visited trace s, r.ExpiresInOrder) := by
  refine ⟨⟨?_, ?_⟩, ?_⟩
  · intro inOrder entry member
    rcases traces.step_of_mem entry member with ⟨first, next, second, stepped⟩
    have ranged := ranged_of_reachable (traces.reaches_visited entry.1 first)
    exact wrapsEmpty_of_inOrder ranged (inOrder _ first) (inOrder next second) stepped
  · intro alone r member
    exact (issued_of_reachable ((traces.restrict alone).reaches_visited r member)).inOrder
  · intro alone steady r member
    have both : ∀ entry ∈ trace, entry.1.WrapsEmpty entry.2 ∧ entry.1.Steady entry.2 :=
      fun entry inTrace => ⟨alone entry inTrace, steady entry inTrace⟩
    have restricted : Transition.Traces step (fun s call => s.WrapsEmpty call ∧ s.Steady call)
        init trace s := traces.restrict both
    exact (timely_of_reachable (restricted.reaches_visited r member)).expirations

/-- The counter wraps around when no timer is live. -/
theorem inOrder_iff_wrapsEmpty_wrapping :
    ∃ (trace : List (Timekeeper ℕ × TimerCall ℕ)) (s : Timekeeper ℕ),
      Transition.Traces step Transition.anyAction init trace s ∧
      (∃ entry ∈ trace, entry.1.queue.timerId = 2 ^ 31 - 1) ∧ s.live = [-2 ^ 31] ∧
      ∀ r ∈ Transition.visited trace s, r.InOrder ∧ r.ExpiresInOrder := by
  rcases counter_reaches 7 (n := 2 ^ 31 - 1) (by decide) with ⟨s, reachable, counter, none⟩
  have ranged := ranged_of_reachable reachable
  have last : s.queue.timerId = 2 ^ 31 - 1 := by rw [counter]; rfl
  have empty : s.WrapsEmpty (.addTimer s.clock 7) := by
    have issued := issued_of_reachable (reachable.weaken fun _ _ => And.right)
    intro _
    rw [← List.map_eq_nil_iff, issued.inOrder.keys, none]
  rcases reachable.exists_traces with ⟨trace, traces⟩
  have adds : s.AddsOrDeletes (.addTimer s.clock 7) := Timespec.before_self s.clock
  have wrapped := traces.snoc ⟨adds, empty⟩ (step_addTimer s s.clock 7)
  have guarded := wrapped.guard_of_mem
  have ran : Transition.Traces step Transition.anyAction init _ _ :=
    wrapped.weaken fun _ _ _ => trivial
  rcases inOrder_iff_wrapsEmpty ran with ⟨inOrder, expiresInOrder⟩
  have alone := fun entry member => (guarded entry member).2
  have steady := fun entry member => (guarded entry member).1.steady
  refine ⟨_, _, ran, ⟨(s, .addTimer s.clock 7), by simp, last⟩, ?_, fun r member =>
    ⟨inOrder.mpr alone r member, expiresInOrder alone steady r member⟩⟩
  rw [none, nextTimerId_of_last ranged last, List.nil_append]

/-- All timers up to the one at the last id are deleted, and one more is added. -/
theorem not_inOrder_of_wrap :
    ¬∀ s : Timekeeper Unit, ReachableUnder AddsOrDeletes s → s.InOrder := by
  intro always
  rcases @counter_reaches Unit () (2 ^ 31 - 2) (by decide) with ⟨s, guarded, counter, none⟩
  have reachable : ReachableUnder AddsOrDeletes s := guarded.weaken fun _ _ => And.left
  have next : s.queue.nextTimerId = 2 ^ 31 - 1 := by
    rw [nextTimerId_eq (ranged_of_reachable reachable), if_neg (by omega), counter]
    rfl
  have last := reachable.tail
    ⟨.addTimer s.clock (), Timespec.before_self s.clock, step_addTimer ..⟩
  have wrapped := last.tail
    ⟨.addTimer s.clock (), Timespec.before_self s.clock, step_addTimer ..⟩
  have increasing := (always _ wrapped).increasing
  simp only [none, List.nil_append] at increasing
  rw [nextTimerId_of_last (ranged_of_reachable last) next, next] at increasing
  simp at increasing

end Timekeeper

end MiniWebServer
