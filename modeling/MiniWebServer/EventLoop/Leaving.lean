import Mathlib.Data.Prod.Lex
import MiniWebServer.EventLoop.Halting

/-!
# The way out of the loop

When a task that calls `stopLoop` is in the queue of an event loop, every step of
the loop thread takes it nearer to the end of `loop`, and no other thread takes it
back, whatever is pushed behind that task. A loop thread can always go on, and
where `epoll_wait` blocks it in front of such a task somebody is about to write.
-/

namespace MiniWebServer

namespace LoopPhase

variable {Func : Type}

/-- The task that runs. -/
def current : LoopPhase Func → Option (Queued Func)
  | running current _ => current
  | _ => none

/-- The steps to the next time that the queue is moved out, or to the end of the loop. -/
def stepsLeft : LoopPhase Func → ℕ
  | running current todo => 5 + 2 * todo.length + current.toList.length
  | polling => 4
  | handling true => 3
  | handling false => 2
  | timing => 1
  | exited => 0

end LoopPhase

namespace LoopThread

variable {Func Caller : Type} {stops : Func → Bool} {s next : LoopThread Func Caller}

/-- A task that calls `stopLoop` was pushed. -/
def Asked (stops : Func → Bool) (s : LoopThread Func Caller) : Prop :=
  ∃ entry ∈ s.pushed, stops entry.func = true

/-- The batch is the last one. -/
def ends (stops : Func → Bool) (s : LoopThread Func Caller) : Bool :=
  s.stop || (s.phase.current.toList ++ s.phase.todo).any fun entry => stops entry.func

/-- How far the loop thread is from the end of the loop. -/
def distance (stops : Func → Bool) (s : LoopThread Func Caller) : ℕ ×ₗ ℕ :=
  toLex ((!s.ends stops).toNat, s.phase.stepsLeft)

/-- Whether `epoll_wait` blocks, for all that `eloopFd` has to report. -/
def Sleeps (s : LoopThread Func Caller) : Prop :=
  s.phase = .polling ∧ s.edge = false

instance [DecidableEq Func] (s : LoopThread Func Caller) : Decidable s.Sleeps :=
  inferInstanceAs (Decidable (_ ∧ _))

theorem distance_lt_of_stepsLeft (same : next.ends stops = s.ends stops)
    (smaller : next.phase.stepsLeft < s.phase.stepsLeft) :
    next.distance stops < s.distance stops := by
  rw [distance, distance, same]
  exact Prod.Lex.toLex_lt_toLex.mpr (.inr ⟨rfl, smaller⟩)

theorem distance_lt_of_ends (before : s.ends stops = false) (after : next.ends stops = true) :
    next.distance stops < s.distance stops := by
  apply Prod.Lex.toLex_lt_toLex.mpr
  rw [before, after]
  exact .inl Nat.zero_lt_one

variable [DecidableEq Caller] {action : LoopAction Func Caller}

theorem Asked.steps (asked : s.Asked stops) (steps : Steps stops s action next) :
    next.Asked stops := by
  rcases asked with ⟨entry, member, stopping⟩
  refine ⟨entry, ?_, stopping⟩
  rcases pushed_steps steps with same | ⟨_, _, _, _, grown⟩
  · rw [same]
    exact member
  · rw [grown]
    exact List.mem_append_left _ member

theorem stop_of_call (steps : Steps stops s action next) (call : action.isOwn = false) :
    next.stop = s.stop := by
  cases steps with
  | check caller func idle outside unstopped => rfl
  | refuse caller func idle stopped => rfl
  | push caller func checked entry same iteration byTask => rfl
  | write caller again pushed => rfl
  | fail caller again pushed full => rfl
  | _ => cases call

theorem distance_of_call (steps : Steps stops s action next) (call : action.isOwn = false) :
    next.distance stops = s.distance stops := by
  simp only [distance, ends, phase_of_call steps call, stop_of_call steps call]

/-- Where the queue is moved out, the task that calls `stopLoop` comes along. -/
theorem ends_of_drained (reachable : s.Reachable stops) (asked : s.Asked stops)
    (phased : s.phase = .timing) : ∃ entry ∈ s.tasks, stops entry.func = true := by
  rcases asked with ⟨entry, member, stopping⟩
  refine ⟨entry, ?_, stopping⟩
  have none : s.phase.todo = [] := by rw [phased]; rfl
  rw [(ordered_of_reachable reachable).pushed, none, List.append_nil] at member
  rcases List.mem_append.mp member with ran | queued
  · have halts := halts_of_reachable reachable
    rcases halts.began entry ran stopping with stopped | ⟨todo, running⟩
    · rcases halts.ending stopped with running | exited
      · rw [phased] at running
        cases running
      · exact absurd (phased.symm.trans exited) (by simp)
    · exact absurd (phased.symm.trans running) (by simp)
  · exact queued

/-- Before the queue is moved out, the loop is not in its last batch. -/
theorem ends_of_precedesDrain (reachable : s.Reachable stops)
    (precedes : s.phase.precedesDrain = true) : s.ends stops = false := by
  have unstopped : s.stop = false := by
    rw [← Bool.not_eq_true]
    intro stopped
    rcases (halts_of_reachable reachable).ending stopped with running | exited
    · cases phase : s.phase <;> simp [phase, LoopPhase.isRunning, LoopPhase.precedesDrain] at *
    · simp [exited, LoopPhase.precedesDrain] at precedes
  cases phase : s.phase <;>
    simp [ends, unstopped, phase, LoopPhase.current, LoopPhase.todo, LoopPhase.precedesDrain] at *

theorem distance_lt_of_own (reachable : s.Reachable stops) (asked : s.Asked stops)
    (steps : Steps stops s action next) (own : action.isOwn = true) :
    next.distance stops < s.distance stops := by
  cases steps with
  | check caller func idle outside unstopped => cases own
  | refuse caller func idle stopped => cases own
  | push caller func checked entry same iteration byTask => cases own
  | write caller again pushed => cases own
  | fail caller again pushed full => cases own
  | report outside phased edge readable =>
      refine distance_lt_of_stepsLeft ?_ ?_
      · simp [ends, phased, LoopPhase.current, LoopPhase.todo]
      · rw [phased]
        exact (by decide : 3 < 4)
  | poll outside phased =>
      refine distance_lt_of_stepsLeft ?_ ?_
      · simp [ends, phased, LoopPhase.current, LoopPhase.todo]
      · rw [phased]
        exact (by decide : 2 < 4)
  | read outside phased =>
      refine distance_lt_of_stepsLeft ?_ ?_
      · simp [ends, phased, LoopPhase.current, LoopPhase.todo]
      · rw [phased]
        exact (by decide : 2 < 3)
  | timer outside phased =>
      refine distance_lt_of_stepsLeft ?_ ?_
      · simp [ends, phased, LoopPhase.current, LoopPhase.todo]
      · rw [phased]
        exact (by decide : 1 < 2)
  | drain outside phased =>
      rcases ends_of_drained reachable asked phased with ⟨entry, member, stopping⟩
      refine distance_lt_of_ends (ends_of_precedesDrain reachable (by rw [phased]; rfl)) ?_
      apply Bool.or_eq_true_iff.mpr
      exact .inr (List.any_eq_true.mpr ⟨entry, member, stopping⟩)
  | start entry todo outside phased =>
      refine distance_lt_of_stepsLeft ?_ ?_
      · simp [ends, phased, LoopPhase.current, LoopPhase.todo]
      · simp only [phased, LoopPhase.stepsLeft, List.length_cons, Option.toList]
        omega
  | finish entry todo outside phased =>
      refine distance_lt_of_stepsLeft ?_ ?_
      · simp [ends, phased, LoopPhase.current, LoopPhase.todo, Bool.or_assoc]
      · simp only [phased, LoopPhase.stepsLeft, List.length_cons, Option.toList]
        omega
  | again outside phased unstopped =>
      refine distance_lt_of_stepsLeft ?_ ?_
      · simp [ends, phased, LoopPhase.current, LoopPhase.todo]
      · rw [phased]
        exact (by decide : 4 < 5)
  | exit outside phased stopped =>
      refine distance_lt_of_stepsLeft ?_ ?_
      · simp [ends, phased, LoopPhase.current, LoopPhase.todo]
      · rw [phased]
        exact (by decide : 0 < 5)

theorem edge_of_call (steps : Steps stops s action next) (call : action.isOwn = false)
    (edge : next.edge = false) : s.edge = false := by
  cases steps with
  | check caller func idle outside unstopped => exact edge
  | refuse caller func idle stopped => exact edge
  | push caller func checked entry same iteration byTask => exact edge
  | write caller again pushed =>
      simp only [Bool.or_eq_false_iff] at edge
      exact edge.1.1
  | fail caller again pushed full => exact edge
  | _ => cases call

/-- Other threads do not put the loop thread to sleep. -/
theorem sleeps_of_call (steps : Steps stops s action next) (call : action.isOwn = false)
    (sleeps : next.Sleeps) : s.Sleeps :=
  ⟨(phase_of_call steps call).symm.trans sleeps.1, edge_of_call steps call sleeps.2⟩

/-- A loop thread that has left its loop does nothing more. -/
theorem calls_of_exited (reachable : s.Reachable stops) (steps : Steps stops s action next)
    (exited : s.phase = .exited) : action.isOwn = false ∧ s.callers none = .idle := by
  refine ⟨?_, (woken_of_reachable reachable).outside (by rw [exited]; rfl)⟩
  rw [← Bool.not_eq_true]
  intro own
  cases steps with
  | check caller func idle outside unstopped => cases own
  | refuse caller func idle stopped => cases own
  | push caller func checked entry same iteration byTask => cases own
  | write caller again pushed => cases own
  | fail caller again pushed full => cases own
  | report outside phased edge readable => exact absurd (exited.symm.trans phased) (by simp)
  | poll outside phased => exact absurd (exited.symm.trans phased) (by simp)
  | read outside phased => exact absurd (exited.symm.trans phased) (by simp)
  | timer outside phased => exact absurd (exited.symm.trans phased) (by simp)
  | drain outside phased => exact absurd (exited.symm.trans phased) (by simp)
  | start entry todo outside phased => exact absurd (exited.symm.trans phased) (by simp)
  | finish entry todo outside phased => exact absurd (exited.symm.trans phased) (by simp)
  | again outside phased unstopped => exact absurd (exited.symm.trans phased) (by simp)
  | exit outside phased stopped => exact absurd (exited.symm.trans phased) (by simp)

theorem exists_check {caller : Caller} (func : Func) (running : s.failed = false)
    (idle : s.callers (some caller) = .idle) :
    ∃ next, s.step stops (.check (some caller) func) = some next := by
  simp only [step, running, check, idle, Bool.false_eq_true, if_false, reduceCtorEq, false_and]
  split <;> exact ⟨_, rfl⟩

theorem exists_push {caller : Option Caller} {func : Func} (running : s.failed = false)
    (checked : s.callers caller = .checked func) :
    ∃ next, s.step stops (.push caller) = some next := by
  simp only [step, running, push, checked, Bool.false_eq_true, if_false]
  exact ⟨_, rfl⟩

theorem exists_write {caller : Option Caller} (running : s.failed = false)
    (pushed : s.callers caller = .pushed) :
    ∃ next, s.step stops (.write caller false) = some next := by
  simp only [step, running, write, pushed, Bool.false_eq_true, if_false]
  split <;> exact ⟨_, rfl⟩

theorem exists_own (stops : Func → Bool) (running : s.failed = false)
    (outside : s.callers none = .idle)
    (inside : s.phase ≠ .exited) :
    ∃ action, action.isOwn = true ∧ ∃ next, s.step stops action = some next := by
  cases phased : s.phase with
  | polling =>
      refine ⟨.poll false, rfl, ?_⟩
      simp [step, running, outside, go, poll, phased]
  | handling unread =>
      cases unread with
      | true =>
          refine ⟨.read, rfl, ?_⟩
          simp [step, running, outside, go, phased]
      | false =>
          refine ⟨.timer, rfl, ?_⟩
          simp [step, running, outside, go, phased]
  | timing =>
      refine ⟨.drain, rfl, ?_⟩
      simp [step, running, outside, go, phased]
  | running current todo =>
      cases current with
      | some entry =>
          refine ⟨.finish, rfl, ?_⟩
          simp [step, running, outside, go, phased]
      | none =>
          cases todo with
          | cons entry todo =>
              refine ⟨.start, rfl, ?_⟩
              simp [step, running, outside, go, phased]
          | nil =>
              refine ⟨.endLoop, rfl, ?_⟩
              simp only [step, running, outside, go, phased, Bool.false_eq_true, if_false]
              split <;> exact ⟨_, rfl⟩
  | exited => exact absurd phased inside

/-- A loop thread that sleeps in front of the task is about to be woken. -/
theorem pushed_of_sleeps (reachable : s.Reachable stops) (asked : s.Asked stops)
    (sleeps : s.Sleeps) : ∃ caller, s.callers (some caller) = .pushed := by
  have woken := woken_of_reachable reachable
  rcases asked with ⟨entry, member, stopping⟩
  have queued : s.tasks ≠ [] := by
    have none : s.phase.todo = [] := by rw [sleeps.1]; rfl
    rw [(ordered_of_reachable reachable).pushed, none, List.append_nil] at member
    rcases List.mem_append.mp member with ran | queued
    · rcases List.mem_map.mp ran with ⟨begun, before, rfl⟩
      exact absurd sleeps.1 (phase_ne_polling reachable before stopping)
    · exact List.ne_nil_of_mem queued
  rcases woken.owed (.inl sleeps.1) queued with readable | ⟨_ | caller, pushed⟩
  · rcases woken.signal readable with edge | phased
    · exact absurd (edge.symm.trans sleeps.2) (by simp)
    · exact absurd (phased.symm.trans sleeps.1) (by simp)
  · have idle := woken.outside (by rw [sleeps.1]; rfl)
    exact absurd (idle.symm.trans pushed) (by simp)
  · exact ⟨caller, pushed⟩

/-- The write wakes it. -/
theorem awake_of_write (reachable : s.Reachable stops) (sleeps : s.Sleeps) {caller : Option Caller}
    {again : Bool} (steps : Steps stops s (.write caller again) next) :
    next.failed = true ∨ ¬next.Sleeps := by
  cases steps with
  | fail _ _ pushed full => exact .inl rfl
  | write _ _ pushed =>
      have empty : s.counter = 0 := by
        by_contra readable
        rcases (woken_of_reachable reachable).signal (Nat.pos_of_ne_zero readable) with edge | phased
        · exact absurd (edge.symm.trans sleeps.2) (by simp)
        · exact absurd (phased.symm.trans sleeps.1) (by simp)
      refine .inr fun still => ?_
      simpa [Sleeps, empty] using still.2

end LoopThread

end MiniWebServer
