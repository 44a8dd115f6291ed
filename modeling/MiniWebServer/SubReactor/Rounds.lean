import MiniWebServer.SubReactor.Turns

/-!
# The rounds of the event loop

Between two calls of `epoll_wait` the loop thread has a bounded way to go: the
callbacks of the poll, the expired timers, the tasks, and in the code of a
connection the iterations that the read buffer pays for. So it polls again and
again, whatever the other threads do meanwhile, and every queued task runs.
-/

namespace MiniWebServer

/-- The place of a phase on the way to the next poll. -/
def Phase.stage : Phase → ℕ
  | .handling _ true => 4
  | .expiring _ => 3
  | .handling _ false => 2
  | .running _ _ => 1
  | .polling | .exited => 0

/-- What is left to do in a phase. -/
def Phase.left : Phase → ℕ
  | .handling batch _ => batch.length
  | .expiring ids => ids.length
  | .running _ todo => todo.length
  | .polling | .exited => 0

namespace SubReactor

/-- How far the loop thread is from its next poll. -/
def rank (s : SubReactor) : ℕ ×ₗ ℕ ×ₗ ℕ :=
  toLex (s.phase.stage, toLex (s.phase.left, s.stepsLeft))

def isPoll : Action → Bool
  | .poll _ _ => true
  | _ => false

section

variable {mode : Bool} {workers : ℕ} {s next : SubReactor} {action : Action}

theorem rank_lt_of_stage (smaller : next.phase.stage < s.phase.stage) : next.rank < s.rank :=
  Prod.Lex.toLex_lt_toLex.mpr (.inl smaller)

theorem rank_lt_of_left (same : next.phase.stage = s.phase.stage)
    (smaller : next.phase.left < s.phase.left) : next.rank < s.rank :=
  Prod.Lex.toLex_lt_toLex.mpr (.inr ⟨same, Prod.Lex.toLex_lt_toLex.mpr (.inl smaller)⟩)

theorem rank_lt_of_stepsLeft (same : next.phase = s.phase)
    (smaller : next.stepsLeft < s.stepsLeft) : next.rank < s.rank := by
  rw [rank, rank, same]
  exact Prod.Lex.toLex_lt_toLex.mpr
    (.inr ⟨rfl, Prod.Lex.toLex_lt_toLex.mpr (.inr ⟨rfl, smaller⟩)⟩)

/-- A step of the loop thread that is not a poll brings the next poll nearer, and
no other thread puts it off. -/
theorem rank_step (reachable : Reachable mode workers s) (stepped : s.step action = some next) :
    isPoll action = true ∨
      next.rank ≤ s.rank ∧ (ofLoop action = true → next.rank < s.rank) := by
  have closer : next.rank < s.rank →
      next.rank ≤ s.rank ∧ (ofLoop action = true → next.rank < s.rank) :=
    fun smaller => ⟨smaller.le, fun _ => smaller⟩
  cases turns_of_reachable reachable stepped with
  | outside other phase frame heap failure grows =>
      have same : next.rank = s.rank := by
        simp only [rank, stepsLeft, callsLeft, phase, frame, heap, failure]
      refine .inr ⟨same.le, ?_⟩
      rw [other]
      exact fun impossible => by cases impossible
  | polls batch phase known phaseNext frame grows => exact .inl rfl
  | handles entry batch hastime phase phaseNext entered grows =>
      refine .inr (closer (rank_lt_of_left ?_ ?_))
      · rw [phase, phaseNext]
        cases hastime <;> rfl
      · rw [phase, phaseNext]
        exact Nat.lt_succ_self _
  | resumes c frame conn framed found phase entered grows =>
      exact .inr (closer (rank_lt_of_stepsLeft phase (pays_resume framed found stepped).2))
  | skips phase phaseNext frame grows =>
      refine .inr (closer (rank_lt_of_stage ?_))
      rw [phase, phaseNext]
      decide
  | scans ids phase phaseNext frame grows =>
      refine .inr (closer (rank_lt_of_stage ?_))
      rw [phase, phaseNext]
      exact (by decide : 3 < 4)
  | expires id rest phase phaseNext frame grows =>
      refine .inr (closer (rank_lt_of_left ?_ ?_))
      · rw [phase, phaseNext]
        rfl
      · rw [phase, phaseNext]
        exact Nat.lt_succ_self _
  | expired phase phaseNext frame grows =>
      refine .inr (closer (rank_lt_of_stage ?_))
      rw [phase, phaseNext]
      decide
  | drains phase phaseNext frame tasks stop =>
      refine .inr (closer (rank_lt_of_stage ?_))
      rw [phase, phaseNext]
      exact (by decide : 1 < 2)
  | runs done func todo phase phaseNext entered tasks stop =>
      refine .inr (closer (rank_lt_of_left ?_ ?_))
      · rw [phase, phaseNext]
        rfl
      · rw [phase, phaseNext]
        exact Nat.lt_succ_self _
  | returns done phase phaseNext frame grows =>
      refine .inr (closer (rank_lt_of_stage ?_))
      rw [phase, phaseNext]
      split <;> exact Nat.zero_lt_one

/-- The runs of a reactor that do not end, whatever their steps are. -/
abbrev Endless :=
  Transition.Forever step Transition.anyAction

theorem Endless.reachable (endless : Endless) (atStart : Reachable mode workers (endless.state 0))
    (n : ℕ) : Reachable mode workers (endless.state n) :=
  atStart.trans (endless.reaches n.zero_le)

/-- The loop thread keeps taking steps. -/
def Endless.Busy (endless : Endless) : Prop :=
  endless.Repeats fun _ action => ofLoop action = true

theorem polls_again (endless : Endless) (atStart : Reachable mode workers (endless.state 0))
    (busy : endless.Busy) : endless.Repeats fun _ action => isPoll action = true := by
  intro n
  refine endless.eventually_of_rank rank (Reachable mode workers)
    (fun _ action => ofLoop action = true) (fun _ action => isPoll action = true) busy
    (endless.reachable atStart n) ?_
  intro state action next reachable _ stepped
  have reachableNext : Reachable mode workers next := reachable.tail ⟨action, trivial, stepped⟩
  rcases rank_step reachable stepped with polls | pays
  · exact .inl polls
  · exact .inr ⟨reachableNext, pays⟩

/-- Until its loop has ended or an exception leaves it, the loop thread can go on
from every state, whatever it reads and writes; and it comes back to `epoll_wait`
again and again, whatever arrives and whatever the other threads do. The reads of
a callback are a finite list: every callback returns. -/
theorem loop_goes_round :
    (∀ (mode : Bool) (workers : ℕ) (s : SubReactor), Reachable mode workers s →
      s.failure = none → s.phase ≠ .exited →
      ∀ now reads writes, ofLoop (s.turn now reads writes) = true ∧
        ∃ next, s.step (s.turn now reads writes) = some next) ∧
    ∀ (mode : Bool) (workers : ℕ) (endless : Endless),
      Reachable mode workers (endless.state 0) → endless.Busy →
      endless.Repeats fun _ action => isPoll action = true :=
  ⟨fun _ _ s reachable runs going now reads writes =>
      ⟨ofLoop_turn s now reads writes, exists_step_turn reachable runs going now reads writes⟩,
    fun _ _ endless atStart busy => polls_again endless atStart busy⟩

/-- A loop with nothing to do is woken up and goes back to sleep. -/
structure Idle (s : SubReactor) : Prop where
  frame : s.frame = none
  phase : s.phase = .polling
  tasks : s.eloop.tasks = []
  stop : s.eloop.stop = false
  failure : s.failure = none

theorem exists_idle (idle : s.Idle) :
    ∃ endless : Endless, endless.state 0 = s ∧ endless.Busy := by
  have ran : Transition.run step Transition.anyAction s [.poll [] false, .drain, .endLoop] =
      some s := by
    rcases s with ⟨mode, connections, ⟨timerQueue, tasks, stop⟩, heap, conn, socket, phase, frame,
      queue, running, workers, refused, failure⟩
    rcases idle with ⟨rfl, rfl, rfl, rfl, rfl⟩
    rfl
  rcases Transition.exists_forever_of_return ran (by simp) with ⟨endless, atStart, actions⟩
  refine ⟨endless, atStart, fun n => ⟨n, le_rfl, ?_⟩⟩
  have member := actions n
  simp only [List.mem_cons, List.not_mem_nil, or_false] at member
  rcases member with same | same | same <;> rw [same] <;> rfl

theorem loop_goes_round_idle :
    (∃ next, (init false 0).step ((init false 0).turn clock [] []) = some next) ∧
      ∃ endless : Endless, endless.Repeats fun _ action => isPoll action = true := by
  rcases exists_idle (s := init false 0) ⟨rfl, rfl, rfl, rfl, rfl⟩ with ⟨endless, atStart, busy⟩
  have start : Reachable false 0 (init false 0) := .refl
  refine ⟨(loop_goes_round.1 false 0 _ start rfl (by simp [init]) clock [] []).2, endless, ?_⟩
  refine loop_goes_round.2 false 0 endless ?_ busy
  rw [atStart]

end

end SubReactor

end MiniWebServer
