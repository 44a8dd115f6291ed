import MiniWebServer.SubReactor.Expiry
import MiniWebServer.SubReactor.Table

/-!
# Connections after the stop task

The task of `SubReactor::stop` takes every connection of the table to `dead`,
out of epoll and away from its timer. Tasks that are behind it in the same
batch, and replies of workers that come later, change nothing of such a
connection but its count `working`.
-/

namespace MiniWebServer

open Connection

namespace View

/-- A dead connection that the loop thread is not at: no code of it runs, and
only `working` may differ from what it was. -/
structure Rests (conn : Connection) (view : View) : Prop where
  ready : view.frame = none
  handled : view.pending = []
  dead : view.conn.state = .dead
  same : ∃ working, view.conn = { conn with working := working }

theorem rests_moves {conn : Connection} {before after : View} {share : Share}
    (sound : before.conn.Sound) (rests : Rests conn before) (moves : Moves before share after) :
    Rests conn after := by
  have ready := rests.ready
  have handled := rests.handled
  have dead := rests.dead
  cases moves with
  | poll revents _ _ reported =>
      have removed := sound.removed dead
      exact absurd (removed.symm.trans reported.1) (by simp)
  | readNothing reads timerId _ next empty => exact absurd (handled.symm.trans next) (by simp)
  | read reads timerId _ next more => exact absurd (handled.symm.trans next) (by simp)
  | write now writes eloop _ next => exact absurd (handled.symm.trans next) (by simp)
  | leave parsing _ => exact absurd (ready.symm.trans parsing) (by simp)
  | needMore process rest parsing alive parsed => exact absurd dead alive
  | tooLong process rest parsing alive parsed => exact absurd dead alive
  | reject writes process rest parsing alive parsed => exact absurd dead alive
  | answer writes process rest parsing alive parsed alone => exact absurd dead alive
  | dispatch process rest parsing alive parsed pooled => exact absurd dead alive
  | raise parsing alive raised => exact absurd dead alive
  | afterResponse sent => exact absurd (ready.symm.trans sent) (by simp)
  | afterRejection sent => exact absurd (ready.symm.trans sent) (by simp)
  | afterBackPost sent => exact absurd (ready.symm.trans sent) (by simp)
  | expire _ _ =>
      have unchanged : before.conn.died = before.conn := if_pos dead
      exact ⟨ready, handled, by rw [unchanged]; exact dead, by rw [unchanged]; exact rests.same⟩
  | post job running => exact ⟨ready, handled, dead, rests.same⟩
  | skip reply tasks _ _ next _ =>
      rcases rests.same with ⟨working, same⟩
      refine ⟨ready, handled, dead, working - 1, ?_⟩
      simp only [same]
  | respond writes reply tasks _ _ next alive => exact absurd dead alive
  | stop _ _ =>
      have unchanged : before.conn.stopped = before.conn := if_pos dead
      exact ⟨ready, handled, by rw [unchanged]; exact dead, by rw [unchanged]; exact rests.same⟩

theorem rests_stop {before after : View} (moves : Moves before .stop after) :
    Rests after.conn after := by
  cases moves with
  | stop ready handled => exact ⟨ready, handled, state_stopped _, before.conn.stopped.working, rfl⟩

end View

namespace SubReactor

section

variable {mode : Bool} {workers : ℕ} {s next : SubReactor} {action : Action}

theorem view_of_heap {c : ConnId} {conn : Connection} (found : s.heap c = some conn) :
    s.view c = some (s.viewOf c conn) := by
  rw [view, found, Option.map_some]

theorem rests_of_reaches {c : ConnId} {conn known : Connection} {later : SubReactor}
    (reachable : Reachable mode workers s) (found : s.heap c = some known)
    (rests : (s.viewOf c known).Rests conn)
    (reaches : Transition.Reaches step Transition.anyAction s later) :
    ∃ known, later.heap c = some known ∧ (later.viewOf c known).Rests conn := by
  refine (reaches.invariant (fun state => Reachable mode workers state ∧
    ∃ known, state.heap c = some known ∧ (state.viewOf c known).Rests conn)
    ⟨reachable, known, found, rests⟩ ?_).2
  rintro state action next ⟨reachable, before, found, rests⟩ _ stepped
  refine ⟨reachable.tail ⟨action, trivial, stepped⟩, ?_⟩
  have valid := valid_of_reachable reachable
  have follows := follows_step valid c stepped
  have made : c < next.nextConn :=
    (valid.heap c before found).1.trans_le (tables_step stepped).made
  rcases follows.valid.kept c made with ⟨after, foundAfter, _⟩
  refine ⟨after, foundAfter, ?_⟩
  have shown := view_of_heap found
  rcases follows.moves _ (view_of_heap foundAfter) with ⟨hidden, _⟩ | ⟨view, shownBefore, moved⟩
  · exact absurd (shown.symm.trans hidden) (by simp)
  · rw [shown, Option.some.injEq] at shownBefore
    subst shownBefore
    rcases moved with ⟨_, same⟩ | ⟨share, _, moves⟩
    · rw [same]
      exact rests
    · exact View.rests_moves (regular_of_reachable reachable shown).wired.sound rests moves

theorem rests_of_stop (reachable : Reachable mode workers s) {done todo : List Task}
    {now : Timespec} {writes : List WriteResult} {c : ConnId}
    (phased : s.phase = .running done (.stop :: todo))
    (stepped : s.step (.task now writes) = some next) (listed : c ∈ s.connections.map Prod.snd) :
    ∃ conn, next.heap c = some conn ∧ (next.viewOf c conn).Rests conn := by
  have valid := valid_of_reachable reachable
  have follows := follows_step valid c stepped
  have made : c < s.nextConn := by
    rcases List.mem_map.mp listed with ⟨entry, member, rfl⟩
    exact listed_of_reachable reachable entry member
  rcases valid.kept c made with ⟨before, found, _⟩
  rcases follows.valid.kept c (made.trans_le (tables_step stepped).made) with ⟨after, foundAfter, _⟩
  refine ⟨after, foundAfter, ?_⟩
  have shared : s.share c (.task now writes) = some .stop := by
    simp only [share, phased, Phase.todo]
    exact if_pos listed
  rcases follows.moves _ (view_of_heap foundAfter) with ⟨hidden, _⟩ | ⟨view, _, moved⟩
  · exact absurd ((view_of_heap found).symm.trans hidden) (by simp)
  · rcases moved with ⟨silent, _⟩ | ⟨part, labelled, moves⟩
    · exact absurd (shared.symm.trans silent) (by simp)
    · rw [shared, Option.some.injEq] at labelled
      subst labelled
      exact View.rests_stop moves

theorem timersOf_eq_nil_of_dead (timed : s.Timed) {c : ConnId} {conn : Connection}
    (found : s.heap c = some conn) (dead : conn.state = .dead) : s.timersOf c = [] := by
  rw [timersOf, List.filter_eq_nil_iff]
  intro entry member own
  rcases timed.kept entry member with ⟨other, foundOther, _, alive⟩
  rw [decide_eq_true_eq.mp own] at foundOther
  have same : conn = other := Option.some.inj (found.symm.trans foundOther)
  rw [← same] at alive
  exact alive dead

/-- Stopped connections do no more I/O. Whatever runs after the stop task, only
their count `working` changes. -/
theorem stopped_connections_rest (reachable : Reachable mode workers s) {done todo : List Task}
    {now : Timespec} {writes : List WriteResult} {c : ConnId}
    (phased : s.phase = .running done (.stop :: todo))
    (stepped : s.step (.task now writes) = some next) (listed : c ∈ s.connections.map Prod.snd) :
    ∃ conn, next.heap c = some conn ∧ conn.state = .dead ∧ conn.channel.inEpoll = false ∧
      next.timersOf c = [] ∧
      ∀ later, Transition.Reaches step Transition.anyAction next later →
        ∃ after, later.heap c = some after ∧
          (∃ working, after = { conn with working := working }) ∧ later.timersOf c = [] := by
  rcases rests_of_stop reachable phased stepped listed with ⟨conn, found, rests⟩
  have reachableNext : Reachable mode workers next := reachable.tail ⟨_, trivial, stepped⟩
  have sound := (regular_of_reachable reachableNext (view_of_heap found)).wired.sound
  refine ⟨conn, found, rests.dead, sound.removed rests.dead, ?_, ?_⟩
  · exact timersOf_eq_nil_of_dead (timed_of_reachable reachableNext) found rests.dead
  · intro later reaches
    rcases rests_of_reaches reachableNext found rests reaches with ⟨after, foundAfter, restsAfter⟩
    have reachableLater : Reachable mode workers later := reachableNext.trans reaches
    exact ⟨after, foundAfter, restsAfter.same,
      timersOf_eq_nil_of_dead (timed_of_reachable reachableLater) foundAfter restsAfter.dead⟩

/-- The reply of a worker is behind the stop task in the same batch. -/
theorem stopped_connections_rest_replied :
    ∃ s next conn, Reachable true 1 s ∧ s.phase.todo.length = 2 ∧
      s.step (.task clock []) = some next ∧ next.heap 0 = some conn ∧ conn.state = .dead ∧
      conn.working = 1 ∧
      ∀ later, Transition.Reaches step Transition.anyAction next later →
        ∃ after, later.heap 0 = some after ∧
          (∃ working, after = { conn with working := working }) ∧ later.timersOf 0 = [] := by
  rcases exists_of_look anyMove 0 true 1
    (connecting true ++ reading [.delivered (ascii "GET / HTTP/1.1\r\n\r\n")] ++
      [.resume [], .resume [], .drain, .endLoop, .stop, .take, .post 0, .poll [] false, .drain])
    (fun s => (s.step (.task clock [])).bind fun next => (next.heap 0).map fun conn =>
      (s.phase.todo.map (replyFor 0 · |>.isSome), s.phase.todo.head?, s.connections, conn.working))
    ([false, true], some .stop, [(0, 0)], 1) (by decide +kernel) with ⟨s, reaches, looked⟩
  rcases Option.bind_eq_some_iff.mp looked with ⟨next, stepped, looked⟩
  rcases Option.map_eq_some_iff.mp looked with ⟨conn, found, looked⟩
  simp only [Prod.mk.injEq] at looked
  rcases looked with ⟨replies, first, table, working⟩
  cases phased : s.phase with
  | running done todo =>
      rw [phased, Phase.todo] at first
      rcases List.head?_eq_some_iff.mp first with ⟨rest, rfl⟩
      rcases stopped_connections_rest (c := 0) reaches.reachable phased stepped
          (by simp [table]) with
        ⟨other, foundOther, dead, _, _, later⟩
      rw [found, Option.some.injEq] at foundOther
      subst foundOther
      have pending : s.phase.todo.length = 2 := by simpa using congrArg List.length replies
      rw [phased] at pending
      exact ⟨s, next, conn, reaches.reachable, by rw [phased]; exact pending, stepped, found, dead,
        working, later⟩
  | _ => simp [phased, Phase.todo] at first

end

end SubReactor

end MiniWebServer
