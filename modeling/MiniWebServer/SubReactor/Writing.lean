import MiniWebServer.Connection.Writing
import MiniWebServer.SubReactor.Projection

/-!
# The connections of a reactor are waited for

Every connection of a reactor is `Standing` in every reachable state, and stays
so through any calls that the loop thread could make on it from there.
-/

namespace MiniWebServer

open Connection HttpProcess

namespace View

theorem watched_starts {mode : Bool} {view : View} (starts : Starts mode view) :
    view.conn.Watched := by
  cases starts with
  | startConnect self sck process timerId =>
      refine .inr ⟨rfl, fun enabled => ?_, fun pending => absurd rfl pending⟩
      cases enabled

theorem watched_moves {before after : View} {share : Share} (wired : before.Wired)
    (watched : before.conn.Watched) (moves : Moves before share after) :
    after.conn.Watched := by
  have readable : before.pending.head? = some .readCallBack → before.conn.state ≠ .dead :=
    fun first => (wired.reading first).2.1
  cases moves with
  | poll revents ready handled reported => exact watched
  | readNothing reads timerId ready next empty =>
      exact (watched.heard (readable (by simp [next])) timerId reads).checked
  | read reads timerId ready next more =>
      exact watched.heard (readable (by simp [next])) timerId reads
  | write now writes eloop ready next =>
      exact @Watched.handleWriteCallBack { conn := before.conn, eloop } watched now writes
  | leave parsing dead => exact watched
  | needMore process rest parsing alive parsed =>
      exact watched.keep rfl (List.append_nil _).symm rfl rfl
  | tooLong process rest parsing alive parsed =>
      exact ((watched.afterParse process rest .lineTooLong).shut alive).checked
  | reject writes process rest parsing alive parsed =>
      exact (watched.afterParse process rest .error).sent alive
        (readable_dataIn_ne_zero _ build400_ne_nil) false writes
  | answer writes process rest parsing alive parsed alone =>
      exact (watched.afterParse fresh rest (.complete process.current)).sent alive
        (readable_dataIn_ne_zero _ (buildResponse_ne_nil _)) _ writes
  | dispatch process rest parsing alive parsed pooled =>
      have parsed := watched.afterParse fresh rest (.complete process.current)
      exact parsed.keep rfl (List.append_nil _).symm rfl rfl
  | raise parsing alive raised => exact watched
  | afterResponse sent => exact watched.checked
  | afterRejection sent =>
      have reset : Watched { before.conn with httpProcess := fresh } :=
        watched.keep rfl (List.append_nil _).symm rfl rfl
      exact reset.checked
  | afterBackPost sent => exact watched.checked
  | expire ready handled => exact .inl (ended_died _)
  | post job running => exact watched
  | skip reply tasks ready handled next dead => exact .inl (.inl dead)
  | respond writes reply tasks ready handled next alive =>
      have counted : Watched { before.conn with working := before.conn.working - 1 } :=
        watched.keep rfl (List.append_nil _).symm rfl rfl
      exact counted.sent alive (readable_dataIn_ne_zero _ reply.resp_ne_nil) reply.keepAlive writes
  | stop ready handled => exact .stopped _

end View

namespace SubReactor

variable {mode : Bool} {workers : ℕ} {s : SubReactor} {c : ConnId} {conn : Connection}

theorem standing_of_reachable (reachable : Reachable mode workers s)
    (found : s.heap c = some conn) : conn.Standing := by
  have reaches : ReachableWith anyMove c mode workers s :=
    reachable.weaken fun _ _ _ _ _ _ _ => trivial
  have shown : s.view c = some (s.viewOf c conn) := by
    simp [view, found]
  have regular := regular_of_reachable reachable shown
  have watched := regular_view_invariant (fun view => view.conn.Watched)
    (fun _ => View.watched_starts)
    (fun regular watched _ moves => View.watched_moves regular.wired watched moves)
    reaches shown
  exact ⟨regular.wired.sound, regular.conserved, watched⟩

/-- From any state of a connection, through any calls, no byte of a response is
lost, and a connection with bytes left to write is registered for `EPOLLOUT`. -/
theorem writes_delivered_or_awaited (reachable : Reachable mode workers s)
    (found : s.heap c = some conn) {eloop : EventLoop} {scope : Scope}
    (calls : Scope.Calls { conn, eloop } scope) (lives : ¬scope.conn.Ended) :
    scope.conn.Delivers := by
  have standing := standing_of_reachable reachable found
  have kept : scope.conn.Standing := standing_calls standing calls
  exact kept.delivers lives

/-- A response goes out in three pieces: the fast path writes ten bytes, the write
callback is interrupted, writes five and finds the socket full. Then a response
of three bytes waits behind it. -/
theorem writes_delivered_or_awaited_partly :
    ∃ s conn scope, Reachable false 0 s ∧ s.heap 0 = some conn ∧
      Scope.Calls { conn, eloop := .init } scope ∧ ¬scope.conn.Ended ∧
      (accepted scope.conn.log).length = 15 ∧ scope.conn.writeBuffer.readable ≠ 0 ∧
      scope.conn.Delivers := by
  rcases exists_of_look anyMove 0 false 0
    (connecting false ++ reading [.delivered (ascii "GET / HTTP/1.1\r\n\r\n")] ++
      [.resume [.accepted 10 (Nat.succ_pos 9)], .resume [], .resume [], .drain, .endLoop,
        .poll [(0, { epollOut := true })] false,
        .handle clock [] [.failed .eintr, .accepted 5 (Nat.succ_pos 4), .failed .eagain]])
    (fun s => (s.heap 0).map fun conn : Connection =>
      let after := (Scope.sendHttpOnLoop { conn, eloop := .init } (ascii "end") true []).conn
      (decide conn.Ended, decide after.Ended, (accepted after.log).length,
        after.writeBuffer.readable == 0))
    (false, false, 15, false) (by decide +kernel) with ⟨s, reaches, looked⟩
  rw [Option.map_eq_some_iff] at looked
  rcases looked with ⟨conn, found, seen⟩
  simp only [Prod.mk.injEq, decide_eq_false_iff_not, beq_eq_false_iff_ne] at seen
  rcases seen with ⟨alive, lives, taken, left⟩
  have calls : Scope.Calls { conn, eloop := .init }
      (Scope.sendHttpOnLoop { conn, eloop := .init } (ascii "end") true []) :=
    .single ⟨.sendHttpOnLoop (ascii "end") true [], alive, rfl⟩
  exact ⟨s, conn, _, reaches.reachable, found, calls, lives, taken, left,
    writes_delivered_or_awaited reaches.reachable found calls lives⟩

end SubReactor

end MiniWebServer
