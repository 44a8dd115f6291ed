import MiniWebServer.HttpProcess.Limits
import MiniWebServer.SubReactor.Projection

/-!
# The loop of `onHttp` comes to its end

An iteration of the loop is followed by another one only if `parse` has taken a
complete request out of the read buffer, and from then on the parser is between
two requests. So the bytes that are buffered bound the calls of `parse`: two
bytes pay for a request that is resumed, eighteen for every other one.

`parseCalls` is the loop on its own. In a run of a reactor other threads take
their steps between those of the loop thread, and the same bytes pay for the
steps of the loop.
-/

namespace MiniWebServer

open HttpProcess

namespace Connection

/-- The calls of `parse` that the read buffer pays for. -/
def callsLeft (conn : Connection) : ℕ :=
  (if conn.httpProcess = fresh then 1 else 2) + conn.readBuffer.readable / 18

theorem callsLeft_le (conn : Connection) :
    conn.callsLeft ≤ 2 + conn.readBuffer.readable / 18 := by
  unfold callsLeft
  split <;> omega

theorem callsLeft_pos (conn : Connection) : 0 < conn.callsLeft := by
  unfold callsLeft
  split <;> omega

theorem Quiet.callsLeft {before after : Connection} (quiet : Quiet before after) :
    after.callsLeft = before.callsLeft := by
  rw [Connection.callsLeft, Connection.callsLeft, quiet.httpProcess, quiet.readBuffer]

namespace Scope

/-- An iteration of the loop of `onHttp` up to the next one; `none` when the loop is left. -/
def iterate (scope : Scope) (writes : List WriteResult) : Option Scope :=
  match scope.resume writes .parseLoop with
  | .go sent (some .afterResponse) =>
      match sent.resume [] .afterResponse with
      | .go again (some .parseLoop) => some again
      | _ => none
  | .dispatch again _ => some again
  | _ => none

/-- What an iteration leaves when it does not end the loop. -/
structure Completes (scope after : Scope) : Prop where
  alive : scope.conn.state ≠ .dead
  parsed : ∃ process,
    scope.conn.httpProcess.parse scope.conn.readBuffer =
      .ok (.kComplete, process, after.conn.readBuffer)
  fresh : after.conn.httpProcess = fresh

/-- Where an iteration ends: only after a complete request in the loop. -/
theorem parseLoop_spec (scope : Scope) (writes : List WriteResult) :
    match scope.parseLoop writes with
    | .go after (some .afterResponse) => Completes scope after
    | .dispatch after _ => Completes scope after
    | .go _ (some .parseLoop) => False
    | _ => True := by
  unfold parseLoop
  by_cases dead : scope.conn.state = .dead
  · rw [if_pos dead]
    trivial
  · rw [if_neg dead]
    cases parsed : scope.conn.httpProcess.parse scope.conn.readBuffer with
    | error exception => trivial
    | ok outcome =>
        rcases outcome with ⟨result, process, rest⟩
        cases result with
        | kNeedMore => trivial
        | kLineTooLong => trivial
        | kError => trivial
        | kComplete =>
            let taken := scope.modify (afterParse · fresh rest (.complete process.current))
            have completes : ∀ after : Scope, after.conn.readBuffer = rest →
                after.conn.httpProcess = fresh → Completes scope after :=
              fun after left reset => ⟨dead, ⟨process, left ▸ parsed⟩, reset⟩
            simp only [releaseRequest]
            cases pooled : taken.conn.useThreadPool with
            | true =>
                have dispatched := onComplete_of_pooled pooled process.current
                  (results scope.conn.log).length writes
                cases target : taken.conn.process with
                | true =>
                    rw [target, if_pos rfl] at dispatched
                    rw [dispatched]
                    exact completes _ rfl rfl
                | false =>
                    rw [target, if_neg Bool.false_ne_true] at dispatched
                    rw [dispatched]
                    trivial
            | false =>
                have answered := onComplete_of_alone pooled dead process.current
                  (results scope.conn.log).length writes
                have sends := sends_sent taken.conn (buildResponse process.current)
                  process.current.keepAlive writes
                rw [← conn_sendHttpOnLoop (buildResponse_ne_nil process.current)] at sends
                rw [answered]
                exact completes _ sends.readBuffer sends.httpProcess

theorem completes_of_iterate {scope again : Scope} {writes : List WriteResult}
    (iterated : scope.iterate writes = some again) : Completes scope again := by
  have spec := scope.parseLoop_spec writes
  unfold iterate at iterated
  simp only [resume] at iterated
  split at iterated
  · next sent left =>
    rw [left] at spec
    cases iterated
    have quiet := Quiet.checked sent.conn
    rw [← conn_checkEmptyReadAfterEof] at quiet
    rcases spec with ⟨alive, ⟨process, parsed⟩, reset⟩
    exact ⟨alive, ⟨process, quiet.readBuffer ▸ parsed⟩, quiet.httpProcess.trans reset⟩
  · next left =>
    rw [left] at spec
    cases iterated
    exact spec
  · cases iterated

theorem Completes.readable_lt {scope after : Scope} (completes : Completes scope after) :
    after.conn.readBuffer.readable < scope.conn.readBuffer.readable := by
  rcases completes.parsed with ⟨process, parsed⟩
  exact readable_lt_of_parse_eq_complete parsed

/-- The loop of `onHttp`: how often it calls `parse` when the kernel answers to
the writes of its iterations as given. -/
def parseCalls (scope : Scope) (writes : ℕ → List WriteResult) : ℕ :=
  if scope.conn.state = .dead then 0
  else
    match _iterated : scope.iterate (writes 0) with
    | none => 1
    | some again => 1 + again.parseCalls fun iteration => writes (iteration + 1)
termination_by scope.conn.readBuffer.readable
decreasing_by exact (completes_of_iterate _iterated).readable_lt

/-- An iteration that is followed by another one pays for its call. -/
theorem Completes.callsLeft_lt {scope after : Scope} (completes : Completes scope after) :
    after.conn.callsLeft < scope.conn.callsLeft := by
  rcases completes with ⟨_, ⟨process, parsed⟩, reset⟩
  have taken := readable_of_parse_eq_complete parsed
  rw [callsLeft, callsLeft, if_pos reset]
  split
  · next between =>
    have := taken.2 between
    omega
  · have := taken.1
    omega

theorem parseCalls_le_callsLeft (scope : Scope) (writes : ℕ → List WriteResult) :
    scope.parseCalls writes ≤ scope.conn.callsLeft := by
  fun_induction parseCalls scope writes with
  | case1 => exact Nat.zero_le _
  | case2 scope writes alive left => exact callsLeft_pos _
  | case3 scope writes alive again iterated ih =>
      have pays := (completes_of_iterate iterated).callsLeft_lt
      omega

end Scope

end Connection

open Connection

namespace SubReactor

/-- The loop thread is in the code of the connection. -/
def InCode (c : ConnId) (s : SubReactor) (_ : Action) : Prop :=
  ∃ frame, s.frame = some (c, frame)

instance (c : ConnId) (s : SubReactor) (action : Action) : Decidable (s.InCode c action) :=
  decidable_of_iff (s.frame.any fun entry => entry.1 = c) (by
    rw [Option.any_eq_true]
    constructor
    · rintro ⟨⟨self, frame⟩, framed, same⟩
      rw [decide_eq_true_eq] at same
      exact ⟨frame, same ▸ framed⟩
    · rintro ⟨frame, framed⟩
      exact ⟨(c, frame), framed, by simp⟩)

/-- Whether a step goes on in the code of a connection. -/
def resumes : Action → Bool
  | .resume _ => true
  | _ => false

/-- Whether a step calls `parse`. -/
def callsParse (s : SubReactor) (action : Action) : Bool :=
  resumes action &&
    match s.frame with
    | some (self, .parseLoop) => (s.heap self).any fun conn => conn.state ≠ .dead
    | _ => false

/-- The calls of `parse` that the loop can still make. -/
def callsLeft (s : SubReactor) : ℕ :=
  if s.failure.isSome then 0
  else
    match s.frame with
    | some (c, .parseLoop) | some (c, .afterResponse) =>
        ((s.heap c).map Connection.callsLeft).getD 0
    | _ => 0

/-- The steps that the loop thread can still take in the code of a connection. -/
def stepsLeft (s : SubReactor) : ℕ :=
  if s.failure.isSome then 0
  else
    match s.frame with
    | some (_, .parseLoop) => 2 * s.callsLeft
    | some (_, .afterResponse) => 2 * s.callsLeft + 1
    | some _ => 1
    | none => 0

section Steps

variable {mode : Bool} {s next : SubReactor} {c : ConnId} {frame : Frame} {conn : Connection}
  {action : Action}

/-- Other threads do not touch a connection whose code runs. -/
theorem still_of_inCode (inCode : s.InCode c action) (other : resumes action = false)
    (stepped : s.step action = some next) (valid : s.Valid mode) :
    next.frame = s.frame ∧ next.heap = s.heap ∧ next.failure = s.failure := by
  rcases inCode with ⟨frame, framed⟩
  unfold step at stepped
  split at stepped
  · cases stepped
  · cases action with
    | addConnection taskSubmit =>
        cases stepped
        exact ⟨rfl, rfl, rfl⟩
    | stop =>
        cases stepped
        exact ⟨rfl, rfl, rfl⟩
    | poll ready hastime => simp [poll, framed] at stepped
    | handle now reads writes => simp [handle, framed] at stepped
    | resume writes => cases other
    | timer now => simp [timer, framed] at stepped
    | expire => simp [expire, framed] at stepped
    | drain => simp [drain, framed] at stepped
    | task now writes => simp [task, framed] at stepped
    | endLoop => simp [endLoop, framed] at stepped
    | take =>
        simp only [take] at stepped
        split at stepped
        · cases stepped
        · split at stepped
          · cases stepped
            exact ⟨rfl, rfl, rfl⟩
          · cases stepped
    | post index =>
        rcases Option.map_eq_some_iff.mp stepped with ⟨job, _, rfl⟩
        simp only
        split <;> exact ⟨rfl, rfl, rfl⟩
    | destroy gone => exact absurd (stepped.symm.trans (destroy_eq_none valid gone)) (by simp)

/-- A step in the code of a connection pays for itself and for a call of `parse`. -/
theorem pays_resume {writes : List WriteResult} (framed : s.frame = some (c, frame))
    (found : s.heap c = some conn) (stepped : s.step (.resume writes) = some next) :
    (s.callsParse (.resume writes)).toNat + next.callsLeft ≤ s.callsLeft ∧
      next.stepsLeft < s.stepsLeft := by
  unfold step at stepped
  split at stepped
  · cases stepped
  · next running =>
    have going : s.failure.isSome = false := by simpa using running
    simp only [resume, framed, found, Option.map_some, Option.some.injEq] at stepped
    subst stepped
    cases frame with
    | parseLoop =>
        have spec := Scope.parseLoop_spec { conn, eloop := s.eloop } writes
        have once := Bool.toNat_le (s.callsParse (.resume writes))
        have positive := conn.callsLeft_pos
        have here : s.callsLeft = conn.callsLeft := by simp [callsLeft, going, framed, found]
        have steps : s.stepsLeft = 2 * conn.callsLeft := by simp [stepsLeft, going, framed, here]
        rw [here, steps]
        simp only [Scope.resume]
        revert spec
        cases Scope.parseLoop { conn, eloop := s.eloop } writes with
        | go after place =>
            cases place with
            | none =>
                intro _
                simp [callsLeft, stepsLeft, leave, going]
                omega
            | some place =>
                cases place with
                | parseLoop => exact False.elim
                | afterResponse =>
                    intro completes
                    have pays : after.conn.callsLeft < conn.callsLeft := completes.callsLeft_lt
                    simp [callsLeft, stepsLeft, leave, going]
                    omega
                | afterRejection =>
                    intro _
                    simp [callsLeft, stepsLeft, leave, going]
                    omega
                | afterBackPost =>
                    intro _
                    simp [callsLeft, stepsLeft, leave, going]
                    omega
        | dispatch after job =>
            intro completes
            have pays : after.conn.callsLeft < conn.callsLeft := completes.callsLeft_lt
            simp [callsLeft, stepsLeft, leave, going]
            omega
        | raise exception =>
            intro _
            simp [callsLeft, stepsLeft]
            omega
    | afterResponse =>
        have kept := (Quiet.checked conn).callsLeft
        simp [callsParse, framed, callsLeft, stepsLeft, going, found, Scope.resume, leave, kept]
    | afterRejection =>
        simp [callsParse, framed, callsLeft, stepsLeft, going, Scope.resume, leave]
    | afterBackPost =>
        simp [callsParse, framed, callsLeft, stepsLeft, going, Scope.resume, leave]

/-- No step in the code of a connection calls `parse` unless the bytes pay for it. -/
theorem pays_step (valid : s.Valid mode) (inCode : s.InCode c action)
    (found : s.heap c = some conn) (stepped : s.step action = some next) :
    (s.callsParse action).toNat + next.callsLeft ≤ s.callsLeft ∧
      (resumes action).toNat + next.stepsLeft ≤ s.stepsLeft := by
  cases resumed : resumes action with
  | true =>
      cases action with
      | resume writes =>
          rcases inCode with ⟨frame, framed⟩
          have pays := pays_resume framed found stepped
          refine ⟨pays.1, ?_⟩
          rw [Bool.toNat_true, Nat.add_comm]
          exact pays.2
      | _ => cases resumed
  | false =>
      rcases still_of_inCode inCode resumed stepped valid with ⟨frameEq, heapEq, failureEq⟩
      have calls : next.callsLeft = s.callsLeft := by
        simp only [callsLeft, frameEq, heapEq, failureEq]
      simp [callsParse, resumed, stepsLeft, calls, frameEq, failureEq]

/-- The connection stays while its code runs. -/
theorem exists_heap_of_step (valid : s.Valid mode) (inCode : s.InCode c action)
    (found : s.heap c = some conn) (stepped : s.step action = some next) :
    ∃ after, next.heap c = some after := by
  cases resumed : resumes action with
  | true =>
      cases action with
      | resume writes =>
          rcases inCode with ⟨frame, framed⟩
          unfold step at stepped
          split at stepped
          · cases stepped
          · simp only [resume, framed, found, Option.map_some, Option.some.injEq] at stepped
            subst stepped
            split
            · exact ⟨_, Function.update_self ..⟩
            · exact ⟨_, Function.update_self ..⟩
            · exact ⟨conn, found⟩
      | _ => cases resumed
  | false =>
      rcases still_of_inCode inCode resumed stepped valid with ⟨_, heapEq, _⟩
      rw [heapEq]
      exact ⟨conn, found⟩

/-- Nothing stops the loop thread in the code of a connection but an exception. -/
theorem exists_step_resume (framed : s.frame = some (c, frame)) (found : s.heap c = some conn)
    (going : s.failure = none) (writes : List WriteResult) :
    ∃ next, s.step (.resume writes) = some next := by
  simp [step, resume, framed, found, going]

/-- The read buffer pays for a run of the loop, whatever the other threads do meanwhile. -/
theorem pays_traces {trace : List (SubReactor × Action)} {final : SubReactor}
    (valid : s.Valid mode) (found : s.heap c = some conn)
    (traces : Transition.Traces step (InCode c) s trace final) :
    trace.countP (fun entry => entry.1.callsParse entry.2) + final.callsLeft ≤ s.callsLeft ∧
      trace.countP (fun entry => resumes entry.2) + final.stepsLeft ≤ s.stepsLeft ∧
      ∃ after, final.heap c = some after := by
  have known := traces.invariant (fun trace final => final.Valid mode ∧
    trace.countP (fun entry => entry.1.callsParse entry.2) + final.callsLeft ≤ s.callsLeft ∧
      trace.countP (fun entry => resumes entry.2) + final.stepsLeft ≤ s.stepsLeft ∧
      ∃ after, final.heap c = some after) ⟨valid, by simp, by simp, conn, found⟩ ?_
  · exact known.2
  · rintro trace state action next _ ⟨validState, calls, steps, object, here⟩ inCode stepped
    have pays := pays_step validState inCode here stepped
    have callCount : [(state, action)].countP (fun entry => entry.1.callsParse entry.2) =
        (state.callsParse action).toNat := by
      simp only [List.countP_singleton]
      cases state.callsParse action <;> rfl
    have stepCount : [(state, action)].countP (fun entry => resumes entry.2) =
        (resumes action).toNat := by
      simp only [List.countP_singleton]
      cases resumes action <;> rfl
    rw [List.countP_append, List.countP_append, callCount, stepCount]
    refine ⟨(follows_step validState c stepped).valid, ?_, ?_,
      exists_heap_of_step validState inCode here stepped⟩
    · omega
    · omega

end Steps

/-- The loop of `onHttp` makes two calls of `parse` and one for every eighteen
bytes of its read buffer at most: on its own, for every read buffer, parser and
answers to its writes; and in every run of a reactor, where nothing but its own
steps moves it and each of them is possible until it is left. -/
theorem parse_calls_bounded :
    (∀ (scope : Scope) (writes : ℕ → List WriteResult),
      scope.parseCalls writes ≤ 2 + scope.conn.readBuffer.readable / 18) ∧
    (∀ (scope again : Scope) (writes : List WriteResult),
      scope.iterate writes = some again → scope.Completes again) ∧
    (∀ (process next : HttpProcess) (readBuf rest : Buffer),
      process.parse readBuf = .ok (.kComplete, next, rest) →
        rest.readable + 2 ≤ readBuf.readable ∧
          (process = fresh → rest.readable + 18 ≤ readBuf.readable)) ∧
    (∀ (readBuf rest : Buffer) (line : List UInt8),
      retrieveLine readBuf = .line line rest → rest.readable + 2 ≤ readBuf.readable) ∧
    ∀ (mode : Bool) (workers : ℕ) (s final : SubReactor) (c : ConnId) (conn : Connection)
      (trace : List (SubReactor × Action)),
      Reachable mode workers s → s.frame = some (c, .parseLoop) → s.heap c = some conn →
      Transition.Traces step (InCode c) s trace final →
        trace.countP (fun entry => entry.1.callsParse entry.2) ≤
            2 + conn.readBuffer.readable / 18 ∧
          trace.countP (fun entry => resumes entry.2) ≤
            2 * (2 + conn.readBuffer.readable / 18) ∧
          (∀ frame writes, final.frame = some (c, frame) → final.failure = none →
            ∃ next, final.step (.resume writes) = some next) := by
  refine ⟨?_, fun _ _ _ => Scope.completes_of_iterate, fun _ _ _ _ => readable_of_parse_eq_complete,
    fun _ _ _ => add_two_le_of_retrieveLine, ?_⟩
  · intro scope writes
    exact (scope.parseCalls_le_callsLeft writes).trans scope.conn.callsLeft_le
  · intro mode workers s final c conn trace reachable framed found traces
    rcases pays_traces (valid_of_reachable reachable) found traces with
      ⟨calls, steps, after, foundAfter⟩
    have within := conn.callsLeft_le
    have callsEq : s.callsLeft ≤ conn.callsLeft := by
      unfold callsLeft
      split
      · exact Nat.zero_le _
      · simp [framed, found]
    have stepsEq : s.stepsLeft ≤ 2 * conn.callsLeft := by
      unfold stepsLeft
      split
      · exact Nat.zero_le _
      · simpa [framed] using callsEq
    refine ⟨by omega, by omega, ?_⟩
    intro frame writes framedFinal going
    exact exists_step_resume framedFinal foundAfter going writes

/-- Two pipelined requests take three calls. -/
theorem parse_calls_bounded_pipelined :
    ∃ (s final : SubReactor) (trace : List (SubReactor × Action)),
      Transition.Traces step (InCode 0) s trace final ∧ final.frame = none ∧
        trace.countP (fun entry => entry.1.callsParse entry.2) = 3 ∧ 3 ≤ 2 + 36 / 18 := by
  let entering := connecting false ++
    reading [.delivered (ascii "GET / HTTP/1.1\r\n\r\nGET / HTTP/1.1\r\n\r\n")]
  let looping : List Action := List.replicate 5 (.resume acceptAll)
  have ran : ((Transition.run step Transition.anyAction (init false 0) entering).bind fun s =>
      (s.heap 0).bind fun conn => (Transition.run step (InCode 0) s looping).map fun final =>
        (s.frame, conn.readBuffer.readable, final.frame,
          (Transition.recording step s looping).countP fun entry => entry.1.callsParse entry.2)) =
      some (some (0, .parseLoop), 36, none, 3) := by
    decide +kernel
  rcases Option.bind_eq_some_iff.mp ran with ⟨s, entered, ran⟩
  rcases Option.bind_eq_some_iff.mp ran with ⟨conn, found, ran⟩
  rcases Option.map_eq_some_iff.mp ran with ⟨final, looped, seen⟩
  simp only [Prod.mk.injEq] at seen
  rcases seen with ⟨framed, size, left, calls⟩
  have traces := Transition.traces_of_run looped
  have bounded := (parse_calls_bounded.2.2.2.2 false 0 s final 0 conn _
    (Transition.reaches_of_run entered) framed found traces).1
  rw [calls, size] at bounded
  exact ⟨s, final, _, traces, left, calls, bounded⟩

end SubReactor

end MiniWebServer
