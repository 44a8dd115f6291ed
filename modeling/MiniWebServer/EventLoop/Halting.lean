import MiniWebServer.EventLoop.Wakeup

/-!
# The end of an event loop

A loop ends with the batch in which a task called `stopLoop`. What one step does
to its queue and to the threads that are in `enqueueTask` is stated for the
servers that are built from loops.
-/

namespace MiniWebServer

/-- Whether a step is one of the loop thread outside of `enqueueTask`. -/
def LoopAction.isOwn {Func Caller : Type} : LoopAction Func Caller → Bool
  | .check _ _ => false
  | .push _ => false
  | .write _ _ => false
  | _ => true

namespace LoopThread

variable {Func Caller : Type} [DecidableEq Caller] {stops : Func → Bool}
  {s next : LoopThread Func Caller} {action : LoopAction Func Caller}

theorem phase_of_call (steps : Steps stops s action next) (call : action.isOwn = false) :
    next.phase = s.phase := by
  cases steps with
  | check caller func idle outside unstopped => rfl
  | refuse caller func idle stopped => rfl
  | push caller func checked entry same iteration byTask => rfl
  | write caller again pushed => rfl
  | fail caller again pushed full => rfl
  | _ => cases call

/-- The queue grows by the tasks of callers that have passed their check. -/
theorem pushed_steps (steps : Steps stops s action next) :
    next.pushed = s.pushed ∨
      ∃ caller entry, action = .push caller ∧ s.callers caller = .checked entry.func ∧
        next.pushed = s.pushed ++ [entry] := by
  cases steps with
  | push caller func checked entry same iteration byTask =>
      exact .inr ⟨caller, entry, rfl, by rw [same, checked], rfl⟩
  | _ => exact .inl rfl

theorem callers_steps (steps : Steps stops s action next) (caller : Option Caller) :
    next.callers caller = s.callers caller ∨
      (∃ func, action = .check caller func ∧ s.stop = false ∧
        next.callers caller = .checked func) ∨
      (action = .push caller ∧ next.callers caller = .pushed) ∨
      ((∃ again, action = .write caller again) ∧ next.callers caller = .idle) := by
  cases steps with
  | check other func idle outside unstopped =>
      by_cases same : caller = other
      · subst same
        exact .inr (.inl ⟨func, rfl, unstopped, callers_moveCaller_self s caller _⟩)
      · exact .inl (callers_moveCaller_of_ne s same _)
  | push other func checked entry func_eq iteration byTask =>
      by_cases same : caller = other
      · subst same
        exact .inr (.inr (.inl ⟨rfl, callers_moveCaller_self s caller _⟩))
      · exact .inl (callers_moveCaller_of_ne s same _)
  | write other again pushed =>
      by_cases same : caller = other
      · subst same
        exact .inr (.inr (.inr ⟨⟨again, rfl⟩, callers_moveCaller_self s caller _⟩))
      · exact .inl (callers_moveCaller_of_ne s same _)
  | _ => exact .inl rfl

theorem exited_steps (steps : Steps stops s action next) (exited : s.phase = .exited) :
    next.phase = .exited := by
  by_cases call : action.isOwn = false
  · rw [phase_of_call steps call, exited]
  · cases steps with
    | check caller func idle outside unstopped => exact absurd rfl call
    | refuse caller func idle stopped => exact exited
    | push caller func checked entry same iteration byTask => exact absurd rfl call
    | write caller again pushed => exact absurd rfl call
    | fail caller again pushed full => exact absurd rfl call
    | exit outside phased stopped => rfl
    | report _ phased _ _ => exact absurd (exited.symm.trans phased) (by simp)
    | poll _ phased => exact absurd (exited.symm.trans phased) (by simp)
    | read _ phased => exact absurd (exited.symm.trans phased) (by simp)
    | timer _ phased => exact absurd (exited.symm.trans phased) (by simp)
    | drain _ phased => exact absurd (exited.symm.trans phased) (by simp)
    | start _ _ _ phased => exact absurd (exited.symm.trans phased) (by simp)
    | finish _ _ _ phased => exact absurd (exited.symm.trans phased) (by simp)
    | again _ phased _ => exact absurd (exited.symm.trans phased) (by simp)

/-- When `stop` is set, and where the loop thread is then. -/
structure Halts (stops : Func → Bool) (s : LoopThread Func Caller) : Prop where
  current : ∀ entry todo, s.phase = .running (some entry) todo → entry ∈ s.ran.map Prod.fst
  began : ∀ entry ∈ s.ran.map Prod.fst, stops entry.func = true →
    s.stop = true ∨ ∃ todo, s.phase = .running (some entry) todo
  reason : s.stop = true → ∃ entry ∈ s.ran.map Prod.fst, stops entry.func = true
  ending : s.stop = true → s.phase.isRunning = true ∨ s.phase = .exited
  exited : s.phase = .exited → s.stop = true

omit [DecidableEq Caller] in
/-- A step that is neither a task nor the end of an iteration. -/
theorem Halts.proceed (halts : s.Halts stops) (ran : next.ran = s.ran) (stop : next.stop = s.stop)
    (before : s.phase.isRunning = false) (alive : s.phase ≠ .exited)
    (current : ∀ entry todo, next.phase ≠ .running (some entry) todo)
    (going : next.phase ≠ .exited) : next.Halts stops := by
  have unstopped : s.stop = false := by
    by_contra stopped
    rcases halts.ending (Bool.not_eq_false _ ▸ stopped) with running | exited
    · exact absurd (before.symm.trans running) (by simp)
    · exact alive exited
  refine ⟨fun entry todo phased => absurd phased (current entry todo), ?_, ?_, ?_,
    fun exited => absurd exited going⟩
  · intro entry member stopping
    rw [ran] at member
    rcases halts.began entry member stopping with stopped | ⟨todo, phased⟩
    · exact absurd (unstopped.symm.trans stopped) (by simp)
    · rw [phased] at before
      cases before
  · intro stopped
    rw [stop, unstopped] at stopped
    cases stopped
  · intro stopped
    rw [stop, unstopped] at stopped
    cases stopped

theorem halts_steps (halts : s.Halts stops) (steps : Steps stops s action next) :
    next.Halts stops := by
  have current := halts.current
  have began := halts.began
  have reason := halts.reason
  have ending := halts.ending
  cases steps with
  | check caller func idle outside unstopped => exact ⟨current, began, reason, ending, halts.exited⟩
  | refuse caller func idle stopped => exact halts
  | push caller func checked entry same iteration byTask =>
      exact ⟨current, began, reason, ending, halts.exited⟩
  | write caller again pushed => exact ⟨current, began, reason, ending, halts.exited⟩
  | fail caller again pushed full => exact ⟨current, began, reason, ending, halts.exited⟩
  | report outside phased edge readable =>
      exact halts.proceed rfl rfl (by rw [phased]; rfl) (by simp [phased]) (by simp) (by simp)
  | poll outside phased =>
      exact halts.proceed rfl rfl (by rw [phased]; rfl) (by simp [phased]) (by simp) (by simp)
  | read outside phased =>
      exact halts.proceed rfl rfl (by rw [phased]; rfl) (by simp [phased]) (by simp) (by simp)
  | timer outside phased =>
      exact halts.proceed rfl rfl (by rw [phased]; rfl) (by simp [phased]) (by simp) (by simp)
  | drain outside phased =>
      exact halts.proceed rfl rfl (by rw [phased]; rfl) (by simp [phased]) (by simp) (by simp)
  | start entry todo outside phased =>
      have grown : (s.ran ++ [(entry, s.iteration)]).map Prod.fst = s.ran.map Prod.fst ++ [entry] := by
        rw [List.map_append]
        rfl
      refine ⟨?_, ?_, ?_, fun _ => .inl rfl, fun exited => (nomatch exited)⟩
      · intro other later moved
        cases moved
        change entry ∈ (s.ran ++ [(entry, s.iteration)]).map Prod.fst
        rw [grown]
        exact List.mem_append_right _ (List.mem_singleton_self _)
      · intro other member stopping
        change other ∈ (s.ran ++ [(entry, s.iteration)]).map Prod.fst at member
        rw [grown] at member
        rcases List.mem_append.mp member with earlier | last
        · rcases began other earlier stopping with stopped | ⟨later, running⟩
          · exact .inl stopped
          · exact absurd (phased.symm.trans running) (by simp)
        · rw [List.mem_singleton.mp last]
          exact .inr ⟨todo, rfl⟩
      · intro stopped
        rcases reason stopped with ⟨other, member, stopping⟩
        refine ⟨other, ?_, stopping⟩
        change other ∈ (s.ran ++ [(entry, s.iteration)]).map Prod.fst
        rw [grown]
        exact List.mem_append_left _ member
  | finish entry todo outside phased =>
      refine ⟨?_, ?_, ?_, fun _ => .inl rfl, fun exited => (nomatch exited)⟩
      · intro other later moved
        cases moved
      · intro other member stopping
        rcases began other member stopping with stopped | ⟨later, running⟩
        · exact .inl (by rw [stopped]; rfl)
        · rw [phased] at running
          cases running
          exact .inl (by rw [stopping, Bool.or_true])
      · intro stopped
        rcases (Bool.or_eq_true _ _).mp stopped with earlier | stopping
        · exact reason earlier
        · exact ⟨entry, current entry todo phased, stopping⟩
  | again outside phased unstopped =>
      refine ⟨fun entry todo moved => (nomatch moved), ?_, reason, ?_, fun exited => (nomatch exited)⟩
      · intro entry member stopping
        rcases began entry member stopping with stopped | ⟨later, running⟩
        · exact .inl stopped
        · exact absurd (phased.symm.trans running) (by simp)
      · intro stopped
        exact absurd (unstopped.symm.trans stopped) (by simp)
  | exit outside phased stopped =>
      refine ⟨fun entry todo moved => (nomatch moved), fun _ _ _ => .inl stopped, reason,
        fun _ => .inr rfl, fun _ => stopped⟩

theorem halts_of_reachable (reachable : s.Reachable stops) : s.Halts stops := by
  refine reachable.invariant (fun s => s.Halts stops) ?_ ?_
  · exact ⟨fun entry todo phased => (nomatch phased), fun entry member => (nomatch member),
      fun stopped => (nomatch stopped), fun stopped => (nomatch stopped),
      fun exited => (nomatch exited)⟩
  · intro state action next halts _ stepped
    exact halts_steps halts (steps_of_step stepped)

theorem phase_ne_polling (reachable : s.Reachable stops) {entry : Queued Func × ℕ}
    (ran : entry ∈ s.ran) (stopping : stops entry.1.func = true) : s.phase ≠ .polling := by
  have halts := halts_of_reachable reachable
  intro phased
  rcases halts.began entry.1 (List.mem_map_of_mem ran) stopping with stopped | ⟨todo, running⟩
  · rcases halts.ending stopped with running | exited
    · rw [phased] at running
      cases running
    · exact absurd (phased.symm.trans exited) (by simp)
  · exact absurd (phased.symm.trans running) (by simp)

theorem stopping_pushed (reachable : s.Reachable stops) (stopped : s.stop = true) :
    ∃ entry ∈ s.pushed, stops entry.func = true := by
  rcases (halts_of_reachable reachable).reason stopped with ⟨entry, ran, stopping⟩
  refine ⟨entry, ?_, stopping⟩
  rw [(ordered_of_reachable reachable).pushed, List.append_assoc]
  exact List.mem_append_left _ ran

end LoopThread

end MiniWebServer
