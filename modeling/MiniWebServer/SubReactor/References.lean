import MiniWebServer.SubReactor.Projection

/-!
# The references to a connection

A connection should be destroyed, and its descriptor closed, when its removal
task has run and no closure refers to it any more. It never is: the closure
that `SubReactor::addConnection` stores in the connection as `addTimerCallBack`
captures the connection itself.
-/

namespace MiniWebServer

open Connection HttpProcess

namespace SubReactor

/-- The removal task of the connection has run, and no timer, no task, no job
and no stack frame refers to it any more. -/
structure Released (s : SubReactor) (c : ConnId) : Prop where
  made : c < s.nextConn
  enqueued : ∀ conn, s.heap c = some conn → .enqueueRemoval ∈ conn.log
  removed : c ∉ s.connections.map Prod.snd
  unreferenced : s.closureReferences c = 0

/-- The one member that refers to a connection is its own. -/
theorem Valid.memberReferences_eq_one {mode : Bool} {s : SubReactor} (valid : s.Valid mode)
    {c : ConnId} (made : c < s.nextConn) : s.memberReferences c = 1 := by
  have own : ∀ id ∈ List.range s.nextConn,
      ((s.heap id).map fun conn => decide (conn.addTimerCallBack = c)).getD false =
        true ↔ (id == c) = true := by
    intro id member
    rcases valid.kept id (List.mem_range.mp member) with ⟨conn, alive, holds⟩
    simp [alive, holds]
  rw [memberReferences, List.countP_filterMap, List.countP_congr own]
  exact List.count_eq_one_of_mem List.nodup_range (List.mem_range.mpr made)

/-- A connection that is released is still there: its count of strong references
is not zero but one, and its destructor does not run. -/
theorem strongCount_eq_one_of_released {mode : Bool} {workers : ℕ} {s : SubReactor} {c : ConnId}
    (reachable : Reachable mode workers s) (released : s.Released c) :
    s.strongCount c = 1 ∧ (s.heap c).isSome ∧ s.step (.destroy c) = none := by
  have valid := valid_of_reachable reachable
  refine ⟨?_, ?_, ?_⟩
  · have unlisted : s.connections.countP (fun entry => entry.2 = c) = 0 := by
      rw [List.countP_eq_zero]
      intro entry member same
      exact released.removed (List.mem_map.mpr ⟨entry, member, by simpa using same⟩)
    rw [strongCount, unlisted, released.unreferenced,
      valid.memberReferences_eq_one released.made]
  · rcases valid.kept c released.made with ⟨conn, alive, _⟩
    simp [alive]
  · simp only [step]
    split
    · rfl
    · exact destroy_eq_none valid c

/-- The peer closes without a request, and the removal task runs. -/
theorem exists_released : ∃ s, Reachable false 0 s ∧ s.Released 0 := by
  rcases exists_of_look anyMove 0 false 0
    (connecting false ++ reading [.delivered []] ++ [.drain, .task clock [], .endLoop])
    (fun s => (s.heap 0).map fun conn =>
      (s.nextConn, s.connections, s.closureReferences 0, conn.log.contains .enqueueRemoval))
    (1, [], 0, true) (by decide +kernel) with ⟨s, reaches, looked⟩
  rw [Option.map_eq_some_iff] at looked
  rcases looked with ⟨conn, alive, looked⟩
  simp only [Prod.mk.injEq] at looked
  rcases looked with ⟨made, removed, unreferenced, enqueued⟩
  refine ⟨s, reaches.reachable, by simp [made], ?_, by simp [removed], unreferenced⟩
  intro other found
  rw [alive, Option.some.injEq] at found
  subst found
  exact List.contains_iff_mem.mp enqueued

theorem strongCount_eq_one_of_released_eof :
    ∃ s, Reachable false 0 s ∧ s.Released 0 ∧ s.strongCount 0 = 1 := by
  rcases exists_released with ⟨s, reachable, released⟩
  exact ⟨s, reachable, released, (strongCount_eq_one_of_released reachable released).1⟩

/-- A released connection is not destroyed. -/
theorem not_strongCount_eq_zero_of_released :
    ¬∀ (mode : Bool) (workers : ℕ) (s : SubReactor) (c : ConnId),
      Reachable mode workers s → s.Released c → s.strongCount c = 0 := by
  intro always
  rcases exists_released with ⟨s, reachable, released⟩
  have referenced := (valid_of_reachable reachable).strongCount_pos released.made
  rw [always false 0 s 0 reachable released] at referenced
  cases referenced

end SubReactor

end MiniWebServer
