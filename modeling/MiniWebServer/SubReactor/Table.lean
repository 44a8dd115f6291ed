import MiniWebServer.SubReactor

/-!
# The table of connections

Connections are made one after the other, and the table of a reactor lists
connections that were made.
-/

namespace MiniWebServer

namespace SubReactor

section

variable {mode : Bool} {workers : ℕ} {s next : SubReactor} {action : Action}

/-- A step keeps the table, takes entries out of it, or adds the connection that it makes. -/
structure Tables (s next : SubReactor) : Prop where
  made : s.nextConn ≤ next.nextConn
  listed : ∀ entry ∈ next.connections, entry ∈ s.connections ∨
    entry.2 = s.nextConn ∧ s.nextConn < next.nextConn

theorem tables_of_eq (made : next.nextConn = s.nextConn)
    (same : next.connections = s.connections) : Tables s next := by
  refine ⟨made.ge, ?_⟩
  intro entry member
  rw [same] at member
  exact .inl member

theorem connections_foldl_stopConnection (entries : List (SocketId × ConnId)) :
    (entries.foldl stopConnection s).connections = s.connections ∧
      (entries.foldl stopConnection s).nextConn = s.nextConn := by
  induction entries generalizing s with
  | nil => exact ⟨rfl, rfl⟩
  | cons entry rest ih =>
      rw [List.foldl_cons, ih.1, ih.2]
      unfold stopConnection
      split <;> exact ⟨rfl, rfl⟩

theorem tables_task {now : Timespec} {writes : List WriteResult}
    (stepped : s.task now writes = some next) : Tables s next := by
  unfold task at stepped
  split at stepped
  · next done func todo framed phased =>
    cases func with
    | addConnection sck taskSubmit =>
        cases stepped
        refine ⟨Nat.le_succ _, ?_⟩
        intro entry member
        rcases List.mem_cons.mp member with rfl | earlier
        · exact .inr ⟨rfl, Nat.lt_succ_self _⟩
        · exact .inl (List.mem_filter.mp earlier).1
    | removeConnection self =>
        simp only [runTask, Option.map_eq_some_iff] at stepped
        rcases stepped with ⟨conn, alive, stepped⟩
        subst stepped
        exact ⟨le_rfl, fun entry member => .inl (List.mem_filter.mp member).1⟩
    | respond self reply =>
        simp only [runTask, Option.map_eq_some_iff] at stepped
        rcases stepped with ⟨conn, alive, stepped⟩
        subst stepped
        exact tables_of_eq rfl rfl
    | stop =>
        cases stepped
        have same := connections_foldl_stopConnection
          (s := { s with phase := .running (done ++ [.stop]) todo }) s.connections
        exact tables_of_eq same.2 same.1
  · cases stepped

theorem tables_step (stepped : s.step action = some next) : Tables s next := by
  unfold step at stepped
  split at stepped
  · cases stepped
  · cases action with
    | task now writes => exact tables_task stepped
    | addConnection taskSubmit =>
        cases stepped
        exact tables_of_eq rfl rfl
    | stop =>
        cases stepped
        exact tables_of_eq rfl rfl
    | poll ready hastime =>
        simp only [poll] at stepped
        split at stepped <;> cases stepped
        exact tables_of_eq rfl rfl
    | handle now reads writes =>
        simp only [handle] at stepped
        split at stepped
        · rw [Option.map_eq_some_iff] at stepped
          rcases stepped with ⟨conn, found, stepped⟩
          subst stepped
          split <;> exact tables_of_eq rfl rfl
        · cases stepped
    | resume writes =>
        simp only [resume] at stepped
        split at stepped
        · cases stepped
        · rw [Option.map_eq_some_iff] at stepped
          rcases stepped with ⟨conn, found, stepped⟩
          subst stepped
          split <;> exact tables_of_eq rfl rfl
    | timer now =>
        simp only [timer] at stepped
        split at stepped
        · split at stepped <;> cases stepped <;> exact tables_of_eq rfl rfl
        · cases stepped
    | expire =>
        simp only [expire] at stepped
        split at stepped
        · cases stepped
          exact tables_of_eq rfl rfl
        · split at stepped
          · cases stepped
            exact tables_of_eq rfl rfl
          · rw [Option.map_eq_some_iff] at stepped
            rcases stepped with ⟨conn, found, stepped⟩
            subst stepped
            exact tables_of_eq rfl rfl
        · cases stepped
    | drain =>
        simp only [drain] at stepped
        split at stepped <;> cases stepped
        exact tables_of_eq rfl rfl
    | endLoop =>
        simp only [endLoop] at stepped
        split at stepped <;> cases stepped
        exact tables_of_eq rfl rfl
    | take =>
        simp only [take] at stepped
        split at stepped
        · cases stepped
        · split at stepped <;> cases stepped
          exact tables_of_eq rfl rfl
    | post index =>
        simp only [post, Option.map_eq_some_iff] at stepped
        rcases stepped with ⟨job, _, stepped⟩
        subst stepped
        split <;> exact tables_of_eq rfl rfl
    | destroy gone =>
        simp only [destroy] at stepped
        split at stepped <;> cases stepped
        exact tables_of_eq rfl rfl

/-- The table lists connections that were made. -/
theorem listed_of_reachable (reachable : Reachable mode workers s) :
    ∀ entry ∈ s.connections, entry.2 < s.nextConn := by
  refine reachable.invariant (fun s => ∀ entry ∈ s.connections, entry.2 < s.nextConn) ?_ ?_
  · intro entry member
    cases member
  · intro state action next listed _ stepped entry member
    have tables := tables_step stepped
    rcases tables.listed entry member with earlier | ⟨made, grown⟩
    · exact (listed entry earlier).trans_le tables.made
    · rw [made]
      exact grown

end

end SubReactor

end MiniWebServer
