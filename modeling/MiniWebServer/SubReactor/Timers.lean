import MiniWebServer.Connection.Timing
import MiniWebServer.SubReactor.Projection

/-!
# The timers of a reactor and its connections

A `Clockwork` is what timers and connections make of each other: the
connections, the live timers and the last id. `Treats` says once how a step of
a reactor moves it: code of connections runs, after a refresh or not, a
connection is started, or a timer expires. Every invariant that relates timers
and connections is proved over this list.

In every run a timer belongs to a living connection that knows its id
(`Kept`). While the ids are not used up they are all different, and every
connection that has not ended has a timer (`Issued`).
-/

namespace MiniWebServer

open Connection

/-- The connections of a reactor, the live timers and the last id. -/
@[ext]
structure Clockwork where
  heap : ConnId → Option Connection
  timers : OrderedMap ℤ (Timer ConnId)
  counter : ℤ

namespace Clockwork

/-- The scope of a connection in a clockwork. -/
structure Shows (clockwork : Clockwork) (c : ConnId) (scope : Scope) : Prop where
  heap : clockwork.heap c = some scope.conn
  timers : clockwork.timers = scope.timers
  counter : clockwork.counter = scope.eloop.timerQueue.timerId

/-- The clockwork after the code of a connection has run. -/
def put (clockwork : Clockwork) (c : ConnId) (scope : Scope) : Clockwork where
  heap := Function.update clockwork.heap c (some scope.conn)
  timers := scope.timers
  counter := scope.eloop.timerQueue.timerId

@[simp]
theorem heap_put_self (clockwork : Clockwork) (c : ConnId) (scope : Scope) :
    (clockwork.put c scope).heap c = some scope.conn :=
  Function.update_self ..

theorem heap_put_of_ne (clockwork : Clockwork) {c d : ConnId} (differs : d ≠ c) (scope : Scope) :
    (clockwork.put c scope).heap d = clockwork.heap d :=
  Function.update_of_ne differs ..

theorem shows_put (clockwork : Clockwork) (c : ConnId) (scope : Scope) :
    (clockwork.put c scope).Shows c scope :=
  ⟨heap_put_self .., rfl, rfl⟩

/-- Code of one connection runs that refreshes no timer. -/
inductive Runs (clockwork : Clockwork) : Clockwork → Prop where
  | put (c : ConnId) (before after : Scope) (shown : clockwork.Shows c before)
      (settles : before.Settles after) : Runs clockwork (clockwork.put c after)

theorem runs_put (clockwork : Clockwork) (c : ConnId) {before after : Scope}
    (settles : before.Settles after) : (clockwork.put c before).Runs (clockwork.put c after) := by
  have runs := Runs.put c before after (shows_put clockwork c before) settles
  rwa [put, put, Function.update_idem] at runs

/-- An invariant of code that refreshes no timer. -/
theorem invariant_of_runs {clockwork next : Clockwork} (Holds : Clockwork → Prop)
    (kept : ∀ {one other}, Holds one → Runs one other → Holds other) (holds : Holds clockwork)
    (runs : Relation.ReflTransGen Runs clockwork next) : Holds next := by
  induction runs with
  | refl => exact holds
  | tail _ last ih => exact kept ih last

theorem Runs.mem_entries {clockwork next : Clockwork} (runs : clockwork.Runs next)
    {entry : ℤ × Timer ConnId} (member : entry ∈ next.timers.entries) :
    entry ∈ clockwork.timers.entries := by
  rcases runs with ⟨c, before, after, shown, settles⟩
  rw [shown.timers]
  rcases settles.timers with ⟨same, _⟩ | ⟨erased, _⟩
  · rw [← same]
    exact member
  · rw [Clockwork.put, erased, OrderedMap.mem_entries_erase] at member
    exact member.1

end Clockwork

namespace SubReactor

/-- The live timers. -/
abbrev timers (s : SubReactor) : OrderedMap ℤ (Timer ConnId) :=
  s.eloop.timerQueue.timers

def clockwork (s : SubReactor) : Clockwork where
  heap := s.heap
  timers := s.timers
  counter := s.eloop.timerQueue.timerId

/-- The connection whose `startConnect` or `refreshTimer` runs in a step, and
the time that it reads. -/
def refresh? (s : SubReactor) : Action → Option (ConnId × Timespec)
  | .handle now _ _ =>
      match s.phase.batch with
      | (c, .readCallBack) :: _ => some (c, now)
      | (c, .writeCallBack) :: _ =>
          (s.heap c).bind fun conn => if conn.state = .dead then none else some (c, now)
      | [] => none
  | .task now _ =>
      match s.phase.todo with
      | .addConnection _ _ :: _ => some (s.nextConn, now)
      | _ => none
  | _ => none

/-- What a step does to the connections and the timers of a reactor. -/
inductive Treats (s : SubReactor) (action : Action) (next : SubReactor) : Prop where
  | runs (silent : s.refresh? action = none)
      (runs : Relation.ReflTransGen Clockwork.Runs s.clockwork next.clockwork)
      (phase : ∀ ids, next.phase = .expiring ids →
        (s.phase = .expiring ids ∧ (next.clockwork = s.clockwork ∧ next.frame = s.frame ∨
          s.frame ≠ none)) ∨
          next.clockwork = s.clockwork ∧ next.frame = none ∧ ∃ now, action = .timer (some now) ∧
            ids = s.eloop.timerQueue.dyingTimers now)
  | refreshes (c : ConnId) (now : Timespec) (before : Scope)
      (reads : s.refresh? action = some (c, now)) (shown : s.clockwork.Shows c before)
      (alive : before.conn.state ≠ .dead)
      (runs : Relation.ReflTransGen Clockwork.Runs (s.clockwork.put c (before.refreshTimer now))
        next.clockwork)
      (phase : ∀ ids, next.phase ≠ .expiring ids)
  | starts (now : Timespec) (before : Scope)
      (reads : s.refresh? action = some (s.nextConn, now))
      (timers : s.timers = before.timers)
      (counter : s.eloop.timerQueue.timerId = before.eloop.timerQueue.timerId)
      (alive : before.conn.state ≠ .dead) (self : before.conn.addTimerCallBack = s.nextConn)
      (clockworkEq : next.clockwork = s.clockwork.put s.nextConn (before.addTimerCallBack now))
      (phase : ∀ ids, next.phase ≠ .expiring ids)
  | expires (id : ℤ) (rest : List ℤ) (timer : Timer ConnId) (before : Scope)
      (expire : action = .expire) (phased : s.phase = .expiring (id :: rest))
      (found : s.timers.find? id = some timer)
      (shown : s.clockwork.Shows timer.callBack before)
      (clockworkEq : next.clockwork =
        { s.clockwork.put timer.callBack before.handleDead with
          timers := before.handleDead.timers.erase id })
      (frame : next.frame = none) (phase : next.phase = .expiring rest)

section Steps

variable {mode : Bool} {s next : SubReactor}

theorem treats_of_same {action : Action} (silent : s.refresh? action = none)
    (same : next.clockwork = s.clockwork)
    (phase : ∀ ids, next.phase = .expiring ids → s.phase = .expiring ids ∧ next.frame = s.frame) :
    Treats s action next := by
  refine .runs silent ?_ ?_
  · rw [same]
  · intro ids expiring
    exact .inl ⟨(phase ids expiring).1, .inl ⟨same, (phase ids expiring).2⟩⟩

theorem runs_leave {moved : SubReactor} {c : ConnId} {conn : Connection} {scope : Scope}
    (alive : moved.heap c = some conn)
    (settles : Scope.Settles { conn, eloop := moved.eloop } scope) (frame : Option Frame) :
    Clockwork.Runs moved.clockwork (moved.leave c scope frame).clockwork :=
  .put c { conn, eloop := moved.eloop } scope ⟨alive, rfl, rfl⟩ settles

theorem treats_handle (regular : ∀ c view, s.view c = some view → view.Regular) {now : Timespec}
    {reads : List ReadResult} {writes : List WriteResult}
    (stepped : s.handle now reads writes = some next) :
    Treats s (.handle now reads writes) next := by
  unfold handle at stepped
  split at stepped
  · next self callback batch hastime framed phased =>
    rw [Option.map_eq_some_iff] at stepped
    rcases stepped with ⟨conn, found, stepped⟩
    have notExpiring : ∀ ids, next.phase ≠ .expiring ids := by
      intro ids
      rw [← stepped]
      cases callback <;> simp [leave]
    have shown : s.clockwork.Shows self { conn, eloop := s.eloop } := ⟨found, rfl, rfl⟩
    cases callback with
    | readCallBack =>
        have viewed : s.view self = some (s.viewOf self conn) := by simp [view, found]
        have alive : conn.state ≠ .dead := ((regular self _ viewed).wired.reading
          (by simp [viewOf, phased, Phase.batch])).2.1
        refine .refreshes self now { conn, eloop := s.eloop }
          (by simp [refresh?, phased, Phase.batch]) shown alive ?_ notExpiring
        subst stepped
        refine .single ?_
        exact s.clockwork.runs_put self
          (@Scope.Settles.handleReadCallBack { conn, eloop := s.eloop } alive now reads)
    | writeCallBack =>
        by_cases dead : conn.state = .dead
        · refine .runs (by simp [refresh?, phased, Phase.batch, found, dead]) ?_
            fun ids expiring => absurd expiring (notExpiring ids)
          subst stepped
          refine .single ?_
          exact .put self _ _ shown (Scope.Settles.handleWriteCallBack_of_dead dead now writes)
        · refine .refreshes self now { conn, eloop := s.eloop }
            (by simp [refresh?, phased, Phase.batch, found, dead]) shown dead ?_ notExpiring
          subst stepped
          refine .single ?_
          exact s.clockwork.runs_put self
            (@Scope.Settles.handleWriteCallBack { conn, eloop := s.eloop } dead now writes)
  · cases stepped

theorem treats_resume {writes : List WriteResult} (stepped : s.resume writes = some next) :
    Treats s (.resume writes) next := by
  unfold resume at stepped
  cases framed : s.frame with
  | none =>
      rw [framed] at stepped
      cases stepped
  | some entry =>
      rcases entry with ⟨c, frame⟩
      simp only [framed, Option.map_eq_some_iff] at stepped
      rcases stepped with ⟨conn, found, stepped⟩
      have shown : s.clockwork.Shows c { conn, eloop := s.eloop } := ⟨found, rfl, rfl⟩
      have settles := Scope.settles_resume { conn, eloop := s.eloop } writes frame
      revert stepped settles
      generalize Scope.resume _ writes frame = outcome
      intro stepped settles
      have busy : s.frame ≠ none := by simp [framed]
      cases outcome with
      | go scope frame =>
          subst stepped
          exact .runs rfl (.single (.put c _ scope shown settles))
            fun ids expiring => .inl ⟨expiring, .inr busy⟩
      | dispatch scope job =>
          subst stepped
          exact .runs rfl (.single (.put c _ scope shown settles))
            fun ids expiring => .inl ⟨expiring, .inr busy⟩
      | raise exception =>
          subst stepped
          exact treats_of_same rfl rfl fun ids expiring => ⟨expiring, framed.symm⟩

theorem treats_timer {now : Option Timespec} (stepped : s.timer now = some next) :
    Treats s (.timer now) next := by
  unfold timer at stepped
  split at stepped
  · next framed phased =>
    cases now with
    | none =>
        cases stepped
        exact treats_of_same rfl rfl fun ids expiring => by cases expiring
    | some now =>
        cases stepped
        refine .runs rfl .refl fun ids expiring => .inr ⟨rfl, framed, now, rfl, ?_⟩
        cases expiring
        rfl
  · cases stepped

theorem treats_expire (stepped : s.expire = some next) : Treats s .expire next := by
  unfold expire at stepped
  split at stepped
  · cases stepped
    exact treats_of_same rfl rfl fun ids expiring => by cases expiring
  · next id rest framed phased =>
    cases found : s.eloop.timerQueue.timers.find? id with
    | none =>
        rw [found] at stepped
        cases stepped
        exact treats_of_same rfl rfl fun ids expiring => ⟨expiring, rfl⟩
    | some timer =>
        simp only [found, Option.map_eq_some_iff] at stepped
        rcases stepped with ⟨conn, alive, stepped⟩
        subst stepped
        exact .expires id rest timer { conn, eloop := s.eloop } rfl phased found
          ⟨alive, rfl, rfl⟩ rfl rfl rfl
  · cases stepped

theorem runs_foldl_stopConnection (entries : List (SocketId × ConnId)) :
    Relation.ReflTransGen Clockwork.Runs s.clockwork
      (entries.foldl stopConnection s).clockwork := by
  induction entries generalizing s with
  | nil => exact .refl
  | cons entry rest ih =>
      refine Relation.ReflTransGen.trans ?_ ih
      unfold stopConnection
      split
      · exact .refl
      · next conn alive => exact .single (runs_leave alive (Scope.Settles.stop _) none)

theorem phase_foldl_stopConnection (entries : List (SocketId × ConnId)) :
    (entries.foldl stopConnection s).phase = s.phase := by
  induction entries generalizing s with
  | nil => rfl
  | cons entry rest ih =>
      rw [List.foldl_cons, ih]
      unfold stopConnection
      split <;> rfl

theorem treats_task {now : Timespec} {writes : List WriteResult}
    (stepped : s.task now writes = some next) : Treats s (.task now writes) next := by
  unfold task at stepped
  split at stepped
  · next done func todo framed phased =>
    cases func with
    | addConnection sck taskSubmit =>
        cases stepped
        let conn : Connection :=
          { weakThis := s.nextConn
            useThreadPool := s.useThreadPool
            sck := sck
            process := taskSubmit
            addTimerCallBack := s.nextConn }
        exact .starts now { conn := conn.update .enableReading, eloop := s.eloop }
          (by simp [refresh?, phased, Phase.todo]) rfl rfl (by simp [conn, Connection.update]) rfl
          rfl fun ids expiring => by cases expiring
    | removeConnection self =>
        simp only [runTask, Option.map_eq_some_iff] at stepped
        rcases stepped with ⟨conn, alive, stepped⟩
        subst stepped
        exact treats_of_same (by simp [refresh?, phased, Phase.todo]) rfl
          fun ids expiring => by cases expiring
    | respond self reply =>
        simp only [runTask, Option.map_eq_some_iff] at stepped
        rcases stepped with ⟨conn, alive, stepped⟩
        subst stepped
        refine .runs (by simp [refresh?, phased, Phase.todo]) (.single ?_)
          fun ids expiring => by cases expiring
        have settles := Scope.Settles.respond { conn, eloop := s.eloop } reply writes
        exact .put self { conn, eloop := s.eloop } _ ⟨alive, rfl, rfl⟩ settles
    | stop =>
        simp only [runTask, Option.some.injEq] at stepped
        subst stepped
        refine .runs (by simp [refresh?, phased, Phase.todo]) ?_ ?_
        · exact runs_foldl_stopConnection
            (s := { s with phase := .running (done ++ [.stop]) todo }) s.connections
        · intro ids expiring
          have running := phase_foldl_stopConnection
            (s := { s with phase := .running (done ++ [.stop]) todo }) s.connections
          exact absurd (running.symm.trans expiring) (by simp)
  · cases stepped

theorem treats_step (valid : s.Valid mode)
    (regular : ∀ c view, s.view c = some view → view.Regular) {action : Action}
    (stepped : s.step action = some next) : Treats s action next := by
  unfold step at stepped
  split at stepped
  · cases stepped
  · cases action with
    | addConnection taskSubmit =>
        cases stepped
        refine treats_of_same rfl ?_ fun ids expiring => ⟨expiring, rfl⟩
        simp [clockwork, timers]
    | stop =>
        cases stepped
        refine treats_of_same rfl ?_ fun ids expiring => ⟨expiring, rfl⟩
        simp [clockwork, timers]
    | poll ready hastime =>
        simp only [poll] at stepped
        split at stepped
        · cases stepped
          exact treats_of_same rfl rfl fun ids expiring => by cases expiring
        · cases stepped
    | handle now reads writes => exact treats_handle regular stepped
    | resume writes => exact treats_resume stepped
    | timer now => exact treats_timer stepped
    | expire => exact treats_expire stepped
    | drain =>
        simp only [drain] at stepped
        split at stepped
        · cases stepped
          exact treats_of_same rfl rfl fun ids expiring => by cases expiring
        · cases stepped
    | task now writes => exact treats_task stepped
    | endLoop =>
        simp only [endLoop] at stepped
        split at stepped
        · cases stepped
          refine treats_of_same rfl rfl fun ids expiring => ?_
          simp only at expiring
          split at expiring <;> cases expiring
        · cases stepped
    | take =>
        simp only [take] at stepped
        split at stepped
        · cases stepped
        · split at stepped
          · cases stepped
            exact treats_of_same rfl rfl fun ids expiring => ⟨expiring, rfl⟩
          · cases stepped
    | post index =>
        simp only [post, Option.map_eq_some_iff] at stepped
        rcases stepped with ⟨job, _, stepped⟩
        subst stepped
        refine treats_of_same rfl ?_ fun ids expiring => ?_
        · split
          · rfl
          · simp [clockwork, timers]
        · split at expiring
          · exact ⟨expiring, by split <;> rfl⟩
          · exact ⟨expiring, by split <;> rfl⟩
    | destroy gone => exact absurd (stepped.symm.trans (destroy_eq_none valid gone)) (by simp)

end Steps

end SubReactor

namespace Clockwork

/-- Every timer belongs to a living connection that knows its id. -/
def Kept (clockwork : Clockwork) : Prop :=
  ∀ entry ∈ clockwork.timers.entries, ∃ conn, clockwork.heap entry.2.callBack = some conn ∧
    conn.timerId = entry.1 ∧ conn.state ≠ .dead

section

variable {clockwork next : Clockwork} {c : ConnId} {scope : Scope}

theorem Kept.runs (kept : clockwork.Kept) (runs : clockwork.Runs next) : next.Kept := by
  rcases runs with ⟨c, before, after, shown, settles⟩
  -- A timer that is still there was there before; its connection lives on, unless it is
  -- the one whose timer was deleted.
  have stays : ∀ entry ∈ clockwork.timers.entries,
      (entry.2.callBack = c → entry.1 = before.conn.timerId → after.conn.state ≠ .dead) →
      ∃ conn, (clockwork.put c after).heap entry.2.callBack = some conn ∧
        conn.timerId = entry.1 ∧ conn.state ≠ .dead := by
    intro entry member lives
    rcases kept entry member with ⟨conn, found, known, alive⟩
    by_cases own : entry.2.callBack = c
    · rw [own] at found ⊢
      rw [shown.heap, Option.some.injEq] at found
      subst found
      exact ⟨after.conn, heap_put_self .., settles.timerId.trans known, lives own known.symm⟩
    · exact ⟨conn, by rw [heap_put_of_ne _ own, found], known, alive⟩
  intro entry member
  rcases settles.timers with ⟨same, alive⟩ | ⟨erased, _⟩
  · have earlier : entry ∈ clockwork.timers.entries := by
      rw [shown.timers, ← same]
      exact member
    apply stays entry earlier
    intro own _ dead
    rcases kept entry earlier with ⟨conn, found, _, lives⟩
    rw [own, shown.heap, Option.some.injEq] at found
    subst found
    exact lives (alive dead)
  · have remains : entry ∈ clockwork.timers.entries ∧ entry.1 ≠ before.conn.timerId := by
      rw [shown.timers, ← OrderedMap.mem_entries_erase, ← erased]
      exact member
    exact stays entry remains.1 fun _ same => absurd same remains.2

theorem Kept.arm (kept : clockwork.Kept) (now : Timespec)
    (self : scope.conn.addTimerCallBack = c) (alive : scope.conn.state ≠ .dead)
    (others : ∀ entry ∈ scope.timers.entries,
      entry ∈ clockwork.timers.entries ∧ entry.2.callBack ≠ c) :
    (clockwork.put c (scope.addTimerCallBack now)).Kept := by
  intro entry member
  rw [put, Scope.timers_addTimerCallBack, OrderedMap.mem_entries_insert] at member
  rcases member with rfl | ⟨earlier, _⟩
  · exact ⟨(scope.addTimerCallBack now).conn, by simp only [self, heap_put_self], rfl, alive⟩
  · rcases others entry earlier with ⟨earlier, other⟩
    rcases kept entry earlier with ⟨conn, found, known, lives⟩
    exact ⟨conn, by rw [heap_put_of_ne _ other, found], known, lives⟩

/-- Only the timer of a connection is at the id that it knows. -/
theorem Kept.erased (kept : clockwork.Kept) (shown : clockwork.Shows c scope) :
    ∀ entry ∈ scope.deleteTimerCallBack.timers.entries,
      entry ∈ clockwork.timers.entries ∧ entry.2.callBack ≠ c := by
  intro entry member
  rw [Scope.timers_deleteTimerCallBack, OrderedMap.mem_entries_erase, ← shown.timers] at member
  refine ⟨member.1, ?_⟩
  intro own
  rcases kept entry member.1 with ⟨conn, found, known, _⟩
  rw [own, shown.heap, Option.some.injEq] at found
  subst found
  exact member.2 known.symm

theorem Kept.refresh (kept : clockwork.Kept) (shown : clockwork.Shows c scope) (now : Timespec)
    (self : scope.conn.addTimerCallBack = c) (alive : scope.conn.state ≠ .dead) :
    (clockwork.put c (scope.refreshTimer now)).Kept :=
  @Kept.arm _ _ scope.deleteTimerCallBack kept now self alive (kept.erased shown)

theorem Kept.erase (kept : clockwork.Kept) (id : ℤ) :
    Kept { clockwork with timers := clockwork.timers.erase id } := by
  intro entry member
  exact kept entry (OrderedMap.mem_entries_erase.mp member).1

/-- The ids of the connections are different and were issued, and a connection
that has not ended has its timer. -/
structure Issued (clockwork : Clockwork) : Prop where
  issued : ∀ c conn, clockwork.heap c = some conn → conn.timerId ≤ clockwork.counter
  distinct : ∀ c d conn other, clockwork.heap c = some conn → clockwork.heap d = some other →
    conn.timerId = other.timerId → c = d
  present : ∀ c conn, clockwork.heap c = some conn → ¬conn.Ended →
    ∃ timer, (conn.timerId, timer) ∈ clockwork.timers.entries ∧ timer.callBack = c

theorem counter_of_runs (runs : clockwork.Runs next) : next.counter = clockwork.counter := by
  rcases runs with ⟨c, before, after, shown, settles⟩
  exact settles.counter.trans shown.counter.symm

theorem Issued.runs (issued : clockwork.Issued) (runs : clockwork.Runs next) : next.Issued := by
  have counterEq := counter_of_runs runs
  rcases runs with ⟨c, before, after, shown, settles⟩
  have known : ∀ d conn, (clockwork.put c after).heap d = some conn →
      ∃ earlier, clockwork.heap d = some earlier ∧ conn.timerId = earlier.timerId ∧
        (¬conn.Ended → ¬earlier.Ended) ∧ (d ≠ c → conn = earlier) := by
    intro d conn found
    by_cases own : d = c
    · subst own
      rw [heap_put_self, Option.some.injEq] at found
      subst found
      exact ⟨before.conn, shown.heap, settles.timerId,
        fun open_ ended => open_ (settles.ended ended), fun differs => absurd rfl differs⟩
    · rw [heap_put_of_ne _ own] at found
      exact ⟨conn, found, rfl, id, fun _ => rfl⟩
  refine ⟨?_, ?_, ?_⟩
  · intro d conn found
    rcases known d conn found with ⟨earlier, foundBefore, same, _⟩
    rw [same, counterEq]
    exact issued.issued d earlier foundBefore
  · intro d e conn other found foundOther same
    rcases known d conn found with ⟨earlier, foundBefore, sameId, _⟩
    rcases known e other foundOther with ⟨earlierOther, foundOtherBefore, sameOtherId, _⟩
    exact issued.distinct d e earlier earlierOther foundBefore foundOtherBefore
      (sameId.symm.trans (same.trans sameOtherId))
  · intro d conn found notEnded
    rcases known d conn found with ⟨earlier, foundBefore, sameId, stillOpen, unchanged⟩
    rcases issued.present d earlier foundBefore (stillOpen notEnded) with ⟨timer, member, target⟩
    rw [sameId]
    refine ⟨timer, ?_, target⟩
    rw [shown.timers] at member
    rcases settles.timers with ⟨same, _⟩ | ⟨erased, ended⟩
    · rw [put, same]
      exact member
    · have other : d ≠ c := by
        rintro rfl
        rw [heap_put_self, Option.some.injEq] at found
        subst found
        exact notEnded ended
      rw [put, erased, OrderedMap.mem_entries_erase]
      refine ⟨member, fun same => other ?_⟩
      exact issued.distinct d c earlier before.conn foundBefore shown.heap same

theorem Issued.arm (issued : clockwork.Issued) (now : Timespec)
    (self : scope.conn.addTimerCallBack = c)
    (fresh : clockwork.counter < scope.eloop.timerQueue.nextTimerId)
    (others : ∀ d conn, clockwork.heap d = some conn → d ≠ c → ∀ timer,
      (conn.timerId, timer) ∈ clockwork.timers.entries →
      (conn.timerId, timer) ∈ scope.timers.entries) :
    (clockwork.put c (scope.addTimerCallBack now)).Issued := by
  have known : ∀ d conn, (clockwork.put c (scope.addTimerCallBack now)).heap d = some conn →
      (d = c ∧ conn = (scope.addTimerCallBack now).conn) ∨
        (d ≠ c ∧ clockwork.heap d = some conn ∧
          conn.timerId < scope.eloop.timerQueue.nextTimerId) := by
    intro d conn found
    by_cases own : d = c
    · subst own
      rw [heap_put_self, Option.some.injEq] at found
      exact .inl ⟨rfl, found.symm⟩
    · rw [heap_put_of_ne _ own] at found
      exact .inr ⟨own, found, (issued.issued d conn found).trans_lt fresh⟩
  refine ⟨?_, ?_, ?_⟩
  · intro d conn found
    rcases known d conn found with ⟨_, rfl⟩ | ⟨_, _, smaller⟩
    · exact le_rfl
    · exact smaller.le
  · intro d e conn other found foundOther same
    rcases known d conn found with ⟨rfl, rfl⟩ | ⟨differs, foundBefore, smaller⟩
    · rcases known e other foundOther with ⟨rfl, _⟩ | ⟨_, _, smaller⟩
      · rfl
      · exact absurd same smaller.ne'
    · rcases known e other foundOther with ⟨_, rfl⟩ | ⟨_, foundOtherBefore, _⟩
      · exact absurd same smaller.ne
      · exact issued.distinct d e conn other foundBefore foundOtherBefore same
  · intro d conn found notEnded
    rcases known d conn found with ⟨rfl, rfl⟩ | ⟨differs, foundBefore, smaller⟩
    · exact ⟨_, OrderedMap.mem_entries_insert.mpr (.inl rfl), self⟩
    · rcases issued.present d conn foundBefore notEnded with ⟨timer, member, target⟩
      refine ⟨timer, ?_, target⟩
      rw [put, Scope.timers_addTimerCallBack, OrderedMap.mem_entries_insert]
      exact .inr ⟨others d conn foundBefore differs timer member, smaller.ne⟩

theorem Issued.refresh (issued : clockwork.Issued) (shown : clockwork.Shows c scope)
    (now : Timespec) (self : scope.conn.addTimerCallBack = c)
    (fresh : clockwork.counter < scope.eloop.timerQueue.nextTimerId) :
    (clockwork.put c (scope.refreshTimer now)).Issued := by
  refine @Issued.arm _ _ scope.deleteTimerCallBack issued now self ?_ ?_
  · rw [TimerQueue.nextTimerId, Scope.deleteTimerCallBack, EventLoop.deleteTimer,
      TimerQueue.timerId_deleteTimer]
    exact fresh
  · intro d conn found differs timer member
    rw [Scope.timers_deleteTimerCallBack, OrderedMap.mem_entries_erase, ← shown.timers]
    refine ⟨member, fun same => differs ?_⟩
    exact issued.distinct d c conn scope.conn found shown.heap same

end

end Clockwork

end MiniWebServer
