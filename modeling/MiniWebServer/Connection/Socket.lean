import MiniWebServer.Connection.Writing

/-!
# A connection and its socket

What the kernel keeps for a connected socket in an edge-triggered epoll: the
bytes that have arrived, the room for bytes to send, and whether the descriptor
is on the list that `epoll_wait` looks through. The descriptor gets on the list
when a readiness appears or the mask of the descriptor changes, and leaves it
when it is reported, whether or not the program then does all it could.

`Heeds` is the discipline that this asks for: whatever the socket is ready for
and the connection waits for is on the list or on its way to a callback. Both
loops of a connection keep it, as they go on until the socket says `EAGAIN`.
-/

namespace MiniWebServer

open Connection

structure KernelSocket where
  /-- What has arrived and was not read. -/
  unread : List UInt8 := []
  /-- The peer has closed its side. -/
  fin : Bool := false
  /-- A read has returned the end of file. -/
  told : Bool := false
  /-- How many bytes a write takes. -/
  room : ℕ := 0
  /-- The descriptor is on the list of `epoll_wait`. -/
  ready : Bool := false
deriving DecidableEq

namespace KernelSocket

def readable (sock : KernelSocket) : Bool :=
  sock.unread ≠ [] || sock.fin

/-- There is something to read that no read has returned. -/
def Due (sock : KernelSocket) : Prop :=
  sock.unread ≠ [] ∨ sock.fin = true ∧ sock.told = false

/-- The events of the mask that the socket is ready for. -/
def revents (sock : KernelSocket) (channel : Channel) : Events where
  epollIn := channel.inEpoll && channel.interest.epollIn && sock.readable
  epollOut := channel.inEpoll && channel.interest.epollOut && decide (0 < sock.room)

/-- The socket answers the reads of `readFromSck` in this way. -/
def reads (sock : KernelSocket) : List ReadResult → Option KernelSocket
  | [] | .failed .eagain :: _ => if sock.readable then none else some sock
  | .failed .eintr :: rest => sock.reads rest
  | .failed .other :: _ => some sock
  | .delivered bytes :: rest =>
      if bytes = [] then
        if sock.unread = [] ∧ sock.fin = true then some { sock with told := true } else none
      else if bytes <+: sock.unread then
        { sock with unread := sock.unread.drop bytes.length }.reads rest
      else none

/-- The socket answers the writes of `pending` bytes in this way: it takes what
it has room for, and less than is offered only when it is full then. -/
def writes (sock : KernelSocket) (pending : ℕ) : List WriteResult → Option KernelSocket
  | [] | .failed .eagain :: _ => if sock.room = 0 then some sock else none
  | .failed .eintr :: rest => sock.writes pending rest
  | .failed .other :: _ => some sock
  | .accepted count _ :: rest =>
      if pending ≤ count then
        if pending ≤ sock.room then some { sock with room := sock.room - pending } else none
      else if count = sock.room then { sock with room := 0 }.writes (pending - count) rest
      else none

/-- The descriptor gets on the list if the socket is ready for an event of its mask. -/
def look (sock : KernelSocket) (channel : Channel) : KernelSocket :=
  { sock with
    ready := sock.ready || (sock.revents channel).epollIn || (sock.revents channel).epollOut }

/-- `epoll_ctl` looks at the descriptor when it is added or its mask changes. -/
def control (sock : KernelSocket) (before after : Option Channel) : KernelSocket :=
  match after with
  | none => sock
  | some channel =>
      if (before.map fun channel => (channel.inEpoll, channel.interest)) =
          some (channel.inEpoll, channel.interest) then sock
      else sock.look channel

/-- An event that the mask asks for has appeared. -/
def rise (before after : KernelSocket) (channel : Option Channel) : KernelSocket :=
  match channel with
  | none => after
  | some channel =>
      { after with
        ready := after.ready ||
          ((after.revents channel).epollIn && !(before.revents channel).epollIn) ||
          ((after.revents channel).epollOut && !(before.revents channel).epollOut) }

/-- What the kernel does in the share of a connection in a step, if it can be
that what it answers there. -/
def answer (sock : KernelSocket) (view : View) : Share → Option KernelSocket
  | .poll revents =>
      if sock.ready = true ∧ revents = sock.revents view.conn.channel then
        some { sock with ready := false }
      else none
  | .read _ results => sock.reads results
  | .write _ results =>
      if view.conn.state = .dead ∨ view.conn.writeBuffer.readable = 0 then some sock
      else sock.writes view.conn.writeBuffer.readable results
  | .resume results =>
      match view.send? (.resume results) with
      | none => some sock
      | some send => sock.writes (send.conn.writeBuffer.readable + send.resp.length) send.writes
  | .respond results =>
      match view.send? (.respond results) with
      | none => some sock
      | some send => sock.writes (send.conn.writeBuffer.readable + send.resp.length) send.writes
  | .expire | .post _ | .stop => some sock

variable {sock after : KernelSocket}

theorem not_due_of_not_readable (empty : sock.readable = false) : ¬sock.Due := by
  simp only [readable, Bool.or_eq_false_iff, decide_eq_false_iff_not, not_not] at empty
  rintro (unread | ⟨fin, _⟩)
  · exact unread empty.1
  · exact Bool.false_ne_true (empty.2.symm.trans fin)

/-- A read loop that ends with `EAGAIN` or the end of file has left nothing. -/
theorem reads_spec {results : List ReadResult} (answered : sock.reads results = some after) :
    after.room = sock.room ∧ after.ready = sock.ready ∧
      (readEnd results = .failed ∨ ¬after.Due) := by
  induction results generalizing sock with
  | nil =>
      simp only [reads, Option.ite_none_left_eq_some, Bool.not_eq_true] at answered
      rcases answered with ⟨empty, same⟩
      cases same
      exact ⟨rfl, rfl, .inr (not_due_of_not_readable empty)⟩
  | cons result rest ih =>
      cases result with
      | failed errno =>
          cases errno with
          | eagain =>
              simp only [reads, Option.ite_none_left_eq_some, Bool.not_eq_true] at answered
              rcases answered with ⟨empty, same⟩
              cases same
              exact ⟨rfl, rfl, .inr (not_due_of_not_readable empty)⟩
          | eintr => exact ih answered
          | other =>
              cases answered
              exact ⟨rfl, rfl, .inl rfl⟩
      | delivered bytes =>
          simp only [reads] at answered
          by_cases ended : bytes = []
          · rw [if_pos ended, Option.ite_none_right_eq_some] at answered
            rcases answered with ⟨⟨nothing, closed⟩, same⟩
            cases same
            refine ⟨rfl, rfl, .inr ?_⟩
            rintro (unread | ⟨_, untold⟩)
            · exact unread nothing
            · cases untold
          · rw [if_neg ended, Option.ite_none_right_eq_some] at answered
            have later := ih answered.2
            rwa [readEnd, if_neg ended]

/-- Writes change the room alone, and make it no larger. -/
theorem writes_spec {pending : ℕ} {results : List WriteResult}
    (answered : sock.writes pending results = some after) :
    after = { sock with room := after.room } ∧ after.room ≤ sock.room := by
  induction results generalizing sock pending with
  | nil =>
      simp only [writes, Option.ite_none_right_eq_some] at answered
      cases answered.2
      exact ⟨rfl, le_rfl⟩
  | cons result rest ih =>
      cases result with
      | failed errno =>
          cases errno with
          | eagain =>
              simp only [writes, Option.ite_none_right_eq_some] at answered
              cases answered.2
              exact ⟨rfl, le_rfl⟩
          | eintr => exact ih answered
          | other =>
              cases answered
              exact ⟨rfl, le_rfl⟩
      | accepted count positive =>
          simp only [writes] at answered
          by_cases all : pending ≤ count
          · rw [if_pos all, Option.ite_none_right_eq_some] at answered
            cases answered.2
            exact ⟨rfl, Nat.sub_le _ _⟩
          · rw [if_neg all, Option.ite_none_right_eq_some] at answered
            have later := ih answered.2
            exact ⟨later.1, later.2.trans (Nat.zero_le _)⟩

/-- A write that did not take everything has filled the socket. -/
theorem room_of_writes {pending : ℕ} {results : List WriteResult}
    (answered : sock.writes pending results = some after) :
    writeOutcome pending results = .drained ∨ writeOutcome pending results = .fatal ∨
      after.room = 0 := by
  induction results with
  | nil =>
      simp only [writes, Option.ite_none_right_eq_some] at answered
      rcases answered with ⟨full, same⟩
      cases same
      exact .inr (.inr full)
  | cons result rest ih =>
      cases result with
      | failed errno =>
          cases errno with
          | eagain =>
              simp only [writes, Option.ite_none_right_eq_some] at answered
              rcases answered with ⟨full, same⟩
              cases same
              exact .inr (.inr full)
          | eintr => exact ih answered
          | other => exact .inr (.inl rfl)
      | accepted count positive =>
          simp only [writes] at answered
          by_cases all : pending ≤ count
          · exact .inl (if_pos all)
          · rw [if_neg all, Option.ite_none_right_eq_some] at answered
            exact .inr (.inr (Nat.le_zero.mp (writes_spec answered.2).2))

end KernelSocket

namespace Connection

variable {conn : Connection} {sock after : KernelSocket}

/-- The connection does not want to write, or cannot. -/
def Unwilling (conn : Connection) (sock : KernelSocket) : Prop :=
  .handleDead ∈ conn.log ∨ conn.channel.events.epollOut = false ∨ sock.room = 0

theorem logged_died (alive : conn.state ≠ .dead) : .handleDead ∈ conn.died.log := by
  rw [died_of_ne_dead alive]
  simp

theorem unwilling_drained (conn : Connection) (sock : KernelSocket) :
    conn.drained.Unwilling sock := by
  unfold drained
  split
  · next finished => exact .inl (logged_died finished.alive)
  · exact .inr (.inl rfl)

/-- `trySendToSck` stops at a full socket or an empty write buffer. -/
theorem unwilling_wrote {pending : ℕ} {writes : List WriteResult} (alive : conn.state ≠ .dead)
    (answered : sock.writes pending writes = some after) :
    (conn.wrote (writeOutcome pending writes)).Unwilling after := by
  rcases KernelSocket.room_of_writes answered with drained | fatal | full
  · rw [drained]
    exact unwilling_drained _ _
  · rw [fatal]
    exact .inl (logged_died alive)
  · exact .inr (.inr full)

theorem Unwilling.shut (unwilling : conn.Unwilling sock) : conn.shut.Unwilling sock := by
  rcases unwilling with logged | disabled | full
  · rcases log_update conn .disableReading with ⟨more, log⟩
    left
    show Event.handleDead ∈ (conn.update .disableReading).log
    rw [log]
    exact List.mem_append_left more logged
  · exact .inr (.inl disabled)
  · exact .inr (.inr full)

theorem unwilling_sent {resp : List UInt8} {keepAlive : Bool} {writes : List WriteResult}
    (alive : conn.state ≠ .dead)
    (answered : sock.writes (conn.writeBuffer.readable + resp.length) writes = some after) :
    (conn.sent resp keepAlive writes).Unwilling after := by
  have wrote := @unwilling_wrote (conn.dataIn resp) _ _ _ _ alive answered
  unfold sent
  cases keepAlive with
  | true => exact wrote
  | false => exact wrote.shut

/-- A connection reads until its peer or itself has closed. -/
def Listens (conn : Connection) : Prop :=
  conn.state = .connected → conn.channel.events.epollIn = true

namespace Listens

theorem keep {other : Connection} (listens : conn.Listens) (state : other.state = conn.state)
    (epollIn : other.channel.events.epollIn = conn.channel.events.epollIn) : other.Listens := by
  intro connected
  rw [epollIn]
  exact listens (state.symm.trans connected)

theorem of_ne {other : Connection} (closed : other.state ≠ .connected) : other.Listens :=
  fun connected => absurd connected closed

theorem died (conn : Connection) : conn.died.Listens :=
  of_ne (by simp)

theorem checked (listens : conn.Listens) : conn.checked.Listens := by
  unfold Connection.checked
  split
  · exact died conn
  · exact listens

theorem drained (listens : conn.Listens) : conn.drained.Listens := by
  unfold Connection.drained
  split
  · exact died _
  · exact listens.keep rfl rfl

theorem wrote (listens : conn.Listens) (outcome : WriteOutcome) :
    (conn.wrote outcome).Listens := by
  cases outcome with
  | drained => exact Listens.drained (listens.keep rfl rfl)
  | partly count => exact listens.keep rfl rfl
  | blocked => exact listens.keep rfl rfl
  | fatal => exact died conn

theorem sent (listens : conn.Listens) (resp : List UInt8) (keepAlive : Bool)
    (writes : List WriteResult) : (conn.sent resp keepAlive writes).Listens := by
  have appended : (conn.dataIn resp).Listens := listens.keep rfl rfl
  have wrote := appended.wrote (writeOutcome (conn.writeBuffer.readable + resp.length) writes)
  unfold Connection.sent
  cases keepAlive with
  | true => exact wrote
  | false => exact of_ne (by simp [shut])

theorem heard (listens : conn.Listens) (timerId : ℤ) (reads : List ReadResult) :
    ((conn.refreshed timerId).heard reads).Listens := by
  have hears := hears_spec (conn.refreshed timerId) reads
  have still : ((conn.refreshed timerId).hears reads).Listens :=
    listens.keep hears.state (by rw [hears.channel]; rfl)
  unfold Connection.heard
  cases readEnd reads with
  | again => exact still
  | eof => exact of_ne (by simp [readUntil])
  | failed => exact died _

theorem handleWriteCallBack {scope : Scope} (listens : scope.conn.Listens) (now : Timespec)
    (writes : List WriteResult) : (scope.handleWriteCallBack now writes).conn.Listens := by
  unfold Scope.handleWriteCallBack
  split
  · exact listens
  · have refreshed : (scope.refreshTimer now).conn.Listens := listens.keep rfl rfl
    simp only
    split
    · exact refreshed.keep rfl rfl
    · next pending =>
      refine Scope.writeLoop_rule Listens Listens ?_ ?_ ?_ ?_ refreshed pending
      · exact fun conn count known _ => known.keep rfl rfl
      · exact fun conn known => Listens.drained (known.keep rfl rfl)
      · exact fun conn known _ => known
      · exact fun _ conn _ => died conn

end Listens

end Connection

end MiniWebServer
