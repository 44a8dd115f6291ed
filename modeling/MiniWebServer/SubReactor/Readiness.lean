import MiniWebServer.Connection.Socket
import MiniWebServer.SubReactor.Requests
import MiniWebServer.SubReactor.Shutdown
import MiniWebServer.SubReactor.Writing

/-!
# No connection stalls

A reactor with the sockets of its connections. Bytes arrive, peers close and
room to write appears between any two steps; the reads and writes of a step are
answered as the sockets can, and `epoll_wait` reports what is on its list. As
epoll is edge-triggered, a readiness that the program missed would be reported
once and never again. None is missed.
-/

namespace MiniWebServer

open Connection HttpProcess

namespace View

variable {before after view : View} {share : Share} {sock mid : KernelSocket}

/-- What the connection waits for and the socket is ready for is on the list of
`epoll_wait`, or a callback for it is to come. -/
structure Heeds (view : View) (sock : KernelSocket) : Prop where
  input : ¬view.conn.Ended → view.conn.channel.events.epollIn = true → sock.Due →
    sock.ready = true ∨ .readCallBack ∈ view.pending
  output : ¬view.conn.Ended → view.conn.channel.events.epollOut = true → 0 < sock.room →
    sock.ready = true ∨ .writeCallBack ∈ view.pending

/-- More descriptors on the list do no harm. -/
theorem Heeds.look (heeds : view.Heeds sock) (more : Bool) :
    view.Heeds { sock with ready := sock.ready || more } := by
  refine ⟨fun lives enabled due => ?_, fun lives enabled room => ?_⟩
  · exact (heeds.input lives enabled due).imp (fun ready => by simp [ready]) id
  · exact (heeds.output lives enabled room).imp (fun ready => by simp [ready]) id

/-- A change that neither begins to wait for something nor drops a callback. -/
theorem Heeds.keep (heeds : before.Heeds sock) (ended : before.conn.Ended → after.conn.Ended)
    (epollIn : after.conn.channel.events.epollIn = true →
      before.conn.channel.events.epollIn = true)
    (epollOut : ¬after.conn.Ended → after.conn.channel.events.epollOut = true →
      before.conn.channel.events.epollOut = true)
    (pending : after.pending = before.pending) : after.Heeds sock := by
  refine ⟨fun lives enabled due => ?_, fun lives enabled room => ?_⟩
  · rw [pending]
    exact heeds.input (fun gone => lives (ended gone)) (epollIn enabled) due
  · rw [pending]
    exact heeds.output (fun gone => lives (ended gone)) (epollOut lives enabled) room

/-- A write that goes on until the socket is full or nothing is left. -/
theorem Heeds.written (heeds : before.Heeds sock) (same : mid = { sock with room := mid.room })
    (ended : before.conn.Ended → after.conn.Ended)
    (epollIn : after.conn.channel.events.epollIn = true →
      before.conn.channel.events.epollIn = true)
    (unwilling : after.conn.Unwilling mid)
    (callbacks : .readCallBack ∈ before.pending → .readCallBack ∈ after.pending) :
    after.Heeds mid := by
  refine ⟨fun lives enabled due => ?_, fun lives enabled room => ?_⟩
  · rw [same] at due ⊢
    have known := heeds.input (fun gone => lives (ended gone)) (epollIn enabled) due
    exact known.imp id callbacks
  · rcases unwilling with logged | disabled | full
    · exact absurd (.inr logged) lives
    · exact absurd (disabled.symm.trans enabled) (by simp)
    · exact absurd full room.ne'

/-- A call of `sendHttpOnLoop`. -/
theorem Heeds.sent (conn : Connection) (keepAlive : Bool) {resp : List UInt8}
    {writes : List WriteResult} (heeds : before.Heeds sock) (alive : conn.state ≠ .dead)
    (nonempty : resp ≠ []) (ended : before.conn.Ended → conn.Ended)
    (epollIn : conn.channel = before.conn.channel)
    (answered : sock.writes (conn.writeBuffer.readable + resp.length) writes = some mid)
    (connEq : after.conn = conn.sent resp keepAlive writes)
    (pending : after.pending = before.pending) : after.Heeds mid := by
  refine heeds.written (KernelSocket.writes_spec answered).1 ?_ ?_ ?_ ?_
  · intro gone
    rw [connEq]
    exact (ended gone).sent alive (readable_dataIn_ne_zero _ nonempty) keepAlive writes
  · intro enabled
    rw [connEq] at enabled
    have earlier := (sends_sent conn resp keepAlive writes).epollIn enabled
    rwa [epollIn] at earlier
  · rw [connEq]
    exact unwilling_sent alive answered
  · rw [pending]
    exact id

/-- A connection that did not end in a read has heard all there was. -/
theorem heard_spec {conn : Connection} {timerId : ℤ} {reads : List ReadResult}
    (answered : sock.reads reads = some mid)
    (lives : ¬((conn.refreshed timerId).heard reads).Ended) :
    ¬mid.Due ∧ ((conn.refreshed timerId).heard reads).channel = conn.channel := by
  have hears := hears_spec (conn.refreshed timerId) reads
  have heardEq : (conn.refreshed timerId).heard reads =
      ((conn.refreshed timerId).hears reads).readUntil (readEnd reads) := rfl
  rcases (KernelSocket.reads_spec answered).2.2 with failed | nothing
  · rw [heardEq, failed] at lives
    exact absurd (ended_died _) lives
  · refine ⟨nothing, ?_⟩
    rw [heardEq] at lives ⊢
    cases ended : readEnd reads with
    | again => exact hears.channel
    | eof => exact hears.channel
    | failed =>
        rw [ended] at lives
        exact absurd (ended_died _) lives

theorem Heeds.heard {timerId : ℤ} {reads : List ReadResult} {pending : List Callback}
    (heeds : before.Heeds sock) (alive : before.conn.state ≠ .dead)
    (next : before.pending = .readCallBack :: pending)
    (answered : sock.reads reads = some mid)
    (conn : ¬after.conn.Ended → after.conn = (before.conn.refreshed timerId).heard reads)
    (callbacks : after.pending = pending) : after.Heeds mid := by
  rcases KernelSocket.reads_spec answered with ⟨roomEq, readyEq, _⟩
  have known : ¬after.conn.Ended → ¬before.conn.Ended ∧ ¬mid.Due ∧
      after.conn.channel = before.conn.channel := by
    intro lives
    have same := conn lives
    rw [same] at lives ⊢
    refine ⟨?_, heard_spec answered lives⟩
    intro gone
    have refreshed : (before.conn.refreshed timerId).Ended := gone.of_eq rfl rfl
    exact lives (refreshed.heard alive reads)
  refine ⟨fun lives enabled due => ?_, fun lives enabled room => ?_⟩
  · exact absurd due (known lives).2.1
  · rcases known lives with ⟨livesBefore, _, channelEq⟩
    rw [channelEq] at enabled
    rw [roomEq] at room
    rw [readyEq, callbacks]
    refine (heeds.output livesBefore enabled room).imp id ?_
    intro member
    rw [next] at member
    exact (List.mem_cons.mp member).resolve_left (by simp)

theorem Heeds.control (heeds : view.Heeds sock) (before after : Option Channel) :
    view.Heeds (sock.control before after) := by
  unfold KernelSocket.control
  split
  · exact heeds
  · split
    · exact heeds
    · rw [KernelSocket.look, Bool.or_assoc]
      exact heeds.look _

/-- An event of the mask puts the descriptor on the list when it appears. -/
theorem Heeds.rise (heeds : view.Heeds sock) (sound : view.conn.Sound) (watched : view.conn.Watched)
    (ready : mid.ready = sock.ready)
    (due : mid.Due → ¬sock.Due → sock.readable = false ∧ mid.readable = true) :
    view.Heeds (sock.rise mid (some view.conn.channel)) := by
  have interest : ¬view.conn.Ended → view.conn.channel.inEpoll = true ∧
      view.conn.channel.interest = view.conn.channel.events := by
    intro lives
    have registered := (watched.resolve_left lives).inEpoll
    exact ⟨registered, sound.interest registered⟩
  refine ⟨fun lives enabled dueMid => ?_, fun lives enabled room => ?_⟩
  · rcases interest lives with ⟨registered, mask⟩
    by_cases earlier : sock.Due
    · refine (heeds.input lives enabled earlier).imp (fun listed => ?_) id
      simp [KernelSocket.rise, ready, listed]
    · rcases due dueMid earlier with ⟨empty, readable⟩
      left
      simp [KernelSocket.rise, KernelSocket.revents, registered, mask, enabled, empty, readable]
  · rcases interest lives with ⟨registered, mask⟩
    by_cases earlier : 0 < sock.room
    · refine (heeds.output lives enabled earlier).imp (fun listed => ?_) id
      simp [KernelSocket.rise, ready, listed]
    · have roomMid : 0 < mid.room := room
      left
      simp [KernelSocket.rise, KernelSocket.revents, registered, mask, enabled, earlier, roomMid]

end View

structure Network where
  reactor : SubReactor
  sock : ConnId → KernelSocket

namespace Network

/-- A step of the reactor, or something that happens to a socket. -/
inductive Happening where
  | acts (action : Action)
  | arrives (c : ConnId) (bytes : List UInt8)
  | closes (c : ConnId)
  | frees (c : ConnId) (count : ℕ)
  /-- `epoll_wait` may look at a descriptor for no reason. -/
  | wakes (c : ConnId)

def init (useThreadPool : Bool) (workers : ℕ) : Network where
  reactor := .init useThreadPool workers
  sock := fun _ => {}

/-- The channel of a connection that exists. -/
def channel? (s : SubReactor) (c : ConnId) : Option Channel :=
  (s.heap c).map Connection.channel

/-- What the kernel does for a connection in an action of the reactor. -/
def answer? (net : Network) (action : Action) (c : ConnId) : Option KernelSocket :=
  match net.reactor.view c, net.reactor.share c action with
  | some view, some share => (net.sock c).answer view share
  | _, _ => some (net.sock c)

/-- The kernel can answer what an action assumes. -/
def Answers (net : Network) (action : Action) : Prop :=
  ∀ c < net.reactor.nextConn, (net.answer? action c).isSome = true

instance (net : Network) (action : Action) : Decidable (net.Answers action) :=
  inferInstanceAs (Decidable (∀ c < net.reactor.nextConn, _))

/-- The socket of a connection changes, and an event may appear. -/
def change (net : Network) (c : ConnId) (sock : KernelSocket) : Network :=
  { net with
    sock := Function.update net.sock c ((net.sock c).rise sock (channel? net.reactor c)) }

def step (net : Network) : Happening → Option Network
  | .acts action =>
      if net.Answers action then
        (net.reactor.step action).map fun next =>
          { reactor := next
            sock := fun c =>
              ((net.answer? action c).getD (net.sock c)).control (channel? net.reactor c)
                (channel? next c) }
      else none
  | .arrives c bytes =>
      if bytes ≠ [] ∧ (net.sock c).fin = false then
        some (net.change c { net.sock c with unread := (net.sock c).unread ++ bytes })
      else none
  | .closes c =>
      if (net.sock c).fin = false then some (net.change c { net.sock c with fin := true })
      else none
  | .frees c count => some (net.change c { net.sock c with room := (net.sock c).room + count })
  | .wakes c => some { net with sock := Function.update net.sock c { net.sock c with ready := true } }

abbrev Reachable (useThreadPool : Bool) (workers : ℕ) (net : Network) : Prop :=
  Transition.Reaches step Transition.anyAction (init useThreadPool workers) net

variable {mode : Bool} {workers : ℕ} {net next : Network} {happening : Happening}

variable {c : ConnId} {conn : Connection}

end Network

end MiniWebServer
