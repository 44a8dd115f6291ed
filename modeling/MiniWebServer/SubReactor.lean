import MiniWebServer.Connection
import MiniWebServer.Library.Transition

/-!
# A sub-reactor with its event loop, its connections and the workers

The state holds the objects of one `SubReactor` thread, the jobs that its
connections gave to the thread pool, and where the loop thread is. An `Action`
is a step of the loop thread, of a worker, of the thread that accepts
connections or of the one that stops the reactor; it carries what the kernel
answers in the step. Steps of different threads interleave freely.

The loop thread takes one step for each callback, each iteration of the parse
loop, each expired timer and each task, so that other threads may act between
any two operations on the data they share with it.
-/

namespace MiniWebServer

open Connection

/-- Where the loop thread is in `EventLoop::loop`. -/
inductive Phase where
  /-- Before `epoll_wait`. -/
  | polling
  /-- The callbacks of a poll that are still to come, and whether the timer pass is. -/
  | handling (batch : List (ConnId × Callback)) (hastime : Bool)
  /-- The second loop of `TimerQueue::handleRead`. -/
  | expiring (dyingTimers : List ℤ)
  /-- The vector `funcs`: the tasks that have run and those still to run. -/
  | running (done todo : List Task)
  /-- After the loop. -/
  | exited
deriving DecidableEq

/-- The batch of a phase. -/
def Phase.batch : Phase → List (ConnId × Callback)
  | .handling batch _ => batch
  | _ => []

/-- The tasks in `funcs` that are still to run. -/
def Phase.todo : Phase → List Task
  | .running _ todo => todo
  | _ => []

/-- The closures alive in `funcs`. -/
def Phase.funcs : Phase → List Task
  | .running done todo => done ++ todo
  | _ => []

/-- Why the process ended. -/
inductive Failure where
  | uncaught (exception : CppException)
  /-- `timers[id]->runCallBack()` on a null pointer. -/
  | nullTimer
deriving DecidableEq

structure SubReactor where
  useThreadPool : Bool
  /-- `SubReactor::Connections`. -/
  connections : List (SocketId × ConnId)
  eloop : EventLoop
  /-- The `Connection` objects that are alive. -/
  heap : ConnId → Option Connection
  nextConn : ConnId
  nextSocket : SocketId
  phase : Phase
  /-- The connection in whose code the loop thread is. -/
  frame : Option (ConnId × Frame)
  /-- `ThreadPool::tasks`. -/
  queue : List Job
  /-- The jobs that workers have taken and not finished; at most `workers` of them. -/
  running : List Job
  workers : ℕ
  /-- The jobs whose back-posts a stopped loop refused. -/
  refused : List Job
  failure : Option Failure

inductive Action where
  /-- `addConnection` is called for a new socket, with a `taskSubmit` or without. -/
  | addConnection (taskSubmit : Bool)
  /-- `SubReactor::stop` is called. -/
  | stop
  /-- `epoll_wait` returns. -/
  | poll (ready : List (ConnId × Events)) (hastime : Bool)
  /-- The next callback of the batch runs. -/
  | handle (now : Timespec) (reads : List ReadResult) (writes : List WriteResult)
  /-- The loop thread goes on in the code of a connection. -/
  | resume (writes : List WriteResult)
  /-- `TimerQueue::handleRead`; no time when its `read` says `EAGAIN`. -/
  | timer (now : Option Timespec)
  /-- The next iteration of the second loop of `handleRead`, or its end. -/
  | expire
  /-- The task queue is moved to `funcs`. -/
  | drain
  /-- The next task runs. -/
  | task (now : Timespec) (writes : List WriteResult)
  /-- The iteration of `loop` ends. -/
  | endLoop
  /-- An idle worker takes the first job. -/
  | take
  /-- A worker posts the reply for the job that it runs. -/
  | post (index : ℕ)
  /-- The last reference to a connection has gone. -/
  | destroy (conn : ConnId)

namespace SubReactor

/-- A reactor before its first poll. -/
def init (useThreadPool : Bool) (workers : ℕ) : SubReactor where
  useThreadPool := useThreadPool
  connections := []
  eloop := .init
  heap := fun _ => none
  nextConn := 0
  nextSocket := 0
  phase := .polling
  frame := none
  queue := []
  running := []
  workers := workers
  refused := []
  failure := none

/-! ## References -/

/-- Whether a closure of the loop's queue captures the connection. -/
def captures (c : ConnId) : Task → Bool
  | .addConnection _ _ => false
  | .removeConnection self => self = c
  | .respond self _ => self = c
  | .stop => false

/-- The strong references that a frame of `onHttp` has on the stack. -/
def stackReferences (s : SubReactor) (c : ConnId) : ℕ :=
  match s.frame with
  | some (self, .parseLoop) => if self = c then 1 else 0
  | some (self, .afterResponse) => if self = c then 1 else 0
  | some (self, .afterRejection) => if self = c then 1 else 0
  | _ => 0

/-- The strong references to a connection outside of `Connection` objects and
of the table `Connections`. -/
def closureReferences (s : SubReactor) (c : ConnId) : ℕ :=
  s.eloop.timerQueue.timers.entries.countP (fun entry => entry.2.callBack = c) +
    (s.eloop.tasks ++ s.phase.funcs).countP (captures c) +
    (s.queue ++ s.running).countP (fun job => job.self = c) + s.stackReferences c

/-- The strong references that members of living connections hold. -/
def memberReferences (s : SubReactor) (c : ConnId) : ℕ :=
  ((List.range s.nextConn).filterMap s.heap).countP fun conn => conn.addTimerCallBack = c

/-- The strong count of a connection. -/
def strongCount (s : SubReactor) (c : ConnId) : ℕ :=
  s.connections.countP (fun entry => entry.2 = c) + s.closureReferences c + s.memberReferences c

/-! ## The loop thread -/

/-- Leave the code of a connection at a frame, or for the loop. -/
def leave (s : SubReactor) (c : ConnId) (scope : Scope) (frame : Option Frame) : SubReactor :=
  { s with
    heap := Function.update s.heap c (some scope.conn)
    eloop := scope.eloop
    frame := frame.map fun frame => (c, frame) }

/-- Whether `epoll_wait` may report a connection with these events. -/
def mayReport (s : SubReactor) (entry : ConnId × Events) : Bool :=
  match s.heap entry.1 with
  | none => false
  | some conn => conn.channel.MayReport entry.2

/-- `Epoll::poll` for a set of ready channels. -/
def poll (s : SubReactor) (ready : List (ConnId × Events)) (hastime : Bool) :
    Option SubReactor :=
  if s.frame = none ∧ s.phase = .polling ∧ (ready.map Prod.fst).Nodup ∧
      ready.all s.mayReport ∧
      (hastime → s.eloop.timerQueue.timeChannel.MayReport { epollIn := true }) then
    some
      { s with
        phase := .handling
          (ready.flatMap fun entry => entry.2.handle.map fun callback => (entry.1, callback))
          hastime }
  else none

/-- A callback of `Channel::handle`. -/
def handle (s : SubReactor) (now : Timespec) (reads : List ReadResult)
    (writes : List WriteResult) : Option SubReactor :=
  match s.frame, s.phase with
  | none, .handling ((c, callback) :: batch) hastime =>
      (s.heap c).map fun conn =>
        let s := { s with phase := .handling batch hastime }
        let scope : Scope := { conn, eloop := s.eloop }
        match callback with
        | .readCallBack =>
            let (scope, frame) := scope.handleReadCallBack now reads
            s.leave c scope frame
        | .writeCallBack => s.leave c (scope.handleWriteCallBack now writes) none
  | _, _ => none

/-- Go on in the code of a connection. -/
def resume (s : SubReactor) (writes : List WriteResult) : Option SubReactor :=
  match s.frame with
  | none => none
  | some (c, frame) =>
      (s.heap c).map fun conn =>
        match Scope.resume { conn, eloop := s.eloop } writes frame with
        | .go scope frame => s.leave c scope frame
        | .dispatch scope job =>
            { s.leave c scope (some .parseLoop) with queue := s.queue ++ [job] }
        | .raise exception => { s with failure := some (.uncaught exception) }

/-- `TimerQueue::handleRead` up to its second loop. -/
def timer (s : SubReactor) (now : Option Timespec) : Option SubReactor :=
  match s.frame, s.phase with
  | none, .handling [] true =>
      match now with
      | none => some { s with phase := .handling [] false }
      | some now => some { s with phase := .expiring (s.eloop.timerQueue.dyingTimers now) }
  | _, _ => none

/-- An iteration of the second loop of `TimerQueue::handleRead`, or its end. -/
def expire (s : SubReactor) : Option SubReactor :=
  match s.frame, s.phase with
  | none, .expiring [] =>
      some
        { s with
          phase := .handling [] false
          eloop := { s.eloop with timerQueue := s.eloop.timerQueue.refreshClock } }
  | none, .expiring (id :: rest) =>
      match s.eloop.timerQueue.timers.find? id with
      | none => some { s with failure := some .nullTimer }
      | some timer =>
          (s.heap timer.callBack).map fun conn =>
            let scope := Scope.handleDead { conn, eloop := s.eloop }
            let timerQueue := scope.eloop.timerQueue
            { s.leave timer.callBack scope none with
              phase := .expiring rest
              eloop :=
                { scope.eloop with
                  timerQueue := { timerQueue with timers := timerQueue.timers.erase id } } }
  | _, _ => none

/-- Move the task queue to `funcs`. -/
def drain (s : SubReactor) : Option SubReactor :=
  match s.frame, s.phase with
  | none, .handling [] false =>
      some
        { s with
          phase := .running [] s.eloop.tasks
          eloop := { s.eloop with tasks := [] } }
  | _, _ => none

/-- The task of `SubReactor::addConnection`. -/
def connect (s : SubReactor) (now : Timespec) (sck : SocketId) (taskSubmit : Bool) :
    SubReactor :=
  let c := s.nextConn
  let conn : Connection :=
    { weakThis := c
      useThreadPool := s.useThreadPool
      sck := sck
      process := taskSubmit
      addTimerCallBack := c }
  { s.leave c (Scope.startConnect { conn, eloop := s.eloop } now) none with
    nextConn := c + 1
    connections := (sck, c) :: s.connections.filter fun entry => entry.1 ≠ sck }

/-- `it.second->stop()` in the task of `SubReactor::stop`. -/
def stopConnection (s : SubReactor) (entry : SocketId × ConnId) : SubReactor :=
  match s.heap entry.2 with
  | none => s
  | some conn => s.leave entry.2 (Scope.stop { conn, eloop := s.eloop }) none

/-- The task of `SubReactor::stop`. -/
def stopConnections (s : SubReactor) : SubReactor :=
  let stopped := s.connections.foldl stopConnection s
  { stopped with eloop := stopped.eloop.stopLoop }

/-- Run a task of `funcs`. -/
def runTask (s : SubReactor) (now : Timespec) (writes : List WriteResult) :
    Task → Option SubReactor
  | .addConnection sck taskSubmit => some (s.connect now sck taskSubmit)
  | .removeConnection self =>
      (s.heap self).map fun conn =>
        { s with connections := s.connections.filter fun entry => entry.1 ≠ conn.sck }
  | .respond self reply =>
      (s.heap self).map fun conn =>
        let (scope, frame) := Scope.respond { conn, eloop := s.eloop } reply writes
        s.leave self scope frame
  | .stop => some s.stopConnections

/-- The next task of `funcs`. -/
def task (s : SubReactor) (now : Timespec) (writes : List WriteResult) : Option SubReactor :=
  match s.frame, s.phase with
  | none, .running done (func :: todo) =>
      runTask { s with phase := .running (done ++ [func]) todo } now writes func
  | _, _ => none

/-- The end of an iteration of `EventLoop::loop`. -/
def endLoop (s : SubReactor) : Option SubReactor :=
  match s.frame, s.phase with
  | none, .running _ [] =>
      some { s with phase := if s.eloop.stop then .exited else .polling }
  | _, _ => none

/-! ## The other threads -/

/-- A worker takes the first job of the queue. -/
def take (s : SubReactor) : Option SubReactor :=
  match s.queue with
  | [] => none
  | job :: queue =>
      if s.running.length < s.workers then
        some { s with queue := queue, running := s.running ++ [job] }
      else none

/-- A worker has built its response and enqueues the task that sends it. -/
def post (s : SubReactor) (index : ℕ) : Option SubReactor :=
  s.running[index]?.map fun job =>
    let s := { s with running := s.running.eraseIdx index }
    if s.eloop.stop then { s with refused := job :: s.refused }
    else { s with eloop := s.eloop.enqueueTask (.respond job.self job.reply) }

/-- The destructor of a connection runs when nothing refers to it. -/
def destroy (s : SubReactor) (c : ConnId) : Option SubReactor :=
  if (s.heap c).isSome ∧ s.strongCount c = 0 then
    some { s with heap := Function.update s.heap c none }
  else none

def step (s : SubReactor) (action : Action) : Option SubReactor :=
  if s.failure.isSome then none
  else
    match action with
    | .addConnection taskSubmit =>
        some
          { s with
            nextSocket := s.nextSocket + 1
            eloop := s.eloop.enqueueTask (.addConnection s.nextSocket taskSubmit) }
    | .stop => some { s with eloop := s.eloop.enqueueTask .stop }
    | .poll ready hastime => s.poll ready hastime
    | .handle now reads writes => s.handle now reads writes
    | .resume writes => s.resume writes
    | .timer now => s.timer now
    | .expire => s.expire
    | .drain => s.drain
    | .task now writes => s.task now writes
    | .endLoop => s.endLoop
    | .take => s.take
    | .post index => s.post index
    | .destroy c => s.destroy c

/-- The states of a reactor in runs whose steps satisfy the guard. -/
abbrev ReachableUnder (guard : SubReactor → Action → Prop) (useThreadPool : Bool)
    (workers : ℕ) (s : SubReactor) : Prop :=
  Transition.Reaches step guard (init useThreadPool workers) s

abbrev Reachable (useThreadPool : Bool) (workers : ℕ) (s : SubReactor) : Prop :=
  ReachableUnder Transition.anyAction useThreadPool workers s

end SubReactor

end MiniWebServer
