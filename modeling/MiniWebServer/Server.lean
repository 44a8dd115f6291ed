import MiniWebServer.EventLoop.Halting
import MiniWebServer.SubReactor
import MiniWebServer.ThreadPool

/-!
# The server

A server is the event loop of its main reactor, the event loops of its
sub-reactors, the thread pool, and the control thread that runs
`Server::listenPort` and `Server::stop`. The parts take the steps of their own
models; a guard says which thread may take which step of a part, and when. What
the loops do outside of `enqueueTask`, of `ThreadPool::enqueue` and of
`Server::handleNewConnection` is left open.
-/

namespace MiniWebServer

/-- The tasks of the loop of the main reactor. -/
inductive MainTask where
  | listenPort (port : ℤ)
  /-- The task of `MainReactor::stop`. -/
  | stop
deriving DecidableEq

/-- Whether the task calls `stopLoop`. -/
def MainTask.stopsLoop : MainTask → Bool
  | .stop => true
  | .listenPort _ => false

/-- Whether the task calls `stopLoop`. -/
def Task.stopsLoop : Task → Bool
  | .stop => true
  | .addConnection _ _ => false
  | .removeConnection _ => false
  | .respond _ _ => false

/-- The threads that enqueue tasks on the loop of a sub-reactor, other than its own. -/
inductive SubCaller (n : ℕ) where
  | mainReactor
  | control
  | worker (worker : Fin n)
deriving DecidableEq

/-- Where the main reactor is in `Server::handleNewConnection`. -/
inductive Dispatch where
  | idle
  /-- Before the `enqueueTask` of `SubReactor::addConnection`. -/
  | calling (sck : SocketId)
  /-- In it after its check, or behind it. -/
  | called
deriving DecidableEq

/-- Where the control thread is in `Server::stop`. -/
inductive Control (n : ℕ) where
  /-- Before it; `listenPort` may be called. -/
  | serving
  /-- Before the `enqueueTask` of `MainReactor::stop`. -/
  | stoppingMain
  /-- In it after its check, or in the join behind it. -/
  | joiningMain
  | stoppingSub (sub : Fin n)
  | joiningSub (sub : Fin n)
  /-- In `ThreadPool::stop`. -/
  | stoppingPool
  | stopped
deriving DecidableEq

/-- A server on a machine that runs `n` threads. -/
structure Server (n : ℕ) where
  useThreadPool : Bool
  /-- A task of the pool is a job with the sub-reactor whose connection it captures. -/
  threadpool : ThreadPool n (Fin n × Job) (Fin n)
  mainReactor : LoopThread MainTask Unit
  /-- The keys of `MainReactor::Acceptors`. -/
  acceptors : List ℤ
  subReactors : Fin n → LoopThread Task (SubCaller n)
  subIdx : Fin n
  dispatching : Dispatch
  /-- The sockets that `acceptConnection` returned, with the sub-reactors they go to. -/
  accepted : List (SocketId × Fin n)
  nextSocket : SocketId
  /-- Whether a worker has called `enqueueTask` in the job that it runs. -/
  posted : Fin n → Bool
  control : Control n

inductive ServerAction (n : ℕ) where
  /-- A step of the main reactor's loop, or of the control thread in its `enqueueTask`. -/
  | main (action : LoopAction MainTask Unit)
  /-- `Acceptor::handleRead`, when a connection is waiting. -/
  | accept (port : ℤ)
  | dispatched
  /-- A step of a sub-reactor's loop, or of a thread in its `enqueueTask`. -/
  | sub (sub : Fin n) (action : LoopAction Task (SubCaller n))
  | pool (action : PoolAction n (Fin n × Job) (Fin n))
  /-- The next join of the control thread returns, or `Server::stop` begins. -/
  | control

namespace Server

variable {n : ℕ}

/-- The constructor `Server::Server`, and `start`. -/
def init [NeZero n] (useThreadPool : Bool) : Server n where
  useThreadPool := useThreadPool
  threadpool := .init
  mainReactor := .init
  acceptors := []
  subReactors := fun _ => .init
  subIdx := 0
  dispatching := .idle
  accepted := []
  nextSocket := 0
  posted := fun _ => false
  control := .serving

/-- Whether `errif` or an exception that nobody catches has ended the process. -/
def Ended (s : Server n) : Prop :=
  s.mainReactor.failed = true ∨ (∃ sub, (s.subReactors sub).failed = true) ∨
    ∃ sub, s.threadpool.callers sub = .threw

instance (s : Server n) : Decidable s.Ended :=
  inferInstanceAs (Decidable (_ ∨ _ ∨ _))

/-! ## The main reactor -/

/-- When a step of the main reactor's loop may be taken. -/
def mainMay (s : Server n) : LoopAction MainTask Unit → Bool
  | .check caller (.listenPort _) => caller = some () ∧ s.control = .serving
  | .check caller .stop => caller = some () ∧ s.control = .stoppingMain
  | .push _ => true
  | .write _ _ => true
  | _ => s.dispatching = .idle

/-- What a task of the main reactor does to its acceptors. -/
def runMainTask (acceptors : List ℤ) : MainTask → List ℤ
  | .listenPort port => if port ∈ acceptors then acceptors else port :: acceptors
  | .stop => []

/-- The server when the main reactor's loop has taken a step to `loop`. -/
def afterMain (s : Server n) (action : LoopAction MainTask Unit)
    (loop : LoopThread MainTask Unit) : Server n :=
  { s with
    mainReactor := loop
    acceptors :=
      match action, s.mainReactor.phase with
      | .finish, .running (some entry) _ => runMainTask s.acceptors entry.func
      | _, _ => s.acceptors
    control :=
      match action with
      | .check _ .stop => .joiningMain
      | _ => s.control }

/-- `acceptConnection` returns a socket, and `handleNewConnection` is called with it. -/
def accept (s : Server n) (port : ℤ) : Option (Server n) :=
  match s.mainReactor.phase with
  | .handling _ =>
      if port ∈ s.acceptors ∧ s.dispatching = .idle then
        some
          { s with
            dispatching := .calling s.nextSocket
            accepted := s.accepted ++ [(s.nextSocket, s.subIdx)]
            nextSocket := s.nextSocket + 1 }
      else none
  | _ => none

/-- `subIdx = (subIdx + 1) % SubReactors.size()`, when `enqueueTask` has returned. -/
def dispatched (s : Server n) : Option (Server n) :=
  if s.dispatching = .called ∧
      (s.subReactors s.subIdx).callers (some .mainReactor) = .idle then
    some
      { s with
        dispatching := .idle
        subIdx := ⟨(s.subIdx + 1) % n, Nat.mod_lt _ s.subIdx.pos⟩ }
  else none

/-! ## The sub-reactors -/

/-- Who calls `enqueueTask` on the loop of a sub-reactor, and with what. -/
def mayEnqueue (s : Server n) (sub : Fin n) (caller : Option (SubCaller n)) (func : Task) :
    Bool :=
  match caller with
  | none =>
      match func with
      | .removeConnection _ => s.threadpool.callers sub = .idle
      | _ => false
  | some .mainReactor =>
      match s.dispatching with
      | .calling sck => sub = s.subIdx ∧ func = .addConnection sck s.useThreadPool
      | _ => false
  | some .control => s.control = .stoppingSub sub ∧ func = .stop
  | some (.worker worker) =>
      match s.threadpool.workers worker with
      | .running (owner, job) =>
          owner = sub ∧ func = .respond job.self job.reply ∧ s.posted worker = false
      | _ => false

/-- When a step of a sub-reactor's loop may be taken. -/
def subMay (s : Server n) (sub : Fin n) : LoopAction Task (SubCaller n) → Bool
  | .check caller func => s.mayEnqueue sub caller func
  | .push _ => true
  | .write _ _ => true
  | _ => s.threadpool.callers sub = .idle

/-- A thread has passed the check of `enqueueTask` on the loop of a sub-reactor. -/
def called (s : Server n) (sub : Fin n) : Option (SubCaller n) → Server n
  | none => s
  | some .mainReactor => { s with dispatching := .called }
  | some .control => { s with control := .joiningSub sub }
  | some (.worker worker) => { s with posted := Function.update s.posted worker true }

/-- The server when a sub-reactor's loop has taken a step to `loop`. -/
def afterSub (s : Server n) (sub : Fin n) (action : LoopAction Task (SubCaller n))
    (loop : LoopThread Task (SubCaller n)) : Server n :=
  let moved := { s with subReactors := Function.update s.subReactors sub loop }
  match action with
  | .check caller _ => moved.called sub caller
  | _ => moved

/-! ## The pool -/

/-- When a step of the pool may be taken. -/
def poolMay (s : Server n) : PoolAction n (Fin n × Job) (Fin n) → Bool
  | .enqueue caller func =>
      s.useThreadPool = true ∧ (s.subReactors caller).phase.inCode = true ∧
        (s.subReactors caller).callers none = .idle ∧ s.threadpool.callers caller = .idle ∧
        func.1 = caller
  | .finish worker =>
      s.posted worker = true ∧
        ∀ sub, (s.subReactors sub).callers (some (.worker worker)) = .idle
  | .stop => s.control = .stoppingPool
  | .notifyAll => s.control = .stoppingPool
  | .join => s.control = .stoppingPool
  | .notifyOne _ _ => true
  | .look _ => s.useThreadPool
  | .wake _ => true

/-- The server when the pool has taken a step to `pool`. -/
def afterPool (s : Server n) (action : PoolAction n (Fin n × Job) (Fin n))
    (pool : ThreadPool n (Fin n × Job) (Fin n)) : Server n :=
  { s with
    threadpool := pool
    posted :=
      match action with
      | .finish worker => Function.update s.posted worker false
      | _ => s.posted }

/-! ## The control thread -/

/-- Where `Server::stop` goes on after the sub-reactors before this one. -/
def nextControl (s : Server n) (sub : ℕ) : Control n :=
  if within : sub < n then .stoppingSub ⟨sub, within⟩
  else if s.useThreadPool then .stoppingPool
  else .stopped

/-- The control thread outside of `enqueueTask`. -/
def advance (s : Server n) : Option (Server n) :=
  match s.control with
  | .serving =>
      if s.mainReactor.callers (some ()) = .idle then some { s with control := .stoppingMain }
      else none
  | .joiningMain =>
      if s.mainReactor.callers (some ()) = .idle ∧ s.mainReactor.phase = .exited then
        some { s with control := s.nextControl 0 }
      else none
  | .joiningSub sub =>
      if (s.subReactors sub).callers (some .control) = .idle ∧
          (s.subReactors sub).phase = .exited then
        some { s with control := s.nextControl (sub + 1) }
      else none
  | .stoppingPool =>
      if s.threadpool.stopper = .returned then some { s with control := .stopped } else none
  | _ => none

def step (s : Server n) (action : ServerAction n) : Option (Server n) :=
  if s.Ended then none
  else
    match action with
    | .main action =>
        if s.mainMay action then
          (s.mainReactor.step MainTask.stopsLoop action).map (s.afterMain action)
        else none
    | .accept port => s.accept port
    | .dispatched => s.dispatched
    | .sub sub action =>
        if s.subMay sub action then
          ((s.subReactors sub).step Task.stopsLoop action).map (s.afterSub sub action)
        else none
    | .pool action =>
        if s.poolMay action then (s.threadpool.step action).map (s.afterPool action) else none
    | .control => s.advance

abbrev Reachable [NeZero n] (useThreadPool : Bool) (s : Server n) : Prop :=
  Transition.Reaches step Transition.anyAction (init useThreadPool) s

end Server

end MiniWebServer
