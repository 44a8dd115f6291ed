import MiniWebServer.HttpProcess
import MiniWebServer.TimerQueue

/-!
# The event loop as its connections see it

An event loop owns the timer queue and the queue of tasks that are to run after
the callbacks of a poll. The closures that the program creates are listed here
with what they capture: a `ConnId` in a task, in a job or in a timer stands for
a captured `shared_ptr<Connection>`.

A reply carries its number among the requests of its connection. The program
has no such number; it serves to speak about order.
-/

namespace MiniWebServer

/-- The identity of a `Connection` object. -/
abbrev ConnId := ℕ

/-- A `Socket*`. -/
abbrev SocketId := ℕ

/-- The response that a back-posted task sends, and whose response it is. -/
structure Reply where
  resp : List UInt8
  keepAlive : Bool
  ticket : ℕ
  built : ∃ req, HttpProcess.buildResponse req = resp ∧ req.keepAlive = keepAlive
deriving DecidableEq

/-- The closure that `onHttp` gives to `process`. -/
structure Job where
  self : ConnId
  req : HttpRequest
  ticket : ℕ
deriving DecidableEq

/-- What the closure makes of its request. -/
def Job.reply (job : Job) : Reply where
  resp := HttpProcess.buildResponse job.req
  keepAlive := job.req.keepAlive
  ticket := job.ticket
  built := ⟨job.req, rfl, rfl⟩

/-- The closures in `EventLoop::tasks`. -/
inductive Task where
  /-- `SubReactor::addConnection`, of the overload with a `taskSubmit` or of the other. -/
  | addConnection (sck : SocketId) (taskSubmit : Bool)
  /-- The removal task of `Connection::handleDead`. -/
  | removeConnection (self : ConnId)
  /-- The task that a worker posts back. -/
  | respond (self : ConnId) (reply : Reply)
  /-- The task of `SubReactor::stop`. -/
  | stop
deriving DecidableEq

structure EventLoop where
  timerQueue : TimerQueue ConnId
  tasks : List Task
  stop : Bool

namespace EventLoop

/-- The constructor `EventLoop::EventLoop`. -/
def init : EventLoop where
  timerQueue := .init
  tasks := []
  stop := false

def enqueueTask (eloop : EventLoop) (func : Task) : EventLoop :=
  if eloop.stop then eloop else { eloop with tasks := eloop.tasks ++ [func] }

def addTimer (eloop : EventLoop) (now : Timespec) (cb : ConnId) : ℤ × EventLoop :=
  let (id, timerQueue) := eloop.timerQueue.addTimer now cb
  (id, { eloop with timerQueue := timerQueue })

def deleteTimer (eloop : EventLoop) (id : ℤ) : EventLoop :=
  { eloop with timerQueue := eloop.timerQueue.deleteTimer id }

def stopLoop (eloop : EventLoop) : EventLoop :=
  { eloop with timerQueue := eloop.timerQueue.stop, stop := true }

end EventLoop

end MiniWebServer
