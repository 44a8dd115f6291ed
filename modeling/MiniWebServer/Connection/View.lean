import MiniWebServer.Connection.Effects

/-!
# One connection as a machine of its own

A `View` holds what concerns one connection: its object, where the loop thread
is in its code, the callbacks that the current poll has for it, its requests in
the thread pool and the replies that workers have posted. `View.Moves` lists
everything that can happen to it, one constructor for each way through the
code; the invariants of a connection are proved over this list.
-/

namespace MiniWebServer

open Connection HttpProcess

structure View where
  conn : Connection
  frame : Option Frame
  pending : List Callback
  /-- The requests that workers still have to answer. -/
  pool : Multiset Job
  /-- The replies whose tasks still have to run. -/
  tasks : List Reply

/-- The part that one connection takes in an action. -/
inductive Share where
  | poll (revents : Events)
  | read (now : Timespec) (reads : List ReadResult)
  | write (now : Timespec) (writes : List WriteResult)
  | resume (writes : List WriteResult)
  | expire
  | post (job : Job)
  | respond (writes : List WriteResult)
  | stop

namespace View

/-- The view of a connection when its `startConnect` has run. -/
inductive Starts (mode : Bool) : View → Prop where
  | startConnect (self : ConnId) (sck : SocketId) (process : Bool) (timerId : ℤ) :
      Starts mode
        { conn :=
            { weakThis := self
              useThreadPool := mode
              sck := sck
              process := process
              addTimerCallBack := self
              channel := Channel.enableReading {}
              timerId := timerId
              log := [.epollAdd, .addTimer] }
          frame := none
          pending := []
          pool := 0
          tasks := [] }

/-- The moves of a connection. -/
inductive Moves (view : View) : Share → View → Prop where
  | poll (revents : Events) (ready : view.frame = none) (handled : view.pending = [])
      (reported : view.conn.channel.MayReport revents) :
      Moves view (.poll revents) { view with pending := revents.handle }
  | readNothing {now : Timespec} (reads : List ReadResult) {pending : List Callback}
      (timerId : ℤ) (ready : view.frame = none)
      (next : view.pending = .readCallBack :: pending)
      (empty : ((view.conn.refreshed timerId).heard reads).readBuffer.readable = 0) :
      Moves view (.read now reads)
        { view with
          conn := ((view.conn.refreshed timerId).heard reads).checked
          pending := pending }
  | read {now : Timespec} (reads : List ReadResult) {pending : List Callback}
      (timerId : ℤ) (ready : view.frame = none)
      (next : view.pending = .readCallBack :: pending)
      (more : ((view.conn.refreshed timerId).heard reads).readBuffer.readable ≠ 0) :
      Moves view (.read now reads)
        { view with
          conn := (view.conn.refreshed timerId).heard reads
          frame := some .parseLoop
          pending := pending }
  | write (now : Timespec) (writes : List WriteResult) {pending : List Callback}
      (eloop : EventLoop) (ready : view.frame = none)
      (next : view.pending = .writeCallBack :: pending) :
      Moves view (.write now writes)
        { view with
          conn := (Scope.handleWriteCallBack { conn := view.conn, eloop } now writes).conn
          pending := pending }
  | leave {writes : List WriteResult} (parsing : view.frame = some .parseLoop)
      (dead : view.conn.state = .dead) :
      Moves view (.resume writes) { view with frame := none }
  | needMore {writes : List WriteResult} (process : HttpProcess) (rest : Buffer)
      (parsing : view.frame = some .parseLoop) (alive : view.conn.state ≠ .dead)
      (parsed : view.conn.httpProcess.parse view.conn.readBuffer =
        .ok (.kNeedMore, process, rest)) :
      Moves view (.resume writes)
        { view with
          conn := { view.conn with httpProcess := process, readBuffer := rest }
          frame := none }
  | tooLong {writes : List WriteResult} (process : HttpProcess) (rest : Buffer)
      (parsing : view.frame = some .parseLoop) (alive : view.conn.state ≠ .dead)
      (parsed : view.conn.httpProcess.parse view.conn.readBuffer =
        .ok (.kLineTooLong, process, rest)) :
      Moves view (.resume writes)
        { view with
          conn := (view.conn.afterParse process rest .lineTooLong).shut.checked
          frame := none }
  | reject (writes : List WriteResult) (process : HttpProcess) (rest : Buffer)
      (parsing : view.frame = some .parseLoop) (alive : view.conn.state ≠ .dead)
      (parsed : view.conn.httpProcess.parse view.conn.readBuffer =
        .ok (.kError, process, rest)) :
      Moves view (.resume writes)
        { view with
          conn := (view.conn.afterParse process rest .error).sent build400 false writes
          frame := some .afterRejection }
  | answer (writes : List WriteResult) (process : HttpProcess) (rest : Buffer)
      (parsing : view.frame = some .parseLoop) (alive : view.conn.state ≠ .dead)
      (parsed : view.conn.httpProcess.parse view.conn.readBuffer =
        .ok (.kComplete, process, rest))
      (alone : view.conn.useThreadPool = false) :
      Moves view (.resume writes)
        { view with
          conn := (view.conn.afterParse fresh rest (.complete process.current)).sent
            (buildResponse process.current) process.current.keepAlive writes
          frame := some .afterResponse }
  | dispatch {writes : List WriteResult} (process : HttpProcess) (rest : Buffer)
      (parsing : view.frame = some .parseLoop) (alive : view.conn.state ≠ .dead)
      (parsed : view.conn.httpProcess.parse view.conn.readBuffer =
        .ok (.kComplete, process, rest))
      (pooled : view.conn.useThreadPool = true) :
      Moves view (.resume writes)
        { view with
          conn :=
            { view.conn.afterParse fresh rest (.complete process.current) with
              working := view.conn.working + 1 }
          pool :=
            { self := view.conn.weakThis
              req := process.current
              ticket := (results view.conn.log).length } ::ₘ view.pool }
  | raise {writes : List WriteResult} (parsing : view.frame = some .parseLoop)
      (alive : view.conn.state ≠ .dead)
      (raised : ∀ result process rest,
        view.conn.httpProcess.parse view.conn.readBuffer = .ok (result, process, rest) →
        result = .kComplete ∧ view.conn.useThreadPool = true) :
      Moves view (.resume writes) view
  | afterResponse {writes : List WriteResult} (sent : view.frame = some .afterResponse) :
      Moves view (.resume writes)
        { view with conn := view.conn.checked, frame := some .parseLoop }
  | afterRejection {writes : List WriteResult} (sent : view.frame = some .afterRejection) :
      Moves view (.resume writes)
        { view with
          conn := Connection.checked { view.conn with httpProcess := fresh }
          frame := none }
  | afterBackPost {writes : List WriteResult} (sent : view.frame = some .afterBackPost) :
      Moves view (.resume writes) { view with conn := view.conn.checked, frame := none }
  | expire (ready : view.frame = none) (handled : view.pending = []) :
      Moves view .expire { view with conn := view.conn.died }
  | post (job : Job) (running : job ∈ view.pool) :
      Moves view (.post job)
        { view with pool := view.pool.erase job, tasks := view.tasks ++ [job.reply] }
  | skip {writes : List WriteResult} (reply : Reply) (tasks : List Reply)
      (ready : view.frame = none) (handled : view.pending = [])
      (next : view.tasks = reply :: tasks) (dead : view.conn.state = .dead) :
      Moves view (.respond writes)
        { view with
          conn := { view.conn with working := view.conn.working - 1 }
          tasks := tasks }
  | respond (writes : List WriteResult) (reply : Reply) (tasks : List Reply)
      (ready : view.frame = none) (handled : view.pending = [])
      (next : view.tasks = reply :: tasks) (alive : view.conn.state ≠ .dead) :
      Moves view (.respond writes)
        { view with
          conn := Connection.sent { view.conn with working := view.conn.working - 1 }
            reply.resp reply.keepAlive writes
          frame := some .afterBackPost
          tasks := tasks }
  | stop (ready : view.frame = none) (handled : view.pending = []) :
      Moves view .stop { view with conn := view.conn.stopped }

/-- A call of `sendHttpOnLoop`: the connection that it finds, its arguments,
what the kernel answers to the writes, and where it returns to. -/
structure Send where
  conn : Connection
  resp : List UInt8
  keepAlive : Bool
  writes : List WriteResult
  frame : Frame

/-- How the write of the call ends. -/
def Send.outcome (send : Send) : WriteOutcome :=
  writeOutcome (send.conn.writeBuffer.readable + send.resp.length) send.writes

/-- The call that a move makes. -/
def send? (view : View) : Share → Option Send
  | .resume writes =>
      if view.frame = some .parseLoop ∧ view.conn.state ≠ .dead then
        match view.conn.httpProcess.parse view.conn.readBuffer with
        | .ok (.kError, process, rest) =>
            some
              { conn := view.conn.afterParse process rest .error
                resp := build400
                keepAlive := false
                writes := writes
                frame := .afterRejection }
        | .ok (.kComplete, process, rest) =>
            if view.conn.useThreadPool then none
            else
              some
                { conn := view.conn.afterParse fresh rest (.complete process.current)
                  resp := buildResponse process.current
                  keepAlive := process.current.keepAlive
                  writes := writes
                  frame := .afterResponse }
        | _ => none
      else none
  | .respond writes =>
      match view.tasks with
      | [] => none
      | reply :: _ =>
          if view.conn.state = .dead then none
          else
            some
              { conn := { view.conn with working := view.conn.working - 1 }
                resp := reply.resp
                keepAlive := reply.keepAlive
                writes := writes
                frame := .afterBackPost }
  | _ => none

section Calls

variable {view : View} {writes : List WriteResult} {process : HttpProcess} {rest : Buffer}

theorem send?_reject (parsing : view.frame = some .parseLoop) (alive : view.conn.state ≠ .dead)
    (parsed : view.conn.httpProcess.parse view.conn.readBuffer = .ok (.kError, process, rest)) :
    view.send? (.resume writes) =
      some
        { conn := view.conn.afterParse process rest .error
          resp := build400
          keepAlive := false
          writes := writes
          frame := .afterRejection } := by
  simp [send?, parsing, alive, parsed]

theorem send?_answer (parsing : view.frame = some .parseLoop) (alive : view.conn.state ≠ .dead)
    (parsed : view.conn.httpProcess.parse view.conn.readBuffer = .ok (.kComplete, process, rest))
    (alone : view.conn.useThreadPool = false) :
    view.send? (.resume writes) =
      some
        { conn := view.conn.afterParse fresh rest (.complete process.current)
          resp := buildResponse process.current
          keepAlive := process.current.keepAlive
          writes := writes
          frame := .afterResponse } := by
  simp [send?, parsing, alive, parsed, alone]

theorem send?_respond {reply : Reply} {tasks : List Reply} (next : view.tasks = reply :: tasks)
    (alive : view.conn.state ≠ .dead) :
    view.send? (.respond writes) =
      some
        { conn := { view.conn with working := view.conn.working - 1 }
          resp := reply.resp
          keepAlive := reply.keepAlive
          writes := writes
          frame := .afterBackPost } := by
  simp [send?, next, alive]

end Calls

end View

end MiniWebServer
