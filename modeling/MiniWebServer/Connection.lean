import MiniWebServer.EventLoop
import MiniWebServer.HttpProcess.Stream

/-!
# Connections

The member functions of `Connection`. They run on the thread of their event
loop and act on the connection and on that loop (`Scope`); what the kernel
answers to their reads and writes is given as lists of results. A list that has
come to its end stands for `EAGAIN`.

The parse loop of `onHttp` hands requests to other threads while it runs. It is
therefore given as a step per iteration: `Frame` says where in the code of a
connection the loop thread is, and `Next` where it goes.

Each connection carries the history of what was done on it. No function reads
it; the theorems speak about it.
-/

namespace MiniWebServer

open HttpProcess

inductive ConnState where
  | connected
  | peerClose
  | dead
deriving DecidableEq, Repr

/-- The values of `errno` that the program tells apart. -/
inductive Errno where
  | eagain
  | eintr
  | other
deriving DecidableEq, Repr

/-- What a `readv` returned; no bytes mean end of file. -/
inductive ReadResult where
  | delivered (bytes : List UInt8)
  | failed (errno : Errno)
deriving DecidableEq

/-- What a `write` of at least one byte returned. A count beyond the offered
bytes stands for all of them. -/
inductive WriteResult where
  | accepted (count : ℕ) (positive : 0 < count)
  | failed (errno : Errno)
deriving DecidableEq

/-- What was done on a connection. -/
inductive Event where
  | received (bytes : List UInt8)
  | eof
  | parsed (result : Parsed)
  | appended (resp : List UInt8)
  | accepted (bytes : List UInt8)
  | epollAdd
  | addTimer
  | handleDead
  | enqueueRemoval
deriving DecidableEq

namespace Event

@[simp]
def receivedBytes : Event → List UInt8
  | received bytes => bytes
  | _ => []

@[simp]
def result? : Event → Option Parsed
  | parsed result => some result
  | _ => none

@[simp]
def response? : Event → Option (List UInt8)
  | appended resp => some resp
  | _ => none

@[simp]
def acceptedBytes : Event → List UInt8
  | accepted bytes => bytes
  | _ => []

end Event

/-- The bytes read from the socket. -/
def received (log : List Event) : List UInt8 :=
  log.flatMap Event.receivedBytes

/-- The results of the parser. -/
def results (log : List Event) : List Parsed :=
  log.filterMap Event.result?

/-- The responses appended to the write buffer. -/
def responses (log : List Event) : List (List UInt8) :=
  log.filterMap Event.response?

/-- The bytes that the socket accepted. -/
def accepted (log : List Event) : List UInt8 :=
  log.flatMap Event.acceptedBytes

section

variable (event : Event) (log more : List Event)

@[simp]
theorem received_nil : received [] = [] :=
  rfl

@[simp]
theorem received_cons : received (event :: log) = event.receivedBytes ++ received log :=
  rfl

@[simp]
theorem received_append : received (log ++ more) = received log ++ received more := by
  simp [received]

@[simp]
theorem results_nil : results [] = [] :=
  rfl

@[simp]
theorem results_cons : results (event :: log) = event.result?.toList ++ results log := by
  cases event <;> rfl

@[simp]
theorem results_append : results (log ++ more) = results log ++ results more := by
  simp [results]

@[simp]
theorem responses_nil : responses [] = [] :=
  rfl

@[simp]
theorem responses_cons : responses (event :: log) = event.response?.toList ++ responses log := by
  cases event <;> rfl

@[simp]
theorem responses_append : responses (log ++ more) = responses log ++ responses more := by
  simp [responses]

@[simp]
theorem accepted_nil : accepted [] = [] :=
  rfl

@[simp]
theorem accepted_cons : accepted (event :: log) = event.acceptedBytes ++ accepted log :=
  rfl

@[simp]
theorem accepted_append : accepted (log ++ more) = accepted log ++ accepted more := by
  simp [accepted]

end

structure Connection where
  /-- What `shared_from_this` returns. -/
  weakThis : ConnId
  useThreadPool : Bool
  sck : SocketId
  /-- Whether `process` has a target. -/
  process : Bool
  /-- The connection that the target of `addTimerCallBack` captures. -/
  addTimerCallBack : ConnId
  channel : Channel := {}
  readBuffer : Buffer := .init
  writeBuffer : Buffer := .init
  httpProcess : HttpProcess := fresh
  state : ConnState := .connected
  working : ℤ := 0
  timerId : ℤ := -1
  log : List Event := []

/-- Where the loop thread is in the code of a connection. -/
inductive Frame where
  /-- Before an iteration of the loop of `onHttp`. -/
  | parseLoop
  /-- After `sendHttpOnLoop` for a complete request, in that loop. -/
  | afterResponse
  /-- After `sendHttpOnLoop` for an illegal request, in that loop. -/
  | afterRejection
  /-- After `sendHttpOnLoop` in a back-posted task. -/
  | afterBackPost
deriving DecidableEq, Repr

namespace Connection

/-- Add to the history. -/
def record (conn : Connection) (event : Event) : Connection :=
  { conn with log := conn.log ++ [event] }

/-- Change the channel by a function that ends in `updateChannel`. -/
def update (conn : Connection) (change : Channel → Channel) : Connection :=
  { conn with
    channel := change conn.channel
    log := if conn.channel.inEpoll then conn.log else conn.log ++ [.epollAdd] }

/-- `readBuffer->sckToBuffer` for a `readv` that delivered bytes. -/
def sckToBuffer (conn : Connection) (bytes : List UInt8) : Connection :=
  { conn with
    readBuffer := conn.readBuffer.sckToBuffer bytes
    log := conn.log ++ [.received bytes] }

/-- `writeBuffer->bufferToSck` for a `write` of all readable bytes that took `count`. -/
def bufferToSck (conn : Connection) (count : ℕ) : Connection :=
  { conn with
    writeBuffer := conn.writeBuffer.bufferToSck conn.writeBuffer.readable le_rfl count
    log := conn.log ++ [.accepted (conn.writeBuffer.peek.take count)] }

/-- `writeBuffer->dataIn`. -/
def dataIn (conn : Connection) (resp : List UInt8) : Connection :=
  { conn with
    writeBuffer := conn.writeBuffer.dataIn resp
    log := conn.log ++ [.appended resp] }

/-- The end of a parse: the parser and the unread bytes it leaves, and its result. -/
def afterParse (conn : Connection) (process : HttpProcess) (rest : Buffer)
    (result : Parsed) : Connection :=
  { conn with
    httpProcess := process
    readBuffer := rest
    log := conn.log ++ [.parsed result] }

/-- Nothing is left to do for a peer that has closed. -/
def Finished (conn : Connection) : Prop :=
  conn.state = .peerClose ∧ conn.working = 0

instance (conn : Connection) : Decidable conn.Finished :=
  inferInstanceAs (Decidable (_ ∧ _))

/-- A connection and the event loop that its member functions run on. -/
structure Scope where
  conn : Connection
  eloop : EventLoop

namespace Scope

/-- Act on the connection alone. -/
def modify (scope : Scope) (change : Connection → Connection) : Scope :=
  { scope with conn := change scope.conn }

/-- `addTimerCallBack`. -/
def addTimerCallBack (scope : Scope) (now : Timespec) : Scope :=
  let (id, eloop) := scope.eloop.addTimer now scope.conn.addTimerCallBack
  { conn := { scope.conn with timerId := id, log := scope.conn.log ++ [.addTimer] }
    eloop := eloop }

/-- `deleteTimerCallBack(timerId)`. -/
def deleteTimerCallBack (scope : Scope) : Scope :=
  { scope with eloop := scope.eloop.deleteTimer scope.conn.timerId }

/-- `Connection::startConnect`. -/
def startConnect (scope : Scope) (now : Timespec) : Scope :=
  (scope.modify (update · .enableReading)).addTimerCallBack now

/-- `Connection::handleDead`. -/
def handleDead (scope : Scope) : Scope :=
  if scope.conn.state = .dead then scope
  else
    let removed := scope.modify fun conn =>
      { conn with
        state := .dead
        channel := conn.channel.remove
        log := conn.log ++ [.handleDead, .enqueueRemoval] }
    { conn := removed.conn
      eloop := removed.deleteTimerCallBack.eloop.enqueueTask (.removeConnection scope.conn.weakThis) }

/-- `Connection::stop`. -/
def stop (scope : Scope) : Scope :=
  if scope.conn.state = .dead then scope
  else
    (scope.modify fun conn =>
      { conn with state := .dead, channel := conn.channel.remove }).deleteTimerCallBack

/-- `Connection::readFromSck`. -/
def readFromSck (scope : Scope) : List ReadResult → Scope
  | [] => scope
  | .failed .eintr :: reads => scope.readFromSck reads
  | .failed .eagain :: _ => scope
  | .failed .other :: _ => scope.handleDead
  | .delivered bytes :: reads =>
      if bytes = [] then
        scope.modify fun conn => { conn with state := .peerClose, log := conn.log ++ [.eof] }
      else (scope.modify (sckToBuffer · bytes)).readFromSck reads

/-- `Connection::refreshTimer`. -/
def refreshTimer (scope : Scope) (now : Timespec) : Scope :=
  scope.deleteTimerCallBack.addTimerCallBack now

/-- `Connection::checkEmptyReadAfterEof`. -/
def checkEmptyReadAfterEof (scope : Scope) : Scope :=
  if scope.conn.Finished ∧ scope.conn.writeBuffer.readable = 0 then scope.handleDead else scope

/-- What both write loops do once the write buffer is empty. -/
def drained (scope : Scope) : Scope :=
  let scope := scope.modify (update · .disableWriting)
  if scope.conn.Finished then scope.handleDead else scope

/-- `Connection::trySendToSck`. -/
def trySendToSck (scope : Scope) (writes : List WriteResult) : Scope :=
  if scope.conn.writeBuffer.readable = 0 then scope
  else
    match writes with
    | [] => scope.modify (update · .enableWriting)
    | .failed .eagain :: _ => scope.modify (update · .enableWriting)
    | .failed .eintr :: rest => scope.trySendToSck rest
    | .failed .other :: _ => scope.handleDead
    | .accepted count _ :: _ =>
        let scope := scope.modify (bufferToSck · count)
        if scope.conn.writeBuffer.readable = 0 then scope.drained
        else scope.modify (update · .enableWriting)

/-- `Connection::sendHttpOnLoop`. -/
def sendHttpOnLoop (scope : Scope) (resp : List UInt8) (keepAlive : Bool)
    (writes : List WriteResult) : Scope :=
  let scope := (scope.modify (dataIn · resp)).trySendToSck writes
  if keepAlive then scope
  else
    scope.modify fun conn => { conn.update .disableReading with state := .peerClose }

/-- The loop of `Connection::handleWriteCallBack`. -/
def writeLoop (scope : Scope) (writes : List WriteResult) : Scope :=
  if scope.conn.writeBuffer.readable = 0 then scope
  else
    match writes with
    | [] => scope
    | .failed .eagain :: _ => scope
    | .failed .eintr :: rest => scope.writeLoop rest
    | .failed .other :: _ => scope.handleDead
    | .accepted count _ :: rest =>
        let scope := scope.modify (bufferToSck · count)
        if scope.conn.writeBuffer.readable = 0 then scope.drained else scope.writeLoop rest

/-- `Connection::handleWriteCallBack`. -/
def handleWriteCallBack (scope : Scope) (now : Timespec) (writes : List WriteResult) : Scope :=
  if scope.conn.state = .dead then scope
  else
    let scope := scope.refreshTimer now
    if scope.conn.writeBuffer.readable = 0 then scope.modify (update · .disableWriting)
    else scope.writeLoop writes

/-- `Connection::onHttp` up to its loop. -/
def onHttp (scope : Scope) (reads : List ReadResult) : Scope × Option Frame :=
  let scope := scope.readFromSck reads
  if scope.conn.readBuffer.readable = 0 then (scope.checkEmptyReadAfterEof, none)
  else (scope, some .parseLoop)

/-- `Connection::handleReadCallBack` up to the loop of `onHttp`. -/
def handleReadCallBack (scope : Scope) (now : Timespec) (reads : List ReadResult) :
    Scope × Option Frame :=
  (scope.refreshTimer now).onHttp reads

/-- Where a step in the code of a connection ends. -/
inductive Next where
  /-- In another place of the code; `none` is the return to the event loop. -/
  | go (scope : Scope) (frame : Option Frame)
  /-- Before the next iteration, with a job handed to `process`. -/
  | dispatch (scope : Scope) (job : Job)
  /-- In an exception that nothing catches. -/
  | raise (exception : CppException)

/-- The part of an iteration of `onHttp` that treats a complete request. -/
def onComplete (scope : Scope) (req : HttpRequest) (ticket : ℕ) (writes : List WriteResult) :
    Next :=
  if scope.conn.useThreadPool then
    let scope := scope.modify fun conn => { conn with working := conn.working + 1 }
    if scope.conn.process then .dispatch scope { self := scope.conn.weakThis, req, ticket }
    else .raise .badFunctionCall
  else if scope.conn.state = .dead then .go scope none
  else .go (scope.sendHttpOnLoop (buildResponse req) req.keepAlive writes) (some .afterResponse)

/-- An iteration of the loop of `Connection::onHttp`. -/
def parseLoop (scope : Scope) (writes : List WriteResult) : Next :=
  if scope.conn.state = .dead then .go scope none
  else
    match scope.conn.httpProcess.parse scope.conn.readBuffer with
    | .error exception => .raise exception
    | .ok (.kNeedMore, process, rest) =>
        .go (scope.modify fun conn => { conn with httpProcess := process, readBuffer := rest }) none
    | .ok (.kLineTooLong, process, rest) =>
        .go ((scope.modify fun conn =>
          { (conn.afterParse process rest .lineTooLong).update .disableReading with
            state := .peerClose }).checkEmptyReadAfterEof) none
    | .ok (.kError, process, rest) =>
        .go ((scope.modify (afterParse · process rest .error)).sendHttpOnLoop
          build400 false writes) (some .afterRejection)
    | .ok (.kComplete, process, rest) =>
        let (req, process) := process.releaseRequest
        (scope.modify (afterParse · process rest (.complete req))).onComplete req
          (results scope.conn.log).length writes

/-- The next step of the loop thread in the code of a connection. -/
def resume (scope : Scope) (writes : List WriteResult) : Frame → Next
  | .parseLoop => scope.parseLoop writes
  | .afterResponse => .go scope.checkEmptyReadAfterEof (some .parseLoop)
  | .afterRejection =>
      .go (scope.modify fun conn =>
        { conn with httpProcess := conn.httpProcess.reset }).checkEmptyReadAfterEof none
  | .afterBackPost => .go scope.checkEmptyReadAfterEof none

/-- The back-posted task of `onHttp` up to its `checkEmptyReadAfterEof`. -/
def respond (scope : Scope) (reply : Reply) (writes : List WriteResult) :
    Scope × Option Frame :=
  let scope := scope.modify fun conn => { conn with working := conn.working - 1 }
  if scope.conn.state = .dead then (scope, none)
  else (scope.sendHttpOnLoop reply.resp reply.keepAlive writes, some .afterBackPost)

end Scope

end Connection

end MiniWebServer
