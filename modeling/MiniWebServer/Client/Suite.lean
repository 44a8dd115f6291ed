import MiniWebServer.Client.ConnectionClose
import MiniWebServer.SubReactor.Modes

/-!
# The acceptance suite against the server

The other test cases of the client, its rounds and its exit status. A test sees
the server through one connection: it writes a request, and what the server has
sent for it arrives in chunks, before the next request is written. The two sides
are put together here. A round against connections of reactors, in either mode,
passes whatever the network and the workers do.
-/

namespace MiniWebServer

open Connection HttpProcess Search

namespace Client

/-- What a connection of the client meets: the results of the writes of each of its
requests, and the events on its socket. -/
structure Fd where
  writes : List (List WriteResult)
  socket : List SocketEvent

/-- `writeAll` on a connection. -/
def Fd.writeAll (fd : Fd) (data : List UInt8) : Bool × Fd :=
  (Client.writeAll data (fd.writes.headD []), { fd with writes := fd.writes.tail })

/-- `readHttpResponse` on a connection. -/
def Fd.readHttpResponse (fd : Fd) : Except StoulException (Bool × List UInt8 × Fd) := do
  let (done, out, socket) ← Client.readHttpResponse fd.socket
  return (done, out, { fd with socket := socket })

def buildPostRequest : List UInt8 :=
  ascii "POST / HTTP/1.1\r\nHost: localhost\r\nContent-Length: 0\r\n\r\n"

def expectBodyContains (resp body : List UInt8) : Bool :=
  find body resp ≠ none

/-- `keepAliveGetOnFd`, which leaves `resp` as it was when the write fails. -/
def keepAliveGetOnFd (fd : Fd) (path : String) (resp : List UInt8) :
    Except StoulException (Bool × List UInt8 × Fd) :=
  match fd.writeAll (buildGetRequest (ascii path) false) with
  | (false, fd) => .ok (false, resp, fd)
  | (true, fd) => fd.readHttpResponse

/-- The checks of `testSingleGet` and `testKeepAliveOneGet` on a response. -/
def checkHello (r : TestCaseResult) (resp : List UInt8) : TestCaseResult :=
  if ¬expectStatus resp (ascii "HTTP/1.1 200") then failCase r "期望状态行 HTTP/1.1 200" resp
  else if ¬expectBodyContains resp (ascii "Hello, World") then
    failCase r "期望 body 含 Hello, World" resp
  else r

def testSingleGet (fd : Fd) : Except StoulException TestCaseResult :=
  let r : TestCaseResult := { name := "test1 单次 GET / → 200 + body 含 Hello, World!" }
  match fd.writeAll (buildGetRequest (ascii "/") false) with
  | (false, _) => .ok (failCase r "写入请求失败" [])
  | (true, fd) => do
      let (done, resp, _) ← fd.readHttpResponse
      if ¬done then return failCase r "读取响应失败（超时或连接异常）" []
      else return checkHello r resp

def testKeepAliveOneGet (fd : Fd) (path : String) : Except StoulException (TestCaseResult × Fd) := do
  let r : TestCaseResult :=
    { name := "test2 同连接 GET " ++ path ++ " → 200 + body 含 Hello, World!" }
  let (done, resp, fd) ← keepAliveGetOnFd fd path []
  if ¬done then return (failCase r "读取响应失败（超时或连接异常）" [], fd)
  else return (checkHello r resp, fd)

def testKeepAliveTwoGets (fd : Fd) : Except StoulException (List TestCaseResult) := do
  let (first, fd) ← testKeepAliveOneGet fd "/a"
  let (second, _) ← testKeepAliveOneGet fd "/b"
  return [first, second]

def testPost400 (fd : Fd) : Except StoulException TestCaseResult :=
  let r : TestCaseResult := { name := "test4 POST / → 400 Bad Request" }
  match fd.writeAll buildPostRequest with
  | (false, _) => .ok (failCase r "写入请求失败" [])
  | (true, fd) => do
      let (done, resp, _) ← fd.readHttpResponse
      if ¬done then return failCase r "读取响应失败（超时或连接异常）" []
      else if ¬expectStatus resp (ascii "HTTP/1.1 400") then
        return failCase r "期望状态行 HTTP/1.1 400" resp
      else return r

/-- The requests of `testIdleTimeout` before it waits: the connection after them, or
the result of a test that has failed. -/
def firstRound (r : TestCaseResult) (fd : Fd) :
    List String → Except StoulException (TestCaseResult ⊕ Fd)
  | [] => .ok (.inr fd)
  | path :: paths => do
      let (t, fd) ← testKeepAliveOneGet fd path
      if t.passed then firstRound r fd paths
      else return .inl (failCase r ("第一轮失败: " ++ t.reason) t.response)

/-- `testIdleTimeout` on its two connections. -/
def testIdleTimeout (fd fd2 : Fd) : Except StoulException TestCaseResult := do
  let r : TestCaseResult := { name := "idle-timeout：同连接 idle 65s 后应需重连" }
  match ← firstRound r fd ["/", "/a", "/b"] with
  | .inl failed => return failed
  | .inr fd =>
      let (stillAlive, resp, _) ← keepAliveGetOnFd fd "/idle-check" []
      if stillAlive then
        return failCase r "静置后同连接仍可 GET 200，idle 未关闭连接（未触发重连）" resp
      else
        let (done, resp, _) ← keepAliveGetOnFd fd2 "/" resp
        if ¬done ∨ ¬expectStatus resp (ascii "HTTP/1.1 200") then
          return failCase r "重连后 GET / 失败，服务端可能异常" resp
        else return r

/-- The connections of `runAll`, in the order in which it makes them. -/
structure Round where
  single : Fd
  keepAlive : Fd
  close : Fd
  post : Fd

def runAll (round : Round) : Except StoulException (List TestCaseResult) := do
  let single ← testSingleGet round.single
  let ka ← testKeepAliveTwoGets round.keepAlive
  let close ← testConnectionClose (round.close.writes.headD []) round.close.socket
  let post ← testPost400 round.post
  return [single] ++ ka ++ [close, post]

/-- The rounds of `main` and its exit status. -/
def runRounds (rounds : List Round) : Except StoulException ℕ := do
  let totalFailed ← rounds.foldlM (fun totalFailed round => do
    let results ← runAll round
    return totalFailed + results.countP fun t => !t.passed) 0
  return if totalFailed = 0 then 0 else 1

/-- `main` with the option `-t`, and its exit status. -/
def runIdle (fd fd2 : Fd) : Except StoulException ℕ := do
  let r ← testIdleTimeout fd fd2
  return if r.passed then 0 else 1

/-- A request is written, and its response arrives in some chunks. -/
structure Meets (request response : List UInt8) (fd rest : Fd) : Prop where
  writes : ∃ writes, fd.writes = writes :: rest.writes ∧ writeAll request writes = true
  socket : ∃ chunks : List Chunk, bytesOf chunks = response ∧
    fd.socket = chunks.map .delivered ++ rest.socket

variable {fd rest : Fd} {request response : List UInt8}

theorem Meets.writeAll (meets : Meets request response fd rest) :
    fd.writeAll request = (true, { fd with writes := rest.writes }) := by
  rcases meets.writes with ⟨writes, same, written⟩
  simp [Fd.writeAll, same, written]

theorem Meets.readHttpResponse (meets : Meets request response fd rest)
    (framed : ∃ message : Message, message.bytes = response) :
    Fd.readHttpResponse { fd with writes := rest.writes } = .ok (true, response, rest) := by
  rcases meets.socket with ⟨chunks, pieces, same⟩
  rcases framed with ⟨message, bytesEq⟩
  have read := readHttpResponse_message (pieces.trans bytesEq.symm) rest.socket
  rw [← same, bytesEq] at read
  simp only [Fd.readHttpResponse, read]
  rfl

/-- A response of the server to a request that it accepts passes the checks. -/
theorem checkHello_buildResponse (r : TestCaseResult) (req : HttpRequest) :
    checkHello r (buildResponse req) = r := by
  have always : ∀ keepAlive : Bool,
      expectStatus (buildResponse { keepAlive := keepAlive }) (ascii "HTTP/1.1 200") = true ∧
        expectBodyContains (buildResponse { keepAlive := keepAlive }) (ascii "Hello, World") =
          true := by
    decide +kernel
  have same : buildResponse req = buildResponse { keepAlive := req.keepAlive } := rfl
  rcases always req.keepAlive with ⟨status, body⟩
  simp [checkHello, same, status, body]

variable {req : HttpRequest}

theorem keepAliveGetOnFd_of_meets {path : String}
    (meets : Meets (buildGetRequest (ascii path) false) (buildResponse req) fd rest)
    (resp : List UInt8) :
    keepAliveGetOnFd fd path resp = .ok (true, buildResponse req, rest) := by
  simp only [keepAliveGetOnFd, meets.writeAll]
  exact meets.readHttpResponse (exists_message_buildResponse req)

theorem testKeepAliveOneGet_of_meets {path : String}
    (meets : Meets (buildGetRequest (ascii path) false) (buildResponse req) fd rest) :
    ∃ r, testKeepAliveOneGet fd path = .ok (r, rest) ∧ r.passed = true := by
  refine ⟨{ name := "test2 同连接 GET " ++ path ++ " → 200 + body 含 Hello, World!" }, ?_, rfl⟩
  simp only [testKeepAliveOneGet, keepAliveGetOnFd_of_meets meets]
  simp [checkHello_buildResponse, bind, Except.bind, pure, Except.pure]

theorem testSingleGet_of_meets
    (meets : Meets (buildGetRequest (ascii "/") false) (buildResponse req) fd rest) :
    ∃ r, testSingleGet fd = .ok r ∧ r.passed = true := by
  refine ⟨{ name := "test1 单次 GET / → 200 + body 含 Hello, World!" }, ?_, rfl⟩
  simp only [testSingleGet, meets.writeAll,
    meets.readHttpResponse (exists_message_buildResponse req)]
  simp [checkHello_buildResponse, bind, Except.bind, pure, Except.pure]

theorem testPost400_of_meets (meets : Meets buildPostRequest build400 fd rest) :
    ∃ r, testPost400 fd = .ok r ∧ r.passed = true := by
  have status : expectStatus build400 (ascii "HTTP/1.1 400") = true := by
    decide +kernel
  refine ⟨{ name := "test4 POST / → 400 Bad Request" }, ?_, rfl⟩
  simp only [testPost400, meets.writeAll, meets.readHttpResponse exists_message_build400]
  simp [status, bind, Except.bind, pure, Except.pure]

theorem testConnectionClose_of_meets
    (meets : Meets (buildGetRequest (ascii "/") true) (buildResponse req) fd rest)
    (closes : req.keepAlive = false)
    (ends : nextEvent rest.socket = .eof ∨ nextEvent rest.socket = .silence) :
    ∃ r, testConnectionClose (fd.writes.headD []) fd.socket = .ok r ∧ r.passed = true := by
  rcases meets.writes with ⟨writes, same, written⟩
  rcases meets.socket with ⟨chunks, pieces, socketEq⟩
  rcases exists_message_buildResponse req with ⟨message, bytesEq⟩
  have checks : expectStatus (buildResponse { keepAlive := false }) (ascii "HTTP/1.1 200") = true ∧
      ascii "Connection: close" <:+: buildResponse { keepAlive := false } := by
    decide +kernel
  have respEq : buildResponse req = buildResponse { keepAlive := false } :=
    buildResponse_eq_of_keepAlive _ _ closes
  rw [← respEq] at checks
  refine passed_iff.mpr ⟨buildResponse req, rest.socket, ⟨?_, ?_, checks.1, checks.2⟩, ends⟩
  · rw [same]
    exact written
  · rw [socketEq, ← bytesEq]
    exact readHttpResponse_message (pieces.trans bytesEq.symm) rest.socket

/-- A connection on which nothing comes is not alive. -/
theorem keepAliveGetOnFd_of_nothing {path : String} {resp : List UInt8}
    (nothing : nextEvent fd.socket = .eof ∨ nextEvent fd.socket = .silence) :
    ∃ out rest, keepAliveGetOnFd fd path resp = .ok (false, out, rest) := by
  have nothingRead : ∃ rest, readHttpResponse fd.socket = .ok (false, [], rest) := by
    have zero := (count_readWithTimeout_eq_zero_iff (by decide : 0 < 4096)).mpr nothing
    have notYet : find (crlf ++ crlf) ([] : List UInt8) = none := rfl
    refine ⟨(readWithTimeout 4096 fd.socket).2, ?_⟩
    rw [readHttpResponse, readHead]
    simp [notYet, zero]
  rcases nothingRead with ⟨rest, read⟩
  have sameSocket : (fd.writeAll (buildGetRequest (ascii path) false)).2.socket = fd.socket := rfl
  unfold keepAliveGetOnFd
  cases written : fd.writeAll (buildGetRequest (ascii path) false) with
  | mk done left =>
      rw [written] at sameSocket
      have same : left.socket = fd.socket := sameSocket
      cases done with
      | false => exact ⟨resp, left, rfl⟩
      | true =>
          refine ⟨[], { left with socket := rest }, ?_⟩
          simp only [Fd.readHttpResponse, same, read]
          rfl

/-- In an undisturbed run of a reactor, in either mode, a connection has received the
stream and is back at the event loop; no worker owes it a response, and the
socket has taken everything. -/
def AtRest (stream bytes : List UInt8) : Prop :=
  ∃ (c : ConnId) (mode : Bool) (workers : ℕ) (s : SubReactor) (view : View),
    SubReactor.ReachableWith (View.KeepsSending stream) c mode workers s ∧
      s.view c = some view ∧ view.frame = none ∧ received view.conn.log = stream ∧
      view.conn.working = 0 ∧ view.conn.writeBuffer.readable = 0 ∧ accepted view.conn.log = bytes

theorem AtRest.bytes_eq {stream bytes : List UInt8} (modest : Modest stream)
    (atRest : AtRest stream bytes) : bytes = oneShot stream := by
  rcases atRest with ⟨c, mode, workers, s, view, reaches, shown, returned, heard, idle, empty, sent⟩
  have all := SubReactor.sent_eq_oneShot_of_idle modest reaches shown returned idle
  rwa [(Buffer.peek_eq_nil_iff _).mpr empty, List.append_nil, sent, heard] at all

/-- Requests are written one after the other, and what the server has sent for each
of them arrives before the next one is written. -/
inductive Served : List UInt8 → List UInt8 → List (List UInt8) → Fd → Fd → Prop where
  | nil {stream sent : List UInt8} {fd : Fd} : Served stream sent [] fd fd
  | cons {stream sent request response : List UInt8} {requests : List (List UInt8)}
      {fd mid rest : Fd} (meets : Meets request response fd mid)
      (atRest : AtRest (stream ++ request) (sent ++ response))
      (later : Served (stream ++ request) (sent ++ response) requests mid rest) :
      Served stream sent (request :: requests) fd rest

/-- A request alone gets what the plain server answers to it. -/
theorem Served.single {request : List UInt8} (served : Served [] [] [request] fd rest)
    (modest : Modest request) : Meets request (oneShot request) fd rest := by
  cases served with
  | cons meets atRest later =>
      cases later
      rwa [← atRest.bytes_eq modest]

/-- The requests of the client on a connection that it keeps. -/
def getRequests (paths : List String) : List (List UInt8) :=
  paths.map fun path => buildGetRequest (ascii path) false

/-- As many answers of the server. -/
def hellos (count : ℕ) : List (List UInt8) :=
  List.replicate count (buildResponse {})

theorem consume_getRequests {paths : List String}
    (arePaths : ∀ path ∈ paths, IsGetPath (ascii path)) :
    (consume fresh (getRequests paths).flatten).1 =
      paths.map fun path => .complete (getRequest (ascii path) false) := by
  let messages := paths.map fun path =>
    (buildGetRequest (ascii path) false, getRequest (ascii path) false)
  have alone : ∀ message ∈ messages, ParsedAlone message.1 message.2 := by
    intro message member
    rcases List.mem_map.mp member with ⟨path, isPath, rfl⟩
    exact parsedAlone_buildGetRequest false (arePaths path isPath)
  have stream : (getRequests paths).flatten = (messages.map Prod.fst).flatten ++ [] := by
    rw [List.append_nil, List.map_map]
    rfl
  rw [stream, consume_messages_append alone, consume_nil, List.append_nil, List.map_map]
  rfl

theorem modest_getRequests {paths : List String}
    (arePaths : ∀ path ∈ paths, IsGetPath (ascii path)) : Modest (getRequests paths).flatten := by
  refine .inl fun parsed member => ?_
  rw [feed_singleton_eq_consume, consume_getRequests arePaths, List.mem_map] at member
  rcases member with ⟨path, _, rfl⟩
  exact ⟨_, rfl, rfl⟩

theorem oneShot_getRequests {paths : List String}
    (arePaths : ∀ path ∈ paths, IsGetPath (ascii path)) :
    oneShot (getRequests paths).flatten = (hellos paths.length).flatten := by
  rw [oneShot, feed_singleton_eq_consume, consume_getRequests arePaths, List.flatMap_map]
  have each : ∀ path ∈ paths,
      answers (.complete (getRequest (ascii path) false)) = [buildResponse {}] :=
    fun path _ => rfl
  rw [List.flatMap_congr each, ← List.map_eq_flatMap, List.map_const', hellos]

/-- The next request on a connection that is kept gets its answer. -/
theorem Served.get {earlier : List String} {path : String} {requests : List (List UInt8)}
    (arePaths : ∀ other ∈ earlier ++ [path], IsGetPath (ascii other))
    (served : Served (getRequests earlier).flatten (hellos earlier.length).flatten
      (buildGetRequest (ascii path) false :: requests) fd rest) :
    ∃ mid, Meets (buildGetRequest (ascii path) false) (buildResponse {}) fd mid ∧
      Served (getRequests (earlier ++ [path])).flatten
        (hellos (earlier ++ [path]).length).flatten requests mid rest := by
  have streamEq : (getRequests (earlier ++ [path])).flatten =
      (getRequests earlier).flatten ++ buildGetRequest (ascii path) false := by
    simp [getRequests]
  have sentEq : (hellos (earlier ++ [path]).length).flatten =
      (hellos earlier.length).flatten ++ buildResponse {} := by
    simp [hellos, List.replicate_succ']
  cases served with
  | @cons _ _ _ response _ _ mid _ meets atRest later =>
      rw [← streamEq] at atRest later
      have bytes := atRest.bytes_eq (modest_getRequests arePaths)
      rw [oneShot_getRequests arePaths, sentEq] at bytes
      have same : response = buildResponse {} := List.append_cancel_left bytes
      subst same
      exact ⟨mid, meets, sentEq ▸ later⟩

theorem firstRound_of_served (r : TestCaseResult) {earlier paths : List String}
    (arePaths : ∀ path ∈ earlier ++ paths, IsGetPath (ascii path))
    (served : Served (getRequests earlier).flatten (hellos earlier.length).flatten
      (getRequests paths) fd rest) : firstRound r fd paths = .ok (.inr rest) := by
  induction paths generalizing earlier fd with
  | nil =>
      cases served
      rfl
  | cons path paths ih =>
      have first : ∀ other ∈ earlier ++ [path], IsGetPath (ascii other) :=
        fun other member => arePaths other (by simp at member ⊢; tauto)
      rcases served.get first with ⟨mid, meets, later⟩
      rcases testKeepAliveOneGet_of_meets meets with ⟨t, tested, passed⟩
      have next := ih (by simpa using arePaths) later
      simp only [firstRound, tested]
      simp only [bind, Except.bind, passed, if_true]
      exact next

theorem isGetPath_of_mem {path : String} (member : path ∈ ["/", "/a", "/b"]) :
    IsGetPath (ascii path) := by
  simp only [List.mem_cons, List.not_mem_nil, or_false] at member
  rcases member with rfl | rfl | rfl <;>
    exact ⟨by decide, by decide, Delimited.cut_eq_none_iff.mp (by decide), by decide⟩

theorem testKeepAliveTwoGets_of_served
    (served : Served [] [] (getRequests ["/a", "/b"]) fd rest) :
    ∃ first second, testKeepAliveTwoGets fd = .ok [first, second] ∧ first.passed = true ∧
      second.passed = true := by
  have start : Served (getRequests []).flatten (hellos ([] : List String).length).flatten
      (buildGetRequest (ascii "/a") false :: getRequests ["/b"]) fd rest := served
  have arePaths : ∀ path ∈ ["/a", "/b"], IsGetPath (ascii path) :=
    fun path member => isGetPath_of_mem (List.mem_cons_of_mem _ member)
  rcases start.get fun path member => arePaths path (List.mem_of_mem_take (i := 1) member) with
    ⟨mid, meetsFirst, later⟩
  rcases later.get arePaths with ⟨last, meetsSecond, _⟩
  rcases testKeepAliveOneGet_of_meets meetsFirst with ⟨first, testedFirst, passedFirst⟩
  rcases testKeepAliveOneGet_of_meets meetsSecond with ⟨second, testedSecond, passedSecond⟩
  refine ⟨first, second, ?_, passedFirst, passedSecond⟩
  simp [testKeepAliveTwoGets, testedFirst, testedSecond, bind, Except.bind, pure, Except.pure]

/-- The connections of a round are served, and nothing comes behind a closing response. -/
structure Round.Served (round : Round) : Prop where
  single : ∃ rest, Client.Served [] [] (getRequests ["/"]) round.single rest
  keepAlive : ∃ rest, Client.Served [] [] (getRequests ["/a", "/b"]) round.keepAlive rest
  close : ∃ rest, Client.Served [] [] [buildGetRequest (ascii "/") true] round.close rest ∧
    (nextEvent rest.socket = .eof ∨ nextEvent rest.socket = .silence)
  post : ∃ rest, Client.Served [] [] [buildPostRequest] round.post rest

/-- What the plain server answers to the requests that are alone on their connections. -/
theorem answered_alone :
    (feed [buildGetRequest (ascii "/") false]).1.length ≤ 1 ∧
      oneShot (buildGetRequest (ascii "/") false) = buildResponse {} ∧
      (feed [buildGetRequest (ascii "/") true]).1.length ≤ 1 ∧
      oneShot (buildGetRequest (ascii "/") true) = buildResponse { keepAlive := false } ∧
      (feed [buildPostRequest]).1.length ≤ 1 ∧ oneShot buildPostRequest = build400 := by
  decide +kernel

theorem runAll_of_served {round : Round} (served : round.Served) :
    ∃ results, runAll round = .ok results ∧ ∀ r ∈ results, r.passed = true := by
  rcases answered_alone with ⟨getAlone, get, closeAlone, close, postAlone, post⟩
  rcases served.single with ⟨_, servedSingle⟩
  rcases served.keepAlive with ⟨_, servedTwo⟩
  rcases served.close with ⟨_, servedClose, ends⟩
  rcases served.post with ⟨_, servedPost⟩
  have meetsSingle := get ▸ Served.single servedSingle (.inr getAlone)
  have meetsClose := close ▸ Served.single servedClose (.inr closeAlone)
  have meetsPost := post ▸ Served.single servedPost (.inr postAlone)
  rcases testSingleGet_of_meets meetsSingle with ⟨single, testedSingle, passedSingle⟩
  rcases testKeepAliveTwoGets_of_served servedTwo with
    ⟨first, second, testedTwo, passedFirst, passedSecond⟩
  rcases testConnectionClose_of_meets meetsClose rfl ends with ⟨closed, testedClose, passedClose⟩
  rcases testPost400_of_meets meetsPost with ⟨rejected, testedPost, passedPost⟩
  refine ⟨[single, first, second, closed, rejected], ?_, ?_⟩
  · simp only [runAll, testedSingle, testedTwo, testedClose, testedPost]
    rfl
  · simp [passedSingle, passedFirst, passedSecond, passedClose, passedPost]

theorem runRounds_of_served {rounds : List Round} (served : ∀ round ∈ rounds, round.Served) :
    runRounds rounds = .ok 0 := by
  have none : (rounds.foldlM (fun totalFailed round => do
      let results ← runAll round
      return totalFailed + results.countP fun t => !t.passed) 0 : Except StoulException ℕ) =
        .ok 0 := by
    induction rounds with
    | nil => rfl
    | cons round rounds ih =>
        rcases runAll_of_served (served round (by simp)) with ⟨results, ran, passed⟩
        have noneFailed : results.countP (fun t => !t.passed) = 0 := by
          rw [List.countP_eq_zero]
          intro t member
          simp [passed t member]
        rw [List.foldlM_cons, ran]
        simp only [bind, Except.bind, pure, Except.pure, noneFailed]
        exact ih fun other member => served other (by simp [member])
  rw [runRounds, none]
  rfl

/-- The test of the idle timeout passes against a connection that is silent or
closed after its first requests, and a new one that is served. -/
theorem runIdle_of_served {fd2 last : Fd}
    (served : Served [] [] (getRequests ["/", "/a", "/b"]) fd rest)
    (nothing : nextEvent rest.socket = .eof ∨ nextEvent rest.socket = .silence)
    (again : Served [] [] (getRequests ["/"]) fd2 last) : runIdle fd fd2 = .ok 0 := by
  have start : Served (getRequests []).flatten (hellos ([] : List String).length).flatten
      (getRequests ["/", "/a", "/b"]) fd rest := served
  have first := fun r => firstRound_of_served r (fun path => isGetPath_of_mem) start
  rcases @keepAliveGetOnFd_of_nothing rest "/idle-check" [] nothing with ⟨out, left, silent⟩
  have startAgain : Served (getRequests []).flatten (hellos ([] : List String).length).flatten
      (buildGetRequest (ascii "/") false :: getRequests []) fd2 last := again
  rcases startAgain.get fun path member => isGetPath_of_mem (by simp_all) with ⟨_, meets, _⟩
  have status : expectStatus (buildResponse {}) (ascii "HTTP/1.1 200") = true := by
    decide +kernel
  have tested : testIdleTimeout fd fd2 =
      .ok { name := "idle-timeout：同连接 idle 65s 后应需重连" } := by
    simp only [testIdleTimeout, first]
    simp [silent, keepAliveGetOnFd_of_meets meets, status, bind, Except.bind, pure, Except.pure]
  rw [runIdle, tested]
  rfl

/-- Against the server, in either mode, every round of the acceptance suite passes
and so does the test of the idle timeout, whatever the network and the workers do. -/
theorem suite_passes_against_server :
    (∀ rounds : List Round, (∀ round ∈ rounds, round.Served) → runRounds rounds = .ok 0) ∧
    ∀ fd fd2 rest last : Fd, Served [] [] (getRequests ["/", "/a", "/b"]) fd rest →
      (nextEvent rest.socket = .eof ∨ nextEvent rest.socket = .silence) →
      Served [] [] (getRequests ["/"]) fd2 last → runIdle fd fd2 = .ok 0 :=
  ⟨fun _ => runRounds_of_served, fun _ _ _ _ => runIdle_of_served⟩

/-- A connection gets a request, whose response is taken at once. -/
def serving (request : List UInt8) (resumes : ℕ) : List Action :=
  SubReactor.reading [.delivered request] ++
    .resume SubReactor.acceptAll :: List.replicate resumes (.resume [])

def untilNext : List Action :=
  [.drain, .endLoop]

theorem atRest_of_run {stream bytes : List UInt8} (actions : List Action)
    (ran : ((Transition.run SubReactor.step
      ((SubReactor.connectionPart false 0).lift (View.KeepsSending stream))
      (SubReactor.init false 0) (SubReactor.connecting false ++ actions)).bind fun s =>
        (s.view 0).map fun view =>
          decide (view.frame = none ∧ received view.conn.log = stream ∧ view.conn.working = 0 ∧
            view.conn.writeBuffer.readable = 0 ∧ accepted view.conn.log = bytes)) = some true) :
    AtRest stream bytes := by
  rcases SubReactor.exists_of_run _ _ _ _ _ _ _ ran with ⟨s, view, reaches, shown, looked⟩
  exact ⟨0, false, 0, s, view, reaches, shown, of_decide_eq_true looked⟩

/-- The bytes of a response arrive in one chunk. -/
theorem served_whole {stream sent request response : List UInt8} {requests : List (List UInt8)}
    {mid rest : Fd} (nonempty : response ≠ []) (written : request.length ≤ 65536)
    (atRest : AtRest (stream ++ request) (sent ++ response))
    (later : Served (stream ++ request) (sent ++ response) requests mid rest) :
    Served stream sent (request :: requests)
      { writes := SubReactor.acceptAll :: mid.writes
        socket := .delivered ⟨response, nonempty⟩ :: mid.socket } rest := by
  have taken : writeAll request SubReactor.acceptAll = true := by
    simp [SubReactor.acceptAll, writeAll, List.drop_eq_nil_of_le written]
  exact .cons ⟨⟨_, rfl, taken⟩, [⟨response, nonempty⟩], by simp [bytesOf], rfl⟩ atRest later

/-- A connection on which nothing is written or delivered any more. -/
def quiet : Fd where
  writes := []
  socket := []

/-- The connections of a round and of the test of the idle timeout, served at once. -/
theorem exists_served : ∃ (round : Round) (fd : Fd), round.Served ∧
    Served [] [] (getRequests ["/", "/a", "/b"]) fd quiet ∧
    Served [] [] (getRequests ["/"]) round.single quiet := by
  let get (path : String) := serving (buildGetRequest (ascii path) false) 2
  have hello := buildResponse_ne_nil {}
  have goodbye := buildResponse_ne_nil { keepAlive := false }
  have single : Served [] [] (getRequests ["/"]) _ quiet :=
    served_whole hello (by decide) (atRest_of_run (get "/") (by decide +kernel)) .nil
  have keepAlive : Served [] [] (getRequests ["/a", "/b"]) _ quiet :=
    served_whole hello (by decide) (atRest_of_run (get "/a") (by decide +kernel))
      (served_whole hello (by decide)
        (atRest_of_run (get "/a" ++ untilNext ++ get "/b") (by decide +kernel)) .nil)
  have close : Served [] [] [buildGetRequest (ascii "/") true] _ quiet :=
    served_whole goodbye (by decide)
      (atRest_of_run (serving (buildGetRequest (ascii "/") true) 2) (by decide +kernel)) .nil
  have post : Served [] [] [buildPostRequest] _ quiet :=
    served_whole build400_ne_nil (by decide)
      (atRest_of_run (serving buildPostRequest 1) (by decide +kernel)) .nil
  have idle : Served [] [] (getRequests ["/", "/a", "/b"]) _ quiet :=
    served_whole hello (by decide) (atRest_of_run (get "/") (by decide +kernel))
      (served_whole hello (by decide)
        (atRest_of_run (get "/" ++ untilNext ++ get "/a") (by decide +kernel))
        (served_whole hello (by decide)
          (atRest_of_run (get "/" ++ untilNext ++ get "/a" ++ untilNext ++ get "/b")
            (by decide +kernel)) .nil))
  exact ⟨⟨_, _, _, _⟩, _, ⟨⟨_, single⟩, ⟨_, keepAlive⟩, ⟨_, close, .inr rfl⟩, ⟨_, post⟩⟩, idle,
    single⟩

theorem suite_passes_against_server_twice :
    ∃ (round : Round) (fd fd2 : Fd), round.Served ∧ runRounds [round, round] = .ok 0 ∧
      runIdle fd fd2 = .ok 0 := by
  rcases exists_served with ⟨round, fd, served, idle, again⟩
  have rounds : ∀ other ∈ [round, round], other.Served := by simpa using served
  exact ⟨round, fd, round.single, served, suite_passes_against_server.1 _ rounds,
    suite_passes_against_server.2 _ _ _ _ idle (.inr rfl) again⟩

end Client

end MiniWebServer
