import MiniWebServer.Client
import MiniWebServer.Client.Response

/-!
# The test of short connections

`testConnectionClose` asks for `Connection: close`, reads the response and reads
once more, to see the end of file. `readWithTimeout` returns 0 at the end of file
and after a second of silence, and the test does not tell these apart: a server
that answers and keeps the connection open passes. The test also accepts a
response whose status stands on a later line. What it shows is what it is meant
to show exactly when neither happens.
-/

namespace MiniWebServer

open HttpProcess Search

namespace Client

structure TestCaseResult where
  name : String
  passed : Bool := true
  reason : String := ""
  response : List UInt8 := []

def failCase (r : TestCaseResult) (reason : String) (resp : List UInt8) : TestCaseResult :=
  { r with
    passed := false
    reason := reason
    response := if resp = [] then r.response else resp }

/-- `writeAll`. A list of results that has come to its end stands for `EAGAIN`. -/
def writeAll (data : List UInt8) (writes : List WriteResult) : Bool :=
  if data = [] then true
  else
    match writes with
    | [] => false
    | .failed .eintr :: rest => writeAll data rest
    | .failed .eagain :: _ => false
    | .failed .other :: _ => false
    | .accepted count _ :: rest => writeAll (data.drop count) rest

/-- `expectStatus`. -/
def expectStatus (resp statusLine : List UInt8) : Bool :=
  statusLine <+: resp ∨ find (crlf ++ statusLine) resp ≠ none

/-- The checks of `testConnectionClose` on what `readHttpResponse` has read, and its
last read. -/
def checkClose (r : TestCaseResult) (done : Bool) (resp : List UInt8)
    (rest : List SocketEvent) : TestCaseResult :=
  if ¬done then failCase r "读取响应失败（超时或连接异常）" []
  else if ¬expectStatus resp (ascii "HTTP/1.1 200") then
    failCase r "期望状态行 HTTP/1.1 200" resp
  else if find (ascii "Connection: close") resp = none then
    failCase r "期望响应头含 Connection: close" resp
  else
    let n := (readWithTimeout 64 rest).1.count
    if n ≠ 0 then
      failCase r ("期望服务端关闭连接后 extra read 返回 0(EOF)，实际 n=" ++ toString n) []
    else r

/-- `testConnectionClose` behind `connectServer`. -/
def testConnectionClose (writes : List WriteResult) (socket : List SocketEvent) :
    Except StoulException TestCaseResult :=
  let r : TestCaseResult :=
    { name := "test3 GET / + Connection: close → 200、响应头含 close、再 read 得 EOF(n=0)" }
  if ¬writeAll (buildGetRequest (ascii "/") true) writes then .ok (failCase r "写入请求失败" [])
  else
    match readHttpResponse socket with
    | .error exception => .error exception
    | .ok (done, resp, rest) => .ok (checkClose r done resp rest)

@[simp]
theorem passed_failCase (r : TestCaseResult) (reason : String) (resp : List UInt8) :
    (failCase r reason resp).passed = false :=
  rfl

theorem passed_checkClose {r : TestCaseResult} (fresh : r.passed = true) {done : Bool}
    {resp : List UInt8} {rest : List SocketEvent} :
    (checkClose r done resp rest).passed = true ↔
      done = true ∧ expectStatus resp (ascii "HTTP/1.1 200") = true ∧
        ascii "Connection: close" <:+: resp ∧ (readWithTimeout 64 rest).1.count = 0 := by
  unfold checkClose
  split
  · next notDone => simp [notDone]
  · next isDone =>
    split
    · next other => simp [other]
    · next status =>
      split
      · next absent => simp [find_eq_none_iff.mp absent]
      · next present =>
        have header : ascii "Connection: close" <:+: resp :=
          not_not.mp fun absent => present (find_eq_none_iff.mpr absent)
        simp only
        split
        · next more => simp [more]
        · next zero =>
          rw [not_not] at isDone status zero
          exact ⟨fun _ => ⟨isDone, status, header, zero⟩, fun _ => fresh⟩

/-- The event that a read on the socket meets, interruptions aside. -/
def nextEvent : List SocketEvent → SocketEvent
  | [] => .silence
  | .interrupted :: socket => nextEvent socket
  | event :: _ => event

theorem readWithTimeout_eq_eof_iff {cap : ℕ} {socket : List SocketEvent} :
    (readWithTimeout cap socket).1 = .eof ↔ nextEvent socket = .eof := by
  fun_induction readWithTimeout cap socket with
  | case2 socket ih => exact ih
  | _ => simp [nextEvent]

theorem count_readWithTimeout_eq_zero_iff {cap : ℕ} (positive : 0 < cap)
    {socket : List SocketEvent} :
    (readWithTimeout cap socket).1.count = 0 ↔
      nextEvent socket = .eof ∨ nextEvent socket = .silence := by
  fun_induction readWithTimeout cap socket with
  | case2 socket ih => exact ih
  | case6 chunk socket long =>
      simp [nextEvent, (count_bytes_pos (take_ne_nil positive chunk)).ne']
  | case7 chunk socket short => simp [nextEvent, (count_bytes_pos chunk.property).ne']
  | _ => simp [nextEvent, Received.count]

/-- The server has delivered a response with this status and header, and has then
closed the connection. -/
def ClosedAfterResponse (socket : List SocketEvent) : Prop :=
  ∃ resp rest, readHttpResponse socket = .ok (true, resp, rest) ∧
    ascii "HTTP/1.1 200" <+: resp ∧ ascii "Connection: close" <:+: resp ∧
    (readWithTimeout 64 rest).1 = .eof

/-- The request can be written, and the socket then has a response that the test accepts. -/
structure Accepts (writes : List WriteResult) (socket : List SocketEvent) (resp : List UInt8)
    (rest : List SocketEvent) : Prop where
  written : writeAll (buildGetRequest (ascii "/") true) writes = true
  read : readHttpResponse socket = .ok (true, resp, rest)
  status : expectStatus resp (ascii "HTTP/1.1 200") = true
  header : ascii "Connection: close" <:+: resp

theorem passed_iff {writes : List WriteResult} {socket : List SocketEvent} :
    (∃ r, testConnectionClose writes socket = .ok r ∧ r.passed = true) ↔
      ∃ resp rest, Accepts writes socket resp rest ∧
        (nextEvent rest = .eof ∨ nextEvent rest = .silence) := by
  simp only [testConnectionClose]
  split
  · next unwritten =>
    constructor
    · rintro ⟨r, same, passed⟩
      rw [Except.ok.injEq] at same
      rw [← same] at passed
      cases passed
    · rintro ⟨resp, rest, accepts, _⟩
      exact absurd accepts.written unwritten
  · next written =>
    rw [not_not] at written
    constructor
    · rintro ⟨r, same, passed⟩
      split at same
      · cases same
      · next done resp rest read =>
        rw [Except.ok.injEq] at same
        rw [← same, passed_checkClose rfl] at passed
        rcases passed with ⟨rfl, status, header, zero⟩
        exact ⟨resp, rest, ⟨written, read, status, header⟩,
          (count_readWithTimeout_eq_zero_iff (by decide)).mp zero⟩
    · rintro ⟨resp, rest, accepts, ends⟩
      rw [accepts.read]
      refine ⟨_, rfl, (passed_checkClose rfl).mpr ⟨rfl, accepts.status, accepts.header, ?_⟩⟩
      exact (count_readWithTimeout_eq_zero_iff (by decide)).mpr ends

/-- A passed test shows that the server has closed the connection after its response
if and only if the last read meets no silence and, at the end of file, the response
starts with the status. -/
theorem passed_shows_close_iff (writes : List WriteResult) (socket : List SocketEvent) :
    (∀ r, testConnectionClose writes socket = .ok r → r.passed = true →
      ClosedAfterResponse socket) ↔
    ∀ resp rest, Accepts writes socket resp rest → nextEvent rest ≠ .silence ∧
      (nextEvent rest = .eof → ascii "HTTP/1.1 200" <+: resp) := by
  constructor
  · intro shows resp rest accepts
    have closed : nextEvent rest = .eof ∨ nextEvent rest = .silence →
        ascii "HTTP/1.1 200" <+: resp ∧ nextEvent rest = .eof := by
      intro ends
      rcases passed_iff.mpr ⟨resp, rest, accepts, ends⟩ with ⟨r, tested, passed⟩
      rcases shows r tested passed with ⟨respRead, restRead, read, status, _, eof⟩
      rw [accepts.read, Except.ok.injEq, Prod.mk.injEq, Prod.mk.injEq] at read
      rcases read with ⟨_, rfl, rfl⟩
      exact ⟨status, readWithTimeout_eq_eof_iff.mp eof⟩
    refine ⟨fun silent => ?_, fun eof => (closed (.inl eof)).1⟩
    have eof := (closed (.inr silent)).2
    rw [silent] at eof
    cases eof
  · intro told r tested passed
    rcases passed_iff.mp ⟨r, tested, passed⟩ with ⟨resp, rest, accepts, ends⟩
    rcases told resp rest accepts with ⟨notSilent, status⟩
    have eof := ends.resolve_right notSilent
    exact ⟨resp, rest, accepts.read, status eof, accepts.header,
      readWithTimeout_eq_eof_iff.mpr eof⟩

/-- A server that keeps the connection open after such a response passes, however
the response is cut. -/
theorem passed_of_silence {message : Message} {chunks : List Chunk}
    (pieces : bytesOf chunks = message.bytes) {writes : List WriteResult}
    (written : writeAll (buildGetRequest (ascii "/") true) writes = true)
    (status : expectStatus message.bytes (ascii "HTTP/1.1 200") = true)
    (header : ascii "Connection: close" <:+: message.bytes) {rest : List SocketEvent}
    (silent : nextEvent rest = .silence) :
    ∃ r, testConnectionClose writes (chunks.map .delivered ++ rest) = .ok r ∧
      r.passed = true :=
  passed_iff.mpr ⟨message.bytes, rest,
    ⟨written, readHttpResponse_message pieces rest, status, header⟩, .inr silent⟩

/-- The server answers with the right response and keeps the connection open. -/
theorem not_shows_close_of_silence :
    ¬∀ (writes : List WriteResult) (socket : List SocketEvent) (r : TestCaseResult),
      testConnectionClose writes socket = .ok r → r.passed = true →
        ClosedAfterResponse socket := by
  intro always
  rcases exists_message_buildResponse { keepAlive := false } with ⟨message, bytesEq⟩
  have nonempty : message.bytes ≠ [] := by
    rw [bytesEq]
    decide
  have status : expectStatus message.bytes (ascii "HTTP/1.1 200") = true := by
    rw [bytesEq]
    decide +kernel
  have header : ascii "Connection: close" <:+: message.bytes := by
    rw [bytesEq]
    decide +kernel
  have pieces : bytesOf [⟨message.bytes, nonempty⟩] = message.bytes := List.append_nil _
  have written : writeAll (buildGetRequest (ascii "/") true)
      [.accepted 65536 (Nat.succ_pos 65535)] = true := by
    decide +kernel
  rcases passed_of_silence pieces written status header (rfl : nextEvent [.silence] = _) with
    ⟨r, tested, passed⟩
  rcases always _ _ r tested passed with ⟨resp, rest, read, _, _, eof⟩
  rw [readHttpResponse_message pieces, Except.ok.injEq, Prod.mk.injEq, Prod.mk.injEq] at read
  rw [← read.2.2] at eof
  cases eof

end Client

end MiniWebServer
