import MiniWebServer.HttpProcess.Acceptance

/-!
# The acceptance client

The client encodes its requests with `buildGetRequest`. The parser of the
server undoes this encoding over whole pipelines: an encoded request is a head
of the grammar followed by the empty line, so the stream theorem takes the
requests apart again, wherever the network cuts the stream.
-/

namespace MiniWebServer

open Delimited HttpProcess

namespace Client

/-- `buildGetRequest`. -/
def buildGetRequest (path : List UInt8) (close : Bool) : List UInt8 :=
  ascii "GET " ++ path ++ ascii " HTTP/1.1\r\n" ++ ascii "Host: localhost\r\n" ++
    (if close then ascii "Connection: close\r\n" else ascii "Connection: keep-alive\r\n") ++
    ascii "\r\n"

/-- The request that the client means. -/
def getRequest (path : List UInt8) (close : Bool) : HttpRequest where
  method := ascii "GET"
  path := path
  version := ascii "HTTP/1.1"
  host := ascii "localhost"
  keepAlive := !close

/-- The paths that fit one request line. -/
structure IsGetPath (path : List UInt8) : Prop where
  startsWithSlash : path.head? = some slash
  noSpace : space ∉ path
  noCRLF : Free cr lf path
  length_le : path.length ≤ 8179

/-- The `Connection` header of an encoded request. -/
def connectionHeader (close : Bool) : List UInt8 :=
  if close then ascii "Connection: close" else ascii "Connection: keep-alive"

def hostHeader : List UInt8 :=
  ascii "Host: localhost"

theorem requestLine_admissible {path : List UInt8} (isGetPath : IsGetPath path) :
    Admissible (requestLine path (ascii "HTTP/1.1")) := by
  constructor
  · have tailFree : Free cr lf (space :: ascii "HTTP/1.1") := free_of_not_mem_right (by decide)
    have pathFree := free_append_of_not_mem isGetPath.noCRLF tailFree (by decide)
    have lineEq : requestLine path (ascii "HTTP/1.1") =
        (ascii "GET" ++ [space]) ++ (path ++ space :: ascii "HTTP/1.1") := by
      simp [requestLine]
    rw [lineEq]
    exact free_append_of_left_not_mem (by decide) pathFree
  · have lengthEq : (requestLine path (ascii "HTTP/1.1")).length = path.length + 13 := by
      simp [requestLine, ascii]
    have := isGetPath.length_le
    rw [lengthEq, kMaxLineLen]
    omega

/-- An encoded request, without its empty line, as a head of the grammar. -/
def getHead (path : List UInt8) (close : Bool) (isGetPath : IsGetPath path) : Head where
  path := path
  version := ascii "HTTP/1.1"
  headers := [hostHeader, connectionHeader close]
  isPath := ⟨isGetPath.startsWithSlash, isGetPath.noSpace⟩
  isVersion := Or.inl rfl
  requestLine_admissible := requestLine_admissible isGetPath
  headers_length_le := by simp [kMaxHeaderLines]
  headers_admissible := by
    intro header member
    simp only [List.mem_cons, List.not_mem_nil, or_false] at member
    rcases member with rfl | rfl
    · exact ⟨free_of_not_mem_left (by decide), by decide⟩
    · cases close <;> exact ⟨free_of_not_mem_left (by decide), by decide⟩
  headers_wellFormed := by
    intro header member
    simp only [List.mem_cons, List.not_mem_nil, or_false] at member
    rcases member with rfl | rfl
    · exact ⟨by decide, fun named => absurd named (by decide)⟩
    · cases close <;> exact ⟨by decide, fun named => absurd named (by decide)⟩

theorem buildGetRequest_eq (path : List UInt8) (close : Bool) (isGetPath : IsGetPath path) :
    buildGetRequest path close = (getHead path close isGetPath).bytes ++ crlf := by
  cases close <;>
    simp [buildGetRequest, Head.bytes, Head.lines, getHead, requestLine, terminated, hostHeader,
      connectionHeader, ascii, crlf, cr, lf, space]

theorem request_getHead (path : List UInt8) (close : Bool) (isGetPath : IsGetPath path) :
    (getHead path close isGetPath).request = getRequest path close := by
  cases close <;>
    simp only [Head.request, requestOf, getHead, getRequest, HttpRequest.mk.injEq, true_and] <;>
    decide

theorem bounded_getHead (path : List UInt8) (close : Bool) (isGetPath : IsGetPath path) :
    (getHead path close isGetPath).Bounded := by
  intro header member
  simp only [getHead, List.mem_cons, List.not_mem_nil, or_false] at member
  rcases member with rfl | rfl
  · exact fun named => absurd named (by decide)
  · cases close <;> exact fun named => absurd named (by decide)

theorem parsedAlone_buildGetRequest {path : List UInt8} (close : Bool)
    (isGetPath : IsGetPath path) :
    ParsedAlone (buildGetRequest path close) (getRequest path close) := by
  have noBody : (getHead path close isGetPath).contentLength = 0 := by
    cases close <;> simp only [Head.contentLength, getHead] <;> decide
  have scanned := scan_complete (bounded_getHead path close isGetPath) noBody []
  rw [List.append_nil, ← buildGetRequest_eq] at scanned
  have buffered : (Buffer.init.sckToBuffer (buildGetRequest path close)).peek =
      buildGetRequest path close := by
    simp
  rw [← buffered] at scanned
  rcases parse_of_scan scanned with ⟨rest, parsed, empty⟩
  exact ⟨_, rest, parsed, empty, request_getHead path close isGetPath⟩

/-- The server takes a pipeline of encoded requests apart into the requests the
client meant, however the pipeline is cut, and is then where it started. -/
theorem feed_buildGetRequests (requests : List (List UInt8 × Bool))
    (chunks : List (List UInt8)) (arePaths : ∀ pair ∈ requests, IsGetPath pair.1)
    (pipeline : chunks.flatten =
      (requests.map fun pair => buildGetRequest pair.1 pair.2).flatten) :
    (feed chunks).1 = requests.map (fun pair => .complete (getRequest pair.1 pair.2)) ∧
      ((feed chunks).2.map fun next => (next.1, next.2.peek)) = some (fresh, []) := by
  let messages := requests.map fun pair =>
    (buildGetRequest pair.1 pair.2, getRequest pair.1 pair.2)
  have alone : ∀ message ∈ messages, ParsedAlone message.1 message.2 := by
    intro message member
    rcases List.mem_map.mp member with ⟨pair, pairMem, rfl⟩
    exact parsedAlone_buildGetRequest pair.2 (arePaths pair pairMem)
  have stream : chunks.flatten = (messages.map Prod.fst).flatten ++ [] := by
    rw [List.append_nil, pipeline, List.map_map]
    rfl
  have whole := onBytes_feed chunks
  rw [stream, consume_messages_append alone, consume_nil, List.append_nil, List.map_map] at whole
  exact Prod.mk.inj whole

/-- Two pipelined requests of the acceptance test, cut inside the second. -/
theorem feed_buildGetRequests_pair :
    (feed [buildGetRequest (ascii "/a") false ++ ascii "GET",
        (buildGetRequest (ascii "/b") true).drop 3]).1 =
      [.complete (getRequest (ascii "/a") false), .complete (getRequest (ascii "/b") true)] :=
  (feed_buildGetRequests [(ascii "/a", false), (ascii "/b", true)] _
    (by
      intro pair member
      simp only [List.mem_cons, List.not_mem_nil, or_false] at member
      rcases member with rfl | rfl <;>
        exact ⟨by decide, by decide, cut_eq_none_iff.mp (by decide), by decide⟩)
    (by decide)).1

end Client

end MiniWebServer
