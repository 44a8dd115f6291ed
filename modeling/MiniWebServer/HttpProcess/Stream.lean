import MiniWebServer.HttpProcess.Scan
import MiniWebServer.Library.Incremental

/-!
# Parsing a stream that arrives in chunks

A connection parses whatever its read buffer holds, takes out every complete
request, and goes on when more bytes arrive. `parseAll` is that loop,
`receive` what a chunk adds to a session.

On plain bytes the loop is a consumer in the sense of `Incremental`. It is
resumable, since the line machine never looks behind the line it is at, and so
the requests taken out of a stream do not depend on how the stream is cut.
-/

namespace MiniWebServer

namespace HttpProcess

/-- What a parse loop takes out of the stream: a request, or the reason to stop. -/
inductive Parsed where
  | complete (request : HttpRequest)
  | error
  | lineTooLong
  | raised (exception : CppException)
deriving DecidableEq

/-- A fresh `HttpProcess`. -/
abbrev fresh : HttpProcess := {}

@[simp]
theorem releaseRequest_snd (process : HttpProcess) : process.releaseRequest.2 = fresh :=
  rfl

@[simp]
theorem reset_eq_fresh (process : HttpProcess) : process.reset = fresh :=
  rfl

/-- Parse and release until the machine asks for more input or stops. -/
def consume (process : HttpProcess) (bytes : List UInt8) :
    Incremental.Outcome HttpProcess UInt8 Parsed :=
  match _scanned : scan process bytes with
  | .error exception => ([.raised exception], none)
  | .ok (.kNeedMore, next, rest) => ([], some (next, rest))
  | .ok (.kError, _, _) => ([.error], none)
  | .ok (.kLineTooLong, _, _) => ([.lineTooLong], none)
  | .ok (.kComplete, next, rest) =>
      let later := consume next.releaseRequest.2 rest
      (.complete next.releaseRequest.1 :: later.1, later.2)
termination_by bytes.length
decreasing_by
  have := length_lt_of_scan_eq_complete _scanned
  omega

theorem consume_eq (process : HttpProcess) (bytes : List UInt8) :
    consume process bytes =
      match scan process bytes with
      | .error exception => ([.raised exception], none)
      | .ok (.kNeedMore, next, rest) => ([], some (next, rest))
      | .ok (.kError, _, _) => ([.error], none)
      | .ok (.kLineTooLong, _, _) => ([.lineTooLong], none)
      | .ok (.kComplete, next, rest) =>
          (.complete next.current :: (consume fresh rest).1, (consume fresh rest).2) := by
  rw [consume]
  split
  · next scanned => rw [scanned]
  · next scanned => rw [scanned]
  · next scanned => rw [scanned]
  · next scanned => rw [scanned]
  · next scanned =>
    rw [scanned]
    rfl

theorem consume_of_complete {process next : HttpProcess} {bytes rest : List UInt8}
    (scanned : scan process bytes = .ok (.kComplete, next, rest)) :
    consume process bytes =
      (.complete next.current :: (consume fresh rest).1, (consume fresh rest).2) := by
  rw [consume_eq, scanned]

@[simp]
theorem consume_nil (process : HttpProcess) : consume process [] = ([], some (process, [])) := by
  have noLine : cutLine [] = none := rfl
  rw [consume_eq, scan_of_cutLine_eq_none noLine]

/-- The parse loop may be interrupted after any byte. -/
theorem consume_resumable : Incremental.Consumer.Resumable consume := by
  intro process first second
  induction size : first.length using Nat.strongRecOn generalizing process first with
  | _ size ih =>
      subst size
      cases scanned : scan process first with
      | error exception =>
          rw [consume_eq process first, scanned, consume_eq,
            scan_append_of_error scanned second]
          rfl
      | ok outcome =>
          rcases outcome with ⟨result, next, rest⟩
          cases result with
          | kNeedMore =>
              rw [consume_eq process first, scanned, consume_eq,
                scan_append_of_needMore scanned second, ← consume_eq]
              rfl
          | kError =>
              rw [consume_eq process first, scanned, consume_eq,
                scan_append_of_ne_needMore scanned (by decide) second]
              rfl
          | kLineTooLong =>
              rw [consume_eq process first, scanned, consume_eq,
                scan_append_of_ne_needMore scanned (by decide) second]
              rfl
          | kComplete =>
              have smaller := length_lt_of_scan_eq_complete scanned
              have resumed := ih rest.length (by omega) fresh rest rfl
              rw [consume_of_complete scanned, consume_of_complete
                (scan_append_of_ne_needMore scanned (by decide) second), resumed]
              exact (Incremental.Consumer.extend_append_outputs [.complete next.current]
                (consume fresh rest).1 (consume fresh rest).2 second).symm

/-- The results so far, and where the session goes on (nowhere after a stop). -/
abbrev Session := List Parsed × Option (HttpProcess × Buffer)

theorem readable_lt_of_parse_eq_complete {process next : HttpProcess} {readBuf rest : Buffer}
    (parsed : process.parse readBuf = .ok (.kComplete, next, rest)) :
    rest.readable < readBuf.readable := by
  have scanned := parse_eq_scan process readBuf
  rw [parsed] at scanned
  have shorter := length_lt_of_scan_eq_complete scanned.symm
  simp only [Buffer.length_peek] at shorter
  omega

/-- Call `parse`, and `releaseRequest` after each `kComplete`, until `parse`
returns something else. -/
def parseAll (process : HttpProcess) (readBuf : Buffer) : Session :=
  match _parsed : process.parse readBuf with
  | .error exception => ([.raised exception], none)
  | .ok (.kNeedMore, next, rest) => ([], some (next, rest))
  | .ok (.kError, _, _) => ([.error], none)
  | .ok (.kLineTooLong, _, _) => ([.lineTooLong], none)
  | .ok (.kComplete, next, rest) =>
      let later := parseAll next.releaseRequest.2 rest
      (.complete next.releaseRequest.1 :: later.1, later.2)
termination_by readBuf.readable
decreasing_by exact readable_lt_of_parse_eq_complete _parsed

/-- A chunk arrives in the read buffer and is parsed. -/
def receive (session : Session) (chunk : List UInt8) : Session :=
  match session.2 with
  | none => session
  | some (process, readBuf) =>
      let later := parseAll process (readBuf.sckToBuffer chunk)
      (session.1 ++ later.1, later.2)

/-- A session before the first byte. -/
def Session.init : Session :=
  ([], some (fresh, Buffer.init))

/-- A session in which the stream arrives as `chunks`. -/
def feed (chunks : List (List UInt8)) : Session :=
  chunks.foldl receive Session.init

/-- A session with its buffer replaced by the unconsumed bytes. -/
def Session.onBytes (session : Session) : Incremental.Outcome HttpProcess UInt8 Parsed :=
  (session.1, session.2.map fun next => (next.1, next.2.peek))

theorem onBytes_parseAll (process : HttpProcess) (readBuf : Buffer) :
    (parseAll process readBuf).onBytes = consume process readBuf.peek := by
  induction size : readBuf.readable using Nat.strongRecOn generalizing process readBuf with
  | _ size ih =>
      subst size
      have scanned := parse_eq_scan process readBuf
      rw [parseAll, consume_eq, ← scanned]
      split
      · next parsed => rw [parsed]; rfl
      · next parsed => rw [parsed]; rfl
      · next parsed => rw [parsed]; rfl
      · next parsed => rw [parsed]; rfl
      · next next rest parsed =>
        have smaller := readable_lt_of_parse_eq_complete parsed
        have later := ih rest.readable smaller fresh rest rfl
        rw [parsed]
        simp only [onBytes, Except.map, ← later]
        rfl

theorem onBytes_receive (session : Session) (chunk : List UInt8) :
    (receive session chunk).onBytes =
      Incremental.Consumer.extend consume session.onBytes chunk := by
  rcases session with ⟨results, next⟩
  cases next with
  | none => rfl
  | some pair =>
      rcases pair with ⟨process, readBuf⟩
      have later := onBytes_parseAll process (readBuf.sckToBuffer chunk)
      rw [Buffer.peek_sckToBuffer] at later
      simp only [Incremental.Consumer.extend, Session.onBytes, Option.map_some, ← later]
      rfl

theorem onBytes_foldl_receive (session : Session) (chunks : List (List UInt8)) :
    (chunks.foldl receive session).onBytes =
      Incremental.Consumer.feed consume session.onBytes chunks := by
  induction chunks generalizing session with
  | nil => rfl
  | cons chunk rest ih =>
      rw [List.foldl_cons, ih, onBytes_receive, Incremental.Consumer.feed_cons]

/-- A session before the first byte has nothing left to do. -/
theorem extend_onBytes_init :
    Incremental.Consumer.extend consume Session.init.onBytes [] = Session.init.onBytes := by
  simp [Incremental.Consumer.extend, Session.onBytes, Session.init]

/-- A session depends on the received bytes only. -/
theorem onBytes_feed (chunks : List (List UInt8)) :
    (feed chunks).onBytes = consume fresh chunks.flatten := by
  rw [feed, onBytes_foldl_receive,
    Incremental.Consumer.feed_eq_extend_flatten consume_resumable extend_onBytes_init]
  simp [Incremental.Consumer.extend, Session.onBytes, Session.init]

/-- A fresh parser takes `message` for exactly the request `request`. -/
def ParsedAlone (message : List UInt8) (request : HttpRequest) : Prop :=
  ∃ next rest,
    fresh.parse (Buffer.init.sckToBuffer message) = .ok (.kComplete, next, rest) ∧
      rest.peek = [] ∧ next.releaseRequest.1 = request

/-- `ParsedAlone` may be decided by running the parser. -/
theorem parsedAlone_of_run {message : List UInt8} {request : HttpRequest}
    (run : ((fresh.parse (Buffer.init.sckToBuffer message)).toOption.map fun outcome =>
      (outcome.1, outcome.2.1.current, outcome.2.2.peek)) = some (.kComplete, request, [])) :
    ParsedAlone message request := by
  cases parsed : fresh.parse (Buffer.init.sckToBuffer message) with
  | error exception => simp [parsed, Except.toOption] at run
  | ok outcome =>
      rcases outcome with ⟨result, next, rest⟩
      simp only [parsed, Except.toOption, Option.map_some, Option.some.injEq,
        Prod.mk.injEq] at run
      rcases run with ⟨rfl, released, consumed⟩
      exact ⟨next, rest, parsed, consumed, released⟩

theorem scan_of_parsedAlone {message : List UInt8} {request : HttpRequest}
    (alone : ParsedAlone message request) :
    ∃ next, scan fresh message = .ok (.kComplete, next, []) ∧ next.current = request := by
  rcases alone with ⟨next, rest, parsed, consumed, released⟩
  refine ⟨next, ?_, released⟩
  have scanned := parse_eq_scan fresh (Buffer.init.sckToBuffer message)
  rw [parsed, Buffer.peek_sckToBuffer, Buffer.peek_init, List.nil_append] at scanned
  rw [← scanned]
  simp [onBytes, Except.map, consumed]

theorem consume_message_append {message : List UInt8} {request : HttpRequest}
    (alone : ParsedAlone message request) (rest : List UInt8) :
    consume fresh (message ++ rest) =
      (.complete request :: (consume fresh rest).1, (consume fresh rest).2) := by
  rcases scan_of_parsedAlone alone with ⟨next, scanned, rfl⟩
  have scannedAppend := scan_append_of_ne_needMore scanned (by decide) rest
  rw [List.nil_append] at scannedAppend
  exact consume_of_complete scannedAppend

/-- Every message of a pipelined stream is parsed as by a fresh parser. -/
theorem consume_messages_append {messages : List (List UInt8 × HttpRequest)}
    (alone : ∀ pair ∈ messages, ParsedAlone pair.1 pair.2) (rest : List UInt8) :
    consume fresh ((messages.map Prod.fst).flatten ++ rest) =
      (messages.map (fun pair => .complete pair.2) ++ (consume fresh rest).1,
        (consume fresh rest).2) := by
  induction messages with
  | nil => simp
  | cons pair messages ih =>
      have headAlone := alone pair (by simp)
      have tail := ih (fun other member => alone other (by simp [member]))
      rw [List.map_cons, List.flatten_cons, List.append_assoc,
        consume_message_append headAlone, tail]
      rfl

/-- The results of a session, the parser it ends with and the bytes it leaves
unconsumed do not depend on how the stream was cut; and each message of a
pipelined stream is parsed as it would be by a fresh parser. -/
theorem feed_independent_of_chunks :
    (∀ chunks others : List (List UInt8), chunks.flatten = others.flatten →
      (feed chunks).1 = (feed others).1 ∧
      ((feed chunks).2.map fun next => (next.1, next.2.peek)) =
        ((feed others).2.map fun next => (next.1, next.2.peek))) ∧
    (∀ (messages : List (List UInt8 × HttpRequest)) (rest : List UInt8)
      (chunks : List (List UInt8)),
      (∀ pair ∈ messages, ParsedAlone pair.1 pair.2) →
      chunks.flatten = (messages.map Prod.fst).flatten ++ rest →
      (feed chunks).1 = messages.map (fun pair => .complete pair.2) ++ (feed [rest]).1 ∧
      ((feed chunks).2.map fun next => (next.1, next.2.peek)) =
        ((feed [rest]).2.map fun next => (next.1, next.2.peek))) := by
  constructor
  · intro chunks others sameStream
    have same : (feed chunks).onBytes = (feed others).onBytes := by
      rw [onBytes_feed, onBytes_feed, sameStream]
    exact Prod.mk.inj same
  · intro messages rest chunks alone stream
    have whole := onBytes_feed chunks
    have remaining := onBytes_feed [rest]
    rw [stream, consume_messages_append alone] at whole
    rw [List.flatten_singleton] at remaining
    rw [← remaining] at whole
    exact Prod.mk.inj whole

/-- Two pipelined requests, cut inside the first and between CR and LF of the
second, give what one chunk gives. -/
theorem feed_independent_of_chunks_pipelined :
    (feed [ascii "GET /a HT", ascii "TP/1.1\r\n\r\nGET /b HTTP/1.0\r", ascii "\n\r\n"]).1 =
      [.complete { method := ascii "GET", path := ascii "/a", version := ascii "HTTP/1.1" },
        .complete
          { method := ascii "GET", path := ascii "/b", version := ascii "HTTP/1.0",
            keepAlive := false }] ∧
    (feed [ascii "GET /a HT", ascii "TP/1.1\r\n\r\n"]).1 =
      (feed [ascii "GET /a HTTP/1.1\r\n\r\n"]).1 := by
  have empty : (feed [[]]).1 = [] := by
    have remaining := congrArg Prod.fst (onBytes_feed [[]])
    simpa [Session.onBytes] using remaining
  have messages := (feed_independent_of_chunks.2
    [(ascii "GET /a HTTP/1.1\r\n\r\n",
        { method := ascii "GET", path := ascii "/a", version := ascii "HTTP/1.1" }),
      (ascii "GET /b HTTP/1.0\r\n\r\n",
        { method := ascii "GET", path := ascii "/b", version := ascii "HTTP/1.0",
          keepAlive := false })] []
    [ascii "GET /a HT", ascii "TP/1.1\r\n\r\nGET /b HTTP/1.0\r", ascii "\n\r\n"]
    (by
      intro pair member
      simp only [List.mem_cons, List.not_mem_nil, or_false] at member
      rcases member with rfl | rfl
      · exact parsedAlone_of_run (by decide +kernel)
      · exact parsedAlone_of_run (by decide +kernel))
    (by decide)).1
  rw [empty, List.append_nil] at messages
  exact ⟨messages, (feed_independent_of_chunks.1 _ _ (by decide)).1⟩

end HttpProcess

end MiniWebServer
