import MiniWebServer.Buffer

/-!
# The resumable request parser

`HttpProcess` consumes a connection's read buffer line by line and keeps its
progress in four fields between calls. A C++ exception that leaves `parse` is
an `Except.error`: nothing above it catches one.

`retrieveLine` and the header loop are total because every line they take
leaves fewer bytes in the buffer.
-/

namespace MiniWebServer

/-- The exceptions of the C++ library that the modeled code can raise. -/
inductive CppException where
  | outOfRange
  | badFunctionCall
deriving DecidableEq, Repr

inductive ParseResult where
  | kNeedMore
  | kComplete
  | kError
  | kLineTooLong
deriving DecidableEq, Repr

/-- The bytes of an ASCII text. -/
def ascii (text : String) : List UInt8 :=
  text.toList.map fun character => character.toNat.toUInt8

/-- The line terminator. -/
def crlf : List UInt8 := [cr, lf]

/-- `' '`. -/
def space : UInt8 := 32

/-- `':'`. -/
def colon : UInt8 := 58

/-- `'/'`. -/
def slash : UInt8 := 47

structure HttpRequest where
  method : List UInt8 := []
  path : List UInt8 := []
  version : List UInt8 := []
  host : List UInt8 := []
  keepAlive : Bool := true
deriving DecidableEq

/-- `HttpProcess::State`. -/
inductive ParseState where
  | kExpectRequestLine
  | kExpectHeaders
deriving DecidableEq, Repr

/-- The fields of an `HttpProcess`; the defaults are those of a fresh one. -/
structure HttpProcess where
  state : ParseState := .kExpectRequestLine
  current : HttpRequest := {}
  contentLength : ℕ := 0
  headerLineCount : ℕ := 0
deriving DecidableEq

def kMaxLineLen : ℕ := 8192

/-- The largest number of header lines of one request. -/
def kMaxHeaderLines : ℕ := 100

def kBody : List UInt8 := ascii "Hello, World!"

def kBodyLen : ℕ := 13

/-- `std::to_string` on an unsigned number. -/
def stdToString (number : ℕ) : List UInt8 :=
  (Nat.toDigits 10 number).map fun digit => digit.toNat.toUInt8

def isHttpVersion (version : List UInt8) : Bool :=
  version = ascii "HTTP/1.1" ∨ version = ascii "HTTP/1.0"

/-- Split at single spaces; a line with fewer or more than two is refused. -/
def splitThree (line : List UInt8) : Option (List UInt8 × List UInt8 × List UInt8) :=
  match line.findIdx? (· = space) with
  | none => none
  | some first =>
      let afterFirst := line.drop (first + 1)
      match afterFirst.findIdx? (· = space) with
      | none => none
      | some second =>
          let afterSecond := afterFirst.drop (second + 1)
          if space ∈ afterSecond then none
          else some (line.take first, afterFirst.take second, afterSecond)

/-- `std::tolower` in the C locale. -/
def toLowerByte (byte : UInt8) : UInt8 :=
  if 65 ≤ byte ∧ byte ≤ 90 then byte + 32 else byte

/-- `std::isdigit`. -/
def isDigit (byte : UInt8) : Bool :=
  48 ≤ byte ∧ byte ≤ 57

/-- The number that a string of digits denotes. -/
def decimal (digits : List UInt8) : ℕ :=
  digits.foldl (fun value digit => value * 10 + (digit.toNat - 48)) 0

/-- `std::stoul` on a non-empty string of digits (`unsigned long` has 64 bits). -/
def stoul (digits : List UInt8) : Except CppException ℕ :=
  if decimal digits < 2 ^ 64 then .ok (decimal digits) else .error .outOfRange

namespace HttpProcess

def toLower (s : List UInt8) : List UInt8 :=
  s.map toLowerByte

/-- What `retrieveLine` reports through its result and its out parameters. -/
inductive RetrievedLine where
  | needMore
  | lineTooLong
  | line (line : List UInt8) (rest : Buffer)

/-- `HttpProcess::retrieveLine`. -/
def retrieveLine (readBuf : Buffer) : RetrievedLine :=
  match found : readBuf.findCRLF with
  | none => .needMore
  | some crlf =>
      if crlf > kMaxLineLen then .lineTooLong
      else
        .line (readBuf.peek.take crlf)
          (readBuf.retrieve (crlf + 2) (Buffer.add_two_le_readable_of_findCRLF found))

theorem readable_lt_of_retrieveLine {readBuf rest : Buffer} {line : List UInt8}
    (retrieved : retrieveLine readBuf = .line line rest) : rest.readable < readBuf.readable := by
  unfold retrieveLine at retrieved
  split at retrieved
  · cases retrieved
  · next crlf found =>
    have enough := Buffer.add_two_le_readable_of_findCRLF found
    split at retrieved
    · cases retrieved
    · simp only [RetrievedLine.line.injEq] at retrieved
      rcases retrieved with ⟨_, rfl⟩
      rw [← Buffer.length_peek, Buffer.peek_retrieve, List.length_drop, Buffer.length_peek]
      omega

/-- `HttpProcess::parseRequestLine`; `none` for `false`, which leaves the request as it is. -/
def parseRequestLine (line : List UInt8) (out : HttpRequest) : Option HttpRequest :=
  match splitThree line with
  | none => none
  | some (method, path, version) =>
      if method ≠ ascii "GET" then none
      else if path.head? ≠ some slash then none
      else if ¬isHttpVersion version then none
      else
        some
          { out with
            method := method
            path := path
            version := version
            keepAlive := if version = ascii "HTTP/1.0" then false else out.keepAlive }

/-- `HttpProcess::updateKeepAlive`. -/
def updateKeepAlive (req : HttpRequest) (connValue : List UInt8) : HttpRequest :=
  let v := toLower connValue
  if ascii "close" <:+: v then { req with keepAlive := false }
  else if ascii "keep-alive" <:+: v then { req with keepAlive := true }
  else req

/-- `HttpProcess::parseHeaderLine`; `none` for `false`, which changes nothing. -/
def parseHeaderLine (line : List UInt8) (req : HttpRequest) (contentLength : ℕ) :
    Except CppException (Option (HttpRequest × ℕ)) :=
  match line.findIdx? (· = colon) with
  | none => .ok none
  | some position =>
      let key := toLower (line.take position)
      let value := (line.drop (position + 1)).dropWhile (· = space)
      if key = ascii "host" then .ok (some ({ req with host := value }, contentLength))
      else if key = ascii "connection" then
        .ok (some (updateKeepAlive req value, contentLength))
      else if key = ascii "content-length" then
        if value = [] then .ok none
        else if ¬value.all isDigit then .ok none
        else (stoul value).map fun length => some (req, length)
      else .ok (some (req, contentLength))

/-- The loop of `HttpProcess::parse` over the header lines. -/
def parseHeaders (process : HttpProcess) (readBuf : Buffer) :
    Except CppException (ParseResult × HttpProcess × Buffer) :=
  match process.state with
  | .kExpectRequestLine => .ok (.kNeedMore, process, readBuf)
  | .kExpectHeaders =>
      match _retrieved : retrieveLine readBuf with
      | .needMore => .ok (.kNeedMore, process, readBuf)
      | .lineTooLong => .ok (.kLineTooLong, process, readBuf)
      | .line line rest =>
          if line = [] then
            if process.contentLength > 0 then .ok (.kError, process, rest)
            else .ok (.kComplete, { process with state := .kExpectRequestLine }, rest)
          else
            let counted := { process with headerLineCount := process.headerLineCount + 1 }
            if counted.headerLineCount > kMaxHeaderLines then .ok (.kLineTooLong, counted, rest)
            else
              match parseHeaderLine line counted.current counted.contentLength with
              | .error exception => .error exception
              | .ok none => .ok (.kError, counted, rest)
              | .ok (some (request, length)) =>
                  parseHeaders { counted with current := request, contentLength := length } rest
termination_by readBuf.readable
decreasing_by exact readable_lt_of_retrieveLine _retrieved

/-- `HttpProcess::parse`. -/
def parse (process : HttpProcess) (readBuf : Buffer) :
    Except CppException (ParseResult × HttpProcess × Buffer) :=
  match process.state with
  | .kExpectRequestLine =>
      match retrieveLine readBuf with
      | .needMore => .ok (.kNeedMore, process, readBuf)
      | .lineTooLong => .ok (.kLineTooLong, process, readBuf)
      | .line line rest =>
          match parseRequestLine line process.current with
          | none => .ok (.kError, process, rest)
          | some request =>
              parseHeaders
                { state := .kExpectHeaders
                  current := request
                  contentLength := 0
                  headerLineCount := 0 } rest
  | .kExpectHeaders => parseHeaders process readBuf

/-- `HttpProcess::reset`. -/
def reset (_ : HttpProcess) : HttpProcess where
  state := .kExpectRequestLine
  current := {}
  contentLength := 0
  headerLineCount := 0

/-- `HttpProcess::releaseRequest`. -/
def releaseRequest (process : HttpProcess) : HttpRequest × HttpProcess :=
  (process.current,
    { state := .kExpectRequestLine
      current := {}
      contentLength := 0
      headerLineCount := 0 })

/-- `HttpProcess::buildResponse`. -/
def buildResponse (req : HttpRequest) : List UInt8 :=
  ascii "HTTP/1.1 200 OK\r\n" ++ ascii "Content-Length: " ++ stdToString kBodyLen ++ ascii "\r\n" ++
    (if req.keepAlive then ascii "Connection: keep-alive\r\n"
      else ascii "Connection: close\r\n") ++
    ascii "\r\n" ++ kBody

/-- `HttpProcess::build400`. -/
def build400 : List UInt8 :=
  ascii "HTTP/1.1 400 Bad Request\r\n" ++ ascii "Content-Length: 0\r\n" ++
    ascii "Connection: close\r\n" ++ ascii "\r\n"

end HttpProcess

end MiniWebServer
