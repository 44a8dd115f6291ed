import MiniWebServer.HttpProcess.Grammar

/-!
# The parser accepts exactly the grammar

The parser of the source, started fresh on a buffer, is compared with the
grammar of `Grammar`. The proof follows the lines: each admissible line moves
the parser from the state after some headers to the state after one more, and
every byte string either reaches the empty line, an offending line, or its end.

The one assumption is that the numbers in `Content-Length` headers fit the
64-bit `unsigned long` of `std::stoul`, which throws otherwise.
-/

namespace MiniWebServer

open Delimited

namespace HttpProcess

/-- The request line and the headers of a request, without its empty line. -/
structure Head where
  path : List UInt8
  version : List UInt8
  headers : List (List UInt8)
  isPath : IsPath path
  isVersion : IsVersion version
  requestLine_admissible : Admissible (requestLine path version)
  headers_length_le : headers.length ≤ kMaxHeaderLines
  headers_admissible : ∀ header ∈ headers, Admissible header
  headers_wellFormed : ∀ header ∈ headers, IsHeader header

namespace Head

def lines (head : Head) : List (List UInt8) :=
  requestLine head.path head.version :: head.headers

def bytes (head : Head) : List UInt8 :=
  joined cr lf head.lines

def contentLength (head : Head) : ℕ :=
  contentLengthOf head.headers

def request (head : Head) : HttpRequest :=
  requestOf head.path head.version head.headers

def process (head : Head) : HttpProcess :=
  processAfter head.path head.version head.headers

/-- A head with one more header. -/
def push (head : Head) (header : List UInt8) (admissible : Admissible header)
    (wellFormed : IsHeader header) (room : head.headers.length < kMaxHeaderLines) : Head where
  path := head.path
  version := head.version
  headers := head.headers ++ [header]
  isPath := head.isPath
  isVersion := head.isVersion
  requestLine_admissible := head.requestLine_admissible
  headers_length_le := by
    rw [List.length_append, List.length_singleton]
    exact room
  headers_admissible := by
    simpa [or_imp, forall_and] using ⟨head.headers_admissible, admissible⟩
  headers_wellFormed := by
    simpa [or_imp, forall_and] using ⟨head.headers_wellFormed, wellFormed⟩

@[simp]
theorem headers_push (head : Head) (header : List UInt8) (admissible : Admissible header)
    (wellFormed : IsHeader header) (room : head.headers.length < kMaxHeaderLines) :
    (head.push header admissible wellFormed room).headers = head.headers ++ [header] :=
  rfl

theorem bytes_push (head : Head) (header : List UInt8) (admissible : Admissible header)
    (wellFormed : IsHeader header) (room : head.headers.length < kMaxHeaderLines) :
    (head.push header admissible wellFormed room).bytes =
      head.bytes ++ terminated cr lf header := by
  simp [bytes, lines, push]

theorem lines_admissible (head : Head) : ∀ line ∈ head.lines, Admissible line := by
  simpa [lines] using ⟨head.requestLine_admissible, head.headers_admissible⟩

end Head

/-- The bytes of an optional head: none before the request line has been read. -/
def bytesBefore : Option Head → List UInt8
  | none => []
  | some head => head.bytes

/-- The parser before the request line, or after a head. -/
def processBefore : Option Head → HttpProcess
  | none => fresh
  | some head => head.process

/-- The answer to a complete line that does not continue what stands before it. -/
inductive Offends : Option Head → List UInt8 → ParseResult → Prop where
  | longLine (before : Option Head) (line : List UInt8) (long : line.length > kMaxLineLen) :
      Offends before line .kLineTooLong
  | requestLine (line : List UInt8) (short : line.length ≤ kMaxLineLen)
      (malformed : ¬IsRequestLine line) : Offends none line .kError
  | tooManyHeaders (head : Head) (line : List UInt8) (short : line.length ≤ kMaxLineLen)
      (nonempty : line ≠ []) (full : head.headers.length = kMaxHeaderLines) :
      Offends (some head) line .kLineTooLong
  | header (head : Head) (line : List UInt8) (short : line.length ≤ kMaxLineLen)
      (nonempty : line ≠ []) (room : head.headers.length < kMaxHeaderLines)
      (malformed : ¬IsHeader line) : Offends (some head) line .kError
  | declaresBody (head : Head) (positive : head.contentLength > 0) :
      Offends (some head) [] .kError

/-- Every `Content-Length` number in a line after the first one of `bytes` fits
`unsigned long`. -/
def BoundedLengths (bytes : List UInt8) : Prop :=
  ∀ (lines : List (List UInt8)) (header rest : List UInt8), lines ≠ [] →
    (∀ line ∈ lines, Free cr lf line) → Free cr lf header →
    bytes = joined cr lf lines ++ terminated cr lf header ++ rest →
    headerName header = ascii "content-length" →
    (∀ byte ∈ headerValue header, isDigit byte) → decimal (headerValue header) < 2 ^ 64

theorem lineStep_requestLine {path version : List UInt8} (isPath : IsPath path)
    (known : IsVersion version) :
    lineStep fresh (requestLine path version) = .ok (.proceed (processAfter path version [])) := by
  simp only [lineStep, parseRequestLine_requestLine isPath known]
  rfl

theorem lineStep_malformed_requestLine {line : List UInt8} (malformed : ¬IsRequestLine line) :
    lineStep fresh line = .ok (.stop .kError fresh) := by
  simp only [lineStep, parseRequestLine_eq_none malformed]

theorem host_ne_connection : ascii "host" ≠ ascii "connection" := by
  decide

theorem host_ne_contentLength : ascii "host" ≠ ascii "content-length" := by
  decide

theorem connection_ne_contentLength : ascii "connection" ≠ ascii "content-length" := by
  decide

theorem requestOf_append_singleton (path version : List UInt8) (headers : List (List UInt8))
    (header : List UInt8) :
    requestOf path version (headers ++ [header]) =
      if headerName header = ascii "host" then
        { requestOf path version headers with host := headerValue header }
      else if headerName header = ascii "connection" then
        updateKeepAlive (requestOf path version headers) (headerValue header)
      else requestOf path version headers := by
  by_cases host : headerName header = ascii "host"
  · simp [requestOf, hostOf, keepAliveOf, valuesOf_append_singleton, host, host_ne_connection]
  · by_cases connection : headerName header = ascii "connection"
    · simp only [requestOf, hostOf, keepAliveOf, valuesOf_append_singleton, connection,
        host_ne_connection.symm, if_false, if_true, List.append_nil, List.foldl_append,
        List.foldl_cons, List.foldl_nil, updateKeepAlive, keepAliveStep]
      split
      · rfl
      · split <;> rfl
    · simp [requestOf, hostOf, keepAliveOf, valuesOf_append_singleton, host, connection]

theorem contentLengthOf_append_singleton (headers : List (List UInt8)) (header : List UInt8) :
    contentLengthOf (headers ++ [header]) =
      if headerName header = ascii "content-length" then decimal (headerValue header)
      else contentLengthOf headers := by
  by_cases named : headerName header = ascii "content-length" <;>
    simp [contentLengthOf, valuesOf_append_singleton, named]

theorem parseHeaderLine_of_isHeader {header : List UInt8} (wellFormed : IsHeader header)
    (bounded : headerName header = ascii "content-length" →
      decimal (headerValue header) < 2 ^ 64)
    (path version : List UInt8) (headers : List (List UInt8)) :
    parseHeaderLine header (requestOf path version headers) (contentLengthOf headers) =
      .ok (some (requestOf path version (headers ++ [header]),
        contentLengthOf (headers ++ [header]))) := by
  rw [parseHeaderLine_eq, requestOf_append_singleton, contentLengthOf_append_singleton,
    if_neg (not_not.mpr wellFormed.1)]
  by_cases host : headerName header = ascii "host"
  · simp [host, host_ne_contentLength]
  · by_cases connection : headerName header = ascii "connection"
    · simp [connection, host_ne_connection.symm, connection_ne_contentLength]
    · by_cases length : headerName header = ascii "content-length"
      · rcases wellFormed.2 length with ⟨nonempty, digits⟩
        have allDigits : (headerValue header).all isDigit = true := List.all_eq_true.mpr digits
        have converted : stoul (headerValue header) = .ok (decimal (headerValue header)) :=
          if_pos (bounded length)
        simp [length, nonempty, allDigits, converted, Except.map,
          host_ne_contentLength.symm, connection_ne_contentLength.symm]
      · simp [host, connection, length]

theorem parseHeaderLine_of_not_isHeader {header : List UInt8} (malformed : ¬IsHeader header)
    (req : HttpRequest) (contentLength : ℕ) :
    parseHeaderLine header req contentLength = .ok none := by
  rw [parseHeaderLine_eq]
  by_cases present : colon ∈ header
  · have lengthHeader : headerName header = ascii "content-length" ∧
        ¬(headerValue header ≠ [] ∧ ∀ byte ∈ headerValue header, isDigit byte) := by
      by_contra other
      refine malformed ⟨present, fun named => ?_⟩
      by_contra refused
      exact other ⟨named, refused⟩
    rcases lengthHeader with ⟨named, refused⟩
    rw [if_neg (not_not.mpr present), if_neg (by rw [named]; exact host_ne_contentLength.symm),
      if_neg (by rw [named]; exact connection_ne_contentLength.symm), if_pos named]
    by_cases nonempty : headerValue header = []
    · rw [if_pos nonempty]
    · have notDigits : ¬(headerValue header).all isDigit = true := by
        intro allDigits
        exact refused ⟨nonempty, List.all_eq_true.mp allDigits⟩
      rw [if_neg nonempty, if_pos notDigits]
  · rw [if_pos present]

theorem lineStep_header {head : Head} {header : List UInt8} (admissible : Admissible header)
    (wellFormed : IsHeader header) (room : head.headers.length < kMaxHeaderLines)
    (bounded : headerName header = ascii "content-length" →
      decimal (headerValue header) < 2 ^ 64) :
    lineStep head.process header =
      .ok (.proceed (head.push header admissible wellFormed room).process) := by
  have nonempty : header ≠ [] := by
    rintro rfl
    exact List.not_mem_nil wellFormed.1
  have parsed := parseHeaderLine_of_isHeader wellFormed bounded head.path head.version head.headers
  have counted : ¬head.headers.length + 1 > kMaxHeaderLines := by omega
  simp only [lineStep, Head.process, processAfter, nonempty, if_false, counted, parsed,
    Head.push, List.length_append, List.length_singleton]

theorem lineStep_empty (head : Head) :
    lineStep head.process [] =
      if head.contentLength > 0 then .ok (.stop .kError head.process)
      else .ok (.stop .kComplete { head.process with state := .kExpectRequestLine }) :=
  rfl

/-- What the parser answers to an offending line of admissible length. -/
theorem lineStep_of_offends {before : Option Head} {line : List UInt8} {result : ParseResult}
    (offends : Offends before line result) (short : line.length ≤ kMaxLineLen) :
    ∃ next, lineStep (processBefore before) line = .ok (.stop result next) := by
  cases offends with
  | longLine _ _ long => exact absurd short (Nat.not_le.mpr long)
  | requestLine _ _ malformed => exact ⟨fresh, lineStep_malformed_requestLine malformed⟩
  | tooManyHeaders head _ _ nonempty full =>
      have counted : head.headers.length + 1 > kMaxHeaderLines := by omega
      refine ⟨{ head.process with headerLineCount := head.headers.length + 1 }, ?_⟩
      simp only [processBefore, lineStep, Head.process, processAfter, nonempty, if_false, counted,
        if_true]
  | header head _ _ nonempty room malformed =>
      have counted : ¬head.headers.length + 1 > kMaxHeaderLines := by omega
      refine ⟨{ head.process with headerLineCount := head.headers.length + 1 }, ?_⟩
      simp only [processBefore, lineStep, Head.process, processAfter, nonempty, if_false, counted,
        parseHeaderLine_of_not_isHeader malformed]
  | declaresBody head positive =>
      refine ⟨head.process, ?_⟩
      simp only [processBefore]
      rw [lineStep_empty, if_pos positive]

/-- The `Content-Length` numbers of a head fit `unsigned long`. -/
def Head.Bounded (head : Head) : Prop :=
  ∀ header ∈ head.headers, headerName header = ascii "content-length" →
    decimal (headerValue header) < 2 ^ 64

theorem Head.bounded_of_boundedLengths {head : Head} {rest : List UInt8}
    (bounded : BoundedLengths (head.bytes ++ rest)) : head.Bounded := by
  intro header member named
  rcases List.append_of_mem member with ⟨before, after, headersEq⟩
  have admissible := head.lines_admissible
  refine bounded (requestLine head.path head.version :: before) header
    (joined cr lf after ++ rest) (by simp) ?_ ?_ ?_ named ?_
  · intro line lineMem
    apply (admissible line _).1
    simp only [Head.lines, headersEq]
    simp only [List.mem_cons, List.mem_append] at lineMem ⊢
    tauto
  · exact (head.headers_admissible header member).1
  · simp [Head.bytes, Head.lines, headersEq]
  · exact (head.headers_wellFormed header member).2 named |>.2

/-- A run of well-formed headers takes the parser from one head to a longer one. -/
theorem scan_joined_headers (head : Head) (more : List (List UInt8)) (rest : List UInt8)
    (admissible : ∀ header ∈ more, Admissible header) (wellFormed : ∀ header ∈ more, IsHeader header)
    (room : head.headers.length + more.length ≤ kMaxHeaderLines)
    (bounded : ∀ header ∈ more, headerName header = ascii "content-length" →
      decimal (headerValue header) < 2 ^ 64) :
    scan head.process (joined cr lf more ++ rest) =
      scan (processAfter head.path head.version (head.headers ++ more)) rest := by
  induction more generalizing head with
  | nil => simp [Head.process]
  | cons header more ih =>
      have headerOk := admissible header (by simp)
      have headerIs := wellFormed header (by simp)
      have headerRoom : head.headers.length < kMaxHeaderLines := by
        simp only [List.length_cons] at room
        omega
      have step := lineStep_header headerOk headerIs headerRoom (bounded header (by simp))
      have tail := ih (head.push header headerOk headerIs headerRoom)
        (fun other member => admissible other (by simp [member]))
        (fun other member => wellFormed other (by simp [member]))
        (by
          rw [Head.headers_push, List.length_append, List.length_singleton]
          rw [List.length_cons] at room
          omega)
        (fun other member => bounded other (by simp [member]))
      rw [joined_cons, List.append_assoc, scan_terminated headerOk.1 headerOk.2, step]
      simp only [tail, Head.headers_push, List.append_assoc, List.singleton_append]
      rfl

/-- The empty head with only a request line. -/
def Head.start (path version : List UInt8) (isPath : IsPath path) (isVersion : IsVersion version)
    (admissible : Admissible (requestLine path version)) : Head where
  path := path
  version := version
  headers := []
  isPath := isPath
  isVersion := isVersion
  requestLine_admissible := admissible
  headers_length_le := Nat.zero_le _
  headers_admissible := by simp
  headers_wellFormed := by simp

theorem scan_head {head : Head} (bounded : head.Bounded) (rest : List UInt8) :
    scan fresh (head.bytes ++ rest) = scan head.process rest := by
  have first := head.requestLine_admissible
  have headers := scan_joined_headers
    (Head.start head.path head.version head.isPath head.isVersion first) head.headers rest
    head.headers_admissible head.headers_wellFormed
    (by simpa [Head.start] using head.headers_length_le) bounded
  rw [Head.bytes, Head.lines, joined_cons, List.append_assoc, scan_terminated first.1 first.2,
    lineStep_requestLine head.isPath head.isVersion]
  exact headers

theorem scan_bytesBefore (before : Option Head) (rest : List UInt8)
    (bounded : BoundedLengths (bytesBefore before ++ rest)) :
    scan fresh (bytesBefore before ++ rest) = scan (processBefore before) rest := by
  cases before with
  | none => rfl
  | some head => exact scan_head (Head.bounded_of_boundedLengths bounded) rest

/-- A head without body and the empty line make a complete request. -/
theorem scan_complete {head : Head} (bounded : head.Bounded) (noBody : head.contentLength = 0)
    (left : List UInt8) :
    scan fresh (head.bytes ++ crlf ++ left) =
      .ok (.kComplete, { head.process with state := .kExpectRequestLine }, left) := by
  have emptyLine : crlf ++ left = terminated cr lf [] ++ left := rfl
  rw [List.append_assoc, scan_head bounded, emptyLine,
    scan_terminated (free_nil cr lf) (Nat.zero_le _), lineStep_empty,
    if_neg (by rw [noBody]; exact lt_irrefl 0)]

theorem scan_offending {before : Option Head} {line left : List UInt8} {result : ParseResult}
    (offends : Offends before line result) (free : Free cr lf line)
    (bounded : BoundedLengths (bytesBefore before ++ (terminated cr lf line ++ left))) :
    ∃ next rest, scan fresh (bytesBefore before ++ (terminated cr lf line ++ left)) =
      .ok (result, next, rest) := by
  rw [scan_bytesBefore before _ bounded]
  by_cases short : line.length ≤ kMaxLineLen
  · rcases lineStep_of_offends offends short with ⟨next, step⟩
    exact ⟨next, left, by rw [scan_terminated free short, step]⟩
  · have long : line.length > kMaxLineLen := Nat.not_le.mp short
    have cutEq := cut_terminated_append cr_ne_lf free left
    refine ⟨processBefore before, terminated cr lf line ++ left, ?_⟩
    rw [scan_of_cutLine_eq_some cutEq, if_pos long]
    cases offends with
    | longLine => rfl
    | tooManyHeaders => rfl
    | requestLine _ fits => exact absurd fits short
    | header _ _ fits => exact absurd fits short
    | declaresBody => exact absurd (Nat.zero_le _) short

theorem scan_unfinished {before : Option Head} {tail : List UInt8} (free : Free cr lf tail)
    (bounded : BoundedLengths (bytesBefore before ++ tail)) :
    scan fresh (bytesBefore before ++ tail) = .ok (.kNeedMore, processBefore before, tail) := by
  rw [scan_bytesBefore before _ bounded,
    scan_of_cutLine_eq_none (cut_eq_none_iff.mpr free)]

/-- The three ways in which a byte string can start. -/
inductive Shape : List UInt8 → Prop where
  | complete (head : Head) (left : List UInt8) (noBody : head.contentLength = 0) :
      Shape (head.bytes ++ crlf ++ left)
  | offending (before : Option Head) (line left : List UInt8) (result : ParseResult)
      (offends : Offends before line result) (free : Free cr lf line) :
      Shape (bytesBefore before ++ (terminated cr lf line ++ left))
  | unfinished (before : Option Head) (tail : List UInt8) (free : Free cr lf tail) :
      Shape (bytesBefore before ++ tail)

/-- A line that does not offend continues the head or ends the request. -/
theorem continues_of_not_offends (before : Option Head) (line : List UInt8)
    (free : Free cr lf line) (fine : ∀ result, ¬Offends before line result) :
    (∃ head, before = some head ∧ line = [] ∧ head.contentLength = 0) ∨
      ∃ longer : Head, longer.bytes = bytesBefore before ++ terminated cr lf line := by
  have short : line.length ≤ kMaxLineLen :=
    Nat.not_lt.mp fun long => fine _ (.longLine before line long)
  have admissible : Admissible line := ⟨free, short⟩
  cases before with
  | none =>
      have isRequestLine : IsRequestLine line := by
        by_contra malformed
        exact fine _ (.requestLine line short malformed)
      rcases isRequestLine with ⟨path, version, isPath, isVersion, rfl⟩
      right
      exact ⟨Head.start path version isPath isVersion admissible,
        by simp [Head.bytes, Head.lines, Head.start, bytesBefore]⟩
  | some head =>
      by_cases empty : line = []
      · subst line
        left
        refine ⟨head, rfl, rfl, ?_⟩
        by_contra positive
        exact fine _ (.declaresBody head (Nat.pos_of_ne_zero positive))
      · right
        have room : head.headers.length < kMaxHeaderLines := by
          apply lt_of_le_of_ne head.headers_length_le
          intro full
          exact fine _ (.tooManyHeaders head line short empty full)
        have isHeader : IsHeader line := by
          by_contra malformed
          exact fine _ (.header head line short empty room malformed)
        exact ⟨head.push line admissible isHeader room, head.bytes_push _ _ _ _⟩

theorem shape_of_bytesBefore_append (before : Option Head) (tail : List UInt8) :
    Shape (bytesBefore before ++ tail) := by
  induction size : tail.length using Nat.strongRecOn generalizing before tail with
  | _ size ih =>
      subst size
      cases cutEq : cutLine tail with
      | none => exact .unfinished before tail (cut_eq_none_iff.mp cutEq)
      | some pair =>
          rcases pair with ⟨line, left⟩
          have smaller := length_of_cut_eq_some cutEq
          rcases cut_eq_some cutEq with ⟨free, rfl⟩
          by_cases offends : ∃ result, Offends before line result
          · rcases offends with ⟨result, offends⟩
            exact .offending before line left result offends free
          · have fine : ∀ result, ¬Offends before line result := fun result offence =>
              offends ⟨result, offence⟩
            rcases continues_of_not_offends before line free fine with
              ⟨head, rfl, rfl, noBody⟩ | ⟨longer, bytesEq⟩
            · have ended := Shape.complete head left noBody
              rw [List.append_assoc] at ended
              exact ended
            · have next := ih left.length (by omega) (some longer) left rfl
              rw [bytesBefore, bytesEq, List.append_assoc] at next
              exact next

theorem shape_total (bytes : List UInt8) : Shape bytes :=
  shape_of_bytesBefore_append none bytes

/-- The scan of a fresh parser ends, and says which of the three ways it was. -/
theorem scan_decided {bytes : List UInt8} (bounded : BoundedLengths bytes) :
    ∃ result next left, scan fresh bytes = .ok (result, next, left) ∧
      (result = .kComplete → ∃ (head : Head) (left : List UInt8),
        head.contentLength = 0 ∧ bytes = head.bytes ++ crlf ++ left) ∧
      (result ≠ .kComplete →
        (∃ before line left, Offends before line result ∧ Free cr lf line ∧
          bytes = bytesBefore before ++ (terminated cr lf line ++ left)) ∨
        (result = .kNeedMore ∧ ∃ before tail, Free cr lf tail ∧
          bytes = bytesBefore before ++ tail)) := by
  cases shape_total bytes with
  | complete head left noBody =>
      rw [List.append_assoc] at bounded
      have scanned := scan_complete (Head.bounded_of_boundedLengths bounded) noBody left
      refine ⟨.kComplete, _, left, scanned, ?_, ?_⟩
      · exact fun _ => ⟨head, left, noBody, rfl⟩
      · exact fun other => absurd rfl other
  | offending before line left result offends free =>
      rcases scan_offending offends free bounded with ⟨next, rest, scanned⟩
      refine ⟨result, next, rest, scanned, ?_, ?_⟩
      · rintro rfl
        cases offends
      · exact fun _ => .inl ⟨before, line, left, offends, free, rfl⟩
  | unfinished before tail free =>
      refine ⟨.kNeedMore, _, tail, scan_unfinished free bounded, ?_, ?_⟩
      · intro impossible
        cases impossible
      · exact fun _ => .inr ⟨rfl, before, tail, free, rfl⟩

/-- A fresh parser accepts exactly the grammar, leaves what follows the request,
and releases the request the head describes; and otherwise the first offending
line, or the lack of one, decides the result. -/
theorem parse_accepts_exactly_grammar (readBuf : Buffer)
    (bounded : BoundedLengths readBuf.peek) :
    ∃ result next rest, fresh.parse readBuf = .ok (result, next, rest) ∧
      (result = .kComplete ↔ ∃ (head : Head) (left : List UInt8),
        head.contentLength = 0 ∧ readBuf.peek = head.bytes ++ crlf ++ left) ∧
      (∀ (head : Head) (left : List UInt8), head.contentLength = 0 →
        readBuf.peek = head.bytes ++ crlf ++ left →
        rest.peek = left ∧ next.releaseRequest.1 = head.request) ∧
      (∀ (before : Option Head) (line left : List UInt8) (verdict : ParseResult),
        Offends before line verdict → Free cr lf line →
        readBuf.peek = bytesBefore before ++ (terminated cr lf line ++ left) →
        result = verdict) ∧
      (∀ (before : Option Head) (tail : List UInt8), Free cr lf tail →
        readBuf.peek = bytesBefore before ++ tail → result = .kNeedMore) ∧
      (result ≠ .kComplete →
        (∃ before line left, Offends before line result ∧ Free cr lf line ∧
          readBuf.peek = bytesBefore before ++ (terminated cr lf line ++ left)) ∨
        (result = .kNeedMore ∧ ∃ before tail, Free cr lf tail ∧
          readBuf.peek = bytesBefore before ++ tail)) := by
  have completes : ∀ (head : Head) (left : List UInt8), head.contentLength = 0 →
      readBuf.peek = head.bytes ++ crlf ++ left → scan fresh readBuf.peek =
        .ok (.kComplete, { head.process with state := .kExpectRequestLine }, left) := by
    intro head left noBody bytesEq
    rw [bytesEq, List.append_assoc] at bounded
    rw [bytesEq]
    exact scan_complete (Head.bounded_of_boundedLengths bounded) noBody left
  have rejects : ∀ (before : Option Head) (line left : List UInt8) (verdict : ParseResult),
      Offends before line verdict → Free cr lf line →
      readBuf.peek = bytesBefore before ++ (terminated cr lf line ++ left) →
      ∃ next rest, scan fresh readBuf.peek = .ok (verdict, next, rest) := by
    intro before line left verdict offends free bytesEq
    rw [bytesEq] at bounded ⊢
    exact scan_offending offends free bounded
  have waits : ∀ (before : Option Head) (tail : List UInt8), Free cr lf tail →
      readBuf.peek = bytesBefore before ++ tail →
      scan fresh readBuf.peek = .ok (.kNeedMore, processBefore before, tail) := by
    intro before tail free bytesEq
    rw [bytesEq] at bounded ⊢
    exact scan_unfinished free bounded
  rcases scan_decided bounded with ⟨result, next, left, scanned, accepted, refused⟩
  rcases parse_of_scan scanned with ⟨rest, parsed, restEq⟩
  refine ⟨result, next, rest, parsed, ⟨accepted, ?_⟩, ?_, ?_, ?_, refused⟩
  · rintro ⟨head, left, noBody, bytesEq⟩
    rw [completes head left noBody bytesEq] at scanned
    simp only [Except.ok.injEq, Prod.mk.injEq] at scanned
    exact scanned.1.symm
  · intro head left noBody bytesEq
    rw [completes head left noBody bytesEq] at scanned
    simp only [Except.ok.injEq, Prod.mk.injEq] at scanned
    rcases scanned with ⟨_, rfl, rfl⟩
    exact ⟨restEq, rfl⟩
  · intro before line left verdict offends free bytesEq
    rcases rejects before line left verdict offends free bytesEq with ⟨_, _, rejected⟩
    rw [rejected] at scanned
    simp only [Except.ok.injEq, Prod.mk.injEq] at scanned
    exact scanned.1.symm
  · intro before tail free bytesEq
    rw [waits before tail free bytesEq] at scanned
    simp only [Except.ok.injEq, Prod.mk.injEq] at scanned
    exact scanned.1.symm

/-- The lengths are bounded where the lines behind the first one declare none that is not. -/
theorem boundedLengths_of_joined {first : List (List UInt8)} {last : List UInt8}
    (free : ∀ line ∈ first, Free cr lf line) (lastFree : Free cr lf last)
    (bounded : ∀ header ∈ first.tail, headerName header = ascii "content-length" →
      decimal (headerValue header) < 2 ^ 64) :
    BoundedLengths (joined cr lf first ++ last) := by
  intro lines header rest nonempty linesFree headerFree bytesEq named _
  have linesEq : joined cr lf first ++ last = joined cr lf (lines ++ [header]) ++ rest := by
    rw [bytesEq]
    simp
  have front : lines ++ [header] <+: first := by
    refine prefix_of_joined_append_eq (by decide) free lastFree ?_ linesEq
    simpa [or_imp, forall_and] using ⟨linesFree, headerFree⟩
  rcases front with ⟨more, rfl⟩
  refine bounded header ?_ named
  cases lines with
  | nil => exact absurd rfl nonempty
  | cons line lines => simp

/-- The converse of `Head.bounded_of_boundedLengths`, where no further line is complete. -/
theorem Head.Bounded.boundedLengths {head : Head} (bounded : head.Bounded) {left : List UInt8}
    (leftFree : Free cr lf left) : BoundedLengths (head.bytes ++ crlf ++ left) := by
  have linesEq : head.bytes ++ crlf = joined cr lf (head.lines ++ [[]]) := by
    rw [joined_append]
    rfl
  rw [linesEq]
  refine boundedLengths_of_joined ?_ leftFree ?_
  · intro line member
    rcases List.mem_append.mp member with inHead | empty
    · exact (head.lines_admissible line inHead).1
    · rw [List.mem_singleton.mp empty]
      exact free_nil cr lf
  · intro header member named
    rcases List.mem_append.mp member with inHead | empty
    · exact bounded header inHead named
    · rw [List.mem_singleton.mp empty] at named
      exact absurd named (by decide)

theorem isPath_root : IsPath (ascii "/") :=
  ⟨by decide, by decide⟩

theorem isVersion_one_one : IsVersion (ascii "HTTP/1.1") :=
  Or.inl rfl

theorem admissible_requestLine_root : Admissible (requestLine (ascii "/") (ascii "HTTP/1.1")) :=
  ⟨cut_eq_none_iff.mp (by decide), by decide⟩

/-- The head of a request for `/` with a header of each kind. -/
def shortHead : Head where
  path := ascii "/"
  version := ascii "HTTP/1.1"
  headers := [ascii "Host: localhost", ascii "Connection: close", ascii "Content-Length: 0"]
  isPath := isPath_root
  isVersion := isVersion_one_one
  requestLine_admissible := admissible_requestLine_root
  headers_length_le := by decide
  headers_admissible := by
    intro header member
    simp only [List.mem_cons, List.not_mem_nil, or_false] at member
    rcases member with rfl | rfl | rfl <;> exact ⟨free_of_not_mem_left (by decide), by decide⟩
  headers_wellFormed := by
    intro header member
    simp only [List.mem_cons, List.not_mem_nil, or_false] at member
    rcases member with rfl | rfl | rfl
    · exact ⟨by decide, fun named => absurd named (by decide)⟩
    · exact ⟨by decide, fun named => absurd named (by decide)⟩
    · exact ⟨by decide, fun _ => by decide +kernel⟩

/-- A request with headers is accepted; the bytes after it stay. -/
theorem parse_accepts_exactly_grammar_headers :
    ∃ next rest,
      fresh.parse (Buffer.init.sckToBuffer (ascii ("GET / HTTP/1.1\r\nHost: localhost\r\n" ++
        "Connection: close\r\nContent-Length: 0\r\n\r\nGET"))) =
          .ok (.kComplete, next, rest) ∧ rest.peek = ascii "GET" ∧
      next.releaseRequest.1.host = ascii "localhost" ∧
      next.releaseRequest.1.keepAlive = false := by
  have bytesEq : ascii ("GET / HTTP/1.1\r\nHost: localhost\r\n" ++
      "Connection: close\r\nContent-Length: 0\r\n\r\nGET") =
        shortHead.bytes ++ crlf ++ ascii "GET" := by
    decide +kernel
  have peekEq : (Buffer.init.sckToBuffer (shortHead.bytes ++ crlf ++ ascii "GET")).peek =
      shortHead.bytes ++ crlf ++ ascii "GET" := by
    rw [Buffer.peek_sckToBuffer, Buffer.peek_init, List.nil_append]
  have bounded : BoundedLengths
      (Buffer.init.sckToBuffer (shortHead.bytes ++ crlf ++ ascii "GET")).peek := by
    rw [peekEq]
    have small : shortHead.Bounded := by
      intro header member named
      simp only [shortHead, List.mem_cons, List.not_mem_nil, or_false] at member
      rcases member with rfl | rfl | rfl
      · exact absurd named (by decide)
      · exact absurd named (by decide)
      · decide +kernel
    exact small.boundedLengths (free_of_not_mem_left (by decide))
  rcases parse_accepts_exactly_grammar _ bounded with
    ⟨result, next, rest, parsed, accepted, contents, _⟩
  have complete := accepted.mpr ⟨shortHead, ascii "GET", by decide, peekEq⟩
  subst complete
  rcases contents shortHead (ascii "GET") (by decide) peekEq with ⟨left, released⟩
  rw [bytesEq]
  exact ⟨next, rest, parsed, left, by rw [released]; decide, by rw [released]; decide⟩

end HttpProcess

end MiniWebServer
