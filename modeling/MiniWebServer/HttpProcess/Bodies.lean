import MiniWebServer.HttpProcess.Acceptance

/-!
# Requests that declare a body

A `GET` request must not have a body: a positive `Content-Length` is answered
with 400. The parser keeps one number for all `Content-Length` lines of a
request, which it compares with zero at the empty line, and it converts each of
them with `std::stoul`, which throws from `2 ^ 64` on. Both leave their traces:
a request is refused for its declared length when its *last* such line is
positive, and only while every number fits.
-/

namespace MiniWebServer

open Delimited

namespace HttpProcess

/-- A `Content-Length` header of a positive number. -/
structure DeclaresBody (header : List UInt8) : Prop where
  named : headerName header = ascii "content-length"
  digits : headerValue header ≠ [] ∧ ∀ byte ∈ headerValue header, isDigit byte
  positive : 0 < decimal (headerValue header)

theorem decimal_append_singleton (digits : List UInt8) (digit : UInt8) :
    decimal (digits ++ [digit]) = decimal digits * 10 + (digit.toNat - 48) := by
  simp [decimal]

theorem decimal_pos {digits : List UInt8} (areDigits : ∀ digit ∈ digits, isDigit digit)
    (nonzero : ∃ digit ∈ digits, digit ≠ 48) : 0 < decimal digits := by
  induction digits using List.reverseRecOn with
  | nil => simp at nonzero
  | append_singleton digits last ih =>
      rw [decimal_append_singleton]
      rcases nonzero with ⟨digit, member, other⟩
      rcases List.mem_append.mp member with earlier | isLast
      · have tail := ih (fun digit earlier => areDigits digit (List.mem_append_left _ earlier))
          ⟨digit, earlier, other⟩
        omega
      · rw [List.mem_singleton] at isLast
        subst isLast
        have range := areDigits digit (by simp)
        simp only [isDigit, decide_eq_true_eq, UInt8.le_iff_toNat_le] at range
        have differs : digit.toNat ≠ 48 := by
          intro same
          apply other
          apply UInt8.toNat.inj
          exact same
        simp only [UInt8.reduceToNat] at range
        omega

theorem lineStep_unbounded {head : Head} {header : List UInt8} (wellFormed : IsHeader header)
    (room : head.headers.length < kMaxHeaderLines)
    (named : headerName header = ascii "content-length")
    (unbounded : ¬decimal (headerValue header) < 2 ^ 64) :
    lineStep head.process header = .error .outOfRange := by
  have nonempty : header ≠ [] := by
    rintro rfl
    exact List.not_mem_nil wellFormed.1
  have counted : ¬head.headers.length + 1 > kMaxHeaderLines := by omega
  rcases wellFormed.2 named with ⟨hasDigits, digits⟩
  have allDigits : (headerValue header).all isDigit = true := List.all_eq_true.mpr digits
  have raised : stoul (headerValue header) = .error .outOfRange := if_neg unbounded
  have parsed : parseHeaderLine header (requestOf head.path head.version head.headers)
      (contentLengthOf head.headers) = .error .outOfRange := by
    rw [parseHeaderLine_eq, if_neg (not_not.mpr wellFormed.1),
      if_neg (by rw [named]; exact host_ne_contentLength.symm),
      if_neg (by rw [named]; exact connection_ne_contentLength.symm), if_pos named,
      if_neg hasDigits, if_neg (not_not.mpr allDigits), raised]
    rfl
  simp only [lineStep, Head.process, processAfter, nonempty, if_false, counted, parsed]

/-- The first number that does not fit raises an exception. -/
theorem scan_head_of_not_bounded {head : Head} (unbounded : ¬head.Bounded) (rest : List UInt8) :
    scan fresh (head.bytes ++ rest) = .error .outOfRange := by
  let fits : List UInt8 → Bool := fun header =>
    headerName header = ascii "content-length" → decimal (headerValue header) < 2 ^ 64
  have found : (head.headers.find? fun header => !fits header).isSome := by
    rw [List.find?_isSome]
    by_contra allFit
    apply unbounded
    intro header member
    by_contra tooLarge
    exact allFit ⟨header, member, by simpa [fits] using tooLarge⟩
  rcases Option.isSome_iff_exists.mp found with ⟨header, found⟩
  rcases List.find?_eq_some_iff_append.mp found with ⟨large, before, after, headersEq, smaller⟩
  have member : header ∈ head.headers := by simp [headersEq]
  have large : headerName header = ascii "content-length" ∧
      ¬decimal (headerValue header) < 2 ^ 64 := by
    simpa [fits] using large
  have size : before.length + (after.length + 1) ≤ kMaxHeaderLines := by
    simpa [headersEq] using head.headers_length_le
  let start := Head.start head.path head.version head.isPath head.isVersion
    head.requestLine_admissible
  have first := head.requestLine_admissible
  -- The lines before the number that does not fit are those of a shorter head.
  let shorter : Head :=
    { start with
      headers := before
      headers_length_le := by omega
      headers_admissible := fun other earlier =>
        head.headers_admissible other (by simp [headersEq, earlier])
      headers_wellFormed := fun other earlier =>
        head.headers_wellFormed other (by simp [headersEq, earlier]) }
  have shorterBounded : shorter.Bounded := by
    intro other earlier named
    have fine := smaller other earlier
    simp only [fits, Bool.not_not, decide_eq_true_eq] at fine
    exact fine named
  have bytesEq : head.bytes ++ rest =
      shorter.bytes ++ (terminated cr lf header ++ (joined cr lf after ++ rest)) := by
    simp [Head.bytes, Head.lines, shorter, start, Head.start, headersEq]
  have admissible := head.headers_admissible header member
  have raised := @lineStep_unbounded shorter header (head.headers_wellFormed header member)
    (show before.length < kMaxHeaderLines by omega) large.1 large.2
  rw [bytesEq, scan_head shorterBounded, scan_terminated admissible.1 admissible.2, raised]

theorem scan_declared {head : Head} (bounded : head.Bounded) (declares : head.contentLength ≠ 0)
    (left : List UInt8) :
    scan fresh (head.bytes ++ crlf ++ left) = .ok (.kError, head.process, left) := by
  have emptyLine : crlf ++ left = terminated cr lf [] ++ left := rfl
  rw [List.append_assoc, scan_head bounded, emptyLine,
    scan_terminated (free_nil cr lf) (Nat.zero_le _), lineStep_empty,
    if_pos (Nat.pos_of_ne_zero declares)]

/-- What a fresh parser completes is a head whose numbers all fit and whose last
`Content-Length` is zero, whatever the numbers in the stream. -/
theorem head_of_scan_complete {bytes rest : List UInt8} {next : HttpProcess}
    (scanned : scan fresh bytes = .ok (.kComplete, next, rest)) :
    ∃ (head : Head) (left : List UInt8), head.Bounded ∧ head.contentLength = 0 ∧
      bytes = head.bytes ++ crlf ++ left := by
  have bounded : ∀ (head : Head) (tail : List UInt8), bytes = head.bytes ++ tail →
      head.Bounded := by
    intro head tail bytesEq
    by_contra unbounded
    rw [bytesEq, scan_head_of_not_bounded unbounded] at scanned
    cases scanned
  cases shape_total bytes with
  | complete head left noBody =>
      exact ⟨head, left, bounded head _ (List.append_assoc _ _ _), noBody, rfl⟩
  | offending before line left result offends free =>
      have started : scan fresh (bytesBefore before ++ (terminated cr lf line ++ left)) =
          scan (processBefore before) (terminated cr lf line ++ left) := by
        cases before with
        | none => rfl
        | some head => exact scan_head (bounded head _ rfl) _
      rw [started] at scanned
      by_cases short : line.length ≤ kMaxLineLen
      · rcases lineStep_of_offends offends short with ⟨stopped, step⟩
        rw [scan_terminated free short, step] at scanned
        simp only [Except.ok.injEq, Prod.mk.injEq] at scanned
        rcases scanned with ⟨rfl, _⟩
        cases offends
      · have cutEq := cut_terminated_append cr_ne_lf free left
        rw [scan_of_cutLine_eq_some cutEq, if_pos (Nat.not_le.mp short)] at scanned
        simp at scanned
  | unfinished before tail free =>
      have started : scan fresh (bytesBefore before ++ tail) =
          scan (processBefore before) tail := by
        cases before with
        | none => rfl
        | some head => exact scan_head (bounded head _ rfl) _
      rw [started, scan_of_cutLine_eq_none (cut_eq_none_iff.mpr free)] at scanned
      simp at scanned

theorem lines_eq_of_bytes_eq {head : Head} {line : List UInt8} {headers : List (List UInt8)}
    {left other : List UInt8} (lineFree : Free cr lf line)
    (headerLines : ∀ header ∈ headers, Free cr lf header ∧ header ≠ [])
    (same : joined cr lf (line :: headers) ++ crlf ++ left = head.bytes ++ crlf ++ other) :
    head.lines = line :: headers := by
  have ownLines : ∀ header ∈ head.headers, Free cr lf header ∧ header ≠ [] := by
    intro header member
    refine ⟨(head.headers_admissible header member).1, ?_⟩
    rintro rfl
    exact List.not_mem_nil (head.headers_wellFormed [] member).1
  have first := head.requestLine_admissible.1
  rw [Head.bytes, Head.lines, joined_cons, joined_cons, List.append_assoc, List.append_assoc,
    List.append_assoc, List.append_assoc] at same
  have cutEq := cut_terminated_append cr_ne_lf lineFree
    (joined cr lf headers ++ (crlf ++ left))
  rw [same, cut_terminated_append cr_ne_lf first] at cutEq
  simp only [Option.some.injEq, Prod.mk.injEq] at cutEq
  rcases cutEq with ⟨lineEq, restEq⟩
  have headersEq := (lines_eq_of_joined_append_eq cr_ne_lf ownLines headerLines restEq).1
  rw [Head.lines, lineEq, headersEq]

theorem bounded_iff_of_valuesOf {head : Head} {value : List UInt8}
    (only : valuesOf (ascii "content-length") head.headers = [value]) :
    head.Bounded ↔ decimal value < 2 ^ 64 := by
  have values : ∀ header ∈ head.headers, headerName header = ascii "content-length" →
      headerValue header = value := by
    intro header member named
    have isValue : headerValue header ∈ valuesOf (ascii "content-length") head.headers :=
      List.mem_map.mpr ⟨header, List.mem_filter.mpr ⟨member, by simpa using named⟩, rfl⟩
    rw [only] at isValue
    exact List.mem_singleton.mp isValue
  constructor
  · intro bounded
    have isValue : value ∈ valuesOf (ascii "content-length") head.headers := by simp [only]
    rcases List.mem_map.mp isValue with ⟨header, member, valueEq⟩
    rcases List.mem_filter.mp member with ⟨member, named⟩
    rw [← valueEq]
    exact bounded header member (by simpa using named)
  · intro fits header member named
    rw [values header member named]
    exact fits

theorem isDigit_of_valuesOf {head : Head} {value : List UInt8}
    (only : valuesOf (ascii "content-length") head.headers = [value]) :
    ∀ byte ∈ value, isDigit byte := by
  have isValue : value ∈ valuesOf (ascii "content-length") head.headers := by simp [only]
  rcases List.mem_map.mp isValue with ⟨header, member, rfl⟩
  rcases List.mem_filter.mp member with ⟨member, named⟩
  exact (head.headers_wellFormed header member).2 (by simpa using named) |>.2

/-- A number that does not fit ends the process instead of the connection. -/
theorem consume_of_unbounded {head : Head} (unbounded : ¬head.Bounded) (left : List UInt8) :
    consume fresh (head.bytes ++ crlf ++ left) = ([.raised .outOfRange], none) := by
  rw [consume_eq, List.append_assoc, scan_head_of_not_bounded unbounded]

theorem consume_of_declared {head : Head} (bounded : head.Bounded)
    (declares : head.contentLength ≠ 0) (left : List UInt8) :
    consume fresh (head.bytes ++ crlf ++ left) = ([.error], none) := by
  rw [consume_eq, scan_declared bounded declares]

theorem results_feed_messages {messages : List (List UInt8 × HttpRequest)}
    {message : List UInt8} {chunks : List (List UInt8)}
    (alone : ∀ pair ∈ messages, ParsedAlone pair.1 pair.2)
    (stream : chunks.flatten = (messages.map Prod.fst).flatten ++ message) :
    (feed chunks).1 =
      messages.map (fun pair => .complete pair.2) ++ (consume fresh message).1 := by
  have whole := onBytes_feed chunks
  rw [stream, consume_messages_append alone] at whole
  exact congrArg Prod.fst whole

/-- A request with one `Content-Length` header, of a positive number, is
answered with 400 if and only if the number fits `unsigned long`. -/
theorem feed_eq_error_iff_fits {messages : List (List UInt8 × HttpRequest)} {head : Head}
    {value left : List UInt8} {chunks : List (List UInt8)}
    (alone : ∀ pair ∈ messages, ParsedAlone pair.1 pair.2)
    (only : valuesOf (ascii "content-length") head.headers = [value])
    (nonzero : ∃ digit ∈ value, digit ≠ 48)
    (stream : chunks.flatten =
      (messages.map Prod.fst).flatten ++ (head.bytes ++ crlf ++ left)) :
    (feed chunks).1 = messages.map (fun pair => .complete pair.2) ++ [.error] ↔
      decimal value < 2 ^ 64 := by
  have declares : head.contentLength ≠ 0 := by
    have positive := decimal_pos (isDigit_of_valuesOf only) nonzero
    rw [Head.contentLength, contentLengthOf, only]
    exact positive.ne'
  rw [results_feed_messages alone stream, List.append_cancel_left_eq,
    ← bounded_iff_of_valuesOf only]
  constructor
  · intro refused
    by_contra unbounded
    rw [consume_of_unbounded unbounded] at refused
    simp at refused
  · intro bounded
    rw [consume_of_declared bounded declares]

theorem kMaxHeaderLines_pos : 0 < kMaxHeaderLines := by
  decide

/-- A head with one header, for the path `/`. -/
def Head.single (header : List UInt8) (admissible : Admissible header)
    (wellFormed : IsHeader header) : Head :=
  (Head.start (ascii "/") (ascii "HTTP/1.1") isPath_root isVersion_one_one
    admissible_requestLine_root).push header admissible wellFormed kMaxHeaderLines_pos

@[simp]
theorem Head.bytes_single (header : List UInt8) (admissible : Admissible header)
    (wellFormed : IsHeader header) :
    (Head.single header admissible wellFormed).bytes =
      joined cr lf [requestLine (ascii "/") (ascii "HTTP/1.1"), header] :=
  rfl

theorem feed_eq_error_iff_fits_five :
    (feed [ascii "GET / HTTP/1.1\r\nContent-Le", ascii "ngth: 5\r\n\r\nhello"]).1 =
      [.error] := by
  have isHeader : IsHeader (ascii "Content-Length: 5") :=
    ⟨by decide, fun _ => by decide +kernel⟩
  have admissible : Admissible (ascii "Content-Length: 5") :=
    ⟨cut_eq_none_iff.mp (by decide +kernel), by decide +kernel⟩
  have only : valuesOf (ascii "content-length") [ascii "Content-Length: 5"] = [ascii "5"] := by
    decide +kernel
  let head := Head.single (ascii "Content-Length: 5") admissible isHeader
  refine (@feed_eq_error_iff_fits [] head (ascii "5") (ascii "hello") _ (by simp) only
    (by decide +kernel) ?_).mpr (by decide +kernel)
  rw [Head.bytes_single]
  decide +kernel

/-- A number of twenty digits is not answered with 400. -/
theorem not_feed_eq_error_of_huge_length :
    ¬∀ (head : Head) (value : List UInt8) (chunks : List (List UInt8)),
      valuesOf (ascii "content-length") head.headers = [value] → (∃ digit ∈ value, digit ≠ 48) →
      chunks.flatten = head.bytes ++ crlf → (feed chunks).1 = [.error] := by
  intro always
  have isHeader : IsHeader (ascii "Content-Length: 18446744073709551616") :=
    ⟨by decide, fun _ => by decide +kernel⟩
  have admissible : Admissible (ascii "Content-Length: 18446744073709551616") :=
    ⟨cut_eq_none_iff.mp (by decide +kernel), by decide +kernel⟩
  let head := Head.single (ascii "Content-Length: 18446744073709551616") admissible isHeader
  have onlyHeader : valuesOf (ascii "content-length")
      [ascii "Content-Length: 18446744073709551616"] = [ascii "18446744073709551616"] := by
    decide +kernel
  have only : valuesOf (ascii "content-length") head.headers = [ascii "18446744073709551616"] :=
    onlyHeader
  have unbounded : ¬head.Bounded := by
    rw [bounded_iff_of_valuesOf only]
    decide +kernel
  have answered := always head _ [head.bytes ++ crlf] only (by decide +kernel) (by simp)
  have raised := @results_feed_messages [] (head.bytes ++ crlf ++ []) [head.bytes ++ crlf]
    (by simp) (by simp)
  rw [consume_of_unbounded unbounded, answered] at raised
  simp at raised

/-- A request that declares a body in one of its lines is not completed, unless
it is well-formed and its last `Content-Length` line takes the declaration back. -/
theorem feed_ne_complete_iff_last_declares {messages : List (List UInt8 × HttpRequest)}
    {line left : List UInt8} {headers chunks : List (List UInt8)}
    (alone : ∀ pair ∈ messages, ParsedAlone pair.1 pair.2) (lineFree : Free cr lf line)
    (headerLines : ∀ header ∈ headers, Free cr lf header ∧ header ≠ [])
    (stream : chunks.flatten = (messages.map Prod.fst).flatten ++
      (joined cr lf (line :: headers) ++ crlf ++ left)) :
    ((∃ header ∈ headers, DeclaresBody header) →
        ∀ request, (feed chunks).1[messages.length]? ≠ some (.complete request)) ↔
      ((∃ header ∈ headers, DeclaresBody header) →
        ∀ head : Head, head.lines = line :: headers → head.Bounded → head.contentLength ≠ 0) := by
  apply imp_congr_right
  intro _
  have next : (feed chunks).1[messages.length]? =
      (consume fresh (joined cr lf (line :: headers) ++ crlf ++ left)).1[0]? := by
    rw [results_feed_messages alone stream, List.getElem?_append_right (by simp), List.length_map,
      Nat.sub_self]
  rw [next]
  constructor
  · intro refused head linesEq bounded noBody
    apply refused head.request
    have bytesEq : joined cr lf (line :: headers) = head.bytes := by rw [Head.bytes, linesEq]
    rw [bytesEq, consume_of_complete (scan_complete bounded noBody left)]
    rfl
  · intro declares request completed
    rw [consume_eq] at completed
    cases scanned : scan fresh (joined cr lf (line :: headers) ++ crlf ++ left) with
    | error exception =>
        rw [scanned] at completed
        simp at completed
    | ok outcome =>
        rcases outcome with ⟨result, process, rest⟩
        rw [scanned] at completed
        cases result with
        | kNeedMore => simp at completed
        | kError => simp at completed
        | kLineTooLong => simp at completed
        | kComplete =>
            rcases head_of_scan_complete scanned with ⟨head, other, bounded, noBody, bytesEq⟩
            exact declares head (lines_eq_of_bytes_eq lineFree headerLines bytesEq) bounded noBody

/-- Two lengths, the last of which is positive, are refused. -/
theorem feed_ne_complete_iff_last_declares_twice :
    ¬∃ request, (feed [ascii "GET / HTTP/1.1\r\nContent-Length: 0\r\n",
      ascii "Content-Length: 5\r\n\r\nhello"]).1[0]? = some (.complete request) := by
  rintro ⟨request, completed⟩
  have declares : DeclaresBody (ascii "Content-Length: 5") :=
    ⟨by decide, by decide +kernel, by decide +kernel⟩
  have lastDeclares : contentLengthOf [ascii "Content-Length: 0", ascii "Content-Length: 5"] ≠ 0 := by
    decide +kernel
  refine (@feed_ne_complete_iff_last_declares [] (requestLine (ascii "/") (ascii "HTTP/1.1"))
    (ascii "hello") [ascii "Content-Length: 0", ascii "Content-Length: 5"] _ (by simp)
    (cut_eq_none_iff.mp (by decide +kernel)) ?_ (by decide +kernel)).mpr
    ?_ ⟨_, by simp, declares⟩ request completed
  · intro header member
    simp only [List.mem_cons, List.not_mem_nil, or_false] at member
    rcases member with rfl | rfl <;>
      exact ⟨cut_eq_none_iff.mp (by decide +kernel), by decide⟩
  · intro _ head linesEq _
    have headersEq : head.headers = [ascii "Content-Length: 0", ascii "Content-Length: 5"] :=
      (List.cons.inj linesEq).2
    rw [Head.contentLength, headersEq]
    exact lastDeclares

/-- A second length of zero takes the first one back, and the request is completed. -/
theorem not_feed_ne_complete_of_taken_back :
    ¬∀ (line left : List UInt8) (headers chunks : List (List UInt8)), Free cr lf line →
      (∀ header ∈ headers, Free cr lf header ∧ header ≠ []) →
      (∃ header ∈ headers, DeclaresBody header) →
      chunks.flatten = joined cr lf (line :: headers) ++ crlf ++ left →
      ∀ request, (feed chunks).1[0]? ≠ some (.complete request) := by
  intro always
  have firstHeader : IsHeader (ascii "Content-Length: 5") :=
    ⟨by decide, fun _ => by decide +kernel⟩
  have secondHeader : IsHeader (ascii "Content-Length: 0") :=
    ⟨by decide, fun _ => by decide +kernel⟩
  have firstLine : Admissible (ascii "Content-Length: 5") :=
    ⟨cut_eq_none_iff.mp (by decide +kernel), by decide +kernel⟩
  have secondLine : Admissible (ascii "Content-Length: 0") :=
    ⟨cut_eq_none_iff.mp (by decide +kernel), by decide +kernel⟩
  have declares : DeclaresBody (ascii "Content-Length: 5") :=
    ⟨by decide, by decide +kernel, by decide +kernel⟩
  let head := (Head.single _ firstLine firstHeader).push _ secondLine secondHeader
    (show 1 < kMaxHeaderLines by decide)
  have headersEq : head.headers = [ascii "Content-Length: 5", ascii "Content-Length: 0"] := rfl
  have noBody : head.contentLength = 0 := by
    rw [Head.contentLength, headersEq]
    decide +kernel
  have bounded : head.Bounded := by
    intro header member _
    rw [headersEq] at member
    simp only [List.mem_cons, List.not_mem_nil, or_false] at member
    rcases member with rfl | rfl <;> decide +kernel
  have refused := always (requestLine head.path head.version) [] head.headers
    [head.bytes ++ crlf] head.requestLine_admissible.1 ?_
    ⟨_, by simp [headersEq], declares⟩ (by simp [Head.bytes, Head.lines]) head.request
  · apply refused
    have completed := @results_feed_messages [] (head.bytes ++ crlf ++ []) [head.bytes ++ crlf]
      (by simp) (by simp)
    rw [consume_of_complete (scan_complete bounded noBody [])] at completed
    rw [completed]
    rfl
  · intro header member
    refine ⟨(head.headers_admissible header member).1, ?_⟩
    rintro rfl
    exact List.not_mem_nil (head.headers_wellFormed [] member).1

end HttpProcess

end MiniWebServer
