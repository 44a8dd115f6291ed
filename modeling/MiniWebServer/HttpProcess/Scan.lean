import MiniWebServer.HttpProcess

/-!
# Parsing as a machine that is fed lines

`HttpProcess.parse` works on a buffer with cursors. Here the same parser is
read as a machine over plain byte strings: cut the next line, let `lineStep`
decide, go on. `parse_eq_scan` says that the parser of the source computes this
machine on the readable bytes, so that the results below, and those of the
modules that follow, speak about `parse`.

The facts that matter are that the machine never looks behind the line it is
at: more input changes neither a line already cut nor what it did.
-/

namespace MiniWebServer

theorem cr_ne_lf : cr ≠ lf := by
  decide

/-- Cut a byte string at its first CRLF. -/
abbrev cutLine (bytes : List UInt8) : Option (List UInt8 × List UInt8) :=
  Delimited.cut cr lf bytes

namespace HttpProcess

/-- A parse result with the parser and the unconsumed bytes it leaves. -/
abbrev Scanned := Except CppException (ParseResult × HttpProcess × List UInt8)

/-- What one line does: end the parse with a result, or go on to the next line. -/
inductive LineStep where
  | stop (result : ParseResult) (process : HttpProcess)
  | proceed (process : HttpProcess)

/-- The effect of one complete line of admissible length. -/
def lineStep (process : HttpProcess) (line : List UInt8) : Except CppException LineStep :=
  match process.state with
  | .kExpectRequestLine =>
      match parseRequestLine line process.current with
      | none => .ok (.stop .kError process)
      | some request =>
          .ok (.proceed
            { state := .kExpectHeaders
              current := request
              contentLength := 0
              headerLineCount := 0 })
  | .kExpectHeaders =>
      if line = [] then
        if process.contentLength > 0 then .ok (.stop .kError process)
        else .ok (.stop .kComplete { process with state := .kExpectRequestLine })
      else
        let counted := { process with headerLineCount := process.headerLineCount + 1 }
        if counted.headerLineCount > kMaxHeaderLines then .ok (.stop .kLineTooLong counted)
        else
          match parseHeaderLine line counted.current counted.contentLength with
          | .error exception => .error exception
          | .ok none => .ok (.stop .kError counted)
          | .ok (some (request, length)) =>
              .ok (.proceed { counted with current := request, contentLength := length })

/-- Feed the machine the lines of a byte string until one of them ends the parse. -/
def scan (process : HttpProcess) (bytes : List UInt8) : Scanned :=
  match _found : cutLine bytes with
  | none => .ok (.kNeedMore, process, bytes)
  | some (line, rest) =>
      if line.length > kMaxLineLen then .ok (.kLineTooLong, process, bytes)
      else
        match lineStep process line with
        | .error exception => .error exception
        | .ok (.stop result next) => .ok (result, next, rest)
        | .ok (.proceed next) => scan next rest
termination_by bytes.length
decreasing_by
  have := Delimited.length_of_cut_eq_some _found
  omega

theorem scan_of_cutLine_eq_none {process : HttpProcess} {bytes : List UInt8}
    (noLine : cutLine bytes = none) : scan process bytes = .ok (.kNeedMore, process, bytes) := by
  rw [scan]
  split
  · rfl
  · next found => rw [noLine] at found; cases found

theorem scan_of_cutLine_eq_some {process : HttpProcess} {bytes line rest : List UInt8}
    (hasLine : cutLine bytes = some (line, rest)) :
    scan process bytes =
      if line.length > kMaxLineLen then .ok (.kLineTooLong, process, bytes)
      else
        match lineStep process line with
        | .error exception => .error exception
        | .ok (.stop result next) => .ok (result, next, rest)
        | .ok (.proceed next) => scan next rest := by
  rw [scan]
  split
  · next found => rw [hasLine] at found; cases found
  · next found =>
    rw [hasLine] at found
    cases found
    rfl

/-- The machine on a byte string that starts with a complete line. -/
theorem scan_terminated {process : HttpProcess} {line : List UInt8}
    (free : Delimited.Free cr lf line) (short : line.length ≤ kMaxLineLen)
    (rest : List UInt8) :
    scan process (Delimited.terminated cr lf line ++ rest) =
      match lineStep process line with
      | .error exception => .error exception
      | .ok (.stop result next) => .ok (result, next, rest)
      | .ok (.proceed next) => scan next rest := by
  have hasLine := Delimited.cut_terminated_append cr_ne_lf free rest
  rw [scan_of_cutLine_eq_some hasLine, if_neg (Nat.not_lt.mpr short)]

/-- No line asks for more input. -/
theorem ne_needMore_of_lineStep_eq_stop {process next : HttpProcess} {line : List UInt8}
    {result : ParseResult} (step : lineStep process line = .ok (.stop result next)) :
    result ≠ .kNeedMore := by
  rintro rfl
  unfold lineStep at step
  split at step
  · split at step <;> simp at step
  · split at step
    · split at step <;> simp at step
    · simp only at step
      split at step
      · simp at step
      · split at step <;> simp at step

/-- `retrieveLine` cuts the readable bytes at their first CRLF. -/
theorem retrieveLine_eq (readBuf : Buffer) :
    (cutLine readBuf.peek = none ∧ retrieveLine readBuf = .needMore) ∨
    (∃ line rest, cutLine readBuf.peek = some (line, rest) ∧ line.length > kMaxLineLen ∧
      retrieveLine readBuf = .lineTooLong) ∨
    (∃ line rest, cutLine readBuf.peek = some (line, rest.peek) ∧ line.length ≤ kMaxLineLen ∧
      retrieveLine readBuf = .line line rest) := by
  have position := readBuf.findCRLF_eq_map_cut
  unfold retrieveLine
  split
  · next missing =>
    rw [missing] at position
    exact Or.inl ⟨Option.map_eq_none_iff.mp position.symm, rfl⟩
  · next crlf found =>
    rw [found, eq_comm, Option.map_eq_some_iff] at position
    rcases position with ⟨⟨line, rest⟩, cutEq, rfl⟩
    right
    split
    · next long => exact Or.inl ⟨line, rest, cutEq, long, rfl⟩
    · next short =>
      right
      have contents := (Delimited.cut_eq_some cutEq).2
      have lineEq : readBuf.peek.take line.length = line := by
        simp [contents, Delimited.terminated]
      have restEq : readBuf.peek.drop (line.length + 2) = rest := by
        rw [contents]
        exact List.drop_left' (by simp [Delimited.terminated])
      refine ⟨line, readBuf.retrieve (line.length + 2)
        (Buffer.add_two_le_readable_of_findCRLF found), ?_, Nat.not_lt.mp short, ?_⟩
      · rw [Buffer.peek_retrieve, restEq]
        exact cutEq
      · simp only [lineEq]

/-- Replace the buffer left by a parse by its readable bytes. -/
def onBytes (parsed : Except CppException (ParseResult × HttpProcess × Buffer)) : Scanned :=
  parsed.map fun outcome => (outcome.1, outcome.2.1, outcome.2.2.peek)

theorem parseHeaders_of_inHeaders {process : HttpProcess} {readBuf : Buffer}
    (inHeaders : process.state = .kExpectHeaders) :
    parseHeaders process readBuf =
      match retrieveLine readBuf with
      | .needMore => .ok (.kNeedMore, process, readBuf)
      | .lineTooLong => .ok (.kLineTooLong, process, readBuf)
      | .line line rest =>
          match lineStep process line with
          | .error exception => .error exception
          | .ok (.stop result next) => .ok (result, next, rest)
          | .ok (.proceed next) => parseHeaders next rest := by
  rw [parseHeaders]
  split
  · next atRequestLine => rw [inHeaders] at atRequestLine; cases atRequestLine
  · split
    · next retrieved => rw [retrieved]
    · next retrieved => rw [retrieved]
    · next line rest retrieved =>
      rw [retrieved]
      simp only [lineStep, inHeaders]
      split
      · split <;> rfl
      · split
        · rfl
        · rcases parseHeaderLine line process.current process.contentLength with
            exception | _ | ⟨request, length⟩ <;> rfl

theorem state_of_lineStep_eq_proceed {process next : HttpProcess} {line : List UInt8}
    (step : lineStep process line = .ok (.proceed next)) : next.state = .kExpectHeaders := by
  unfold lineStep at step
  split at step
  · split at step
    · simp at step
    · simp only [Except.ok.injEq, LineStep.proceed.injEq] at step
      subst next
      rfl
  · next inHeaders =>
    split at step
    · split at step <;> simp at step
    · simp only at step
      split at step
      · simp at step
      · split at step
        · simp at step
        · simp at step
        · simp only [Except.ok.injEq, LineStep.proceed.injEq] at step
          subst next
          exact inHeaders

theorem parseHeaders_eq_scan {process : HttpProcess} {readBuf : Buffer}
    (inHeaders : process.state = .kExpectHeaders) :
    onBytes (parseHeaders process readBuf) = scan process readBuf.peek := by
  induction size : readBuf.readable using Nat.strongRecOn generalizing process readBuf with
  | _ size ih =>
      subst size
      rw [parseHeaders_of_inHeaders inHeaders]
      rcases retrieveLine_eq readBuf with
        ⟨noLine, retrieved⟩ | ⟨line, rest, hasLine, long, retrieved⟩ |
          ⟨line, rest, hasLine, short, retrieved⟩
      · rw [scan_of_cutLine_eq_none noLine, retrieved]
        rfl
      · rw [scan_of_cutLine_eq_some hasLine, if_pos long, retrieved]
        rfl
      · have smaller := readable_lt_of_retrieveLine retrieved
        rw [scan_of_cutLine_eq_some hasLine, if_neg (Nat.not_lt.mpr short), retrieved]
        simp only
        split
        · rfl
        · rfl
        · next step => exact ih rest.readable smaller (state_of_lineStep_eq_proceed step) rfl

/-- The parser of the source is the line machine on the readable bytes. -/
theorem parse_eq_scan (process : HttpProcess) (readBuf : Buffer) :
    onBytes (process.parse readBuf) = scan process readBuf.peek := by
  unfold parse
  split
  · next atRequestLine =>
    rcases retrieveLine_eq readBuf with
      ⟨noLine, retrieved⟩ | ⟨line, rest, hasLine, long, retrieved⟩ |
        ⟨line, rest, hasLine, short, retrieved⟩
    · rw [scan_of_cutLine_eq_none noLine, retrieved]
      rfl
    · rw [scan_of_cutLine_eq_some hasLine, if_pos long, retrieved]
      rfl
    · rw [scan_of_cutLine_eq_some hasLine, if_neg (Nat.not_lt.mpr short), lineStep,
        atRequestLine, retrieved]
      simp only
      rcases parseRequestLine line process.current with _ | request
      · rfl
      · exact parseHeaders_eq_scan rfl
  · next inHeaders => exact parseHeaders_eq_scan inHeaders

theorem scan_of_parse {process next : HttpProcess} {readBuf rest : Buffer} {result : ParseResult}
    (parsed : process.parse readBuf = .ok (result, next, rest)) :
    scan process readBuf.peek = .ok (result, next, rest.peek) := by
  rw [← parse_eq_scan, parsed]
  rfl

theorem parse_of_scan {process next : HttpProcess} {readBuf : Buffer} {left : List UInt8}
    {result : ParseResult} (scanned : scan process readBuf.peek = .ok (result, next, left)) :
    ∃ rest, process.parse readBuf = .ok (result, next, rest) ∧ rest.peek = left := by
  rw [← parse_eq_scan] at scanned
  cases parsed : process.parse readBuf with
  | error exception => simp [parsed, onBytes, Except.map] at scanned
  | ok outcome =>
      rcases outcome with ⟨result', next', rest⟩
      simp only [parsed, onBytes, Except.map, Except.ok.injEq, Prod.mk.injEq] at scanned
      rcases scanned with ⟨rfl, rfl, rfl⟩
      exact ⟨rest, rfl, rfl⟩

/-- What a finished scan comes to when more input arrives: only a scan that
asked for more goes on. -/
def resume (scanned : Scanned) (later : List UInt8) : Scanned :=
  match scanned with
  | .error exception => .error exception
  | .ok (result, next, rest) =>
      if result = .kNeedMore then scan next (rest ++ later)
      else .ok (result, next, rest ++ later)

theorem scan_append (process : HttpProcess) (bytes later : List UInt8) :
    scan process (bytes ++ later) = resume (scan process bytes) later := by
  induction size : bytes.length using Nat.strongRecOn generalizing process bytes with
  | _ size ih =>
      subst size
      cases cutEq : cutLine bytes with
      | none =>
          rw [scan_of_cutLine_eq_none cutEq]
          simp [resume]
      | some pair =>
          rcases pair with ⟨line, tail⟩
          have cutLater := Delimited.cut_append_of_eq_some cr_ne_lf cutEq later
          rw [scan_of_cutLine_eq_some cutEq, scan_of_cutLine_eq_some cutLater]
          by_cases long : line.length > kMaxLineLen
          · rw [if_pos long, if_pos long]
            simp [resume]
          · rw [if_neg long, if_neg long]
            split
            · rfl
            · next step =>
              have decided := ne_needMore_of_lineStep_eq_stop step
              simp [resume, decided]
            · have smaller := Delimited.length_of_cut_eq_some cutEq
              exact ih tail.length (by omega) _ tail rfl

theorem scan_append_of_needMore {process next : HttpProcess} {bytes rest : List UInt8}
    (scanned : scan process bytes = .ok (.kNeedMore, next, rest)) (later : List UInt8) :
    scan process (bytes ++ later) = scan next (rest ++ later) := by
  rw [scan_append, scanned]
  simp [resume]

theorem scan_append_of_ne_needMore {process next : HttpProcess} {bytes rest : List UInt8}
    {result : ParseResult} (scanned : scan process bytes = .ok (result, next, rest))
    (decided : result ≠ .kNeedMore) (later : List UInt8) :
    scan process (bytes ++ later) = .ok (result, next, rest ++ later) := by
  rw [scan_append, scanned]
  simp [resume, decided]

theorem scan_append_of_error {process : HttpProcess} {bytes : List UInt8}
    {exception : CppException} (scanned : scan process bytes = .error exception)
    (later : List UInt8) : scan process (bytes ++ later) = .error exception := by
  rw [scan_append, scanned]
  rfl

/-- A complete request has consumed its blank line at least. -/
theorem length_lt_of_scan_eq_complete {process next : HttpProcess} {bytes rest : List UInt8}
    (scanned : scan process bytes = .ok (.kComplete, next, rest)) :
    rest.length + 2 ≤ bytes.length := by
  induction size : bytes.length using Nat.strongRecOn generalizing process bytes with
  | _ size ih =>
      subst size
      cases cutEq : cutLine bytes with
      | none => simp [scan_of_cutLine_eq_none cutEq] at scanned
      | some pair =>
          rcases pair with ⟨line, tail⟩
          have smaller := Delimited.length_of_cut_eq_some cutEq
          rw [scan_of_cutLine_eq_some cutEq] at scanned
          split at scanned
          · simp at scanned
          · split at scanned
            · simp at scanned
            · simp only [Except.ok.injEq, Prod.mk.injEq] at scanned
              rcases scanned with ⟨_, _, rfl⟩
              omega
            · have := ih tail.length (by omega) scanned rfl
              omega

end HttpProcess

end MiniWebServer
