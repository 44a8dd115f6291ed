import MiniWebServer.HttpProcess.Grammar

/-!
# What a parse leaves in the buffer, and what it takes out

A parse that asks for more input leaves the line that has begun. The length of
a line is tested when its CRLF has been found, so that nothing bounds a line
that has none: the unread bytes keep to the limit exactly when the client does.

A complete request takes its empty line out of the buffer at least, and at
least its request line as well when the parser is between two requests.
-/

namespace MiniWebServer

open Delimited

namespace HttpProcess

/-- The line that the bytes leave unfinished. -/
abbrev unfinished (bytes : List UInt8) : List UInt8 :=
  remainder cr lf bytes

/-- How long an unfinished line is already; a CR at its end may belong to its terminator. -/
def lengthSoFar (line : List UInt8) : ℕ :=
  if line.getLast? = some cr then line.length - 1 else line.length

/-- The unread bytes keep to the line limit, and so does the line that they begin. -/
structure WithinLimit (readBuf : Buffer) : Prop where
  readable_le : readBuf.readable ≤ kMaxLineLen + 1
  line_le : lengthSoFar readBuf.peek ≤ kMaxLineLen

theorem withinLimit_iff (readBuf : Buffer) :
    WithinLimit readBuf ↔ lengthSoFar readBuf.peek ≤ kMaxLineLen := by
  constructor
  · exact WithinLimit.line_le
  · intro short
    refine ⟨?_, short⟩
    rw [← Buffer.length_peek]
    unfold lengthSoFar at short
    split at short <;> omega

theorem unfinished_of_scan {process next : HttpProcess} {bytes rest : List UInt8}
    (scanned : scan process bytes = .ok (.kNeedMore, next, rest)) : rest = unfinished bytes := by
  induction size : bytes.length using Nat.strongRecOn generalizing process bytes with
  | _ size ih =>
      subst size
      cases cutEq : cutLine bytes with
      | none =>
          rw [scan_of_cutLine_eq_none cutEq] at scanned
          simp only [Except.ok.injEq, Prod.mk.injEq, true_and] at scanned
          rw [unfinished, remainder_of_cut_eq_none cutEq]
          exact scanned.2.symm
      | some pair =>
          rcases pair with ⟨line, tail⟩
          have smaller := length_of_cut_eq_some cutEq
          rw [scan_of_cutLine_eq_some cutEq] at scanned
          rw [unfinished, remainder_of_cut_eq_some cutEq]
          split at scanned
          · simp at scanned
          · split at scanned
            · cases scanned
            · next step =>
              have decided := ne_needMore_of_lineStep_eq_stop step
              simp only [Except.ok.injEq, Prod.mk.injEq] at scanned
              exact absurd scanned.1 decided
            · exact ih tail.length (by omega) scanned rfl

/-- A complete request has been cut out in front of an unfinished line. -/
theorem unfinished_of_complete {process next : HttpProcess} {bytes rest : List UInt8}
    (scanned : scan process bytes = .ok (.kComplete, next, rest)) :
    unfinished bytes = unfinished rest := by
  induction size : bytes.length using Nat.strongRecOn generalizing process bytes with
  | _ size ih =>
      subst size
      cases cutEq : cutLine bytes with
      | none => simp [scan_of_cutLine_eq_none cutEq] at scanned
      | some pair =>
          rcases pair with ⟨line, tail⟩
          have smaller := length_of_cut_eq_some cutEq
          rw [scan_of_cutLine_eq_some cutEq] at scanned
          rw [unfinished, remainder_of_cut_eq_some cutEq]
          split at scanned
          · simp at scanned
          · split at scanned
            · cases scanned
            · simp only [Except.ok.injEq, Prod.mk.injEq] at scanned
              rw [scanned.2.2]
            · exact ih tail.length (by omega) scanned rfl

theorem unfinished_of_consume {process next : HttpProcess} {bytes rest : List UInt8}
    (waits : (consume process bytes).2 = some (next, rest)) : rest = unfinished bytes := by
  induction size : bytes.length using Nat.strongRecOn generalizing process bytes with
  | _ size ih =>
      subst size
      rw [consume_eq] at waits
      split at waits
      · cases waits
      · next scanned =>
        cases waits
        exact unfinished_of_scan scanned
      · cases waits
      · cases waits
      · next scanned =>
        have smaller := length_lt_of_scan_eq_complete scanned
        rw [unfinished_of_complete scanned]
        exact ih _ (by omega) waits rfl

/-- What a waiting parser has not read keeps to the limit if and only if the
line that its input leaves unfinished does; over a call of `parse` on any
buffer, and over any stream in any chunks. -/
theorem withinLimit_iff_unfinished (process : HttpProcess) (readBuf : Buffer)
    (chunks : List (List UInt8)) (next : HttpProcess) (rest : Buffer) :
    (process.parse readBuf = .ok (.kNeedMore, next, rest) →
      (WithinLimit rest ↔ lengthSoFar (unfinished readBuf.peek) ≤ kMaxLineLen)) ∧
    ((feed chunks).2 = some (next, rest) →
      (WithinLimit rest ↔ lengthSoFar (unfinished chunks.flatten) ≤ kMaxLineLen)) := by
  constructor
  · intro parsed
    rw [withinLimit_iff, unfinished_of_scan (scan_of_parse parsed)]
  · intro waits
    have consumed := congrArg Prod.snd (onBytes_feed chunks)
    simp only [Session.onBytes, waits, Option.map_some] at consumed
    rw [withinLimit_iff, unfinished_of_consume consumed.symm]

/-- Half a request line waits within the limit. -/
theorem withinLimit_iff_unfinished_half :
    ∃ next rest, (feed [ascii "GET /", ascii " HTTP/1.1\r"]).2 = some (next, rest) ∧
      WithinLimit rest := by
  have waiting : (feed [ascii "GET /", ascii " HTTP/1.1\r"]).2.isSome = true := by
    decide +kernel
  rcases Option.isSome_iff_exists.mp waiting with ⟨⟨next, rest⟩, waits⟩
  have told := (withinLimit_iff_unfinished fresh .init _ next rest).2 waits
  exact ⟨next, rest, waits, told.mpr (by decide +kernel)⟩

/-- A stream without a line feed is not read at all. -/
theorem feed_of_no_lf {bytes : List UInt8} (absent : lf ∉ bytes) :
    ∃ rest, (feed [bytes]).2 = some (fresh, rest) ∧ rest.peek = bytes := by
  have noLine : cutLine bytes = none := cut_eq_none_iff.mpr (free_of_not_mem_right absent)
  have consumed := congrArg Prod.snd (onBytes_feed [bytes])
  rw [List.flatten_singleton, consume_eq, scan_of_cutLine_eq_none noLine] at consumed
  rcases Option.map_eq_some_iff.mp consumed with ⟨⟨process, rest⟩, waits, shown⟩
  simp only [Prod.mk.injEq] at shown
  rcases shown with ⟨rfl, shown⟩
  exact ⟨rest, waits, shown⟩

/-- Of a line of 8194 bytes without a terminator nothing is read, and nothing is refused. -/
theorem not_readable_le_of_unterminated :
    ¬∀ (chunks : List (List UInt8)) (next : HttpProcess) (rest : Buffer),
      (feed chunks).2 = some (next, rest) → rest.readable ≤ kMaxLineLen + 1 := by
  intro always
  have absent : lf ∉ List.replicate 8194 (65 : UInt8) := by
    rw [List.mem_replicate]
    decide
  rcases feed_of_no_lf absent with ⟨rest, waits, shown⟩
  have short := always _ _ rest waits
  rw [← Buffer.length_peek, shown, List.length_replicate] at short
  exact absurd short (by decide)

theorem add_two_le_of_retrieveLine {readBuf rest : Buffer} {line : List UInt8}
    (retrieved : retrieveLine readBuf = .line line rest) :
    rest.readable + 2 ≤ readBuf.readable := by
  rcases retrieveLine_eq readBuf with
    ⟨_, waits⟩ | ⟨_, _, _, _, refused⟩ | ⟨_, _, hasLine, _, taken⟩
  · rw [waits] at retrieved
    cases retrieved
  · rw [refused] at retrieved
    cases retrieved
  · rw [taken] at retrieved
    cases retrieved
    have size := length_of_cut_eq_some hasLine
    simp only [Buffer.length_peek] at size
    omega

/-- `GET`, a slash, a version and two spaces. -/
theorem length_of_isRequestLine {line : List UInt8} (formed : IsRequestLine line) :
    14 ≤ line.length := by
  rcases formed with ⟨path, version, ⟨slashFirst, _⟩, isVersion, rfl⟩
  have path_pos : 0 < path.length := by
    cases path with
    | nil => cases slashFirst
    | cons => simp
  have version_length : version.length = 8 := by
    rcases isVersion with rfl | rfl <;> rfl
  simp only [requestLine, List.length_append, List.length_cons, version_length]
  simp [ascii]
  omega

/-- A request that starts with its request line takes eighteen bytes at least. -/
theorem add_eighteen_le_of_complete {process next : HttpProcess} {bytes rest : List UInt8}
    (atRequestLine : process.state = .kExpectRequestLine)
    (scanned : scan process bytes = .ok (.kComplete, next, rest)) :
    rest.length + 18 ≤ bytes.length := by
  cases cutEq : cutLine bytes with
  | none => simp [scan_of_cutLine_eq_none cutEq] at scanned
  | some pair =>
      rcases pair with ⟨line, tail⟩
      have size := length_of_cut_eq_some cutEq
      rw [scan_of_cutLine_eq_some cutEq, lineStep, atRequestLine] at scanned
      split at scanned
      · simp at scanned
      · have formed : IsRequestLine line := by
          by_contra malformed
          simp [parseRequestLine_eq_none malformed] at scanned
        have lineSize := length_of_isRequestLine formed
        cases parsed : parseRequestLine line process.current with
        | none => simp [parsed] at scanned
        | some request =>
            simp only [parsed] at scanned
            have later := length_lt_of_scan_eq_complete scanned
            omega

/-- A complete request takes its empty line out of the buffer, and eighteen
bytes when a fresh parser has read it. -/
theorem readable_of_parse_eq_complete {process next : HttpProcess} {readBuf rest : Buffer}
    (parsed : process.parse readBuf = .ok (.kComplete, next, rest)) :
    rest.readable + 2 ≤ readBuf.readable ∧
      (process = fresh → rest.readable + 18 ≤ readBuf.readable) := by
  have scanned := scan_of_parse parsed
  simp only [← Buffer.length_peek]
  constructor
  · exact length_lt_of_scan_eq_complete scanned
  · rintro rfl
    exact add_eighteen_le_of_complete rfl scanned

end HttpProcess

end MiniWebServer
