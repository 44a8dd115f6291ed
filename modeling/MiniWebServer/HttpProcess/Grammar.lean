import MiniWebServer.HttpProcess.Stream

/-!
# The language the parser accepts

A request is a request line and at most a hundred header lines, each followed
by CRLF, and an empty line. `Head` is the part before the empty line; its
fields carry everything the grammar asks of it, so that a malformed head cannot
be written down. What the accepted request says is read off the head: the last
`Host` header, the last `Content-Length` header, and the `Connection` headers
from left to right.

`Offends` says, line by line, what the parser answers to the first line that
does not continue a head. Every byte string falls under exactly one of three
cases, and the parser of the source distinguishes them:

* it starts with a head and the empty line, and the head declares no body;
* it starts with a head (or with nothing) and an offending line;
* it is a head (or nothing) followed by an unfinished line.
-/

namespace MiniWebServer

open Delimited

namespace HttpProcess

/-- A line that fits between two CRLF and within the line limit. -/
def Admissible (line : List UInt8) : Prop :=
  Free cr lf line ∧ line.length ≤ kMaxLineLen

/-- `GET`, the path and the version, separated by single spaces. -/
def requestLine (path version : List UInt8) : List UInt8 :=
  ascii "GET" ++ space :: path ++ space :: version

/-- A path as the parser wants it. -/
def IsPath (path : List UInt8) : Prop :=
  path.head? = some slash ∧ space ∉ path

/-- The versions the parser knows. -/
def IsVersion (version : List UInt8) : Prop :=
  version = ascii "HTTP/1.1" ∨ version = ascii "HTTP/1.0"

/-- A well-formed request line. -/
def IsRequestLine (line : List UInt8) : Prop :=
  ∃ path version, IsPath path ∧ IsVersion version ∧ line = requestLine path version

/-- The name of a header: what stands before the first colon, in lower case. -/
def headerName (header : List UInt8) : List UInt8 :=
  toLower (header.takeWhile (· ≠ colon))

/-- The value of a header: what stands after the first colon and leading spaces. -/
def headerValue (header : List UInt8) : List UInt8 :=
  ((header.dropWhile (· ≠ colon)).drop 1).dropWhile (· = space)

/-- A well-formed header: it has a colon, and a content length is a number. -/
def IsHeader (header : List UInt8) : Prop :=
  colon ∈ header ∧
    (headerName header = ascii "content-length" →
      headerValue header ≠ [] ∧ ∀ byte ∈ headerValue header, isDigit byte)

/-- The values of the headers of one name, in order. -/
def valuesOf (name : List UInt8) (headers : List (List UInt8)) : List (List UInt8) :=
  (headers.filter fun header => headerName header = name).map headerValue

/-- The value of the last `Host` header. -/
def hostOf (headers : List (List UInt8)) : List UInt8 :=
  (valuesOf (ascii "host") headers).getLast?.getD []

/-- The number in the last `Content-Length` header. -/
def contentLengthOf (headers : List (List UInt8)) : ℕ :=
  ((valuesOf (ascii "content-length") headers).map decimal).getLast?.getD 0

/-- What one `Connection` value makes of the keep-alive decision. -/
def keepAliveStep (decision : Bool) (value : List UInt8) : Bool :=
  if ascii "close" <:+: toLower value then false
  else if ascii "keep-alive" <:+: toLower value then true
  else decision

/-- The keep-alive decision of a request: the default of its version, then its
`Connection` headers from left to right. -/
def keepAliveOf (version : List UInt8) (headers : List (List UInt8)) : Bool :=
  (valuesOf (ascii "connection") headers).foldl keepAliveStep
    (if version = ascii "HTTP/1.0" then false else true)

/-- The request that a request line and headers describe. -/
def requestOf (path version : List UInt8) (headers : List (List UInt8)) : HttpRequest where
  method := ascii "GET"
  path := path
  version := version
  host := hostOf headers
  keepAlive := keepAliveOf version headers

/-- The parser after a request line and headers. -/
def processAfter (path version : List UInt8) (headers : List (List UInt8)) : HttpProcess where
  state := .kExpectHeaders
  current := requestOf path version headers
  contentLength := contentLengthOf headers
  headerLineCount := headers.length

theorem valuesOf_append_singleton (name : List UInt8) (headers : List (List UInt8))
    (header : List UInt8) :
    valuesOf name (headers ++ [header]) =
      valuesOf name headers ++ if headerName header = name then [headerValue header] else [] := by
  by_cases named : headerName header = name <;> simp [valuesOf, named]

theorem splitThree_eq_some_iff {line first second third : List UInt8} :
    splitThree line = some (first, second, third) ↔
      line = first ++ space :: second ++ space :: third ∧
        space ∉ first ∧ space ∉ second ∧ space ∉ third := by
  constructor
  · intro split
    by_cases present : space ∈ line
    · rcases exists_split_of_mem present with ⟨before, after, rfl, beforeFree⟩
      have position := findIdx?_append_cons beforeFree after
      by_cases again : space ∈ after
      · rcases exists_split_of_mem again with ⟨middle, tail, rfl, middleFree⟩
        have nextPosition := findIdx?_append_cons middleFree tail
        have dropFirst : (before ++ space :: (middle ++ space :: tail)).drop (before.length + 1) =
            middle ++ space :: tail := by
          simp [List.drop_append]
        have dropSecond : (middle ++ space :: tail).drop (middle.length + 1) = tail := by
          simp [List.drop_append]
        simp only [splitThree, position, dropFirst, nextPosition, dropSecond] at split
        by_cases third? : space ∈ tail
        · simp [third?] at split
        · simp only [third?, if_false, Option.some.injEq, Prod.mk.injEq] at split
          rcases split with ⟨firstEq, secondEq, thirdEq⟩
          rw [List.take_append_of_le_length le_rfl, List.take_length] at firstEq secondEq
          subst firstEq secondEq thirdEq
          exact ⟨by simp, beforeFree, middleFree, third?⟩
      · have dropFirst : (before ++ space :: after).drop (before.length + 1) = after := by
          simp [List.drop_append]
        simp [splitThree, position, dropFirst, findIdx?_eq_none_of_not_mem again] at split
    · simp [splitThree, findIdx?_eq_none_of_not_mem present] at split
  · rintro ⟨rfl, firstFree, secondFree, thirdFree⟩
    have position := findIdx?_append_cons firstFree (second ++ space :: third)
    have nextPosition := findIdx?_append_cons secondFree third
    have dropFirst : (first ++ space :: (second ++ space :: third)).drop (first.length + 1) =
        second ++ space :: third := by
      simp [List.drop_append]
    have dropSecond : (second ++ space :: third).drop (second.length + 1) = third := by
      simp [List.drop_append]
    rw [List.append_assoc, List.cons_append]
    simp only [splitThree, position, dropFirst, nextPosition, dropSecond, thirdFree, if_false]
    rw [List.take_append_of_le_length le_rfl, List.take_length,
      List.take_append_of_le_length le_rfl, List.take_length]

theorem space_not_mem_get : space ∉ ascii "GET" := by
  decide

theorem space_not_mem_version {version : List UInt8} (known : IsVersion version) :
    space ∉ version := by
  rcases known with rfl | rfl <;> decide

theorem isHttpVersion_iff {version : List UInt8} :
    isHttpVersion version = true ↔ IsVersion version := by
  simp only [isHttpVersion, IsVersion, decide_eq_true_eq]

theorem parseRequestLine_requestLine {path version : List UInt8} (isPath : IsPath path)
    (known : IsVersion version) (out : HttpRequest) :
    parseRequestLine (requestLine path version) out =
      some
        { out with
          method := ascii "GET"
          path := path
          version := version
          keepAlive := if version = ascii "HTTP/1.0" then false else out.keepAlive } := by
  have split : splitThree (requestLine path version) = some (ascii "GET", path, version) :=
    splitThree_eq_some_iff.mpr
      ⟨rfl, space_not_mem_get, isPath.2, space_not_mem_version known⟩
  simp only [parseRequestLine, split, isPath.1, isHttpVersion_iff.mpr known]
  simp

theorem parseRequestLine_eq_none {line : List UInt8} (malformed : ¬IsRequestLine line)
    (out : HttpRequest) : parseRequestLine line out = none := by
  unfold parseRequestLine
  split
  · rfl
  · next method path version split =>
    rcases splitThree_eq_some_iff.mp split with ⟨lineEq, _, pathFree, _⟩
    split
    · rfl
    · next isGet =>
      split
      · rfl
      · next slashFirst =>
        split
        · rfl
        · next known =>
          have isPath : IsPath path := ⟨not_ne_iff.mp slashFirst, pathFree⟩
          have isVersion := isHttpVersion_iff.mp (not_not.mp known)
          refine absurd ⟨path, version, isPath, isVersion, ?_⟩ malformed
          rw [lineEq, not_ne_iff.mp isGet]
          rfl

/-- `parseHeaderLine` in terms of the name and the value of the header. -/
theorem parseHeaderLine_eq (header : List UInt8) (req : HttpRequest) (contentLength : ℕ) :
    parseHeaderLine header req contentLength =
      if colon ∉ header then .ok none
      else if headerName header = ascii "host" then
        .ok (some ({ req with host := headerValue header }, contentLength))
      else if headerName header = ascii "connection" then
        .ok (some (updateKeepAlive req (headerValue header), contentLength))
      else if headerName header = ascii "content-length" then
        if headerValue header = [] then .ok none
        else if ¬(headerValue header).all isDigit then .ok none
        else (stoul (headerValue header)).map fun length => some (req, length)
      else .ok (some (req, contentLength)) := by
  by_cases present : colon ∈ header
  · rcases exists_split_of_mem present with ⟨before, after, rfl, absent⟩
    have position := findIdx?_append_cons absent after
    have beforeHolds : ∀ byte ∈ before, decide (byte ≠ colon) = true := by
      intro byte member
      simp only [decide_eq_true_eq]
      rintro rfl
      exact absent member
    have taken : (before ++ colon :: after).takeWhile (· ≠ colon) = before := by
      rw [List.takeWhile_append_of_pos beforeHolds]
      simp
    have dropped : (before ++ colon :: after).dropWhile (· ≠ colon) = colon :: after := by
      rw [List.dropWhile_append_of_pos beforeHolds]
      simp
    have takenAt : (before ++ colon :: after).take before.length = before := by
      simp
    have droppedAt : (before ++ colon :: after).drop (before.length + 1) = after := by
      simp [List.drop_append]
    have nameEq : headerName (before ++ colon :: after) = toLower before := by
      rw [headerName, taken]
    have valueEq : headerValue (before ++ colon :: after) = after.dropWhile (· = space) := by
      rw [headerValue, dropped]
      rfl
    rw [if_neg (not_not.mpr present), nameEq, valueEq]
    simp only [parseHeaderLine, position, takenAt, droppedAt]
  · rw [if_pos present]
    simp only [parseHeaderLine, findIdx?_eq_none_of_not_mem present]

end HttpProcess

end MiniWebServer
