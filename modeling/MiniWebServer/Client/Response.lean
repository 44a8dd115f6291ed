import MiniWebServer.Connection
import MiniWebServer.Library.Search

/-!
# The response reader of the client

`readHttpResponse` takes a response off the socket: it reads until the blank
line, looks for the length of the body in the header lines, and reads on until
the body is there. The socket is the list of what its `select` and `read` calls
will meet. The end of file stays there for the next call, and a list that has
come to its end stands for a peer that is silent from then on.

The reader undoes the framing of the server: a message that carries its length
comes out as it was sent, wherever the network cuts it, and nothing behind its
last byte is read.
-/

namespace MiniWebServer

open Delimited HttpProcess Search

namespace Client

/-- Bytes that arrive together. -/
abbrev Chunk := { bytes : List UInt8 // bytes ≠ [] }

/-- What a `select` and the `read` behind it meet on the client's socket. -/
inductive SocketEvent where
  | delivered (chunk : Chunk)
  /-- A silence that is longer than the timeout. -/
  | silence
  | eof
  | error
  /-- `select` is interrupted by a signal. -/
  | interrupted

/-- What `readWithTimeout` leaves in the buffer, or why there is nothing. -/
inductive Received where
  | bytes (data : List UInt8)
  | timeout
  | eof
  | error
deriving DecidableEq

namespace Received

/-- What `readWithTimeout` returns. -/
def count : Received → ℤ
  | bytes data => data.length
  | timeout => 0
  | eof => 0
  | error => -1

def data : Received → List UInt8
  | bytes data => data
  | timeout => []
  | eof => []
  | error => []

end Received

theorem drop_ne_nil {cap : ℕ} {bytes : List UInt8} (long : cap < bytes.length) :
    bytes.drop cap ≠ [] := by
  rw [ne_eq, List.drop_eq_nil_iff]
  omega

theorem take_ne_nil {cap : ℕ} (positive : 0 < cap) (chunk : Chunk) : chunk.val.take cap ≠ [] := by
  rw [ne_eq, List.take_eq_nil_iff]
  rintro (zero | empty)
  · exact positive.ne' zero
  · exact chunk.property empty

/-- `readWithTimeout`, with what is left on the socket. -/
def readWithTimeout (cap : ℕ) : List SocketEvent → Received × List SocketEvent
  | [] => (.timeout, [])
  | .interrupted :: socket => readWithTimeout cap socket
  | .silence :: socket => (.timeout, socket)
  | .error :: socket => (.error, socket)
  | .eof :: socket => (.eof, .eof :: socket)
  | .delivered chunk :: socket =>
      if long : cap < chunk.val.length then
        (.bytes (chunk.val.take cap), .delivered ⟨chunk.val.drop cap, drop_ne_nil long⟩ :: socket)
      else (.bytes chunk.val, socket)

/-- The calls that a socket can still serve, counted generously. -/
def weight : List SocketEvent → ℕ
  | [] => 0
  | .delivered chunk :: socket => chunk.val.length + weight socket
  | .silence :: socket => weight socket
  | .error :: socket => weight socket
  | .eof :: socket => weight socket
  | .interrupted :: socket => weight socket

theorem weight_readWithTimeout {cap : ℕ} (positive : 0 < cap) {socket rest : List SocketEvent}
    {received : Received} (read : readWithTimeout cap socket = (received, rest))
    (some : 0 < received.count) : weight rest < weight socket := by
  fun_induction readWithTimeout cap socket with
  | case1 => cases read; simp [Received.count] at some
  | case2 socket ih => exact ih read
  | case3 socket => cases read; simp [Received.count] at some
  | case4 socket => cases read; simp [Received.count] at some
  | case5 socket => cases read; simp [Received.count] at some
  | case6 chunk socket long =>
      cases read
      simp only [weight, List.length_drop]
      omega
  | case7 chunk socket short =>
      cases read
      have := List.length_pos_of_ne_nil chunk.property
      simp only [weight]
      omega

/-- The exceptions of `std::stoul`. -/
inductive StoulException where
  | invalidArgument
  | outOfRange
deriving DecidableEq, Repr

/-- `std::isspace` in the C locale. -/
def isSpace (byte : UInt8) : Bool :=
  byte = 32 ∨ (9 ≤ byte ∧ byte ≤ 13)

/-- `std::stoul` on any string: white space, a sign, and digits, of which one at least
has to be there. A minus sign negates the number as an `unsigned long`. -/
def stdStoul (text : List UInt8) : Except StoulException ℕ :=
  let signed := text.dropWhile isSpace
  let unsigned := if signed.head? = some 43 ∨ signed.head? = some 45 then signed.tail else signed
  let digits := unsigned.takeWhile isDigit
  if digits = [] then .error .invalidArgument
  else if decimal digits < 2 ^ 64 then
    .ok (if signed.head? = some 45 then (2 ^ 64 - decimal digits) % 2 ^ 64 else decimal digits)
  else .error .outOfRange

/-- The test that `readHttpResponse` makes on a header line. -/
def isLengthLine (line : List UInt8) : Bool :=
  15 ≤ line.length ∧
    (ascii "Content-Length:" <+: line ∨ ascii "content-length:" <+: line)

/-- What `readHttpResponse` makes of a header line. -/
def takeLine (contentLength : ℕ) (line : List UInt8) : Except StoulException ℕ :=
  if isLengthLine line then stdStoul (line.drop 15) else .ok contentLength

/-- The loop of `readHttpResponse` over the header lines, on what is left of `headers`
from `pos` on. -/
def scanHeaders (headers : List UInt8) (contentLength : ℕ) : Except StoulException ℕ :=
  if headers = [] then .ok contentLength
  else
    match _found : cut cr lf headers with
    | none => takeLine contentLength headers
    | some (line, rest) => do scanHeaders rest (← takeLine contentLength line)
termination_by headers.length
decreasing_by
  have := length_of_cut_eq_some _found
  omega

/-- The second read loop of `readHttpResponse`. -/
def readBody (bodyStart contentLength : ℕ) (out : List UInt8) (socket : List SocketEvent) :
    Bool × List UInt8 × List SocketEvent :=
  if out.length - bodyStart < contentLength then
    match _read : readWithTimeout 4096 socket with
    | (received, rest) =>
      if received.count < 0 then (false, out, rest)
      else if received.count = 0 then (true, out, rest)
      else readBody bodyStart contentLength (out ++ received.data) rest
  else (true, out, socket)
termination_by weight socket
decreasing_by exact weight_readWithTimeout (by decide) _read (by omega)

/-- The first read loop of `readHttpResponse` and what follows it. -/
def readHead (out : List UInt8) (socket : List SocketEvent) :
    Except StoulException (Bool × List UInt8 × List SocketEvent) :=
  match find (crlf ++ crlf) out with
  | some headerEnd => do
      let contentLength ← scanHeaders (out.take headerEnd) 0
      return readBody (headerEnd + 4) contentLength out socket
  | none =>
      match _read : readWithTimeout 4096 socket with
      | (received, rest) =>
        if received.count < 0 then .ok (false, out, rest)
        else if received.count = 0 then .ok (out ≠ [], out, rest)
        else if (out ++ received.data).length > 65536 then .ok (false, out ++ received.data, rest)
        else readHead (out ++ received.data) rest
termination_by weight socket
decreasing_by exact weight_readWithTimeout (by decide) _read (by omega)

/-- `readHttpResponse`: its result, `out`, and what is left on the socket. -/
def readHttpResponse (socket : List SocketEvent) :
    Except StoulException (Bool × List UInt8 × List SocketEvent) :=
  readHead [] socket

/-- The bytes of some chunks. -/
def bytesOf (chunks : List Chunk) : List UInt8 :=
  (chunks.map Subtype.val).flatten

@[simp]
theorem bytesOf_cons (chunk : Chunk) (chunks : List Chunk) :
    bytesOf (chunk :: chunks) = chunk.val ++ bytesOf chunks :=
  rfl

theorem eq_nil_of_bytesOf {chunks : List Chunk} (empty : bytesOf chunks = []) : chunks = [] := by
  cases chunks with
  | nil => rfl
  | cons chunk chunks => exact absurd (List.append_eq_nil_iff.mp empty).1 chunk.property

/-- A read takes the first bytes of what is delivered. -/
theorem readWithTimeout_delivered {cap : ℕ} (positive : 0 < cap) {chunks : List Chunk}
    (some : bytesOf chunks ≠ []) (later : List SocketEvent) :
    ∃ data rest,
      readWithTimeout cap (chunks.map .delivered ++ later) =
        (.bytes data, rest.map .delivered ++ later) ∧
      data ≠ [] ∧ data.length ≤ cap ∧ data ++ bytesOf rest = bytesOf chunks := by
  cases chunks with
  | nil => exact absurd rfl some
  | cons chunk chunks =>
      rw [List.map_cons, List.cons_append, readWithTimeout]
      split
      · next long =>
        refine ⟨chunk.val.take cap, ⟨chunk.val.drop cap, drop_ne_nil long⟩ :: chunks, rfl,
          take_ne_nil positive chunk, List.length_take_le _ _, ?_⟩
        rw [bytesOf_cons, bytesOf_cons, ← List.append_assoc, List.take_append_drop]
      · next short => exact ⟨chunk.val, chunks, rfl, chunk.property, not_lt.mp short, rfl⟩

/-- A head with one line that states the length of the body, up to the first blank line. -/
structure Message where
  head : List UInt8
  body : List UInt8
  field : List UInt8
  spaces : List UInt8
  digits : List UInt8
  blankLine : find (crlf ++ crlf) (head ++ crlf ++ crlf ++ body) = some head.length
  head_length_le : head.length ≤ 61000
  lengthLine : (lines cr lf head).filter isLengthLine = [field ++ spaces ++ digits]
  isField : field = ascii "Content-Length:" ∨ field = ascii "content-length:"
  areSpaces : ∀ byte ∈ spaces, byte = space
  someDigits : digits ≠ []
  areDigits : ∀ byte ∈ digits, isDigit byte
  decimal_eq : decimal digits = body.length
  /-- A length is a `size_t`. -/
  body_length_lt : body.length < 2 ^ 64

namespace Message

def bytes (message : Message) : List UInt8 :=
  message.head ++ crlf ++ crlf ++ message.body

theorem length_bytes (message : Message) :
    message.bytes.length = message.head.length + 4 + message.body.length := by
  simp only [bytes, crlf, List.length_append, List.length_cons, List.length_nil]

end Message

theorem scanHeaders_eq_foldlM (headers : List UInt8) (contentLength : ℕ) :
    scanHeaders headers contentLength = (lines cr lf headers).foldlM takeLine contentLength := by
  fun_induction scanHeaders headers contentLength with
  | case1 contentLength => simp [pure, Except.pure]
  | case2 headers contentLength nonempty noCut =>
      rw [lines_of_cut_eq_none nonempty noCut]
      simp
  | case3 headers contentLength nonempty line rest found ih =>
      rw [lines_of_cut_eq_some found, List.foldlM_cons]
      exact bind_congr ih

theorem foldlM_takeLine_of_filter_eq_nil {headers : List (List UInt8)}
    (others : headers.filter isLengthLine = []) (contentLength : ℕ) :
    headers.foldlM takeLine contentLength = .ok contentLength := by
  induction headers with
  | nil => rfl
  | cons line rest ih =>
      rw [List.filter_cons] at others
      split at others
      · cases others
      · next other =>
        rw [List.foldlM_cons, takeLine, if_neg other]
        exact ih others

theorem foldlM_takeLine {headers : List (List UInt8)} {lengthLine : List UInt8} {length : ℕ}
    (only : headers.filter isLengthLine = [lengthLine])
    (converted : stdStoul (lengthLine.drop 15) = .ok length) (contentLength : ℕ) :
    headers.foldlM takeLine contentLength = .ok length := by
  induction headers with
  | nil => cases only
  | cons line rest ih =>
      rw [List.filter_cons] at only
      rw [List.foldlM_cons, takeLine]
      split at only
      · next stated =>
        rcases List.cons.inj only with ⟨rfl, others⟩
        rw [if_pos stated, converted]
        exact foldlM_takeLine_of_filter_eq_nil others length
      · next other =>
        rw [if_neg other]
        exact ih only

theorem not_isSpace {byte : UInt8} (digit : isDigit byte) : ¬isSpace byte := by
  simp only [isDigit, isSpace, decide_eq_true_eq, UInt8.le_iff_toNat_le, ← UInt8.toNat_inj,
    UInt8.reduceToNat] at digit ⊢
  omega

theorem stdStoul_digits {spaces digits : List UInt8} (areSpaces : ∀ byte ∈ spaces, byte = space)
    (someDigits : digits ≠ []) (areDigits : ∀ byte ∈ digits, isDigit byte)
    (fits : decimal digits < 2 ^ 64) : stdStoul (spaces ++ digits) = .ok (decimal digits) := by
  have allDigits : digits.takeWhile isDigit = digits := List.takeWhile_eq_self_iff.mpr areDigits
  have signed : (spaces ++ digits).dropWhile isSpace = digits := by
    rw [List.dropWhile_append_of_pos fun byte member => by rw [areSpaces byte member]; rfl]
    cases digits with
    | nil => rfl
    | cons first rest =>
        exact List.dropWhile_cons_of_neg (not_isSpace (areDigits first (List.mem_cons_self ..)))
  have noSign : ∀ sign : UInt8, isDigit sign = false → digits.head? ≠ some sign := by
    intro sign noDigit isHead
    have digit := areDigits sign (List.mem_of_mem_head? isHead)
    rw [noDigit] at digit
    cases digit
  have noPlus := noSign 43 (by decide)
  have noMinus := noSign 45 (by decide)
  simp only [stdStoul, signed, noPlus, noMinus, or_self, if_false, allDigits, someDigits, fits,
    if_true]

theorem scanHeaders_message (message : Message) :
    scanHeaders message.head 0 = .ok message.body.length := by
  have value : (message.field ++ message.spaces ++ message.digits).drop 15 =
      message.spaces ++ message.digits := by
    have fieldLength : message.field.length = 15 := by
      rcases message.isField with field | field <;> rw [field] <;> rfl
    rw [List.append_assoc, ← fieldLength, List.drop_left]
  have fits : decimal message.digits < 2 ^ 64 := by
    rw [message.decimal_eq]
    exact message.body_length_lt
  rw [scanHeaders_eq_foldlM, ← message.decimal_eq]
  apply foldlM_takeLine message.lengthLine
  rw [value]
  exact stdStoul_digits message.areSpaces message.someDigits message.areDigits fits

theorem count_bytes_pos {data : List UInt8} (nonempty : data ≠ []) :
    0 < (Received.bytes data).count := by
  rw [Received.count]
  exact_mod_cast List.length_pos_of_ne_nil nonempty

theorem readBody_of_read {bodyStart contentLength : ℕ} {out data : List UInt8}
    {socket rest : List SocketEvent} (missing : out.length - bodyStart < contentLength)
    (read : readWithTimeout 4096 socket = (.bytes data, rest)) (nonempty : data ≠ []) :
    readBody bodyStart contentLength out socket =
      readBody bodyStart contentLength (out ++ data) rest := by
  have positive := count_bytes_pos nonempty
  rw [readBody, if_pos missing]
  split
  next received left readAgain =>
    rw [read, Prod.mk.injEq] at readAgain
    rcases readAgain with ⟨rfl, rfl⟩
    rw [if_neg positive.not_gt, if_neg positive.ne']
    rfl

theorem readHead_of_find {out : List UInt8} {headerEnd contentLength : ℕ}
    (found : find (crlf ++ crlf) out = some headerEnd)
    (scanned : scanHeaders (out.take headerEnd) 0 = .ok contentLength)
    (socket : List SocketEvent) :
    readHead out socket = .ok (readBody (headerEnd + 4) contentLength out socket) := by
  rw [readHead]
  simp only [found, scanned]
  rfl

theorem readHead_of_read {out data : List UInt8} {socket rest : List SocketEvent}
    (notYet : find (crlf ++ crlf) out = none)
    (read : readWithTimeout 4096 socket = (.bytes data, rest)) (nonempty : data ≠ [])
    (small : (out ++ data).length ≤ 65536) :
    readHead out socket = readHead (out ++ data) rest := by
  have positive := count_bytes_pos nonempty
  rw [readHead]
  simp only [notYet, read]
  rw [if_neg positive.not_gt, if_neg positive.ne']
  exact if_neg small.not_gt

/-- The second loop reads to the last byte of the body. -/
theorem readBody_message {message : Message} {out : List UInt8} {chunks : List Chunk}
    (pieces : out ++ bytesOf chunks = message.bytes)
    (headRead : message.head.length + 4 ≤ out.length) (later : List SocketEvent) :
    readBody (message.head.length + 4) message.body.length out (chunks.map .delivered ++ later) =
      (true, message.bytes, later) := by
  induction sizeEq : (bytesOf chunks).length using Nat.strong_induction_on
    generalizing out chunks with
  | _ size ih =>
      have total := congrArg List.length pieces
      rw [List.length_append, message.length_bytes, sizeEq] at total
      by_cases missing : out.length - (message.head.length + 4) < message.body.length
      · have some : bytesOf chunks ≠ [] := by
          rw [← List.length_pos_iff_ne_nil, sizeEq]
          omega
        rcases readWithTimeout_delivered (by decide : 0 < 4096) some later with
          ⟨data, rest, read, nonempty, _, bytesEq⟩
        have shorter := congrArg List.length bytesEq
        have taken := List.length_pos_of_ne_nil nonempty
        rw [List.length_append, sizeEq] at shorter
        rw [readBody_of_read missing read nonempty]
        refine ih _ (by omega) ?_ ?_ rfl
        · rw [List.append_assoc, bytesEq, pieces]
        · rw [List.length_append]
          omega
      · have none : bytesOf chunks = [] := by
          rw [← List.length_eq_zero_iff, sizeEq]
          omega
        rw [readBody, if_neg missing, eq_nil_of_bytesOf none, ← pieces, none, List.append_nil]
        rfl

/-- The first loop reads to the blank line, before the limit is reached. -/
theorem readHead_message {message : Message} {out : List UInt8} {chunks : List Chunk}
    (pieces : out ++ bytesOf chunks = message.bytes) (later : List SocketEvent) :
    readHead out (chunks.map .delivered ++ later) = .ok (true, message.bytes, later) := by
  induction sizeEq : (bytesOf chunks).length using Nat.strong_induction_on
    generalizing out chunks with
  | _ size ih =>
      have total := congrArg List.length pieces
      rw [List.length_append, message.length_bytes, sizeEq] at total
      have begins : out <+: message.bytes := ⟨bytesOf chunks, pieces⟩
      have search := find_of_prefix begins message.blankLine
      have pattern : (crlf ++ crlf).length = 4 := rfl
      rw [pattern] at search
      by_cases headRead : message.head.length + 4 ≤ out.length
      · rw [if_pos headRead] at search
        have headers := congrArg (List.take message.head.length) pieces
        rw [List.take_append_of_le_length (by omega), Message.bytes, List.append_assoc,
          List.append_assoc, List.take_left] at headers
        have scanned := scanHeaders_message message
        rw [← headers] at scanned
        rw [readHead_of_find search scanned, readBody_message pieces headRead later]
      · rw [if_neg headRead] at search
        have some : bytesOf chunks ≠ [] := by
          rw [← List.length_pos_iff_ne_nil, sizeEq]
          omega
        rcases readWithTimeout_delivered (by decide : 0 < 4096) some later with
          ⟨data, rest, read, nonempty, atMost, bytesEq⟩
        have shorter := congrArg List.length bytesEq
        have taken := List.length_pos_of_ne_nil nonempty
        have short := message.head_length_le
        rw [List.length_append, sizeEq] at shorter
        have small : (out ++ data).length ≤ 65536 := by
          rw [List.length_append]
          omega
        rw [readHead_of_read search read nonempty small]
        refine ih _ (by omega) ?_ rfl
        rw [List.append_assoc, bytesEq, pieces]

theorem readHttpResponse_message {message : Message} {chunks : List Chunk}
    (pieces : bytesOf chunks = message.bytes) (later : List SocketEvent) :
    readHttpResponse (chunks.map .delivered ++ later) = .ok (true, message.bytes, later) :=
  readHead_message pieces later

theorem toNat_of_isDigit {digit : Char} (isDigit : digit.isDigit) :
    48 ≤ digit.toNat ∧ digit.toNat ≤ 57 ∧ digit.toNat.toUInt8.toNat = digit.toNat := by
  simp only [Char.isDigit, Bool.and_eq_true, decide_eq_true_eq, ge_iff_le,
    UInt32.le_iff_toNat_le] at isDigit
  have least : 48 ≤ digit.toNat := isDigit.1
  have greatest : digit.toNat ≤ 57 := isDigit.2
  refine ⟨least, greatest, ?_⟩
  rw [Nat.toUInt8_eq, UInt8.toNat_ofNat']
  omega

theorem isDigit_stdToString (number : ℕ) : ∀ byte ∈ stdToString number, isDigit byte := by
  intro byte member
  rcases List.mem_map.mp member with ⟨digit, inDigits, rfl⟩
  have bounds := toNat_of_isDigit (Nat.isDigit_of_mem_toDigits (by decide) (by decide) inDigits)
  simp only [isDigit, decide_eq_true_eq, UInt8.le_iff_toNat_le, UInt8.reduceToNat, bounds.2.2]
  exact ⟨bounds.1, bounds.2.1⟩

/-- `std::to_string` writes the number that is read back. -/
theorem decimal_stdToString (number : ℕ) : decimal (stdToString number) = number := by
  have known : ∀ digit ∈ Nat.toDigits 10 number, digit.isDigit := fun digit member =>
    Nat.isDigit_of_mem_toDigits (by decide) (by decide) member
  calc
    decimal (stdToString number) = Nat.ofDigitChars 10 (Nat.toDigits 10 number) 0 := by
      rw [decimal, stdToString, List.foldl_map, Nat.ofDigitChars_eq_foldl]
      apply List.foldl_ext
      intro value digit member
      rw [(toNat_of_isDigit (known digit member)).2.2, Nat.mul_comm]
      rfl
    _ = number := Nat.ofDigitChars_ten_toDigits

/-- A status line, the length of the body and another header. -/
def framedHead (status connection body : List UInt8) : List UInt8 :=
  joined cr lf [status, ascii "Content-Length:" ++ [space] ++ stdToString body.length] ++
    connection

theorem exists_message_framed {status connection body : List UInt8}
    (blankLine : find (crlf ++ crlf) (framedHead status connection body ++ crlf ++ crlf ++ body) =
      some (framedHead status connection body).length)
    (head_length_le : (framedHead status connection body).length ≤ 61000)
    (statusFree : cr ∉ status) (connectionFree : cr ∉ connection) (nonempty : connection ≠ [])
    (statusOther : isLengthLine status = false) (connectionOther : isLengthLine connection = false)
    (body_lt : body.length < 2 ^ 64) :
    ∃ message : Message,
      message.bytes = framedHead status connection body ++ crlf ++ crlf ++ body := by
  have lengthFree :
      cr ∉ ascii "Content-Length:" ++ [space] ++ stdToString body.length := by
    intro member
    rcases List.mem_append.mp member with inField | inDigits
    · exact absurd inField (by decide)
    · exact absurd (isDigit_stdToString _ _ inDigits) (by decide)
  have stated : isLengthLine
      (ascii "Content-Length:" ++ [space] ++ stdToString body.length) = true := by
    rw [isLengthLine, decide_eq_true_eq, List.append_assoc]
    refine ⟨?_, .inl (List.prefix_append _ _)⟩
    rw [List.length_append]
    exact Nat.le_add_right 15 _
  have lengthLine : (lines cr lf (framedHead status connection body)).filter isLengthLine =
      [ascii "Content-Length:" ++ [space] ++ stdToString body.length] := by
    rw [framedHead, lines_joined_append (by decide) ?_ (free_of_not_mem_left connectionFree)
      nonempty]
    · simp only [List.cons_append, List.nil_append, List.filter_cons, List.filter_nil,
        statusOther, stated, connectionOther, Bool.false_eq_true, if_false, if_true]
    · intro line member
      rcases List.mem_pair.mp member with rfl | rfl
      · exact free_of_not_mem_left statusFree
      · exact free_of_not_mem_left lengthFree
  have digits : stdToString body.length ≠ [] := by
    rw [stdToString, ne_eq, List.map_eq_nil_iff]
    exact Nat.toDigits_ne_nil
  exact
    ⟨{ head := framedHead status connection body
       body := body
       field := ascii "Content-Length:"
       spaces := [space]
       digits := stdToString body.length
       blankLine := blankLine
       head_length_le := head_length_le
       lengthLine := lengthLine
       isField := .inl rfl
       areSpaces := fun _ => List.mem_singleton.mp
       someDigits := digits
       areDigits := isDigit_stdToString body.length
       decimal_eq := decimal_stdToString body.length
       body_length_lt := body_lt }, rfl⟩

/-- The header of `buildResponse` that says whether the connection stays open. -/
def connectionLine (keepAlive : Bool) : List UInt8 :=
  if keepAlive then ascii "Connection: keep-alive" else ascii "Connection: close"

theorem buildResponse_eq_framed (req : HttpRequest) :
    buildResponse req =
      framedHead (ascii "HTTP/1.1 200 OK") (connectionLine req.keepAlive) kBody ++
        crlf ++ crlf ++ kBody := by
  have always : ∀ keepAlive : Bool,
      buildResponse { keepAlive := keepAlive } =
        framedHead (ascii "HTTP/1.1 200 OK") (connectionLine keepAlive) kBody ++
          crlf ++ crlf ++ kBody := by
    decide +kernel
  exact always req.keepAlive

theorem exists_message_buildResponse (req : HttpRequest) :
    ∃ message : Message, message.bytes = buildResponse req := by
  rw [buildResponse_eq_framed]
  cases req.keepAlive with
  | true =>
      apply exists_message_framed <;> decide +kernel
  | false =>
      apply exists_message_framed <;> decide +kernel

theorem build400_eq_framed :
    build400 =
      framedHead (ascii "HTTP/1.1 400 Bad Request") (connectionLine false) [] ++ crlf ++ crlf := by
  decide +kernel

theorem exists_message_build400 : ∃ message : Message, message.bytes = build400 := by
  rw [build400_eq_framed, ← List.append_nil (_ ++ crlf ++ crlf)]
  apply exists_message_framed <;> decide +kernel

/-- The reader of the client inverts the framing of the server: however a message
that states its length is cut, it is read whole and to its last byte. -/
theorem readHttpResponse_inverts_framing :
    (∀ (message : Message) (chunks : List Chunk) (later : List SocketEvent),
      bytesOf chunks = message.bytes →
      readHttpResponse (chunks.map .delivered ++ later) = .ok (true, message.bytes, later)) ∧
    (∀ req, ∃ message : Message, message.bytes = buildResponse req) ∧
    ∃ message : Message, message.bytes = build400 :=
  ⟨fun _ _ later pieces => readHttpResponse_message pieces later, exists_message_buildResponse,
    exists_message_build400⟩

/-- The rejection arrives byte by byte. -/
theorem readHttpResponse_inverts_framing_bytewise :
    ∃ chunks : List Chunk, chunks.length = build400.length ∧
      readHttpResponse (chunks.map .delivered ++ [.silence]) = .ok (true, build400, [.silence]) := by
  rcases readHttpResponse_inverts_framing with ⟨inverts, _, message, bytesEq⟩
  have single : ∀ bytes : List UInt8,
      bytesOf (bytes.map fun byte => ⟨[byte], List.cons_ne_nil byte []⟩) = bytes := by
    intro bytes
    induction bytes with
    | nil => rfl
    | cons byte rest ih => exact congrArg (byte :: ·) ih
  refine ⟨build400.map fun byte => ⟨[byte], List.cons_ne_nil byte []⟩, List.length_map .., ?_⟩
  rw [← bytesEq]
  exact inverts message _ _ (by rw [bytesEq, single])

end Client

end MiniWebServer
