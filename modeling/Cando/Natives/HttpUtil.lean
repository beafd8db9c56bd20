import Cando.Lib.Scan
import Cando.Core.Number

/-!
# Reading HTTP messages

`http_read_request` and `http_read_response` of `lib/httputil.c`. The parsers read lines and bytes of a source; the
source of the program is a connection behind a receive buffer, `connSource`, which gets its bytes in reads of whatever
sizes the peer and the network make of them. Of `recv_buf` and `*offset` the reader keeps what lies behind the offset,
since nothing reads the rest.
-/

namespace Cando

/-! ### Bytes -/

def cr : UInt8 := 13
def lf : UInt8 := 10

/-- `isspace` in the C locale. -/
def isSpace (b : UInt8) : Bool := b == 32 || (9 ≤ b && b ≤ 13)

/-- `tolower` in the C locale. -/
def toLower (b : UInt8) : UInt8 := if 65 ≤ b ∧ b ≤ 90 then b + 32 else b

/-- The C string in a buffer. -/
def cString (s : Str) : Str := s.takeWhile (· ≠ 0)

/-- Around the first `c`: what `strchr` finds. -/
def strchr (s : Str) (c : UInt8) : Option (Str × Str) :=
  match s.dropWhile (· ≠ c) with
  | [] => none
  | _ :: after => some (s.takeWhile (· ≠ c), after)

/-- `strcasecmp(s, t) == 0`. -/
def sameIgnoringCase (s t : Str) : Bool := s.map toLower == t.map toLower

/-- The value of a digit of `strtoul`. -/
def digitValue (base : Nat) (b : UInt8) : Option Nat :=
  let d :=
    if 48 ≤ b ∧ b ≤ 57 then b.toNat - 48 else if 97 ≤ toLower b ∧ toLower b ≤ 122 then (toLower b).toNat - 87 else 36
  if d < base then some d else none

/-- The number that the leading digits make. -/
def numeral (base : Nat) : (value : Nat) → Str → Nat
  | value, [] => value
  | value, b :: s =>
    match digitValue base b with
    | some d => numeral base (value * base + d) s
    | none => value

/-- An optional sign. -/
def takeSign : Str → Bool × Str
  | 45 :: s => (true, s)
  | 43 :: s => (false, s)
  | s => (false, s)

/-- An optional `0x`, in front of a digit. -/
def dropHexPrefix : Str → Str
  | 48 :: x :: d :: s =>
    if toLower x = 120 ∧ (digitValue 16 d).isSome then d :: s else 48 :: x :: d :: s
  | s => s

/-- `ULONG_MAX`. -/
def ulongMax : Nat := 18446744073709551615

/-- `strtoul(s, NULL, base)`: 0 without a number, and `ULONG_MAX` when it is too large. -/
def strtoul (base : Nat) (s : Str) : Nat :=
  let (negative, s) := takeSign (s.dropWhile isSpace)
  let value := numeral base 0 (if base = 16 then dropHexPrefix s else s)
  if value > ulongMax then ulongMax
  else if negative then (ulongMax + 1 - value) % (ulongMax + 1)
  else value

/-- `(int)strtol(s, NULL, 10)`. -/
def strtolInt (s : Str) : Int :=
  let (negative, s) := takeSign (s.dropWhile isSpace)
  let value := numeral 10 0 s
  let long : Int :=
    if negative then max (-9223372036854775808) (-(value : Int)) else min 9223372036854775807 (value : Int)
  (BitVec.ofInt 32 long).toInt

/-- A text in a field of `size` bytes: cut so that the NUL fits. -/
def copyField (size : Nat) (s : Str) : Str := s.take (size - 1)

/-! ### Headers -/

/-- An `HttpHeader`. -/
structure HttpHeader where
  name : Str
  value : Str
  deriving DecidableEq, Repr

def isBlank (b : UInt8) : Bool := b == 32 || b == 9

/-- A header line; one without a colon is skipped. -/
def parseHeader (line : Str) : Option HttpHeader :=
  (strchr (cString line) 58).map fun (name, value) =>
    ⟨name.map toLower, ((value.dropWhile isBlank).reverse.dropWhile isBlank).reverse⟩

/-- `http_headers_get`, for a name in lower case. -/
def httpHeadersGet (h : List HttpHeader) (name : Str) : Option Str := (h.find? (·.name == name)).map (·.value)

/-! ### The parsers -/

/-- Where bytes come from: lines without their CRLF, shorter than `max`; a number of bytes; and all that is left. -/
structure Source (σ : Type) where
  size : σ → Nat
  readCrlfLine : (max : Nat) → Scan σ Str
  readBodyBytes : (need : Nat) → Scan σ Str
  readToEnd : Scan σ Str

/-- An `HttpParsedRequest`. -/
structure HttpParsedRequest where
  method : Str
  path : Str
  version : Str
  headers : List HttpHeader
  body : Str
  deriving DecidableEq, Repr

/-- An `HttpResponse`. -/
structure HttpResponse where
  status : Int
  reason : Str
  headers : List HttpHeader
  body : Str
  deriving DecidableEq, Repr

section Parsers

variable {σ : Type} (S : Source σ)

/-- One turn of `parse_headers`. -/
def parseHeaderLine (h : List HttpHeader) : Scan σ (List HttpHeader ⊕ List HttpHeader) := do
  let line ← S.readCrlfLine 8192
  if line = [] then return .inr h
  else return .inl (h ++ (parseHeader line).toList)

/-- `parse_headers`. -/
def parseHeaders : Scan σ (List HttpHeader) := Scan.loop S.size (parseHeaderLine S) []

/-- One turn of the loop over the lines behind the last chunk. -/
def readTrailerLine (_ : Unit) : Scan σ (Unit ⊕ Unit) := do
  let line ← S.readCrlfLine 64
  if line = [] then return .inr ()
  else return .inl ()

/-- The size on a chunk's first line, which an extension may follow. -/
def chunkSize (line : Str) : Nat := strtoul 16 ((cString line).takeWhile (· ≠ 59))

/-- One turn of `read_chunked_body`. -/
def readChunk (out : Str) : Scan σ (Str ⊕ Str) := do
  let line ← S.readCrlfLine 64
  if chunkSize line = 0 then
    Scan.loop S.size (readTrailerLine S) ()
    return .inr out
  else
    let payload ← S.readBodyBytes (chunkSize line)
    let line ← S.readCrlfLine 64
    if line ≠ [] then Scan.fail
    else return .inl (out ++ payload)

/-- `read_chunked_body`. -/
def readChunkedBody : Scan σ Str := Scan.loop S.size (readChunk S) []

/-- The body of `len` bytes that `Content-Length` announces. -/
def readLengthBody (cl : Str) : Scan σ Str := do
  let len := strtoul 10 cl
  if len > 0 then S.readBodyBytes len else return []

/-- `te && strcasecmp(te, "chunked") == 0`. -/
def isChunked (te : Option Str) : Bool := te.any (sameIgnoringCase · (bytes "chunked"))

/-- The request line: method, target and version, each cut to its field. -/
def parseRequestLine (line : Str) : Option (Str × Str × Str) := do
  let (method, rest) ← strchr (cString line) 32
  let (target, ver) ← strchr rest 32
  let version := if (bytes "HTTP/").isPrefixOf ver then ver.drop 5 else ver
  return (copyField 16 method, copyField 2048 target, copyField 8 version)

/-- The body of a request. -/
def readRequestBody (headers : List HttpHeader) : Scan σ Str :=
  if isChunked (httpHeadersGet headers (bytes "transfer-encoding")) then readChunkedBody S
  else match httpHeadersGet headers (bytes "content-length") with
    | some cl => readLengthBody S cl
    | none => pure []

/-- `http_read_request`. -/
def readRequest : Scan σ HttpParsedRequest := do
  let line ← S.readCrlfLine 8192
  if line = [] then Scan.fail
  else match parseRequestLine line with
    | none => Scan.fail
    | some (method, path, version) => do
      let headers ← parseHeaders S
      let body ← readRequestBody S headers
      return { method, path, version, headers, body }

/-- The status line: the status and the reason. -/
def parseStatusLine (line : Str) : Option (Int × Str) := do
  let (_, code) ← strchr (cString line) 32
  match strchr code 32 with
  | some (code, reason) => return (strtolInt code, copyField 64 reason)
  | none => return (strtolInt code, [])

/-- The body of a response. -/
def readResponseBody (status : Int) (headers : List HttpHeader) : Scan σ Str :=
  if isChunked (httpHeadersGet headers (bytes "transfer-encoding")) then readChunkedBody S
  else match httpHeadersGet headers (bytes "content-length") with
    | some cl => readLengthBody S cl
    | none =>
      let closeDelim := (httpHeadersGet headers (bytes "connection")).any (sameIgnoringCase · (bytes "close"))
      if closeDelim ∨ status = 200 ∨ status = 204 then S.readToEnd else pure []

/-- `http_read_response`. -/
def readResponse : Scan σ HttpResponse := do
  let line ← S.readCrlfLine 8192
  if line = [] then Scan.fail
  else match parseStatusLine line with
    | none => Scan.fail
    | some (status, reason) => do
      let headers ← parseHeaders S
      let body ← readResponseBody S status headers
      return { status, reason, headers, body }

end Parsers

/-! ### Connections -/

/-- An `HttpConn` for reading: the bytes that are still to come, and how many of them each read may get, less one. -/
structure HttpConn where
  input : Str
  sizes : Nat → Nat
  reads : Nat := 0

/-- `http_conn_read` with room for `len` bytes: no bytes at the end of the stream. -/
def HttpConn.read (c : HttpConn) (len : Nat) : Str × HttpConn :=
  let got := c.input.take (min len (c.sizes c.reads + 1))
  (got, { c with input := c.input.drop got.length, reads := c.reads + 1 })

/-- A connection behind its receive buffer. `seam` is no part of the program: it records that a line was read over a
CR that ended the buffer while its LF was the next byte to come. -/
structure HttpReader where
  conn : HttpConn
  recv : Str := []
  seam : Bool := false

namespace HttpReader

/-- The buffer ends with this byte, and the next one makes a CRLF of it. -/
def atSeam (r : HttpReader) : Bool := r.recv == [cr] && r.conn.input.head? == some lf

/-- `http_conn_read`, which has to get something. -/
def refill (len : Nat) : Scan HttpReader Str := fun r =>
  let (got, conn) := r.conn.read len
  (if got = [] then none else some got, { r with conn })

/-- `httpbuf_append` to the receive buffer. -/
def append (got : Str) : Scan HttpReader Unit := fun r => (some (), { r with recv := r.recv ++ got })

/-- One step of `read_crlf_line`, with `line` read so far: the end of the line, another byte of it, or a read. -/
def lineStep (max : Nat) (line : Str) : Scan HttpReader (Str ⊕ Str) := fun r =>
  match r.recv with
  | 13 :: 10 :: recv => if line.length ≥ max then (none, r) else (some (.inr line), { r with recv })
  | b :: recv =>
    if line.length + 1 ≥ max then (none, { r with seam := r.seam || r.atSeam })
    else (some (.inl (line ++ [b])), { r with recv, seam := r.seam || r.atSeam })
  | [] => (do
      let got ← refill 1024
      append got
      return .inl line : Scan HttpReader (Str ⊕ Str)) r

/-- The steps that `read_crlf_line` may take. -/
def lineSize (r : HttpReader) : Nat := 2 * r.conn.input.length + r.recv.length

/-- `read_crlf_line`. -/
def readCrlfLine (max : Nat) : Scan HttpReader Str := Scan.loop lineSize (lineStep max) []

/-- One turn of the loop of `read_body_bytes`. -/
def bodyStep (st : Str × Nat) : Scan HttpReader ((Str × Nat) ⊕ Str) := do
  if st.2 = 0 then return .inr st.1
  else
    let got ← refill (min st.2 8192)
    return .inl (st.1 ++ got, st.2 - got.length)

/-- `read_body_bytes`. -/
def readBodyBytes (need : Nat) : Scan HttpReader Str := fun r =>
  Scan.loop (fun r : HttpReader => r.conn.input.length) bodyStep (r.recv.take need, need - r.recv.length)
    { r with recv := r.recv.drop need }

/-- One turn of the loop that reads until the end. -/
def endStep (out : Str) : Scan HttpReader (Str ⊕ Str) := fun r =>
  let (got, conn) := r.conn.read 8192
  (some (if got = [] then .inr out else .inl (out ++ got)), { r with conn })

/-- Reading until the end. -/
def readToEnd : Scan HttpReader Str := fun r =>
  Scan.loop (fun r : HttpReader => r.conn.input.length) endStep r.recv { r with recv := [] }

end HttpReader

/-- The source of the program. -/
def connSource : Source HttpReader where
  size r := r.recv.length + r.conn.input.length
  readCrlfLine := HttpReader.readCrlfLine
  readBodyBytes := HttpReader.readBodyBytes
  readToEnd := HttpReader.readToEnd

/-- `http_read_request`. -/
def httpReadRequest (conn : HttpConn) : Option HttpParsedRequest := (readRequest connSource { conn }).1

/-- `http_read_response`. -/
def httpReadResponse (conn : HttpConn) : Option HttpResponse := (readResponse connSource { conn }).1

end Cando
