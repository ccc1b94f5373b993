/-
# Reading an entity body

The part of the HTTP driver that hands the body of a message to the user
(`globus_i_xio_http_read`, `globus_i_xio_http_parse_residue`, `globus_l_xio_http_copy_residue`,
`globus_l_xio_http_parse_chunk_header` and the two read callbacks).  Bytes that came with a line of the
framing stay in the read buffer, the residue; a read copies from there first, and then lets the transport
read into the user's buffers.

The two counters `read_chunk_left` (a `size_t`) and `content_length` (an `off_t`) are integers here, so
that a counter that is lowered below zero shows; where the code reads the first one, the model reads it
modulo `2 ^ 64`.
-/
import Gct.Lib.Hex
import Gct.Lib.Scatter

namespace Gct.Http

open Scatter CText

/-! ## 1. The read buffer -/

/-- `GLOBUS_XIO_HTTP_CHUNK_SIZE`. -/
def chunkSize : Nat := 4000

/-- `read_buffer`, with the bytes of it that are valid. -/
@[ext] structure ReadBuffer where
  valid : List Char
  len : Nat
  fits : valid.length ≤ len
  pos : 0 < len
  deriving DecidableEq

variable (buffer : ReadBuffer)

/-- `read_buffer_offset` goes up by `n` and `read_buffer_valid` down. -/
def ReadBuffer.consume (n : Nat) : ReadBuffer where
  valid := buffer.valid.drop n
  len := buffer.len
  fits := le_trans (List.drop_sublist n _).length_le buffer.fits
  pos := buffer.pos

@[simp] theorem ReadBuffer.valid_consume (n : Nat) : (buffer.consume n).valid = buffer.valid.drop n := rfl

/-- The length of `read_iovec`, once the valid bytes stand at the beginning of the buffer. -/
def ReadBuffer.room : Nat := buffer.len - buffer.valid.length

/-- `globus_i_xio_http_clean_read_buffer`. -/
def ReadBuffer.clean : ReadBuffer :=
  if buffer.valid.length = 0 then buffer
  else if buffer.valid.length < buffer.len then buffer
  else
    -- the buffer is totally full
    { buffer with
      len := buffer.len + chunkSize
      fits := le_trans buffer.fits (Nat.le_add_right _ _)
      pos := Nat.add_pos_left buffer.pos _ }

def ReadBuffer.receive (bytes : List Char) (h : bytes.length ≤ buffer.room) : ReadBuffer where
  valid := buffer.valid ++ bytes
  len := buffer.len
  fits := by
    rw [List.length_append]
    exact Nat.add_le_of_le_sub' buffer.fits h
  pos := buffer.pos

/-- `globus_i_xio_http_find_eol`: the place of the first carriage return that a line feed follows, or
`NULL`.  After a carriage return that is none, `skip` is raised by a place that is counted from the
beginning of the blob and not from `skip`, and the end of the blob is taken to be `skip` places later. -/
def findEolFrom (blob : List Char) : Nat → Nat → Option Nat
  | 0, _ => none
  | fuel + 1, skip =>
    if skip + 1 < blob.length then
      match (blob.drop skip).idxOf? '\r' with
      | none => none
      | some i =>
        if skip + i + 1 = skip + blob.length then none
        else if blob[skip + i + 1]? = some '\n' then some (skip + i)
        else findEolFrom blob fuel (skip + (skip + i + 1))
    else none

def findEol (blob : List Char) : Option Nat := findEolFrom blob (blob.length + 1) 0

/-! ## 2. The handle -/

inductive TransferEncoding
  | identity
  | chunked
  deriving DecidableEq, Repr

/-- The states of the parser from the end of the headers on. -/
inductive ParseState
  | chunkCrlf
  | chunkLine
  | chunkBody
  | chunkFooters
  | identityBody
  | eof
  deriving DecidableEq, Repr

@[ext] structure Handle where
  transferEncoding : TransferEncoding
  contentLength : Option Int
  parseState : ParseState
  readBuffer : ReadBuffer
  readChunkLeft : Int
  deriving DecidableEq

variable (handle : Handle)

/-- The value that the `size_t` holds. -/
def Handle.chunkLeft : Nat := (handle.readChunkLeft % 2 ^ 64).toNat

/-- The user's read.  `iov` are the handle's copies of the user's vectors. -/
structure ReadOperation where
  iov : List (Iovec Char)
  nbytes : Nat
  waitFor : Nat
  deriving DecidableEq

variable (op : ReadOperation)

inductive Result
  | success
  | eof
  | errorParse
  deriving DecidableEq, Repr

/-- A read that has been passed to the transport, with the least number of bytes it has to return. -/
inductive PassRead
  /-- Into the read buffer, for `globus_l_xio_http_read_chunk_header_callback`. -/
  | header
  /-- Into the user's vectors, for `globus_l_xio_http_read_callback`. -/
  | content (nbytes : Nat)
  deriving DecidableEq, Repr

/-! ## 3. The lines of the framing -/

/-- What `globus_l_xio_http_parse_chunk_header` returns: `more` is success with `done` false. -/
inductive Parsed
  | done
  | more
  | eof
  | errorParse
  deriving DecidableEq, Repr

/-- The lines of the residue up to the first empty one, and whether there is an empty one. -/
def skipFooters : Nat → ReadBuffer → ReadBuffer × Bool
  | 0, buffer => (buffer, false)
  | fuel + 1, buffer =>
    match findEol buffer.valid with
    | none => (buffer, false)
    | some 0 => (buffer.consume 2, true)
    | some eol => skipFooters fuel (buffer.consume (eol + 2))

/-- The case `GLOBUS_XIO_HTTP_CHUNK_FOOTERS`. -/
def parseFooters : Handle × Parsed :=
  match skipFooters (handle.readBuffer.valid.length + 1) handle.readBuffer with
  | (buffer, true) => ({ handle with readBuffer := buffer, parseState := .eof }, .eof)
  | (buffer, false) => ({ handle with readBuffer := buffer }, .more)

/-- `UINT_MAX`. -/
def uintMax : Nat := 4294967295

/-- The case `GLOBUS_XIO_HTTP_CHUNK_LINE`, for a line that ends at `eol`. -/
def parseChunkLine (eol : Nat) : Handle × Parsed :=
  match strtoulHex (handle.readBuffer.valid.take eol) with
  | none => (handle, .errorParse)
  | some size =>
    if size > uintMax then (handle, .errorParse)
    else
      let handle := { handle with readChunkLeft := size, readBuffer := handle.readBuffer.consume (eol + 2) }
      if size ≠ 0 then ({ handle with parseState := .chunkBody }, .done)
      else parseFooters { handle with parseState := .chunkFooters }

/-- The case `GLOBUS_XIO_HTTP_CHUNK_CRLF`. -/
def parseChunkCrlf (eol : Nat) : Handle × Parsed :=
  if eol ≠ 0 then (handle, .errorParse)
  else
    let handle := { handle with readBuffer := handle.readBuffer.consume 2, parseState := .chunkLine }
    match findEol handle.readBuffer.valid with
    | none => (handle, .more)
    | some eol => parseChunkLine handle eol

def parseChunkHeader : Handle × Parsed :=
  match findEol handle.readBuffer.valid with
  | none => (handle, .more)
  | some eol =>
    match handle.parseState with
    | .chunkCrlf => parseChunkCrlf handle eol
    | .chunkLine => parseChunkLine handle eol
    | .chunkFooters => parseFooters handle
    | _ => (handle, .done)

/-! ## 4. Copying the residue -/

/-- The bytes for a vector with room for `len`: no more than there are, and none that belong to something
else than the content. -/
def toCopy (len : Nat) : Nat :=
  let count := if len > handle.readBuffer.valid.length then handle.readBuffer.valid.length else len
  match handle.transferEncoding, handle.contentLength with
  | .identity, some left => if left < count then left.toNat else count
  | .identity, none => count
  | .chunked, _ => if handle.chunkLeft < count then handle.chunkLeft else count

/-- The counters after `count` bytes of the residue have gone to the user. -/
def Handle.copied (count : Nat) : Handle :=
  let left := handle.readChunkLeft - count
  { handle with
    readBuffer := handle.readBuffer.consume count
    readChunkLeft := left
    contentLength :=
      if handle.transferEncoding = .identity then handle.contentLength.map (· - count)
      else handle.contentLength
    parseState := if handle.transferEncoding = .chunked ∧ (left % 2 ^ 64).toNat = 0 then .chunkCrlf
      else handle.parseState }

/-- The loop of `globus_l_xio_http_copy_residue`: the handle, the numbers `nbytes` and `wait_for`, and
the vectors. -/
def copyLoop (handle : Handle) (nbytes waitFor : Nat) : List (Iovec Char) → Handle × ReadOperation
  | [] => (handle, ⟨[], nbytes, waitFor⟩)
  | v :: iov =>
    if handle.readBuffer.valid = [] then (handle, ⟨v :: iov, nbytes, waitFor⟩)
    else
      let count := toCopy handle v.len
      if count = 0 then
        let rest := copyLoop handle nbytes waitFor iov
        (rest.1, { rest.2 with iov := v :: rest.2.iov })
      else
        let rest := copyLoop (handle.copied count) (nbytes + count) (waitFor - count) iov
        (rest.1, { rest.2 with iov := v.write (handle.readBuffer.valid.take count) :: rest.2.iov })

/-- A read does not wait beyond the content-length. -/
def capWaitFor (waitFor : Nat) : Nat :=
  match handle.contentLength with
  | some left => if left < waitFor then left.toNat else waitFor
  | none => waitFor

def copyResidue : Handle × ReadOperation :=
  copyLoop handle op.nbytes (capWaitFor handle op.waitFor) op.iov

/-! ## 5. Parsing the residue -/

/-- What is left of the content, for the states in which the transport reads content. -/
def maxContent : Nat :=
  match handle.parseState, handle.contentLength with
  | .identityBody, some left => left.toNat
  | .chunkBody, _ => handle.chunkLeft
  | _, _ => 0

/-- The user's vectors go to the transport, with no more room than there is content left, if that is not
zero. -/
def passContent : ReadOperation × PassRead :=
  if maxContent handle > 0 then
    let iov := truncate (maxContent handle) 0 op.iov
    let nbytes := room iov
    ({ op with iov := iov }, .content (if nbytes > op.waitFor then op.waitFor else nbytes))
  else (op, .content op.waitFor)

/-- The cases `GLOBUS_XIO_HTTP_CHUNK_BODY` and `GLOBUS_XIO_HTTP_IDENTITY_BODY`. -/
def readContent : Handle × ReadOperation × Result × Option PassRead :=
  let copied := copyResidue handle op
  if copied.1.parseState ≠ .eof ∧ copied.2.waitFor > 0 then
    let passed := passContent copied.1 copied.2
    (copied.1, passed.1, .success, some passed.2)
  else (copied.1, copied.2, .success, none)

/-- The cases `GLOBUS_XIO_HTTP_CHUNK_CRLF`, `GLOBUS_XIO_HTTP_CHUNK_LINE` and
`GLOBUS_XIO_HTTP_CHUNK_FOOTERS`. -/
def readHeader : Handle × ReadOperation × Result × Option PassRead :=
  match parseChunkHeader handle with
  | (handle, .done) => readContent handle op
  | (handle, .more) => ({ handle with readBuffer := handle.readBuffer.clean }, op, .success, some .header)
  | (handle, .eof) => (handle, op, .eof, none)
  | (handle, .errorParse) => (handle, op, .errorParse, none)

/-- `globus_i_xio_http_parse_residue`; the last value is the read that was registered again. -/
def parseResidue : Handle × ReadOperation × Result × Option PassRead :=
  if op.iov = [] ∨ handle.parseState = .eof then (handle, { op with waitFor := 0 }, .success, none)
  else
    match handle.parseState with
    | .chunkBody => readContent handle op
    | .identityBody => readContent handle op
    | _ => readHeader handle op

/-! ## 6. The user, the driver and the transport -/

/-- A read that is over: what the user finds in the first `nbytes` places of the buffers, and the result. -/
structure Finished where
  data : List (Option Char)
  result : Result
  deriving DecidableEq, Repr

/-- The driver's handle with its outstanding read, what the transport has not delivered yet, and the reads
that are over. -/
structure Connection where
  handle : Handle
  reading : Option (ReadOperation × Option PassRead)
  stream : List Char
  finished : List Finished
  deriving DecidableEq

variable (connection : Connection)

/-- `globus_xio_driver_finished_read`. -/
def Connection.finish (handle : Handle) (op : ReadOperation) (result : Result) : Connection :=
  { connection with
    handle := handle
    reading := none
    finished := connection.finished ++ [⟨(memory op.iov).take op.nbytes, result⟩] }

/-- The end of the file is reported when the last byte of the content-length has been read. -/
def synthesizeEof (result : Result) : Handle × Result :=
  if handle.transferEncoding ≠ .chunked ∧ handle.contentLength = some 0 then
    ({ handle with parseState := .eof }, .eof)
  else (handle, result)

/-- The read is over if it waits for nothing and was not registered again, and if there is an error. -/
def Connection.conclude : Handle × ReadOperation × Result × Option PassRead → Connection
  | (handle, op, result, registered) =>
    if (op.waitFor = 0 ∧ registered = none) ∨ result ≠ .success then
      let last := synthesizeEof handle result
      connection.finish last.1 op last.2
    else { connection with handle := handle, reading := some (op, registered) }

/-- What `globus_i_xio_http_read` and the header callback do with the residue. -/
def Connection.advance (handle : Handle) (op : ReadOperation) : Connection :=
  connection.conclude (parseResidue handle op)

/-- `globus_i_xio_http_read`.  Only one read is in progress per handle. -/
def Connection.read (sizes : List Nat) (waitFor : Nat) : Connection :=
  match connection.reading with
  | some _ => connection
  | none => connection.advance connection.handle ⟨sizes.map Iovec.fresh, 0, waitFor⟩

/-- `globus_l_xio_http_read_callback`. -/
def Connection.readCallback (op : ReadOperation) (bytes : List Char) : Connection :=
  let op := { op with iov := fill op.iov bytes, nbytes := bytes.length + op.nbytes }
  let handle := connection.handle
  match handle.transferEncoding, handle.contentLength with
  | .identity, some left =>
    let handle := { handle with contentLength := some (left - bytes.length) }
    if left - bytes.length = 0 then connection.finish { handle with parseState := .eof } op .eof
    else connection.finish handle op .success
  | .identity, none => connection.finish handle op .success
  | .chunked, _ =>
    let handle := { handle with readChunkLeft := handle.readChunkLeft - bytes.length }
    connection.finish { handle with parseState := if handle.chunkLeft = 0 then .chunkCrlf else handle.parseState }
      op .success

/-- What happens next: the user reads into buffers of the given sizes, or the transport has read a number
of bytes. -/
inductive Input
  | read (sizes : List Nat) (waitFor : Nat)
  | arrive (count : Nat)
  deriving DecidableEq, Repr

/-- The transport returns what it was asked for: at least as many bytes as the read waits for, and no more
than it has room for. -/
def Connection.arrive (count : Nat) : Option Connection :=
  let bytes := connection.stream.take count
  let rest := { connection with stream := connection.stream.drop count }
  match connection.reading with
  | some (op, some .header) =>
    if h : 1 ≤ count ∧ count ≤ connection.stream.length ∧ bytes.length ≤ connection.handle.readBuffer.room then
      some (rest.advance
        { connection.handle with readBuffer := connection.handle.readBuffer.receive bytes h.2.2 } op)
    else none
  | some (op, some (.content nbytes)) =>
    if nbytes ≤ count ∧ count ≤ connection.stream.length ∧ count ≤ room op.iov then
      some (rest.readCallback op bytes)
    else none
  | _ => none

def Connection.step : Input → Option Connection
  | .read sizes waitFor => some (connection.read sizes waitFor)
  | .arrive count => connection.arrive count

def Connection.run (connection : Connection) : List Input → Option Connection
  | [] => some connection
  | input :: inputs => (connection.step input).bind fun connection => connection.run inputs

end Gct.Http
