/-
# The telnet driver

`globus_l_xio_telnet_check_data` takes the telnet sequences out of the bytes that have come, in place, and
looks for the end of a line; `globus_l_xio_telnet_request_data` writes the refusals that are queued, hands
a complete line to the user, or passes a read down.  The bytes of an incomplete line stay in the buffer and
are looked at again when more have come, while `last_char` is still the last byte of the scan before.
-/
import Mathlib.Data.UInt

namespace Gct.Telnet

/-! ## 1. Codes -/

def null : UInt8 := 0
def bell : UInt8 := 7
def bs : UInt8 := 8
def ht : UInt8 := 9
def lf : UInt8 := 10
def vt : UInt8 := 11
def ff : UInt8 := 12
def cr : UInt8 := 13
def will : UInt8 := 251
def wont : UInt8 := 252
def doOption : UInt8 := 253
def dont : UInt8 := 254
def iac : UInt8 := 255

/-- The characters that stay in a line. -/
def isText (b : UInt8) : Bool :=
  (32 ≤ b && b ≤ 126) || b = null || b = bell || b = bs || b = ht || b = cr || b = vt || b = ff

/-! ## 2. Scanning -/

/-- An answer of three bytes. -/
abbrev Answer := UInt8 × UInt8 × UInt8

/-- What a scan remembers.  `writeBuffer` holds the first two bytes of an answer whose option has not come. -/
structure Scanner where
  lastChar : UInt8
  writeBuffer : Option (UInt8 × UInt8)
  writeQ : List Answer
  lineStartNdx : Nat
  deriving DecidableEq, Repr

inductive Verdict
  | keep
  | remove
  | done
  deriving DecidableEq, Repr

/-- The first two bytes of the answer to a command. -/
def answerTo (b : UInt8) (writeBuffer : Option (UInt8 × UInt8)) : Option (UInt8 × UInt8) :=
  if b = will then some (iac, dont) else if b = doOption then some (iac, wont) else writeBuffer

/-- The option completes an answer, if there is one. -/
def Scanner.enqueue (s : Scanner) (b : UInt8) : Scanner :=
  match s.writeBuffer with
  | some (first, second) => { s with writeQ := s.writeQ ++ [(first, second, b)], writeBuffer := none }
  | none => s

/-- A client goes on until a line that is short, or has a blank behind its code. -/
def Scanner.lineEnd (client : Bool) (s : Scanner) (kept : List UInt8) : Scanner × Verdict :=
  if client then
    if kept.length < s.lineStartNdx + 5 ∨ kept[s.lineStartNdx + 3]? = some 32 then
      ({ s with lineStartNdx := 0, lastChar := 0 }, .done)
    else ({ s with lineStartNdx := kept.length + 1, lastChar := lf }, .keep)
  else ({ s with lastChar := 0 }, .done)

/-- One byte, with the bytes that are kept before it. -/
def Scanner.judge (client : Bool) (s : Scanner) (kept : List UInt8) (b : UInt8) : Scanner × Verdict :=
  if s.lastChar = iac then ({ s with writeBuffer := answerTo b s.writeBuffer, lastChar := b }, .remove)
  else if s.lastChar = will ∨ s.lastChar = doOption then ({ s.enqueue b with lastChar := b }, .remove)
  else if s.lastChar = wont ∨ s.lastChar = doOption then ({ s with lastChar := b }, .remove)
  else if isText b then ({ s with lastChar := b }, .keep)
  else if b = lf ∧ s.lastChar = cr then s.lineEnd client kept
  else ({ s with lastChar := b }, .remove)

/-- The loop of `globus_l_xio_telnet_check_data`: the bytes before the index, those behind it, and whether
the loop was left at the end of a line. -/
def scan (client : Bool) (s : Scanner) (kept : List UInt8) : List UInt8 → Scanner × List UInt8 × List UInt8 × Bool
  | [] => (s, kept, [], false)
  | b :: rest =>
    match s.judge client kept b with
    | (s, .keep) => scan client s (kept ++ [b]) rest
    | (s, .remove) => scan client s kept rest
    | (s, .done) => (s, kept ++ [b], rest, true)

/-! ## 3. The driver, the user and the transport -/

/-- What the driver waits for. -/
inductive Waiting
  /-- There is no read of the user. -/
  | user
  /-- An answer is being written. -/
  | write
  /-- A read has been passed down. -/
  | read
  deriving DecidableEq, Repr

structure Connection where
  client : Bool
  createBufferMode : Bool
  scanner : Scanner
  readBuffer : List UInt8
  readBufferLength : Nat
  waiting : Waiting
  /-- The length of the user's buffer. -/
  iovLen : Nat
  /-- The bytes that the transport has not delivered yet. -/
  stream : List UInt8
  /-- The reads of the user that are over. -/
  delivered : List (List UInt8)
  /-- The answers that have been passed to the transport. -/
  written : List Answer
  deriving DecidableEq, Repr

variable (connection : Connection)

/-- A line is complete, with `remainder` behind it. -/
def Connection.deliver (line remainder : List UInt8) : Connection :=
  let len := if connection.createBufferMode ∨ connection.iovLen ≥ line.length then line.length else connection.iovLen
  { connection with
    readBuffer := line.drop len ++ remainder
    waiting := .user
    delivered := connection.delivered ++ [line.take len] }

/-- More bytes are needed; a buffer that is nearly full grows. -/
def Connection.passRead : Connection :=
  { connection with
    readBufferLength :=
      if connection.readBuffer.length + 1 ≥ connection.readBufferLength then connection.readBufferLength * 2
      else connection.readBufferLength
    waiting := .read }

/-- `globus_l_xio_telnet_request_data`. -/
def Connection.requestData : Connection :=
  match connection.scanner.writeQ with
  | answer :: writeQ =>
    { connection with
      scanner := { connection.scanner with writeQ := writeQ }
      waiting := .write
      written := connection.written ++ [answer] }
  | [] =>
    match scan connection.client connection.scanner [] connection.readBuffer with
    | (scanner, line, remainder, true) => { connection with scanner := scanner }.deliver line remainder
    | (scanner, kept, _, false) => { connection with scanner := scanner, readBuffer := kept }.passRead

/-- What happens next: the user reads, an answer has been written, or bytes have come. -/
inductive Input
  | read (iovLen : Nat)
  | wrote
  | arrive (count : Nat)
  deriving DecidableEq, Repr

def Connection.step : Input → Option Connection
  | .read iovLen =>
    if connection.waiting = .user then some { connection with iovLen := iovLen }.requestData else none
  | .wrote => if connection.waiting = .write then some connection.requestData else none
  | .arrive count =>
    if connection.waiting = .read ∧ 1 ≤ count ∧ count ≤ connection.stream.length ∧
        count ≤ connection.readBufferLength - connection.readBuffer.length then
      some { connection with
        readBuffer := connection.readBuffer ++ connection.stream.take count
        stream := connection.stream.drop count }.requestData
    else none

def Connection.run (connection : Connection) : List Input → Option Connection
  | [] => some connection
  | input :: inputs => (connection.step input).bind fun connection => connection.run inputs

/-- `GLOBUS_L_XIO_TELNET_DEFAULT_BUFFER_SIZE`. -/
def defaultBufferSize : Nat := 1024

/-- The handle of a server that has just been opened. -/
def Connection.server (createBufferMode : Bool) (stream : List UInt8) : Connection where
  client := false
  createBufferMode := createBufferMode
  scanner := ⟨0, none, [], 0⟩
  readBuffer := []
  readBufferLength := defaultBufferSize
  waiting := .user
  iovLen := 0
  stream := stream
  delivered := []
  written := []

end Gct.Telnet
