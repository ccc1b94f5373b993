/-
# Extended block mode: the receiver of a stripe

The receiver reads a header from a connection, and if data follows it, puts the connection in the queue
of those that are ready.  A read of the user takes a connection from the queue and as much of the data
as it has room for; when a block is finished, the next header is read.  With `order_data` a read waits
for the block at the next offset; `globus_ftp_control_data_read_all` reads into one big buffer.

`EOD` is counted in `eods_received`, and `EOF` brings the number that is to be reached, `eod_count`.
When they are equal the transfer is over: reads that are queued come back with `eof`.

As at the sender, a callback is one step, and the poll at its end is another.
-/
import Gct.Eb.Sender

namespace Gct.Eb

open Function

/-! ## 1. State -/

/-- `globus_ftp_data_connection_t` -/
structure DataConn where
  offset : Int
  bytesReady : Nat
  eod : Bool
  close : Bool
  reusing : Bool
deriving DecidableEq

/-- `DATA_CONN_MALLOC` -/
def DataConn.init : DataConn := ⟨0, 0, false, false, false⟩

/-- What a header says about its connection. -/
def DataConn.readHeader (conn : DataConn) (h : EbHeader) : DataConn :=
  { conn with
    eod := conn.eod || h.eod
    close := conn.close || h.close
    bytesReady := if h.eof then 0 else h.count
    offset := if h.eof then 0 else h.offset }

/-- The assertions of the receiver that are checked. -/
inductive Assertion
  /-- no connection is closed before its `EOD` -/
  | closeAfterEod
  /-- no connection is ready when the transfer is over -/
  | noFreeConn
  /-- no other reads during `globus_ftp_control_data_read_all` -/
  | noBigBuffer
deriving DecidableEq

/-- The receiver.  After the fields of the handle, the transfer and the stripe come those of the
connections and the operations that are registered with the I/O library, and what was read from each
connection.  `accepted` are the connections that are known to the receiver, `failed` the assertions that
did not hold, and `misframed` is true if a header was read that is none, or data that is none. -/
structure Receiver where
  state : HandleState
  bigBuffer : Option Nat
  orderData : Bool
  orderCtr : Nat
  orderNextOffset : Int
  freeConnQ : List Nat
  freeCacheList : List Nat
  outstandingConnections : Int
  connectionCount : Int
  totalConnectionCount : Int
  commandQ : List Nat
  eodCount : Int
  eodsReceived : Nat
  conns : Nat → DataConn
  accepting : List Nat
  headerReads : List Nat
  dataReads : List (Nat × Nat)
  kickouts : Nat
  got : Nat → List Item
  accepted : List Nat
  failed : List Assertion
  misframed : Bool

namespace Receiver

variable (r : Receiver) (c : Nat) (ok : Bool) (arrived : List Item)

def globusAssert (a : Assertion) (holds : Bool) : Receiver :=
  if holds then r else { r with failed := a :: r.failed }

def stripesDestroy : Receiver :=
  { r with state := .closing, commandQ := [] }

/-- All `EOD`s are there. -/
def atEof : Bool := r.eodCount == r.eodsReceived

/-! ## 2. The poll -/

/-- The read of a block, or of as much as the user has room for. -/
def registerRead (c length : Nat) : Receiver :=
  let length := min length (r.conns c).bytesReady
  { r with
    dataReads := r.dataReads ++ [(c, length)]
    orderNextOffset := r.orderNextOffset + length }

/-- The choice of a connection, and the queue without it: the first one, or with `order_data` the first
one whose block is at the next offset; those before it go to the end of the queue. -/
def takeConn : Option (Nat × List Nat) :=
  if r.orderData then
    let (passed, rest) := r.freeConnQ.span fun c => (r.conns c).offset ≠ r.orderNextOffset
    match rest with
    | [] => none
    | c :: rest => some (c, rest ++ passed)
  else
    match r.freeConnQ with
    | [] => none
    | c :: rest => some (c, rest)

/-- The loop of `globus_l_ftp_data_eb_poll`, over the reads in the queue.  The flag is `checked_order`. -/
def pollLoop : List Nat → Bool → Receiver → Receiver × Bool
  | [], checked, r => ({ r with commandQ := [] }, checked)
  | length :: q, checked, r =>
    let r := r.globusAssert .noBigBuffer r.bigBuffer.isNone
    if r.atEof then
      pollLoop q checked
        { r.globusAssert .noFreeConn r.freeConnQ.isEmpty with kickouts := r.kickouts + 1 }
    else
      let checked := checked || r.orderData && !r.freeConnQ.isEmpty
      match r.takeConn with
      | none => ({ r with commandQ := length :: q }, checked)
      | some (c, rest) =>
        pollLoop q checked
          ({ r with freeConnQ := rest, orderCtr := if r.orderData then 0 else r.orderCtr }.registerRead
            c length)

/-- With `order_data`, if every connection is ready and none has the block, the transfer is given up
after some time. -/
def checkOrder (checked : Bool) : Receiver :=
  let pending := r.totalConnectionCount + r.outstandingConnections - r.freeConnQ.length
  if r.state = .connectRead ∧ r.orderData ∧ pending = 0 ∧ checked then
    let r' := if r.orderCtr > r.totalConnectionCount * 2 + 10 then r.stripesDestroy else r
    { r' with orderCtr := r.orderCtr + 1 }
  else r

/-- `globus_l_ftp_data_eb_poll` for the receiver -/
def poll : Receiver :=
  let r :=
    if r.bigBuffer.isSome && r.atEof then { r with bigBuffer := none, kickouts := r.kickouts + 1 }
    else r
  let (r, checked) := pollLoop r.commandQ false r
  r.checkOrder checked

/-! ## 3. Calls of the user -/

/-- `globus_ftp_control_data_read` in extended block mode, without the poll. -/
def dataRead (maxLength : Nat) : Receiver :=
  { r with commandQ := r.commandQ ++ [maxLength] }

/-- The loop of `globus_ftp_control_data_read_all`: connections that are ready are read at once. -/
def readAllLoop (length : Nat) : List Nat → Receiver → Receiver
  | [], r => { r with freeConnQ := [] }
  | c :: q, r =>
    let conn := r.conns c
    if conn.offset + conn.bytesReady > length then { r with freeConnQ := q }.stripesDestroy
    else readAllLoop length q { r with dataReads := r.dataReads ++ [(c, conn.bytesReady)] }

/-- `globus_ftp_control_data_read_all` in extended block mode, without the poll. -/
def dataReadAll (length : Nat) : Except String Receiver :=
  if r.state ≠ .connectRead then
    .error "globus_ftp_control_data_read_all(): Handle not in proper state EOF."
  else if r.bigBuffer.isSome then
    .error "globus_ftp_control_data_read_all(): Only one read_all can be registered at a time.  You must wait for a callback with eof set to GLOBUS_TRUE before calling read all again."
  else .ok (readAllLoop length r.freeConnQ { r with bigBuffer := some length })

/-! ## 4. Callbacks -/

/-- `globus_l_ftp_eb_listen_callback`: a connection is to be accepted. -/
def listenCallback : Receiver :=
  if r.state = .connectRead then
    { r with
      totalConnectionCount := r.totalConnectionCount + 1
      outstandingConnections := r.outstandingConnections + 1
      accepting := r.accepting ++ [c]
      accepted := r.accepted ++ [c]
      conns := update r.conns c .init }
  else r

/-- `globus_l_ftp_eb_accept_callback`: the first header is read. -/
def acceptCallback : Receiver :=
  if c ∈ r.accepting then
    let r : Receiver := { r with
      accepting := r.accepting.erase c
      outstandingConnections := r.outstandingConnections - 1 }
    if ok then
      { r with
        connectionCount := r.connectionCount + 1
        conns := update r.conns c { r.conns c with bytesReady := 0 }
        headerReads := r.headerReads ++ [c] }
    else r.stripesDestroy
  else r

/-- A header without data. -/
def emptyHeader (conn : DataConn) (h : EbHeader) : Receiver :=
  if conn.close then
    let r := r.globusAssert .closeAfterEod (conn.reusing || conn.eod)
    if h.eod then
      { r with eodsReceived := r.eodsReceived + 1, connectionCount := r.connectionCount - 1 }
    else if conn.eod then { r with freeCacheList := r.freeCacheList.erase c }
    else r
  else if conn.eod then
    { r with
      eodsReceived := r.eodsReceived + 1
      connectionCount := r.connectionCount - 1
      freeCacheList := c :: r.freeCacheList }
  else { r with headerReads := r.headerReads ++ [c] }

/-- A header with data: the connection is ready, or its data goes into the big buffer. -/
def dataReady (conn : DataConn) : Receiver :=
  match r.bigBuffer with
  | none => { r with freeConnQ := r.freeConnQ ++ [c] }
  | some length =>
    if conn.offset + conn.bytesReady > length then r.stripesDestroy
    else { r with dataReads := r.dataReads ++ [(c, conn.bytesReady)] }

/-- `globus_l_ftp_eb_read_header_callback` with the header `h` -/
def readHeaderCallback (h : EbHeader) : Receiver :=
  let conn := (r.conns c).readHeader h
  let r : Receiver := { r with
    eodCount := if h.eof then h.offset else r.eodCount
    conns := update r.conns c { conn with reusing := false } }
  if conn.bytesReady = 0 then r.emptyHeader c conn h else r.dataReady c conn

/-- `globus_l_ftp_eb_read_callback` with `n` bytes -/
def readCallback (c n : Nat) : Receiver :=
  let conn := r.conns c
  let conn := { conn with offset := conn.offset + n, bytesReady := conn.bytesReady - n }
  let r : Receiver := { r with conns := update r.conns c conn }
  if conn.bytesReady = 0 then
    if conn.eod then
      let r : Receiver := { r with
        eodsReceived := r.eodsReceived + 1
        connectionCount := r.connectionCount - 1
        freeCacheList := if conn.close then r.freeCacheList else c :: r.freeCacheList }
      if r.atEof then { r with bigBuffer := none, state := .eof } else r
    else { r with headerReads := r.headerReads ++ [c] }
  else { r with freeConnQ := r.freeConnQ ++ [c] }

/-- `globus_l_ftp_control_command_kickout` -/
def commandKickout : Receiver :=
  if r.kickouts = 0 then r else { r with kickouts := r.kickouts - 1, state := .eof }

/-- A header read comes back.  `arrived` is what has arrived on the connection and is not read yet. -/
def headerArrived : Receiver :=
  if c ∈ r.headerReads then
    if ok then
      match arrived with
      | [] => r
      | .byte _ :: _ => { r with misframed := true }
      | .header h :: _ =>
        Receiver.readHeaderCallback
          { r with
            headerReads := r.headerReads.erase c
            got := update r.got c (r.got c ++ [.header h]) } c h
    else { r with headerReads := r.headerReads.erase c }.stripesDestroy
  else r

/-- A read of data comes back, with all the bytes that it was registered for. -/
def dataArrived : Receiver :=
  match r.dataReads.find? (fun d => d.1 == c) with
  | none => r
  | some (_, n) =>
    if ok then
      if arrived.length < n then r
      else if (arrived.take n).any fun x => x.size.isSome then { r with misframed := true }
      else
        Receiver.readCallback
          { r with
            dataReads := r.dataReads.eraseP (fun d => d.1 == c)
            got := update r.got c (r.got c ++ arrived.take n) } c n
    else { r with dataReads := r.dataReads.eraseP (fun d => d.1 == c) }.stripesDestroy

end Receiver

/-! ## 5. Runs -/

/-- What can happen at the receiver: calls of the user, callbacks with their result, and the poll. -/
inductive ReceiverEvent
  | read (maxLength : Nat)
  | readAll (length : Nat)
  | poll
  | listen (c : Nat)
  | accept (c : Nat) (ok : Bool)
  | header (c : Nat) (ok : Bool)
  | data (c : Nat) (ok : Bool)
  | kickout

/-- A step of the receiver.  `sent` is what was written to the connections, and `nextConn` the number of
connections there are. -/
def Receiver.step (r : Receiver) (sent : Nat → List Item) (nextConn : Nat) (e : ReceiverEvent) :
    Receiver :=
  let arrived := fun c => (sent c).drop (r.got c).length
  if r.state = .closing then r
  else match e with
    | .read maxLength => r.dataRead maxLength
    | .readAll length =>
      match r.dataReadAll length with
      | .ok r => r
      | .error _ => r
    | .poll => r.poll
    | .listen c => if c < nextConn ∧ c ∉ r.accepted then r.listenCallback c else r
    | .accept c ok => r.acceptCallback c ok
    | .header c ok => r.headerArrived c ok (arrived c)
    | .data c ok => r.dataArrived c ok (arrived c)
    | .kickout => r.commandKickout

/-- `globus_l_ftp_control_data_eb_connect_read`: a header is read from the connections that are cached. -/
def Setup.connectRead (setup : Setup) : Receiver where
  state := .connectRead
  bigBuffer := none
  orderData := setup.orderData
  orderCtr := 0
  orderNextOffset := setup.startingOffset
  freeConnQ := []
  freeCacheList := []
  outstandingConnections := 0
  connectionCount := setup.cached
  totalConnectionCount := setup.cached
  commandQ := []
  eodCount := -1
  eodsReceived := 0
  conns := fun _ => { DataConn.init with reusing := true }
  accepting := []
  headerReads := List.range setup.cached
  dataReads := []
  kickouts := 0
  got := fun _ => []
  accepted := List.range setup.cached
  failed := []
  misframed := false

end Gct.Eb
