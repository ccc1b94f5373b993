/-
# Extended block mode: the sender of a stripe

The sender of a stripe has a queue of blocks to write and several data connections.  A connection that
is free takes the next block from the queue (`globus_l_ftp_data_eb_poll`), and is free again when the
block is written (`globus_l_ftp_eb_write_callback`).  Connections are opened while the transfer runs, and
dropped again if the number of channels is made smaller (`globus_l_ftp_control_data_adjust_connection`).
The last entry of the queue has the flag `eof`: the poll that takes it sends `EOD` on every other free
connection, and those that are busy or still connecting send theirs when their callback comes.  One of
them sends `EOF` with it: in this mode the handle sends `EOF` by itself (`send_eof` is true).

All of this runs under the lock of the handle, so a callback is one step.  The poll at the end of a
callback is a step of its own here, since other callbacks may come before it.  An operation that fails
tears the transfer down (`stripesDestroy`).
-/
import Gct.Eb.Header

namespace Gct.Eb

open Function

/-! ## 1. State -/

/-- The states of the handle during a transfer. -/
inductive HandleState
  | connectRead
  | connectWrite
  | closing
  | eof
deriving DecidableEq

/-- What a layout function does on this stripe: the pieces of a write that it registers, with their
offsets.  The layouts of the library pass the flag `eof` of the write on with every piece, and no piece
of theirs is empty. -/
structure Layout where
  pieces : List UInt8 → Int → List (List UInt8 × Int)
  pieces_ne : ∀ {buffer offset piece}, piece ∈ pieces buffer offset → piece.1 ≠ []

/-- An entry of the queue of writes, `globus_l_ftp_handle_table_entry_t`. -/
structure Entry where
  buffer : List UInt8
  offset : Int
  eof : Bool
  callbackTableHandle : Nat

/-- The sender.  The fields up to `eofSent` are those of the handle, of the transfer and of the stripe;
`handleTable` has the number of references to the callback of each write.  Then follow the operations
that are registered with the I/O library, `connecting` to `closeMsgs`, and what was written to each
connection.  `registered` lists the connections that `totalConnectionCount` counts; nothing reads it. -/
structure Sender where
  state : HandleState
  ascii : Bool
  layoutFunc : Option Layout
  eofRegistered : Bool
  eofTableHandle : Nat
  handleTable : Nat → Nat
  nextHandle : Nat
  parallel : Nat
  freeConnQ : List Nat
  freeCacheList : List Nat
  outstandingConnList : List Nat
  outstandingConnections : Int
  connectionCount : Int
  totalConnectionCount : Int
  commandQ : List Entry
  eof : Bool
  eofSent : Bool
  nextConn : Nat
  connecting : List Nat
  writing : List (Nat × Entry)
  finishing : List Nat
  closeMsgs : List Nat
  sent : Nat → List Item
  registered : List Nat
  /-- whether every `globus_assert` on the way held -/
  assertsHeld : Bool

namespace Sender

variable (s : Sender) (c : Nat) (buffer : List UInt8) (handle : Nat) (offset : Int) (eof : Bool)
  (ok : Bool) (refused : Option Nat)

/-! ## 2. Operations that are registered with the I/O library -/

/-- What is written to a connection arrives behind what was written before. -/
def send (l : List Item) : Sender :=
  { s with sent := update s.sent c (s.sent c ++ l) }

/-- `globus_l_ftp_control_data_register_connect`.  The connection is counted before it is known whether
the I/O library accepts the operation (`accepted`). -/
def registerConnect (accepted : Bool) : Sender :=
  { s with
    outstandingConnections := s.outstandingConnections + 1
    totalConnectionCount := s.totalConnectionCount + 1
    outstandingConnList := s.nextConn :: s.outstandingConnList
    nextConn := s.nextConn + 1
    connecting := if accepted then s.connecting ++ [s.nextConn] else s.connecting
    registered := s.registered ++ [s.nextConn] }

/-- `globus_l_ftp_control_add_ascii`: a carriage return before every newline. -/
def addAscii : List UInt8 :=
  buffer.flatMap fun b => if b = 10 then [13, b] else [b]

/-- The write of a data block: the header and the bytes, as they are or converted. -/
def registerWritev (entry : Entry) : Sender :=
  let buffer := if s.ascii then addAscii entry.buffer else entry.buffer
  { s.send c (block buffer entry.offset) with writing := s.writing ++ [(c, entry)] }

/-- `globus_l_ftp_control_data_register_eod` -/
def registerEod : Sender :=
  { s.send c [.header eodHeader] with
    connectionCount := s.connectionCount - 1
    finishing := s.finishing ++ [c] }

/-- `globus_l_ftp_control_data_register_eof` -/
def registerEof : Sender :=
  if s.eofSent then { s with assertsHeld := false }
  else
    { s.send c [.header (eofHeader s.totalConnectionCount)] with
      eofSent := true
      connectionCount := s.connectionCount - 1
      finishing := s.finishing ++ [c] }

/-- `globus_l_ftp_control_register_close_msg`; `eod` is the flag of the connection. -/
def registerCloseMsg (eod : Bool) : Sender :=
  { s.send c [.header (closeHeader eod)] with closeMsgs := s.closeMsgs ++ [c] }

/-! ## 3. The poll -/

/-- The loop in `adjustConnection` that opens connections.  `refused` is the index of the operation that
the I/O library does not accept, if there is one; the loop ends there. -/
def openConnections : Nat → Option Nat → Sender → Sender
  | 0, _, s => s
  | _ + 1, some 0, s => s.registerConnect false
  | n + 1, some (k + 1), s => openConnections n (some k) (s.registerConnect true)
  | n + 1, none, s => openConnections n none (s.registerConnect true)

/-- `globus_l_ftp_control_data_adjust_connection` -/
def adjustConnection : Sender :=
  let connections := s.connectionCount + s.outstandingConnections
  if s.state ≠ .connectWrite ∨ s.eof then s
  else if connections < s.parallel then openConnections (s.parallel - connections).toNat refused s
  else if s.parallel < connections then
    match s.freeConnQ with
    | [] => s
    | c :: q =>
      { s with freeConnQ := q, connectionCount := s.connectionCount - 1 }.registerCloseMsg c true
  else s

/-- `globus_handle_table_increment_reference_by` for the callback of the last write. -/
def addReferences (references : Int) : Sender :=
  { s with
    handleTable := update s.handleTable s.eofTableHandle
      (s.handleTable s.eofTableHandle + references).toNat }

/-- An empty `EOD` on the connections given, which are all that are free. -/
def registerEods : List Nat → Sender → Sender
  | [], s => { s with freeConnQ := [] }
  | c :: q, s => registerEods q (s.registerEod c)

/-- No connection is opened from now on, and those that are free have nothing more to write. -/
def retire : Sender :=
  registerEods s.freeConnQ { s with eof := true }

/-- The poll takes an entry with the flag `eof` and a free connection `c`.  There will be a callback for
every connection. -/
def pollEof (entry : Entry) (c : Nat) : Sender :=
  let s := s.addReferences (s.connectionCount + s.outstandingConnections - 1)
  (if entry.buffer.length = 0 then s.registerEof c else s.registerWritev c entry).retire

/-- The loop of `globus_l_ftp_data_eb_poll`, over the entries of the queue. -/
def pollLoop : List Entry → Sender → Sender
  | [], s => { s with commandQ := [] }
  | entry :: q, s =>
    match s.freeConnQ with
    | [] => { s with commandQ := entry :: q }
    | c :: free =>
      let s : Sender := { s with freeConnQ := free }
      pollLoop q (if entry.eof then s.pollEof entry c else s.registerWritev c entry)

/-- `globus_l_ftp_data_eb_poll` for the sender.  `refused` is for `adjustConnection`. -/
def poll : Sender :=
  if s.state = .connectWrite then
    let s := if s.commandQ.isEmpty then s else s.adjustConnection refused
    pollLoop s.commandQ s
  else s

/-! ## 4. Calls of the user -/

/-- `globus_i_ftp_control_data_write_stripe` -/
def writeStripe (handle : Nat) (piece : List UInt8 × Int) : Except String Sender :=
  if s.eofRegistered then
    .error "[globus_ftp_control]:globus_i_ftp_control_data_write_stripe() : eof has already been registered."
  else if piece.1.length = 0 ∧ ¬ eof then
    .error "[globus_ftp_control]:globus_i_ftp_control_data_write_stripe() : cannot register a zero length message unless you are signifying eof."
  else
    .ok { s with
      commandQ := s.commandQ ++ [⟨piece.1, piece.2, eof, handle⟩]
      handleTable := update s.handleTable handle (s.handleTable handle + 1) }

/-- A layout function registers its pieces, and stops at an error, which nobody looks at. -/
def layout (eof : Bool) (handle : Nat) : List (List UInt8 × Int) → Sender → Sender
  | [], s => s
  | piece :: pieces, s =>
    match s.writeStripe eof handle piece with
    | .ok s => layout eof handle pieces s
    | .error _ => s

/-- The end of `globus_l_ftp_control_data_eb_write` if `eof` is true: the last entry in the queue has the
flag, and if there is none yet, an empty one is added. -/
def finishQueue : Sender :=
  { s with
    eofRegistered := true
    eofTableHandle := handle
    commandQ :=
      if s.commandQ.getLast?.any (·.eof) then s.commandQ else s.commandQ ++ [⟨[], 0, true, handle⟩]
    handleTable := update s.handleTable handle (s.handleTable handle + 1) }

/-- `globus_i_ftp_control_create_data_info`: a new callback, with the reference that the data info has. -/
def createDataInfo : Sender :=
  { s with
    nextHandle := s.nextHandle + 1
    handleTable := update s.handleTable s.nextHandle 1 }

/-- `globus_i_ftp_control_release_data_info` -/
def releaseDataInfo : Sender :=
  { s with handleTable := update s.handleTable handle (s.handleTable handle - 1) }

/-- The part of `globus_l_ftp_control_data_eb_write` that registers the data. -/
def registerPieces (handle : Nat) : Except String Sender :=
  if buffer.length = 0 then .ok s
  else match s.layoutFunc with
    | some l => .ok (layout eof handle (l.pieces buffer offset) s)
    | none => s.writeStripe eof handle (buffer, offset)

/-- `globus_l_ftp_control_data_eb_write` -/
def ebWrite : Except String Sender :=
  if s.eofRegistered then
    .error "[globus_ftp_control]:globus_l_ftp_control_data_eb_write() : eof has already been registered"
  else if buffer.length = 0 ∧ ¬ eof then
    .error "[globus_ftp_control]:globus_l_ftp_control_data_eb_write() : cannot register a zero length message unless you are signifying eof."
  else
    let handle := s.nextHandle
    (s.createDataInfo.registerPieces buffer offset eof handle).map fun s =>
      (if eof then s.finishQueue handle else s).releaseDataInfo handle

/-- `globus_ftp_control_data_write` in extended block mode, without the poll. -/
def dataWrite : Except String Sender :=
  match s.state with
  | .connectWrite => s.ebWrite buffer offset eof
  | .closing => .error "Handle not in the proper state"
  | .eof => .error "globus_ftp_control_data_write(): Handle not in proper state. EOF"
  | .connectRead => .error "globus_ftp_control_data_write(): Handle not in proper state. CONNECT_READ"

/-- `globus_ftp_control_data_remove_channels` -/
def removeChannels : Except String Sender :=
  if s.parallel < 2 then .error "It is invalid to set the number of data channels to zero."
  else .ok { s with parallel := s.parallel - 1 }

/-! ## 5. Callbacks -/

/-- `globus_l_ftp_control_stripes_destroy`: what is still queued is dropped.  The callbacks that are
outstanding come back cancelled and find no transfer. -/
def stripesDestroy : Sender :=
  { s with state := .closing, commandQ := [] }

/-- One reference to the callback of a write is gone.  The last one ends the transfer if the write had
the flag `eof`. -/
def decrementReference : Sender :=
  let references := s.handleTable handle - 1
  { s with
    handleTable := update s.handleTable handle references
    state := if references = 0 ∧ eof then .eof else s.state }

/-- `globus_l_ftp_eb_connect_callback` -/
def connectCallback : Sender :=
  if c ∈ s.connecting then
    let s : Sender := { s with
      connecting := s.connecting.erase c
      outstandingConnections := s.outstandingConnections - 1
      outstandingConnList := s.outstandingConnList.erase c }
    if ok then
      let s : Sender := { s with
        assertsHeld := s.assertsHeld && decide (s.state = .connectWrite)
        connectionCount := s.connectionCount + 1 }
      if s.eof then s.registerEod c else { s with freeConnQ := s.freeConnQ ++ [c] }
    else s.stripesDestroy
  else s

/-- `globus_l_ftp_eb_write_callback` -/
def writeCallback : Sender :=
  match s.writing.find? (fun w => w.1 == c) with
  | none => s
  | some (_, entry) =>
    let s : Sender := { s with writing := s.writing.eraseP (fun w => w.1 == c) }
    if ok then
      let s := if s.eof then if s.eofSent then s.registerEod c else s.registerEof c
        else { s with freeConnQ := s.freeConnQ ++ [c] }
      s.decrementReference entry.callbackTableHandle entry.eof
    else s.stripesDestroy

/-- `globus_l_ftp_eb_eof_eod_callback`.  Neither of the two headers has the flag `CLOSE`, so the connection
is cached. -/
def eofEodCallback : Sender :=
  if c ∈ s.finishing then
    let s : Sender := { s with finishing := s.finishing.erase c }
    if ok then
      let s : Sender := { s with freeCacheList := c :: s.freeCacheList }
      if s.handleTable s.eofTableHandle = 0 then s
      else s.decrementReference s.eofTableHandle true
    else s.stripesDestroy
  else s

/-- `globus_l_ftp_close_msg_callback`: the connection is closed. -/
def closeMsgCallback : Sender :=
  { s with closeMsgs := s.closeMsgs.erase c }

end Sender

/-! ## 6. Runs -/

/-- What can happen at the sender: calls of the user, callbacks with their result, and the poll. -/
inductive SenderEvent
  | write (buffer : List UInt8) (offset : Int) (eof : Bool)
  | removeChannels
  | poll (refused : Option Nat)
  | connected (c : Nat) (ok : Bool)
  | written (c : Nat) (ok : Bool)
  | finished (c : Nat) (ok : Bool)
  | closed (c : Nat)

namespace Sender

/-- A call that returns an error changes nothing. -/
def orElse (s : Sender) : Except String Sender → Sender
  | .ok s' => s'
  | .error _ => s

def step (s : Sender) (e : SenderEvent) : Sender :=
  if s.state = .closing then s
  else match e with
    | .write buffer offset eof => s.orElse (s.dataWrite buffer offset eof)
    | .removeChannels => s.orElse s.removeChannels
    | .poll refused => s.poll refused
    | .connected c ok => s.connectCallback c ok
    | .written c ok => s.writeCallback c ok
    | .finished c ok => s.eofEodCallback c ok
    | .closed c => s.closeMsgCallback c

/-- The part of `globus_l_ftp_control_data_eb_connect_write` that uses the connections that are cached. -/
def reuse : List Nat → Sender → Sender
  | [], s => s
  | c :: cache, s =>
    reuse cache
      (if s.connectionCount ≤ s.parallel then
        { s with
          freeConnQ := s.freeConnQ ++ [c]
          connectionCount := s.connectionCount + 1
          totalConnectionCount := s.totalConnectionCount + 1
          registered := s.registered ++ [c] }
      else s.registerCloseMsg c false)

end Sender

/-- How a transfer is set up. -/
structure Setup where
  parallel : Nat
  parallel_pos : 0 < parallel
  ascii : Bool
  layoutFunc : Option Layout
  /-- the number of connections that both sides have cached -/
  cached : Nat
  /-- whether the user of `globus_ftp_control_data_connect_write` wants a callback -/
  callback : Bool
  orderData : Bool
  startingOffset : Int

/-- The sender before a transfer. -/
def Setup.sender (setup : Setup) : Sender where
  state := .connectWrite
  ascii := setup.ascii
  layoutFunc := setup.layoutFunc
  eofRegistered := false
  eofTableHandle := 0
  handleTable := fun _ => 0
  nextHandle := 1
  parallel := setup.parallel
  freeConnQ := []
  freeCacheList := []
  outstandingConnList := []
  outstandingConnections := 0
  connectionCount := 0
  totalConnectionCount := 0
  commandQ := []
  eof := false
  eofSent := false
  nextConn := setup.cached
  connecting := []
  writing := []
  finishing := []
  closeMsgs := []
  sent := fun _ => []
  registered := []
  assertsHeld := true

/-- `globus_l_ftp_control_data_eb_connect_write`: the cached connections are taken, and the first new one
is registered if it is needed. -/
def Setup.connectWrite (setup : Setup) : Sender :=
  let s := Sender.reuse (List.range setup.cached) setup.sender
  let connected := setup.callback && 0 < setup.cached
  if s.connectionCount < s.parallel ∧ ¬ connected then s.registerConnect true else s

end Gct.Eb
