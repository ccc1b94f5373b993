/-
# The unpack functions

Each message between front end and back end has a function that unpacks its body, a sequence of decoding macros and of
loops over counts that stand in the message.  A count is an `int`, and a loop with a count below 0 has no rounds.
-/
import Gct.Ipc.Decode
import Gct.RangeList.Insert

namespace Gct.Ipc

open Decoder

/-- A `char *`, which may be `NULL`. -/
abbrev CString := Option (List UInt8)

/-! ## 1. Requests and replies -/

/-- What is packed of `globus_gfs_transfer_info_t`. -/
structure TransferInfo (ρ : Type) where
  pathname : CString
  moduleName : CString
  moduleArgs : CString
  listType : CString
  listDepth : Int32
  traversalOptions : Int32
  partialOffset : Int64
  partialLength : Int64
  allocSize : Int64
  dataArg : UInt64
  eofCount : Int32
  stripeCount : Int32
  nodeCount : Int32
  nodeNdx : Int32
  truncate : Int32
  expectedChecksum : CString
  expectedChecksumAlg : CString
  rangeList : ρ
  deriving DecidableEq

/-- What is packed of `globus_gfs_command_info_t`.  `argv` is that of `op_info`, empty if there is none. -/
structure CommandInfo where
  command : Int32
  pathname : CString
  cksmOffset : Int64
  cksmLength : Int64
  cksmAlg : CString
  chmodMode : Int32
  utimeTime : Int64
  chgrpGroup : CString
  fromPathname : CString
  authzAssert : CString
  argv : List CString
  deriving DecidableEq

/-- What is packed of `globus_gfs_data_info_t`.  A credential is what `gss_export_cred` makes of it. -/
structure DataInfo where
  ipv6 : Int32
  nstreams : Int32
  mode : UInt8
  type : UInt8
  tcpBufsize : UInt64
  blocksize : UInt64
  stripeBlocksize : UInt64
  stripeLayout : Int32
  prot : UInt8
  dcau : UInt8
  subject : CString
  maxCs : Int32
  csCount : Int32
  contactStrings : List CString
  pathname : CString
  interface : CString
  delCred : Option (List UInt8)
  deriving DecidableEq

/-- What is packed of `globus_gfs_stat_info_t`. -/
structure StatInfo where
  fileOnly : Int32
  internal : Int32
  pathname : CString
  deriving DecidableEq

/-- What is packed of `globus_gfs_stat_t`, the times as they are read. -/
structure Stat where
  mode : Int32
  nlink : Int32
  name : CString
  symlinkTarget : CString
  uid : UInt32
  gid : UInt32
  size : Int64
  atime : UInt32
  ctime : UInt32
  mtime : UInt32
  dev : Int32
  ino : Int32
  deriving DecidableEq

/-- The member of `info` that is unpacked for the type of a reply. -/
inductive ReplyInfo where
  | none
  | stat (statCount : Int32) (statArray : List Stat) (uid gidCount : Int32) (gidArray : List Int32)
  | command (command : Int32) (checksum createdDir : CString)
  | passive (dataArg : UInt64) (csCount : Int32) (contactStrings : List CString) (ipv6 biDirectional : Int32)
  | active (dataArg : UInt64) (biDirectional : Int32)
  deriving DecidableEq

/-- `globus_result_t` of a reply: success, or an error object with a text. -/
inductive ReplyResult where
  | success
  | errorGeneric (text : List UInt8)
  deriving DecidableEq

/-- `globus_gfs_finished_info_t` -/
structure FinishedInfo where
  type : UInt8
  code : Int32
  result : ReplyResult
  msg : CString
  info : ReplyInfo
  deriving DecidableEq

/-- What is unpacked for the type of an event. -/
inductive EventData (ρ : Type) where
  | none
  | transferBegin (eventArg : UInt64) (eventMask nodeCount : Int32)
  | transferConnected (remoteIp : CString)
  | disconnected (dataArg : UInt64)
  | bytesRecvd (recvdBytes : Int64) (nodeCount : Int32)
  | rangesRecvd (recvdRanges : ρ)
  | eofCount (nodeCount : Int32) (eofCount : List Int32)
  deriving DecidableEq

/-- `globus_gfs_event_info_t` of a reply -/
structure EventReply (ρ : Type) where
  type : Int32
  nodeNdx : Int32
  data : EventData ρ
  deriving DecidableEq

/-- `globus_gfs_event_info_t` of a request -/
structure EventRequest where
  eventArg : UInt64
  type : Int32
  data : EventData Unit
  deriving DecidableEq

/-- What `globus_l_gfs_ipc_unpack_user_buffer` gives: the type, and the bytes at `out_buf`. -/
structure UserBuffer where
  type : Int32
  buffer : List UInt8
  deriving DecidableEq

/-! ## 2. Conversions -/

/-- `(int) ch`, where `ch` is a `char` with a sign. -/
def ofChar (ch : UInt8) : Int32 := ch.toInt8.toInt32

/-- `(char) w` -/
def toChar (w : Int32) : UInt8 := w.toInt8.toUInt8

/-- A `time_t` from 32 bits. -/
def ofTime (w : UInt32) : Int64 := w.toUInt64.toInt64

/-- `(uint32_t) w` of a `time_t`. -/
def toTime (w : Int64) : UInt32 := w.toUInt64.toUInt32

/-- The rounds of a loop `for(ctr = 0; ctr < count; ctr++)`. -/
def rounds (count : UInt32) : Nat := count.toInt32.toInt.toNat

/-- `globus_range_list_insert` of one range after the other. -/
def insertRanges (ranges : List (Int64 × Int64)) : RangeList :=
  insertAll .init (ranges.map fun range => (range.1.toInt, range.2.toInt))

/-- `GlobusGFSErrorGeneric("unknown error")` -/
def unknownError : List UInt8 := "unknown error".toList.map fun c => .ofNat c.toNat

/-! ## 3. The unpack functions -/

def decodeInt : Decoder Int32 := do
  let w ← decodeUInt32
  pure w.toInt32

def decodeRange : Decoder (Int64 × Int64) := do
  let offset ← decodeUInt64
  let length ← decodeUInt64
  pure (offset.toInt64, length.toInt64)

/-- `globus_l_gfs_ipc_unpack_transfer` -/
def unpackTransfer : Decoder (TransferInfo RangeList) := do
  let pathname ← decodeString
  let moduleName ← decodeString
  let moduleArgs ← decodeString
  let listType ← decodeString
  let listDepth ← decodeUInt32
  let traversalOptions ← decodeUInt32
  let partialOffset ← decodeUInt64
  let partialLength ← decodeUInt64
  let allocSize ← decodeUInt64
  let dataArg ← decodeUInt32P
  let eofCount ← decodeUInt32
  let stripeCount ← decodeUInt32
  let nodeCount ← decodeUInt32
  let nodeNdx ← decodeUInt32
  let ch ← decodeChar
  let expectedChecksum ← decodeString
  let expectedChecksumAlg ← decodeString
  let rangeSize ← decodeUInt32
  let ranges ← many decodeRange (rounds rangeSize)
  pure {
    pathname, moduleName, moduleArgs, listType, dataArg, expectedChecksum, expectedChecksumAlg,
    listDepth := listDepth.toInt32, traversalOptions := traversalOptions.toInt32,
    partialOffset := partialOffset.toInt64, partialLength := partialLength.toInt64, allocSize := allocSize.toInt64,
    eofCount := eofCount.toInt32, stripeCount := stripeCount.toInt32, nodeCount := nodeCount.toInt32,
    nodeNdx := nodeNdx.toInt32, truncate := ofChar ch, rangeList := insertRanges ranges }

/-- `globus_l_gfs_ipc_unpack_command` -/
def unpackCommand : Decoder CommandInfo := do
  let command ← decodeUInt32
  let pathname ← decodeString
  let cksmOffset ← decodeUInt64
  let cksmLength ← decodeUInt64
  let cksmAlg ← decodeString
  let chmodMode ← decodeUInt32
  let utimeTime ← decodeUInt32
  let chgrpGroup ← decodeString
  let fromPathname ← decodeString
  let authzAssert ← decodeString
  let argc ← decodeUInt32
  let argv ← many decodeString (rounds argc)
  pure {
    pathname, cksmAlg, chgrpGroup, fromPathname, authzAssert, argv, command := command.toInt32,
    cksmOffset := cksmOffset.toInt64, cksmLength := cksmLength.toInt64, chmodMode := chmodMode.toInt32,
    utimeTime := ofTime utimeTime }

/-- `globus_l_gfs_ipc_unpack_cred`: the bytes that are given to `gss_import_cred` -/
def unpackCred : Decoder (Option (List UInt8)) := do
  let length ← decodeUInt32
  let value ← takeBytes length.toNat
  pure (if length > 0 then some value else none)

/-- `globus_l_gfs_ipc_unpack_data` -/
def unpackData : Decoder DataInfo := do
  let ch ← decodeChar
  let nstreams ← decodeUInt32
  let mode ← decodeChar
  let type ← decodeChar
  let tcpBufsize ← decodeUInt32
  let blocksize ← decodeUInt32
  let stripeBlocksize ← decodeUInt32
  let stripeLayout ← decodeUInt32
  let prot ← decodeChar
  let dcau ← decodeChar
  let subject ← decodeString
  let maxCs ← decodeUInt32
  let csCount ← decodeUInt32
  let contactStrings ← many decodeString (rounds csCount)
  let pathname ← decodeString
  let interface ← decodeString
  let delCred ← unpackCred
  pure {
    mode, type, prot, dcau, subject, contactStrings, pathname, interface, delCred, ipv6 := ofChar ch,
    nstreams := nstreams.toInt32, tcpBufsize := tcpBufsize.toUInt64, blocksize := blocksize.toUInt64,
    stripeBlocksize := stripeBlocksize.toUInt64, stripeLayout := stripeLayout.toInt32, maxCs := maxCs.toInt32,
    csCount := csCount.toInt32 }

/-- `globus_l_gfs_ipc_unpack_stat` -/
def unpackStat : Decoder StatInfo := do
  let fileOnly ← decodeChar
  let internal ← decodeChar
  let pathname ← decodeString
  pure { fileOnly := ofChar fileOnly, internal := ofChar internal, pathname }

/-- `globus_l_gfs_ipc_unpack_data_destroy` -/
def unpackDataDestroy : Decoder UInt64 := decodeUInt32P

/-- One round of the loop over the stat array of a reply. -/
def decodeStat : Decoder Stat := do
  let mode ← decodeUInt32
  let nlink ← decodeUInt32
  let name ← decodeString
  let symlinkTarget ← decodeString
  let uid ← decodeUInt32
  let gid ← decodeUInt32
  let size ← decodeUInt64
  let atime ← decodeUInt32
  let ctime ← decodeUInt32
  let mtime ← decodeUInt32
  let dev ← decodeUInt32
  let ino ← decodeUInt32
  pure {
    name, symlinkTarget, uid, gid, atime, ctime, mtime, mode := mode.toInt32, nlink := nlink.toInt32,
    size := size.toInt64, dev := dev.toInt32, ino := ino.toInt32 }

/-- The types of operations for which a reply has more to it. -/
def opCommand : UInt8 := 9
def opPassive : UInt8 := 10
def opActive : UInt8 := 11
def opStat : UInt8 := 14

def unpackReplyStat : Decoder ReplyInfo := do
  let statCount ← decodeUInt32
  let statArray ← many decodeStat (rounds statCount)
  let uid ← decodeUInt32
  let gidCount ← decodeUInt32
  let gidArray ← many decodeInt (rounds gidCount)
  pure (.stat statCount.toInt32 statArray uid.toInt32 gidCount.toInt32 gidArray)

def unpackReplyCommand : Decoder ReplyInfo := do
  let command ← decodeUInt32
  let checksum ← decodeString
  let createdDir ← decodeString
  pure (.command command.toInt32 checksum createdDir)

def unpackReplyPassive : Decoder ReplyInfo := do
  let dataArg ← decodeUInt32P
  let csCount ← decodeUInt32
  let contactStrings ← many decodeString (rounds csCount)
  let ipv6 ← decodeChar
  let biDirectional ← decodeChar
  pure (.passive dataArg csCount.toInt32 contactStrings (ofChar ipv6) (ofChar biDirectional))

def unpackReplyActive : Decoder ReplyInfo := do
  let dataArg ← decodeUInt32P
  let biDirectional ← decodeChar
  pure (.active dataArg (ofChar biDirectional))

/-- The `switch` of `globus_l_gfs_ipc_unpack_reply`. -/
def unpackReplyInfo (type : UInt8) : Decoder ReplyInfo :=
  if type = opStat then unpackReplyStat
  else if type = opCommand then unpackReplyCommand
  else if type = opPassive then unpackReplyPassive
  else if type = opActive then unpackReplyActive
  else pure .none

/-- The reply of an operation that failed has an error object, with its message or without. -/
def finishedInfo (type : UInt8) (code : Int32) (result : UInt32) (msg : CString) (info : ReplyInfo) : FinishedInfo :=
  if result = 0 then ⟨type, code, .success, msg, info⟩
  else ⟨type, code, .errorGeneric (msg.getD unknownError), none, info⟩

/-- `globus_l_gfs_ipc_unpack_reply` -/
def unpackReply : Decoder FinishedInfo := do
  let type ← decodeChar
  let code ← decodeUInt32
  let result ← decodeUInt32
  let msg ← decodeString
  let info ← unpackReplyInfo type
  pure (finishedInfo type code.toInt32 result msg info)

/-- `globus_gfs_event_type_t` -/
def eventTransferBegin : UInt32 := 0x0001
def eventDisconnected : UInt32 := 0x0008
def eventBytesRecvd : UInt32 := 0x0010
def eventRangesRecvd : UInt32 := 0x0020
def eventTransferConnected : UInt32 := 0x0040
def eventPartialEofCount : UInt32 := 0x0100
def eventFinalEofCount : UInt32 := 0x0200

def unpackTransferBegin : Decoder (EventData RangeList) := do
  let eventArg ← decodeUInt32P
  let eventMask ← decodeUInt32
  let nodeCount ← decodeUInt32
  pure (.transferBegin eventArg eventMask.toInt32 nodeCount.toInt32)

def unpackTransferConnected : Decoder (EventData RangeList) := do
  let remoteIp ← decodeString
  pure (.transferConnected remoteIp)

def unpackDisconnected : Decoder (EventData RangeList) := do
  let dataArg ← decodeUInt32P
  pure (.disconnected dataArg)

def unpackBytesRecvd : Decoder (EventData RangeList) := do
  let recvdBytes ← decodeUInt64
  let nodeCount ← decodeUInt32
  pure (.bytesRecvd recvdBytes.toInt64 nodeCount.toInt32)

def unpackRangesRecvd : Decoder (EventData RangeList) := do
  let rangeSize ← decodeUInt32
  let ranges ← many decodeRange (rounds rangeSize)
  pure (.rangesRecvd (insertRanges ranges))

def unpackEofCount {ρ : Type} : Decoder (EventData ρ) := do
  let nodeCount ← decodeUInt32
  let eofCount ← many decodeInt (rounds nodeCount)
  pure (.eofCount nodeCount.toInt32 eofCount)

/-- The `switch` of `globus_l_gfs_ipc_unpack_event_reply`. -/
def unpackEventData (type : UInt32) : Decoder (EventData RangeList) :=
  if type = eventTransferBegin then unpackTransferBegin
  else if type = eventTransferConnected then unpackTransferConnected
  else if type = eventDisconnected then unpackDisconnected
  else if type = eventBytesRecvd then unpackBytesRecvd
  else if type = eventRangesRecvd then unpackRangesRecvd
  else if type = eventPartialEofCount then unpackEofCount
  else pure .none

/-- `globus_l_gfs_ipc_unpack_event_reply` -/
def unpackEventReply : Decoder (EventReply RangeList) := do
  let type ← decodeUInt32
  let nodeNdx ← decodeUInt32
  let data ← unpackEventData type
  pure ⟨type.toInt32, nodeNdx.toInt32, data⟩

/-- The `switch` of `globus_l_gfs_ipc_unpack_event_request`. -/
def unpackEventRequestData (type : UInt32) : Decoder (EventData Unit) :=
  if type = eventFinalEofCount then unpackEofCount else pure .none

/-- `globus_l_gfs_ipc_unpack_event_request` -/
def unpackEventRequest : Decoder EventRequest := do
  let eventArg ← decodeUInt32P
  let type ← decodeUInt32
  let data ← unpackEventRequestData type
  pure ⟨eventArg, type.toInt32, data⟩

/-- `globus_l_gfs_ipc_unpack_user_buffer` -/
def unpackUserBuffer : Decoder UserBuffer := do
  let bufferType ← decodeUInt32
  let bufferLength ← decodeUInt32
  let buffer ← takeBytes bufferLength.toNat
  pure ⟨bufferType.toInt32, buffer⟩

end Gct.Ipc
