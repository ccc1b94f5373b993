/-
# Messages on the wire

For every unpack function this module says what a body of its kind says (`Kind.Message`), which bytes this has (`wire`)
and what the function should make of it (`value`).  `Fits` are the conditions under which a value is not changed on its
way: counts agree with lists, no text is too long, and nothing is lost when a value is narrowed to its place.
-/
import Gct.Ipc.Unpack

namespace Gct.Ipc

open Decoder

/-! ## 1. Values on the wire -/

def wireInt (w : Int32) : List UInt8 := wireUInt32 w.toUInt32
def wireOff (w : Int64) : List UInt8 := wireUInt64 w.toUInt64
def wirePointer (w : UInt64) : List UInt8 := wireUInt32 w.toUInt32
def wireChar (w : Int32) : List UInt8 := [toChar w]
def wireTime (w : Int64) : List UInt8 := wireUInt32 (toTime w)

def FitsPointer (w : UInt64) : Prop := w.toNat < 2 ^ 32
def FitsChar (w : Int32) : Prop := -128 ≤ w.toInt ∧ w.toInt ≤ 127
def FitsTime (w : Int64) : Prop := 0 ≤ w.toInt ∧ w.toInt < 2 ^ 32
def FitsCount {α : Type} (count : Int32) (l : List α) : Prop := l.length = count.toInt.toNat

theorem fitsChar_ofChar (ch : UInt8) : FitsChar (ofChar ch) := by
  rw [FitsChar, ofChar, Int8.toInt_toInt32]
  have hlo := ch.toInt8.le_toInt
  have hhi := ch.toInt8.toInt_lt
  omega

theorem wireChar_ofChar (ch : UInt8) : wireChar (ofChar ch) = [ch] := by simp [wireChar, toChar, ofChar]

theorem ofChar_toChar {w : Int32} (h : FitsChar w) : ofChar (toChar w) = w := by
  obtain ⟨hlo, hhi⟩ := h
  apply Int32.toInt_inj.mp
  simp only [ofChar, toChar, Int8.toInt8_toUInt8, Int8.toInt_toInt32, Int32.toInt_toInt8]
  exact Int.bmod_eq_of_le (by omega) (by omega)

variable (w : UInt32)

theorem toInt_ofTime : (ofTime w).toInt = w.toNat := by
  have hlt := w.toNat_lt
  show w.toUInt64.toBitVec.toInt = _
  rw [BitVec.toInt_eq_toNat_of_lt]
  · simp
  · simp only [UInt64.toNat_toBitVec, UInt32.toNat_toUInt64]
    omega

theorem fitsTime_ofTime : FitsTime (ofTime w) := by
  have hlt := w.toNat_lt
  rw [FitsTime, toInt_ofTime]
  omega

theorem toTime_ofTime : toTime (ofTime w) = w := by simp [toTime, ofTime]

/-- A number that is not negative keeps its value without the sign. -/
theorem toNat_toUInt64_of_nonneg {w : Int64} (h : 0 ≤ w.toInt) : (w.toUInt64.toNat : Int) = w.toInt := by
  have hcond : w.toInt =
      if 2 * w.toUInt64.toNat < 2 ^ 64 then (w.toUInt64.toNat : Int) else w.toUInt64.toNat - (2 ^ 64 : Nat) :=
    BitVec.toInt_eq_toNat_cond w.toBitVec
  have hlt := w.toUInt64.toNat_lt
  split at hcond
  · exact hcond.symm
  · omega

theorem ofTime_toTime {w : Int64} (h : FitsTime w) : ofTime (toTime w) = w := by
  obtain ⟨hlo, hhi⟩ := h
  have hnat := toNat_toUInt64_of_nonneg hlo
  apply Int64.toInt_inj.mp
  rw [toInt_ofTime, toTime, UInt64.toNat_toUInt32, Nat.mod_eq_of_lt (by omega), hnat]

theorem fitsPointer_toUInt64 : FitsPointer w.toUInt64 := by
  rw [FitsPointer, UInt32.toNat_toUInt64]
  exact w.toNat_lt

theorem toUInt64_toUInt32 {w : UInt64} (h : FitsPointer w) : w.toUInt32.toUInt64 = w := by
  apply UInt64.toNat_inj.mp
  rw [UInt32.toNat_toUInt64, UInt64.toNat_toUInt32, Nat.mod_eq_of_lt h]

/-! ## 2. Messages on the wire -/

def wireRange (range : Int64 × Int64) : List UInt8 := wireOff range.1 ++ wireOff range.2

/-- A transfer request with the number of its ranges. -/
def TransferInfo.wire (rangeSize : Int32) (info : TransferInfo (List (Int64 × Int64))) : List UInt8 :=
  [wireString info.pathname, wireString info.moduleName, wireString info.moduleArgs, wireString info.listType,
    wireInt info.listDepth, wireInt info.traversalOptions, wireOff info.partialOffset, wireOff info.partialLength,
    wireOff info.allocSize, wirePointer info.dataArg, wireInt info.eofCount, wireInt info.stripeCount,
    wireInt info.nodeCount, wireInt info.nodeNdx, wireChar info.truncate, wireString info.expectedChecksum,
    wireString info.expectedChecksumAlg, wireInt rangeSize, info.rangeList.flatMap wireRange].flatten

/-- The values of a transfer request are not changed on the wire. -/
structure TransferInfo.Fits {ρ : Type} (info : TransferInfo ρ) : Prop where
  pathname : FitsString info.pathname
  moduleName : FitsString info.moduleName
  moduleArgs : FitsString info.moduleArgs
  listType : FitsString info.listType
  dataArg : FitsPointer info.dataArg
  truncate : FitsChar info.truncate
  expectedChecksum : FitsString info.expectedChecksum
  expectedChecksumAlg : FitsString info.expectedChecksumAlg

/-- The request with its range list. -/
def TransferInfo.withRangeList {ρ σ : Type} (info : TransferInfo ρ) (rangeList : σ) : TransferInfo σ :=
  { info with rangeList }

/-- A command with the number of its arguments. -/
def CommandInfo.wire (argc : Int32) (info : CommandInfo) : List UInt8 :=
  [wireInt info.command, wireString info.pathname, wireOff info.cksmOffset, wireOff info.cksmLength,
    wireString info.cksmAlg, wireInt info.chmodMode, wireTime info.utimeTime, wireString info.chgrpGroup,
    wireString info.fromPathname, wireString info.authzAssert, wireInt argc, info.argv.flatMap wireString].flatten

structure CommandInfo.Fits (info : CommandInfo) : Prop where
  pathname : FitsString info.pathname
  cksmAlg : FitsString info.cksmAlg
  utimeTime : FitsTime info.utimeTime
  chgrpGroup : FitsString info.chgrpGroup
  fromPathname : FitsString info.fromPathname
  authzAssert : FitsString info.authzAssert
  argv : ∀ arg ∈ info.argv, FitsString arg

/-- A credential with its length. -/
def wireCred : Option (List UInt8) → List UInt8
  | none => wireUInt32 0
  | some token => wireUInt32 (.ofNat token.length) ++ token

def FitsCred (cred : Option (List UInt8)) : Prop := ∀ token ∈ cred, 0 < token.length ∧ token.length < 2 ^ 32

def DataInfo.wire (info : DataInfo) : List UInt8 :=
  [wireChar info.ipv6, wireInt info.nstreams, [info.mode], [info.type], wirePointer info.tcpBufsize,
    wirePointer info.blocksize, wirePointer info.stripeBlocksize, wireInt info.stripeLayout, [info.prot], [info.dcau],
    wireString info.subject, wireInt info.maxCs, wireInt info.csCount, info.contactStrings.flatMap wireString,
    wireString info.pathname, wireString info.interface, wireCred info.delCred].flatten

structure DataInfo.Fits (info : DataInfo) : Prop where
  ipv6 : FitsChar info.ipv6
  tcpBufsize : FitsPointer info.tcpBufsize
  blocksize : FitsPointer info.blocksize
  stripeBlocksize : FitsPointer info.stripeBlocksize
  subject : FitsString info.subject
  csCount : FitsCount info.csCount info.contactStrings
  contactStrings : ∀ cs ∈ info.contactStrings, FitsString cs
  pathname : FitsString info.pathname
  interface : FitsString info.interface
  delCred : FitsCred info.delCred

def StatInfo.wire (info : StatInfo) : List UInt8 :=
  [wireChar info.fileOnly, wireChar info.internal, wireString info.pathname].flatten

structure StatInfo.Fits (info : StatInfo) : Prop where
  fileOnly : FitsChar info.fileOnly
  internal : FitsChar info.internal
  pathname : FitsString info.pathname

def Stat.wire (stat : Stat) : List UInt8 :=
  [wireInt stat.mode, wireInt stat.nlink, wireString stat.name, wireString stat.symlinkTarget, wireUInt32 stat.uid,
    wireUInt32 stat.gid, wireOff stat.size, wireUInt32 stat.atime, wireUInt32 stat.ctime, wireUInt32 stat.mtime,
    wireInt stat.dev, wireInt stat.ino].flatten

structure Stat.Fits (stat : Stat) : Prop where
  name : FitsString stat.name
  symlinkTarget : FitsString stat.symlinkTarget

def ReplyInfo.wire : ReplyInfo → List UInt8
  | .none => []
  | .stat statCount statArray uid gidCount gidArray =>
    [wireInt statCount, statArray.flatMap Stat.wire, wireInt uid, wireInt gidCount, gidArray.flatMap wireInt].flatten
  | .command type checksum createdDir => [wireInt type, wireString checksum, wireString createdDir].flatten
  | .passive dataArg csCount contactStrings ipv6 biDirectional =>
    [wirePointer dataArg, wireInt csCount, contactStrings.flatMap wireString, wireChar ipv6,
      wireChar biDirectional].flatten
  | .active dataArg biDirectional => [wirePointer dataArg, wireChar biDirectional].flatten

/-- The part of a reply that belongs to its type. -/
def ReplyInfo.Fits (type : UInt8) : ReplyInfo → Prop
  | .none => type ≠ opStat ∧ type ≠ opCommand ∧ type ≠ opPassive ∧ type ≠ opActive
  | .stat statCount statArray _ gidCount gidArray =>
    type = opStat ∧ FitsCount statCount statArray ∧ (∀ stat ∈ statArray, stat.Fits) ∧ FitsCount gidCount gidArray
  | .command _ checksum createdDir => type = opCommand ∧ FitsString checksum ∧ FitsString createdDir
  | .passive dataArg csCount contactStrings ipv6 biDirectional =>
    type = opPassive ∧ FitsPointer dataArg ∧ FitsCount csCount contactStrings ∧ (∀ cs ∈ contactStrings, FitsString cs) ∧
      FitsChar ipv6 ∧ FitsChar biDirectional
  | .active dataArg biDirectional => type = opActive ∧ FitsPointer dataArg ∧ FitsChar biDirectional

/-- A reply as it is sent. -/
structure ReplyMessage where
  type : UInt8
  code : Int32
  result : UInt32
  msg : CString
  info : ReplyInfo

def ReplyMessage.wire (reply : ReplyMessage) : List UInt8 :=
  [[reply.type], wireInt reply.code, wireUInt32 reply.result, wireString reply.msg, reply.info.wire].flatten

structure ReplyMessage.Fits (reply : ReplyMessage) : Prop where
  msg : FitsString reply.msg
  info : reply.info.Fits reply.type

/-- Ranges with their number. -/
abbrev Ranges := Int32 × List (Int64 × Int64)

def EventData.wire {ρ : Type} (wireRanges : ρ → List UInt8) : EventData ρ → List UInt8
  | .none => []
  | .transferBegin eventArg eventMask nodeCount => [wirePointer eventArg, wireInt eventMask, wireInt nodeCount].flatten
  | .transferConnected remoteIp => wireString remoteIp
  | .disconnected dataArg => wirePointer dataArg
  | .bytesRecvd recvdBytes nodeCount => [wireOff recvdBytes, wireInt nodeCount].flatten
  | .rangesRecvd recvdRanges => wireRanges recvdRanges
  | .eofCount nodeCount counts => [wireInt nodeCount, counts.flatMap wireInt].flatten

def wireRanges (ranges : Ranges) : List UInt8 := wireInt ranges.1 ++ ranges.2.flatMap wireRange

/-- The part of an event that belongs to its type, in a reply. -/
def EventData.Fits (type : UInt32) : EventData Ranges → Prop
  | .none => type ≠ eventTransferBegin ∧ type ≠ eventTransferConnected ∧ type ≠ eventDisconnected ∧
      type ≠ eventBytesRecvd ∧ type ≠ eventRangesRecvd ∧ type ≠ eventPartialEofCount
  | .transferBegin eventArg _ _ => type = eventTransferBegin ∧ FitsPointer eventArg
  | .transferConnected remoteIp => type = eventTransferConnected ∧ FitsString remoteIp
  | .disconnected dataArg => type = eventDisconnected ∧ FitsPointer dataArg
  | .bytesRecvd _ _ => type = eventBytesRecvd
  | .rangesRecvd recvdRanges => type = eventRangesRecvd ∧ FitsCount recvdRanges.1 recvdRanges.2
  | .eofCount nodeCount counts => type = eventPartialEofCount ∧ FitsCount nodeCount counts

def EventData.map {ρ σ : Type} (f : ρ → σ) : EventData ρ → EventData σ
  | .none => .none
  | .transferBegin eventArg eventMask nodeCount => .transferBegin eventArg eventMask nodeCount
  | .transferConnected remoteIp => .transferConnected remoteIp
  | .disconnected dataArg => .disconnected dataArg
  | .bytesRecvd recvdBytes nodeCount => .bytesRecvd recvdBytes nodeCount
  | .rangesRecvd recvdRanges => .rangesRecvd (f recvdRanges)
  | .eofCount nodeCount counts => .eofCount nodeCount counts

/-- The part of an event that belongs to its type, in a request. -/
def EventData.FitsRequest (type : UInt32) : EventData Unit → Prop
  | .none => type ≠ eventFinalEofCount
  | .eofCount nodeCount counts => type = eventFinalEofCount ∧ FitsCount nodeCount counts
  | _ => False

/-! ## 3. The kinds of messages -/

/-- The unpack functions. -/
inductive Kind where
  | reply
  | eventReply
  | command
  | transfer
  | data
  | stat
  | dataDestroy
  | eventRequest
  | userBuffer
  deriving DecidableEq, Repr

/-- What the function gives. -/
abbrev Kind.Value : Kind → Type
  | .reply => FinishedInfo
  | .eventReply => EventReply RangeList
  | .command => CommandInfo
  | .transfer => TransferInfo RangeList
  | .data => DataInfo
  | .stat => StatInfo
  | .dataDestroy => UInt64
  | .eventRequest => EventRequest
  | .userBuffer => UserBuffer

def unpack : (kind : Kind) → Decoder kind.Value
  | .reply => unpackReply
  | .eventReply => unpackEventReply
  | .command => unpackCommand
  | .transfer => unpackTransfer
  | .data => unpackData
  | .stat => unpackStat
  | .dataDestroy => unpackDataDestroy
  | .eventRequest => unpackEventRequest
  | .userBuffer => unpackUserBuffer

/-- What a body says. -/
abbrev Kind.Message : Kind → Type
  | .reply => ReplyMessage
  | .eventReply => EventReply Ranges
  | .command => Int32 × CommandInfo
  | .transfer => Int32 × TransferInfo (List (Int64 × Int64))
  | .data => DataInfo
  | .stat => StatInfo
  | .dataDestroy => UInt64
  | .eventRequest => EventRequest
  | .userBuffer => UserBuffer

def wire : (kind : Kind) → kind.Message → List UInt8
  | .reply, reply => reply.wire
  | .eventReply, event => [wireInt event.type, wireInt event.nodeNdx, event.data.wire wireRanges].flatten
  | .command, (argc, info) => info.wire argc
  | .transfer, (rangeSize, info) => info.wire rangeSize
  | .data, info => info.wire
  | .stat, info => info.wire
  | .dataDestroy, dataArg => wirePointer dataArg
  | .eventRequest, event => [wirePointer event.eventArg, wireInt event.type, event.data.wire fun _ => []].flatten
  | .userBuffer, user => [wireInt user.type, wireUInt32 (.ofNat user.buffer.length), user.buffer].flatten

def Fits : (kind : Kind) → kind.Message → Prop
  | .reply, reply => reply.Fits
  | .eventReply, event => event.data.Fits event.type.toUInt32
  | .command, (argc, info) => info.Fits ∧ FitsCount argc info.argv
  | .transfer, (rangeSize, info) => info.Fits ∧ FitsCount rangeSize info.rangeList
  | .data, info => info.Fits
  | .stat, info => info.Fits
  | .dataDestroy, dataArg => FitsPointer dataArg
  | .eventRequest, event => FitsPointer event.eventArg ∧ event.data.FitsRequest event.type.toUInt32
  | .userBuffer, user => user.buffer.length < 2 ^ 32

def value : (kind : Kind) → kind.Message → kind.Value
  | .reply, reply => finishedInfo reply.type reply.code reply.result reply.msg reply.info
  | .eventReply, event => ⟨event.type, event.nodeNdx, event.data.map fun ranges => insertRanges ranges.2⟩
  | .command, (_, info) => info
  | .transfer, (_, info) => info.withRangeList (insertRanges info.rangeList)
  | .data, info => info
  | .stat, info => info
  | .dataDestroy, dataArg => dataArg
  | .eventRequest, event => event
  | .userBuffer, user => user

end Gct.Ipc
