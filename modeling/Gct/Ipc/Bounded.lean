/-
# Unpacking is bounded only by whole messages

A body may be shorter than what it says: a count or the length of a text may go beyond its end.  The unpack functions do
not notice this, they go on and read what stands in memory behind the body.  So a function is bounded by a body exactly
if the body begins with a whole message of its kind (`bounded_unpack_iff`); a body that is cut off is never rejected
(`unpack_cutOff`).

For each function there are two lemmas: what it gives was read from the bytes of a message (`reads_unpack`), and where
the bytes of a message stand, it gives the value of the message (`yields_unpack`).
-/
import Gct.Ipc.Wire

namespace Gct.Ipc

open Decoder List Reads UInt32

/-! ## 1. What the functions read -/

theorem reads_pointer : Reads decodeUInt32P fun w bs => FitsPointer w ∧ bs = wirePointer w := reads_uint32P

theorem reads_int : Reads decodeInt fun w bs => True ∧ bs = wireInt w :=
  reads_uint32.bind_eq fun w => pure ⟨trivial, by simp [wireInt]⟩

theorem yields_int (w : Int32) : Yields decodeInt (wireInt w) w :=
  yields_uint32.bind_pure (by simp)

theorem reads_range : Reads decodeRange fun range bs => True ∧ bs = wireRange range :=
  reads_uint64.bind_eq fun offset => reads_uint64.bind_eq fun length =>
    pure ⟨trivial, by simp [wireRange, wireOff]⟩

theorem yields_range (range : Int64 × Int64) : Yields decodeRange (wireRange range) range :=
  yields_uint64.bind (yields_uint64.bind_pure (by simp))

/-- A list with its number in front. -/
theorem reads_count {α : Type} {d : Decoder α} {fits : α → Prop} {w : α → List UInt8}
    (hd : Reads d fun a bs => fits a ∧ bs = w a) (count : UInt32) :
    Reads (many d (rounds count)) fun l bs => (FitsCount count.toInt32 l ∧ ∀ a ∈ l, fits a) ∧ bs = l.flatMap w := by
  refine (hd.many (rounds count)).mono ?_
  rintro l bs ⟨hlen, hall, hbs⟩
  exact ⟨⟨hlen, hall⟩, hbs⟩

theorem yields_count {α : Type} {d : Decoder α} {w : α → List UInt8} {count : Int32} {l : List α} (hcount : FitsCount count l)
    (hl : ∀ a ∈ l, Yields d (w a) a) : Yields (many d (rounds count.toUInt32)) (l.flatMap w) l := by
  have hrounds : rounds count.toUInt32 = l.length := by
    rw [hcount, rounds]
    simp
  rw [hrounds]
  exact Yields.many hl

theorem reads_transfer : Reads unpackTransfer fun info bs => ∃ x, Fits .transfer x ∧ bs = wire .transfer x ∧
    info = value .transfer x :=
  reads_string.bind_fits fun pathname hpathname => reads_string.bind_fits fun moduleName hmoduleName =>
  reads_string.bind_fits fun moduleArgs hmoduleArgs => reads_string.bind_fits fun listType hlistType =>
  reads_uint32.bind_eq fun listDepth => reads_uint32.bind_eq fun traversalOptions =>
  reads_uint64.bind_eq fun partialOffset => reads_uint64.bind_eq fun partialLength =>
  reads_uint64.bind_eq fun allocSize => reads_pointer.bind_fits fun dataArg hdataArg =>
  reads_uint32.bind_eq fun eofCount => reads_uint32.bind_eq fun stripeCount => reads_uint32.bind_eq fun nodeCount =>
  reads_uint32.bind_eq fun nodeNdx => reads_char.bind_eq fun ch =>
  reads_string.bind_fits fun expectedChecksum hexpectedChecksum =>
  reads_string.bind_fits fun expectedChecksumAlg hexpectedChecksumAlg => reads_uint32.bind_eq fun rangeSize =>
  (reads_count reads_range rangeSize).bind_fits fun ranges hranges => pure
    ⟨(rangeSize.toInt32, ⟨pathname, moduleName, moduleArgs, listType, listDepth.toInt32, traversalOptions.toInt32,
      partialOffset.toInt64, partialLength.toInt64, allocSize.toInt64, dataArg, eofCount.toInt32, stripeCount.toInt32,
      nodeCount.toInt32, nodeNdx.toInt32, ofChar ch, expectedChecksum, expectedChecksumAlg, ranges⟩),
      ⟨⟨hpathname, hmoduleName, hmoduleArgs, hlistType, hdataArg, fitsChar_ofChar ch, hexpectedChecksum,
        hexpectedChecksumAlg⟩, hranges.1⟩,
      by simp [wire, TransferInfo.wire, wireInt, wireOff, wireChar_ofChar], rfl⟩

theorem yields_transfer {rangeSize : Int32} {info : TransferInfo (List (Int64 × Int64))} (h : info.Fits)
    (hcount : FitsCount rangeSize info.rangeList) :
    Yields unpackTransfer (info.wire rangeSize) (info.withRangeList (insertRanges info.rangeList)) := by
  refine (yields_string h.pathname).bind <| (yields_string h.moduleName).bind <|
    (yields_string h.moduleArgs).bind <| (yields_string h.listType).bind <| yields_uint32.bind <|
    yields_uint32.bind <| yields_uint64.bind <| yields_uint64.bind <| yields_uint64.bind <|
    (yields_uint32P h.dataArg).bind <| yields_uint32.bind <| yields_uint32.bind <| yields_uint32.bind <|
    yields_uint32.bind <| yields_char.bind <| (yields_string h.expectedChecksum).bind <|
    (yields_string h.expectedChecksumAlg).bind <| yields_uint32.bind <|
    (yields_count hcount fun range _ => yields_range range).last ?_
  simp [TransferInfo.withRangeList, ofChar_toChar h.truncate]

theorem reads_command : Reads unpackCommand fun info bs => ∃ x, Fits .command x ∧ bs = wire .command x ∧
    info = value .command x := by
  refine reads_uint32.bind_eq fun command => reads_string.bind_fits fun pathname hpathname =>
  reads_uint64.bind_eq fun cksmOffset => reads_uint64.bind_eq fun cksmLength =>
  reads_string.bind_fits fun cksmAlg hcksmAlg => reads_uint32.bind_eq fun chmodMode =>
  reads_uint32.bind_eq fun utimeTime => reads_string.bind_fits fun chgrpGroup hchgrpGroup =>
  reads_string.bind_fits fun fromPathname hfromPathname => reads_string.bind_fits fun authzAssert hauthzAssert =>
  reads_uint32.bind_eq fun argc => (reads_count reads_string argc).bind_fits fun argv hargv => pure
    ⟨(argc.toInt32, _), ?_, ?_, rfl⟩
  · exact ⟨⟨hpathname, hcksmAlg, fitsTime_ofTime utimeTime, hchgrpGroup, hfromPathname, hauthzAssert, hargv.2⟩, hargv.1⟩
  · simp [wire, CommandInfo.wire, wireInt, wireOff, wireTime, toTime_ofTime]

theorem yields_command {argc : Int32} {info : CommandInfo} (h : info.Fits) (hcount : FitsCount argc info.argv) :
    Yields unpackCommand (info.wire argc) info := by
  refine yields_uint32.bind <| (yields_string h.pathname).bind <| yields_uint64.bind <| yields_uint64.bind <|
    (yields_string h.cksmAlg).bind <| yields_uint32.bind <| yields_uint32.bind <|
    (yields_string h.chgrpGroup).bind <| (yields_string h.fromPathname).bind <|
    (yields_string h.authzAssert).bind <| yields_uint32.bind <|
    (yields_count hcount fun arg harg => yields_string (h.argv arg harg)).last ?_
  simp [ofTime_toTime h.utimeTime]

theorem reads_cred : Reads unpackCred fun cred bs => FitsCred cred ∧ bs = wireCred cred := by
  refine reads_uint32.bind_eq fun length => (reads_takeBytes length.toNat).bind ?_
  rintro _ token ⟨hlen, rfl⟩
  refine pure ?_
  have hsize : ofNat token.length = length := by rw [hlen, UInt32.ofNat_toNat]
  by_cases hpos : length > 0
  · have hne : 0 < length.toNat := hpos
    rw [if_pos hpos]
    refine ⟨fun t ht => ?_, by rw [append_nil, wireCred, hsize]⟩
    obtain rfl := Option.some.inj ht
    rw [hlen]
    exact ⟨hne, length.toNat_lt⟩
  · have hzero : length.toNat = 0 := Nat.eq_zero_of_not_pos hpos
    have htoken : token = [] := eq_nil_of_length_eq_zero (hlen.trans hzero)
    have hlength : length = 0 := UInt32.toNat_inj.mp hzero
    rw [if_neg hpos, htoken, hlength]
    exact ⟨nofun, rfl⟩

theorem yields_cred {cred : Option (List UInt8)} (h : FitsCred cred) : Yields unpackCred (wireCred cred) cred := by
  cases cred with
  | none => exact yields_uint32.bind ((yields_takeBytes []).bind_pure rfl)
  | some token =>
    obtain ⟨hpos, hlt⟩ := h token rfl
    have hsize : (ofNat token.length).toNat = token.length := toNat_ofNat_of_lt' hlt
    have hgt : ofNat token.length > 0 := by
      show 0 < (ofNat token.length).toNat
      rwa [hsize]
    refine yields_uint32.bind ?_
    rw [hsize]
    exact (yields_takeBytes token).bind_pure (if_pos hgt)

theorem reads_data : Reads unpackData fun info bs => ∃ x, Fits .data x ∧ bs = wire .data x ∧ info = value .data x := by
  refine reads_char.bind_eq fun ch => reads_uint32.bind_eq fun nstreams => reads_char.bind_eq fun mode =>
  reads_char.bind_eq fun type => reads_uint32.bind_eq fun tcpBufsize => reads_uint32.bind_eq fun blocksize =>
  reads_uint32.bind_eq fun stripeBlocksize => reads_uint32.bind_eq fun stripeLayout =>
  reads_char.bind_eq fun prot => reads_char.bind_eq fun dcau => reads_string.bind_fits fun subject hsubject =>
  reads_uint32.bind_eq fun maxCs => reads_uint32.bind_eq fun csCount =>
  (reads_count reads_string csCount).bind_fits fun contactStrings hcontactStrings =>
  reads_string.bind_fits fun pathname hpathname => reads_string.bind_fits fun interface hinterface =>
  reads_cred.bind_fits fun delCred hdelCred => pure ⟨_, ?_, ?_, rfl⟩
  · exact ⟨fitsChar_ofChar ch, fitsPointer_toUInt64 _, fitsPointer_toUInt64 _, fitsPointer_toUInt64 _, hsubject,
      hcontactStrings.1, hcontactStrings.2, hpathname, hinterface, hdelCred⟩
  · simp [wire, DataInfo.wire, wireInt, wirePointer, wireChar_ofChar]

theorem yields_data {info : DataInfo} (h : info.Fits) : Yields unpackData info.wire info := by
  refine yields_char.bind <| yields_uint32.bind <| yields_char.bind <| yields_char.bind <| yields_uint32.bind <|
    yields_uint32.bind <| yields_uint32.bind <| yields_uint32.bind <| yields_char.bind <| yields_char.bind <|
    (yields_string h.subject).bind <| yields_uint32.bind <| yields_uint32.bind <|
    (yields_count h.csCount fun cs hcs => yields_string (h.contactStrings cs hcs)).bind <|
    (yields_string h.pathname).bind <| (yields_string h.interface).bind <| (yields_cred h.delCred).last ?_
  simp [ofChar_toChar h.ipv6, toUInt64_toUInt32 h.tcpBufsize, toUInt64_toUInt32 h.blocksize,
    toUInt64_toUInt32 h.stripeBlocksize]

theorem reads_stat : Reads unpackStat fun info bs => ∃ x, Fits .stat x ∧ bs = wire .stat x ∧ info = value .stat x :=
  reads_char.bind_eq fun fileOnly => reads_char.bind_eq fun internal =>
  reads_string.bind_fits fun pathname hpathname => pure
    ⟨⟨ofChar fileOnly, ofChar internal, pathname⟩, ⟨fitsChar_ofChar _, fitsChar_ofChar _, hpathname⟩,
      by simp [wire, StatInfo.wire, wireChar_ofChar], rfl⟩

theorem yields_stat {info : StatInfo} (h : info.Fits) : Yields unpackStat info.wire info := by
  refine yields_char.bind <| yields_char.bind <| (yields_string h.pathname).last ?_
  simp [ofChar_toChar h.fileOnly, ofChar_toChar h.internal]

theorem reads_statEntry : Reads decodeStat fun stat bs => stat.Fits ∧ bs = stat.wire :=
  reads_uint32.bind_eq fun mode => reads_uint32.bind_eq fun nlink => reads_string.bind_fits fun name hname =>
  reads_string.bind_fits fun symlinkTarget hsymlinkTarget => reads_uint32.bind_eq fun uid =>
  reads_uint32.bind_eq fun gid => reads_uint64.bind_eq fun size => reads_uint32.bind_eq fun atime =>
  reads_uint32.bind_eq fun ctime => reads_uint32.bind_eq fun mtime => reads_uint32.bind_eq fun dev =>
  reads_uint32.bind_eq fun ino => pure ⟨⟨hname, hsymlinkTarget⟩, by simp [Stat.wire, wireInt, wireOff]⟩

theorem yields_statEntry {stat : Stat} (h : stat.Fits) : Yields decodeStat stat.wire stat := by
  refine yields_uint32.bind <| yields_uint32.bind <| (yields_string h.name).bind <|
    (yields_string h.symlinkTarget).bind <| yields_uint32.bind <| yields_uint32.bind <| yields_uint64.bind <|
    yields_uint32.bind <| yields_uint32.bind <| yields_uint32.bind <| yields_uint32.bind <|
    yields_uint32.last ?_
  simp

theorem reads_replyInfo (type : UInt8) : Reads (unpackReplyInfo type) fun info bs => info.Fits type ∧ bs = info.wire := by
  unfold unpackReplyInfo
  split
  next htype =>
    exact reads_uint32.bind_eq fun statCount => (reads_count reads_statEntry statCount).bind_fits fun statArray hstat =>
      reads_uint32.bind_eq fun uid => reads_uint32.bind_eq fun gidCount =>
      (reads_count reads_int gidCount).bind_fits fun gidArray hgid =>
      pure ⟨⟨htype, hstat.1, hstat.2, hgid.1⟩, by simp [ReplyInfo.wire, wireInt]⟩
  split
  next htype =>
    exact reads_uint32.bind_eq fun command => reads_string.bind_fits fun checksum hchecksum =>
      reads_string.bind_fits fun createdDir hcreatedDir =>
      pure ⟨⟨htype, hchecksum, hcreatedDir⟩, by simp [ReplyInfo.wire, wireInt]⟩
  split
  next htype =>
    exact reads_pointer.bind_fits fun dataArg hdataArg => reads_uint32.bind_eq fun csCount =>
      (reads_count reads_string csCount).bind_fits fun contactStrings hcs => reads_char.bind_eq fun ipv6 =>
      reads_char.bind_eq fun biDirectional =>
      pure ⟨⟨htype, hdataArg, hcs.1, hcs.2, fitsChar_ofChar _, fitsChar_ofChar _⟩,
        by simp [ReplyInfo.wire, wireInt, wireChar_ofChar]⟩
  split
  next htype =>
    exact reads_pointer.bind_fits fun dataArg hdataArg => reads_char.bind_eq fun biDirectional =>
      pure ⟨⟨htype, hdataArg, fitsChar_ofChar _⟩, by simp [ReplyInfo.wire, wireChar_ofChar]⟩
  next hstat hcommand hpassive hactive => exact pure ⟨⟨hstat, hcommand, hpassive, hactive⟩, rfl⟩

theorem yields_replyInfo {type : UInt8} {info : ReplyInfo} (h : info.Fits type) :
    Yields (unpackReplyInfo type) info.wire info := by
  cases info with
  | none =>
    obtain ⟨hstat, hcommand, hpassive, hactive⟩ := h
    rw [unpackReplyInfo, if_neg hstat, if_neg hcommand, if_neg hpassive, if_neg hactive]
    exact Yields.pure _
  | stat statCount statArray uid gidCount gidArray =>
    obtain ⟨rfl, hstatCount, hstat, hgidCount⟩ := h
    refine yields_uint32.bind <| (yields_count hstatCount fun stat hmem => yields_statEntry (hstat stat hmem)).bind <|
      yields_uint32.bind <| yields_uint32.bind <|
      (yields_count hgidCount fun gid _ => yields_int gid).last ?_
    simp
  | command type checksum createdDir =>
    obtain ⟨rfl, hchecksum, hcreatedDir⟩ := h
    refine yields_uint32.bind <| (yields_string hchecksum).bind <| (yields_string hcreatedDir).last ?_
    simp
  | passive dataArg csCount contactStrings ipv6 biDirectional =>
    obtain ⟨rfl, hdataArg, hcsCount, hcs, hipv6, hbi⟩ := h
    refine (yields_uint32P hdataArg).bind <| yields_uint32.bind <|
      (yields_count hcsCount fun cs hmem => yields_string (hcs cs hmem)).bind <| yields_char.bind <|
      yields_char.last ?_
    simp [ofChar_toChar hipv6, ofChar_toChar hbi]
  | active dataArg biDirectional =>
    obtain ⟨rfl, hdataArg, hbi⟩ := h
    refine (yields_uint32P hdataArg).bind <| yields_char.last ?_
    rw [ofChar_toChar hbi]

theorem reads_reply : Reads unpackReply fun reply bs => ∃ x, Fits .reply x ∧ bs = wire .reply x ∧
    reply = value .reply x :=
  reads_char.bind_eq fun type => reads_uint32.bind_eq fun code => reads_uint32.bind_eq fun result =>
  reads_string.bind_fits fun msg hmsg => (reads_replyInfo type).bind_fits fun info hinfo => pure
    ⟨⟨type, code.toInt32, result, msg, info⟩, ⟨hmsg, hinfo⟩, by simp [wire, ReplyMessage.wire, wireInt], rfl⟩

theorem yields_reply {reply : ReplyMessage} (h : reply.Fits) : Yields unpackReply reply.wire (value .reply reply) := by
  refine yields_char.bind <| yields_uint32.bind <| yields_uint32.bind <| (yields_string h.msg).bind <|
    (yields_replyInfo h.info).last ?_
  simp [value]

theorem reads_eofCount {ρ : Type} : Reads (unpackEofCount (ρ := ρ)) fun data bs => ∃ nodeCount counts,
    FitsCount nodeCount counts ∧ bs = [wireInt nodeCount, counts.flatMap wireInt].flatten ∧
      data = .eofCount nodeCount counts :=
  reads_uint32.bind_eq fun nodeCount => (reads_count reads_int nodeCount).bind_fits fun counts hcounts =>
    pure ⟨nodeCount.toInt32, counts, hcounts.1, by simp [wireInt], rfl⟩

theorem yields_eofCount {ρ : Type} {nodeCount : Int32} {counts : List Int32} (h : FitsCount nodeCount counts) :
    Yields (unpackEofCount (ρ := ρ)) [wireInt nodeCount, counts.flatMap wireInt].flatten (.eofCount nodeCount counts) := by
  refine yields_uint32.bind <| (yields_count h fun count _ => yields_int count).last ?_
  simp

/-- The ranges of an event are inserted one after the other. -/
def EventData.insert : EventData Ranges → EventData RangeList := EventData.map fun ranges => insertRanges ranges.2

theorem reads_eventData (type : UInt32) : Reads (unpackEventData type) fun data bs => ∃ raw : EventData Ranges,
    raw.Fits type ∧ bs = raw.wire wireRanges ∧ data = raw.insert := by
  unfold unpackEventData
  split
  next htype =>
    exact reads_pointer.bind_fits fun eventArg harg => reads_uint32.bind_eq fun eventMask =>
      reads_uint32.bind_eq fun nodeCount => pure
      ⟨.transferBegin eventArg eventMask.toInt32 nodeCount.toInt32, ⟨htype, harg⟩, by simp [EventData.wire, wireInt], rfl⟩
  split
  next htype =>
    exact reads_string.bind_fits fun remoteIp hip => pure ⟨.transferConnected remoteIp, ⟨htype, hip⟩, append_nil _, rfl⟩
  split
  next htype =>
    exact reads_pointer.bind_fits fun dataArg harg => pure ⟨.disconnected dataArg, ⟨htype, harg⟩, append_nil _, rfl⟩
  split
  next htype =>
    exact reads_uint64.bind_eq fun recvdBytes => reads_uint32.bind_eq fun nodeCount => pure
      ⟨.bytesRecvd recvdBytes.toInt64 nodeCount.toInt32, htype, by simp [EventData.wire, wireInt, wireOff], rfl⟩
  split
  next htype =>
    exact reads_uint32.bind_eq fun rangeSize => (reads_count reads_range rangeSize).bind_fits fun ranges hranges =>
      pure ⟨.rangesRecvd (rangeSize.toInt32, ranges), ⟨htype, hranges.1⟩,
        by simp [EventData.wire, wireRanges, wireInt], rfl⟩
  split
  next htype =>
    refine reads_eofCount.mono ?_
    rintro _ _ ⟨nodeCount, counts, hcount, rfl, rfl⟩
    exact ⟨.eofCount nodeCount counts, ⟨htype, hcount⟩, rfl, rfl⟩
  next hbegin hconnected hdisconnected hbytes hranges heof =>
    exact pure ⟨.none, ⟨hbegin, hconnected, hdisconnected, hbytes, hranges, heof⟩, rfl, rfl⟩

theorem yields_eventData {type : UInt32} {data : EventData Ranges} (h : data.Fits type) :
    Yields (unpackEventData type) (data.wire wireRanges) data.insert := by
  cases data with
  | none =>
    obtain ⟨hbegin, hconnected, hdisconnected, hbytes, hranges, heof⟩ := h
    rw [unpackEventData, if_neg hbegin, if_neg hconnected, if_neg hdisconnected, if_neg hbytes, if_neg hranges,
      if_neg heof]
    exact Yields.pure _
  | transferBegin eventArg eventMask nodeCount =>
    obtain ⟨rfl, harg⟩ := h
    refine (yields_uint32P harg).bind <| yields_uint32.bind <| yields_uint32.last ?_
    simp [EventData.insert, EventData.map]
  | transferConnected remoteIp =>
    obtain ⟨rfl, hip⟩ := h
    exact (yields_string hip).bind_pure rfl
  | disconnected dataArg =>
    obtain ⟨rfl, harg⟩ := h
    exact (yields_uint32P harg).bind_pure rfl
  | bytesRecvd recvdBytes nodeCount =>
    cases h
    refine yields_uint64.bind <| yields_uint32.last ?_
    simp [EventData.insert, EventData.map]
  | rangesRecvd recvdRanges =>
    obtain ⟨rfl, hcount⟩ := h
    exact yields_uint32.bind ((yields_count hcount fun range _ => yields_range range).bind_pure rfl)
  | eofCount nodeCount counts =>
    obtain ⟨rfl, hcount⟩ := h
    exact yields_eofCount hcount

theorem reads_eventReply : Reads unpackEventReply fun event bs => ∃ x, Fits .eventReply x ∧ bs = wire .eventReply x ∧
    event = value .eventReply x := by
  refine reads_uint32.bind_eq fun type => reads_uint32.bind_eq fun nodeNdx => (reads_eventData type).bind ?_
  rintro _ _ ⟨raw, hfits, rfl, rfl⟩
  refine pure ⟨⟨type.toInt32, nodeNdx.toInt32, raw⟩, ?_, by simp [wire, wireInt], rfl⟩
  simpa [Fits] using hfits

theorem yields_eventReply {event : EventReply Ranges} (h : event.data.Fits event.type.toUInt32) :
    Yields unpackEventReply (wire .eventReply event) (value .eventReply event) := by
  refine yields_uint32.bind <| yields_uint32.bind <| (yields_eventData h).last ?_
  simp [value, EventData.insert]

theorem reads_eventRequestData (type : UInt32) : Reads (unpackEventRequestData type) fun data bs =>
    data.FitsRequest type ∧ bs = data.wire fun _ => [] := by
  unfold unpackEventRequestData
  split
  next htype =>
    refine reads_eofCount.mono ?_
    rintro _ _ ⟨nodeCount, counts, hcount, rfl, rfl⟩
    exact ⟨⟨htype, hcount⟩, rfl⟩
  next htype => exact pure ⟨htype, rfl⟩

theorem yields_eventRequestData {type : UInt32} {data : EventData Unit} (h : data.FitsRequest type) :
    Yields (unpackEventRequestData type) (data.wire fun _ => []) data := by
  cases data with
  | none =>
    rw [unpackEventRequestData, if_neg h]
    exact Yields.pure _
  | eofCount nodeCount counts =>
    rw [unpackEventRequestData, if_pos h.1]
    exact yields_eofCount h.2
  | _ => exact h.elim

theorem reads_eventRequest : Reads unpackEventRequest fun event bs => ∃ x, Fits .eventRequest x ∧
    bs = wire .eventRequest x ∧ event = value .eventRequest x := by
  refine reads_pointer.bind_fits fun eventArg harg => reads_uint32.bind_eq fun type =>
    (reads_eventRequestData type).bind_fits fun data hfits =>
    pure ⟨⟨eventArg, type.toInt32, data⟩, ⟨harg, ?_⟩, ?_, rfl⟩
  · simpa using hfits
  · simp [wire, wireInt]

theorem yields_eventRequest {event : EventRequest} (h : Fits .eventRequest event) :
    Yields unpackEventRequest (wire .eventRequest event) event := by
  refine (yields_uint32P h.1).bind <| yields_uint32.bind <| (yields_eventRequestData h.2).last ?_
  simp

theorem reads_userBuffer : Reads unpackUserBuffer fun user bs => ∃ x, Fits .userBuffer x ∧ bs = wire .userBuffer x ∧
    user = value .userBuffer x := by
  refine reads_uint32.bind_eq fun type => reads_uint32.bind_eq fun length => (reads_takeBytes length.toNat).bind ?_
  rintro _ buffer ⟨hlen, rfl⟩
  have hsize : ofNat buffer.length = length := by rw [hlen, UInt32.ofNat_toNat]
  refine pure ⟨⟨type.toInt32, buffer⟩, ?_, by simp [wire, wireInt, hsize], rfl⟩
  rw [Fits, hlen]
  exact length.toNat_lt

theorem yields_userBuffer {user : UserBuffer} (h : user.buffer.length < 2 ^ 32) :
    Yields unpackUserBuffer (wire .userBuffer user) user := by
  have hsize : (ofNat user.buffer.length).toNat = user.buffer.length := toNat_ofNat_of_lt' h
  refine yields_uint32.bind <| yields_uint32.bind ?_
  rw [hsize]
  exact (yields_takeBytes user.buffer).last (by simp)

/-! ## 2. All functions -/

variable (kind : Kind)

/-- **The unpack functions find no errors**, and what they give was read from the bytes of a message. -/
theorem reads_unpack : Reads (unpack kind) fun a bs => ∃ x, Fits kind x ∧ bs = wire kind x ∧ a = value kind x := by
  cases kind with
  | reply => exact reads_reply
  | eventReply => exact reads_eventReply
  | command => exact reads_command
  | transfer => exact reads_transfer
  | data => exact reads_data
  | stat => exact reads_stat
  | dataDestroy => exact reads_pointer.mono fun a bs h => ⟨a, h.1, h.2, rfl⟩
  | eventRequest => exact reads_eventRequest
  | userBuffer => exact reads_userBuffer

/-- **Where a message stands, its value is unpacked.** -/
theorem yields_unpack (x : kind.Message) (h : Fits kind x) : Yields (unpack kind) (wire kind x) (value kind x) := by
  cases kind with
  | reply => exact yields_reply h
  | eventReply => exact yields_eventReply h
  | command => exact yields_command h.1 h.2
  | transfer => exact yields_transfer h.1 h.2
  | data => exact yields_data h
  | stat => exact yields_stat h
  | dataDestroy => exact yields_uint32P h
  | eventRequest => exact yields_eventRequest h
  | userBuffer => exact yields_userBuffer h

/-- **Unpacking is bounded by a body exactly if the body begins with a whole message.** -/
theorem bounded_unpack_iff (body : List UInt8) :
    Bounded (unpack kind) body ↔ ∃ message, Fits kind message ∧ wire kind message <+: body :=
  bounded_iff (reads_unpack kind) (yields_unpack kind)

/-- **A stat request that is cut off is not rejected.**  Its last byte is taken from the memory behind it, so it is for the
path `/a` or for the path `/b`. -/
theorem unpack_cutOff : (wire .stat ⟨1, 0, some [47, 97]⟩ = [1, 0, 0, 0, 0, 3, 47, 97] ∧
      unpack .stat (memory [1, 0, 0, 0, 0, 3, 47] 97) ⟨0, 7⟩ = .ok (⟨1, 0, some [47, 97]⟩, ⟨8, -1⟩) ∧
      unpack .stat (memory [1, 0, 0, 0, 0, 3, 47] 98) ⟨0, 7⟩ = .ok (⟨1, 0, some [47, 98]⟩, ⟨8, -1⟩)) ∧
    ¬Bounded (unpack .stat) [1, 0, 0, 0, 0, 3, 47] := by
  have hread : unpackStat (memory [1, 0, 0, 0, 0, 3, 47] 97) ⟨0, 7⟩ = .ok (⟨1, 0, some [47, 97]⟩, ⟨8, -1⟩) := by decide
  have hread' : unpackStat (memory [1, 0, 0, 0, 0, 3, 47] 98) ⟨0, 7⟩ = .ok (⟨1, 0, some [47, 98]⟩, ⟨8, -1⟩) := by decide
  refine ⟨⟨by decide, hread, hread'⟩, ?_⟩
  rintro (herror | ⟨a, hok⟩)
  · exact absurd (hread.symm.trans (herror _ (holds_memory _ 97))) nofun
  · obtain ⟨c, hc, -⟩ := hok _ (holds_memory _ 97)
    obtain ⟨c', hc', -⟩ := hok _ (holds_memory _ 98)
    obtain ⟨rfl, -⟩ := Prod.mk.inj (Outcome.ok.inj (hread.symm.trans hc))
    exact absurd (Prod.mk.inj (Outcome.ok.inj (hread'.symm.trans hc'))).1 (by decide)

end Gct.Ipc
