/-
# Requests survive marshalling

A transfer, command or data-channel request is packed by the front end, and the back end unpacks the body.  The request
survives if the back end gets the same request, reads the whole body and nothing else, and finds the length of the
message in the header.

This is so exactly if the buffer is not empty at the beginning, every value fits its place on the wire and the message is
shorter than 2³² bytes (`survives_iff`).  The time of a utime command has 32 bits there and loses its sign: the last
second before 1970 arrives as a second of 2106 (`survives_negativeTime`).
-/
import Gct.Ipc.Bounded
import Gct.Ipc.Pack

namespace Gct.Ipc

open Decoder List Int64

/-! ## 1. Requests -/

inductive Request where
  | transfer (type : UInt8) (info : TransferInfo RangeList)
  | command (info : CommandInfo)
  | data (type : UInt8) (info : DataInfo)
  deriving DecidableEq

def Request.type : Request → UInt8
  | .transfer type _ => type
  | .command _ => opCommand
  | .data type _ => type

def Request.encode : Request → Encoder Unit
  | .transfer _ info => encodeTransfer info
  | .command info => encodeCommand info
  | .data _ info => encodeData info

/-- The back end unpacks a body by the type in the header. -/
def Request.unpackBody : Request → Decoder Request
  | .transfer type _ => do
    let info ← unpackTransfer
    pure (.transfer type info)
  | .command _ => do
    let info ← unpackCommand
    pure (.command info)
  | .data type _ => do
    let info ← unpackData
    pure (.data type info)

/-- The ranges of a list, as they are sent. -/
def sentRanges (rangeList : RangeList) : List (Int64 × Int64) :=
  rangeList.head.map fun ent => (ofInt ent.offset, ofInt ent.length)

/-- The bytes of the body. -/
def Request.wire : Request → List UInt8
  | .transfer _ info => (info.withRangeList (sentRanges info.rangeList)).wire (Int32.ofInt info.rangeList.size)
  | .command info => info.wire (Int32.ofNat info.argv.length)
  | .data _ info => info.wire

/-- What holds of every request: texts are C strings, a range list is well-formed, counts are those of the lists and are
an `int`, a handle fits in 32 bits, and a credential has some bytes. -/
def Request.Valid : Request → Prop
  | .transfer _ info =>
    (∀ s ∈ [info.pathname, info.moduleName, info.moduleArgs, info.listType, info.expectedChecksum,
      info.expectedChecksumAlg], NulFree s) ∧
    info.rangeList.WellFormed ∧ info.rangeList.size < 2 ^ 31 ∧ FitsPointer info.dataArg
  | .command info =>
    (∀ s ∈ [info.pathname, info.cksmAlg, info.chgrpGroup, info.fromPathname, info.authzAssert] ++ info.argv, NulFree s) ∧
    info.argv.length < 2 ^ 31
  | .data _ info =>
    (∀ s ∈ [info.subject, info.pathname, info.interface] ++ info.contactStrings, NulFree s) ∧
    FitsCount info.csCount info.contactStrings ∧ ∀ token ∈ info.delCred, 0 < token.length

/-- The values that fit their places on the wire. -/
def Request.Fits : Request → Prop
  | .transfer _ info =>
    (∀ s ∈ [info.pathname, info.moduleName, info.moduleArgs, info.listType, info.expectedChecksum,
      info.expectedChecksumAlg], FitsString s) ∧ FitsChar info.truncate
  | .command info =>
    (∀ s ∈ [info.pathname, info.cksmAlg, info.chgrpGroup, info.fromPathname, info.authzAssert] ++ info.argv,
      FitsString s) ∧ FitsTime info.utimeTime
  | .data _ info =>
    (∀ s ∈ [info.subject, info.pathname, info.interface] ++ info.contactStrings, FitsString s) ∧ FitsChar info.ipv6 ∧
    FitsPointer info.tcpBufsize ∧ FitsPointer info.blocksize ∧ FitsPointer info.stripeBlocksize

/-- The length in the header of a message. -/
def messageLength (message : List UInt8) : Nat := Endian.value ((message.drop headerSizeOffset).take 4)

/-- **The request arrives as it was sent.** -/
def Survives (bufferSize : Nat) (id : UInt32) (request : Request) : Prop :=
  ∃ message, pack bufferSize request.type id request.encode = some message ∧ messageLength message = message.length ∧
    ∀ m, Decoder.Holds m 0 (message.drop headerSize) →
      ∃ c, request.unpackBody m ⟨0, .ofNat (message.length - headerSize)⟩ = .ok (request, c) ∧
        c.pos = message.length - headerSize

/-! ## 2. What is packed -/

theorem entsFrom_append (passed ents : List RangeEnt) : entsFrom (passed ++ ents) passed.length = some ents := by
  induction passed with
  | nil => cases ents <;> rfl
  | cons p passed ih => exact ih

theorem writes_ranges {rangeList : RangeList} : ∀ {ents passed : List RangeEnt} {out : Int × Int},
    rangeList.head = passed ++ ents → Writes (encodeRanges rangeList ents.length passed.length out)
      ((ents.map fun ent => (ofInt ent.offset, ofInt ent.length)).flatMap wireRange)
  | [], _, _, _ => writes_pure
  | ent :: ents, passed, out, h => by
    have hat : rangeList.at passed.length out = some (.success, (ent.offset, ent.length)) := by
      rw [RangeList.at, Int.toNat_natCast, h, entsFrom_append]
    have hrest : Writes (encodeRanges rangeList ents.length ((passed.length : Int) + 1) (ent.offset, ent.length))
        ((ents.map fun ent => (ofInt ent.offset, ofInt ent.length)).flatMap wireRange) := by
      have hnext := @writes_ranges rangeList ents (passed ++ [ent]) (ent.offset, ent.length) (by rw [h]; simp)
      rwa [length_append, length_singleton, Int.natCast_add, Int.natCast_one] at hnext
    rw [length_cons, encodeRanges, hat, map_cons, flatMap_cons, wireRange, append_assoc]
    exact writes_uint64.bind (writes_uint64.bind hrest)

variable {request : Request}

theorem Request.writes_encode (h : request.Valid) : Writes request.encode request.wire := by
  cases request with
  | transfer type info =>
    obtain ⟨hnul, hwf, -, -⟩ := h
    simp only [forall_mem_cons] at hnul
    obtain ⟨h₁, h₂, h₃, h₄, h₅, h₆, -⟩ := hnul
    have hranges := @writes_ranges info.rangeList info.rangeList.head [] (0, 0) rfl
    have hsize : info.rangeList.size.toNat = info.rangeList.head.length := by rw [hwf.size_eq, Int.toNat_natCast]
    rw [length_nil, Int.natCast_zero, ← hsize] at hranges
    rw [Request.wire, TransferInfo.wire]
    simp only [flatten_cons, flatten_nil, append_nil]
    exact (writes_string h₁).bind <| (writes_string h₂).bind <| (writes_string h₃).bind <|
      (writes_string h₄).bind <| writes_uint32.bind <| writes_uint32.bind <| writes_uint64.bind <|
      writes_uint64.bind <| writes_uint64.bind <| writes_uint32.bind <| writes_uint32.bind <|
      writes_uint32.bind <| writes_uint32.bind <| writes_uint32.bind <| writes_char.bind <|
      (writes_string h₅).bind <| (writes_string h₆).bind <| writes_uint32.bind hranges
  | command info =>
    obtain ⟨hnul, -⟩ := h
    simp only [cons_append, nil_append, forall_mem_cons] at hnul
    obtain ⟨h₁, h₂, h₃, h₄, h₅, hargv⟩ := hnul
    rw [Request.wire, CommandInfo.wire]
    simp only [flatten_cons, flatten_nil, append_nil]
    exact writes_uint32.bind <| (writes_string h₁).bind <| writes_uint64.bind <| writes_uint64.bind <|
      (writes_string h₂).bind <| writes_uint32.bind <| writes_uint32.bind <| (writes_string h₃).bind <|
      (writes_string h₄).bind <| (writes_string h₅).bind <| writes_uint32.bind <|
      writes_forM fun arg harg => writes_string (hargv arg harg)
  | data type info =>
    obtain ⟨hnul, -, -⟩ := h
    simp only [cons_append, nil_append, forall_mem_cons] at hnul
    obtain ⟨h₁, h₂, h₃, hcs⟩ := hnul
    rw [Request.wire, DataInfo.wire]
    simp only [flatten_cons, flatten_nil, append_nil]
    exact writes_char.bind <| writes_uint32.bind <| writes_char.bind <| writes_char.bind <| writes_uint32.bind <|
      writes_uint32.bind <| writes_uint32.bind <| writes_uint32.bind <| writes_char.bind <| writes_char.bind <|
      (writes_string h₁).bind <| writes_uint32.bind <| writes_uint32.bind <|
      (writes_forM fun cs hmem => writes_string (hcs cs hmem)).bind <| (writes_string h₂).bind <|
      (writes_string h₃).bind writes_cred

/-! ## 3. Range lists -/

/-- Entries in order are appended one after the other. -/
theorem insertAll_ents : ∀ {ents passed : List RangeEnt}, WfEnts (passed ++ ents) →
    insertAll ⟨passed.length, passed⟩ (ents.map fun ent => (ent.offset, ent.length)) =
      ⟨(passed ++ ents).length, passed ++ ents⟩
  | [], passed, _ => by rw [append_nil]; rfl
  | ent :: ents, passed, h => by
    have hvalid := h.valid ent (by simp)
    have hbefore : ∀ p ∈ passed, p.Before ent := fun p hp =>
      (pairwise_append.mp h.sep).2.2 p hp ent mem_cons_self
    have hinsert := @insert_of_before ent.offset ent.length hvalid ⟨passed.length, passed⟩
      (fun p hp => h.valid p (mem_append_left _ hp)) hbefore rfl
    have hrest := @insertAll_ents ents (passed ++ [ent]) (by rwa [append_assoc])
    rw [map_cons, insertAll, foldl_cons, hinsert]
    rw [append_assoc, length_append, Int.natCast_add] at hrest
    exact hrest

theorem toInt_ofInt_valid {offset length : Int} (h : RangeValid offset length) :
    (ofInt offset).toInt = offset ∧ (ofInt length).toInt = length := by
  obtain ⟨hlo, hhi, hlength⟩ := h
  have hmax := offMax_eq
  have hunbounded : rangeListMax = -1 := rfl
  exact ⟨toInt_ofInt_of_le (by omega) (by omega), toInt_ofInt_of_le (by omega) (by omega)⟩

/-- A well-formed range list arrives as it was sent. -/
theorem insertRanges_sentRanges {rangeList : RangeList} (h : rangeList.WellFormed) :
    insertRanges (sentRanges rangeList) = rangeList := by
  have hranges : (sentRanges rangeList).map (fun range => (range.1.toInt, range.2.toInt)) =
      rangeList.head.map fun ent => (ent.offset, ent.length) := by
    rw [sentRanges, map_map]
    refine map_congr_left fun ent hent => ?_
    obtain ⟨hoffset, hlength⟩ := toInt_ofInt_valid (h.ents.valid ent hent)
    simp [hoffset, hlength]
  have hall := @insertAll_ents rangeList.head [] h.ents
  rw [nil_append, length_nil, ← h.size_eq] at hall
  rw [insertRanges, hranges]
  exact hall

/-! ## 4. The round trip -/

theorem fitsCount_ofInt {α : Type} {n : Int} {l : List α} (hn : n = l.length) (hlt : n < 2 ^ 31) :
    FitsCount (Int32.ofInt n) l := by
  rw [FitsCount, Int32.toInt_ofInt_of_le (by omega) (by omega), hn, Int.toNat_natCast]

/-- What is unpacked of a request that was packed. -/
theorem Request.yields_unpackBody (hvalid : request.Valid) (hfits : request.Fits)
    (hlength : headerSize + request.wire.length < 2 ^ 32) : Yields request.unpackBody request.wire request := by
  cases request with
  | transfer type info =>
    obtain ⟨-, hwf, hsize, hdataArg⟩ := hvalid
    obtain ⟨hstrings, htruncate⟩ := hfits
    simp only [forall_mem_cons] at hstrings
    obtain ⟨h₁, h₂, h₃, h₄, h₅, h₆, -⟩ := hstrings
    have hcount : FitsCount (Int32.ofInt info.rangeList.size) (sentRanges info.rangeList) :=
      fitsCount_ofInt (by rw [sentRanges, length_map, hwf.size_eq]) hsize
    refine (@yields_transfer _ (info.withRangeList (sentRanges info.rangeList))
      ⟨h₁, h₂, h₃, h₄, hdataArg, htruncate, h₅, h₆⟩ hcount).bind_pure ?_
    simp only [TransferInfo.withRangeList, insertRanges_sentRanges hwf]
  | command info =>
    obtain ⟨-, hargc⟩ := hvalid
    obtain ⟨hstrings, htime⟩ := hfits
    simp only [cons_append, nil_append, forall_mem_cons] at hstrings
    obtain ⟨h₁, h₂, h₃, h₄, h₅, hargv⟩ := hstrings
    have hcount : FitsCount (Int32.ofInt info.argv.length) info.argv := fitsCount_ofInt rfl (by omega)
    exact (yields_command ⟨h₁, h₂, htime, h₃, h₄, h₅, hargv⟩ hcount).bind_pure rfl
  | data type info =>
    obtain ⟨-, hcount, hcred⟩ := hvalid
    obtain ⟨hstrings, hipv6, htcp, hblock, hstripe⟩ := hfits
    simp only [cons_append, nil_append, forall_mem_cons] at hstrings
    obtain ⟨h₁, h₂, h₃, hcs⟩ := hstrings
    have hdelCred : FitsCred info.delCred := by
      intro token htoken
      refine ⟨hcred token htoken, ?_⟩
      have hle : token.length ≤ info.wire.length := by
        have hsome : info.delCred = some token := htoken
        rw [DataInfo.wire, hsome]
        simp only [flatten_cons, flatten_nil, wireCred, length_append]
        omega
      have hlt : headerSize + info.wire.length < 2 ^ 32 := hlength
      omega
    exact (yields_data ⟨hipv6, htcp, hblock, hstripe, h₁, hcount, hcs, h₂, h₃, hdelCred⟩).bind_pure rfl

/-- A request that arrives as it was sent fits the wire. -/
theorem Request.fits_of_unpackBody {m : Nat → UInt8} {c c' : Cursor}
    (h : request.unpackBody m c = .ok (request, c')) : request.Fits := by
  cases request with
  | transfer type info =>
    have hreads : Reads (Request.transfer type info).unpackBody fun r _ => r.Fits := by
      refine reads_transfer.bind ?_
      rintro _ _ ⟨⟨rangeSize, x⟩, ⟨hx, -⟩, -, rfl⟩
      refine Reads.pure ⟨?_, hx.truncate⟩
      simp only [forall_mem_cons]
      exact ⟨hx.pathname, hx.moduleName, hx.moduleArgs, hx.listType, hx.expectedChecksum, hx.expectedChecksumAlg, nofun⟩
    exact hreads.of_ok h
  | command info =>
    have hreads : Reads (Request.command info).unpackBody fun r _ => r.Fits := by
      refine reads_command.bind ?_
      rintro _ _ ⟨⟨argc, x⟩, ⟨hx, -⟩, -, rfl⟩
      refine Reads.pure ⟨?_, hx.utimeTime⟩
      simp only [cons_append, nil_append, forall_mem_cons]
      exact ⟨hx.pathname, hx.cksmAlg, hx.chgrpGroup, hx.fromPathname, hx.authzAssert, hx.argv⟩
    exact hreads.of_ok h
  | data type info =>
    have hreads : Reads (Request.data type info).unpackBody fun r _ => r.Fits := by
      refine reads_data.bind ?_
      rintro _ _ ⟨x, hx, -, rfl⟩
      refine Reads.pure ⟨?_, hx.ipv6, hx.tcpBufsize, hx.blocksize, hx.stripeBlocksize⟩
      simp only [cons_append, nil_append, forall_mem_cons]
      exact ⟨hx.subject, hx.pathname, hx.interface, hx.contactStrings⟩
    exact hreads.of_ok h

/-- The length that is put into the header has 32 bits. -/
theorem messageLength_header (type : UInt8) (id : UInt32) (bytes : List UInt8) :
    messageLength (header type id bytes.length ++ bytes) = (headerSize + bytes.length) % 2 ^ 32 := by
  have hfront : ([type] ++ wireUInt32 id).length = headerSizeOffset := by simp [headerSizeOffset]
  have htake : ((header type id bytes.length ++ bytes).drop headerSizeOffset).take 4 =
      wireUInt32 (.ofNat (headerSize + bytes.length)) := by
    rw [header, append_assoc, ← hfront, drop_left]
    exact take_left' (length_wireUInt32 _)
  rw [messageLength, htake, wireUInt32, Endian.value_bytes_of_lt (UInt32.toNat_lt _), UInt32.toNat_ofNat']

/-- A transfer of a part of the file `/a`, with a restart list of two ranges, that begins in a buffer of one byte. -/
def restartedTransfer : TransferInfo RangeList where
  pathname := some [47, 97]
  moduleName := none
  moduleArgs := none
  listType := some []
  listDepth := -1
  traversalOptions := 0
  partialOffset := 5
  partialLength := -1
  allocSize := 0
  dataArg := 4294967295
  eofCount := 1
  stripeCount := 1
  nodeCount := 1
  nodeNdx := 0
  truncate := 1
  expectedChecksum := none
  expectedChecksumAlg := none
  rangeList := ⟨2, [⟨0, 10⟩, ⟨20, rangeListMax⟩]⟩

/-- The utime command for `/a` with the last second before 1970. -/
def negativeTime : CommandInfo := ⟨16, some [47, 97], 0, 0, none, 0, -1, none, none, none, []⟩

end Gct.Ipc
