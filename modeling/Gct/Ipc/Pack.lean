/-
# Packing a request

The encoding macros write at `ptr` and double `buffer_size` before, as often as it takes; a size of 0 never gets larger,
and then the loop does not end.  A request is packed as header and body, with -1 for the length of the message, which is
put in when it is known.

An encoder writes the same bytes whatever the size of the buffer is, as long as it is not 0 (`Writes`); so a packed
message is its header, with the length, and the body (`pack_eq`).
-/
import Mathlib.Data.List.TakeWhile
import Gct.Lib.Buffer
import Gct.Ipc.Wire

namespace Gct.Ipc

open List Buffer

/-! ## 1. The macros -/

/-- The buffer, `ipc->buffer_size` and `ptr`.  `buffer` is what was written so far. -/
structure Packer where
  buffer : List UInt8
  size : Nat
  ptr : Nat
  deriving DecidableEq, Repr

abbrev Encoder := StateT Packer Option

/-- The loop `while(need > _len) { _len *= 2; … }`, if it ends. -/
def growLoop (need : Nat) : Nat → Nat → Option Nat
  | 0, len => if need ≤ len then some len else none
  | fuel + 1, len => if need ≤ len then some len else growLoop need fuel (len * 2)

def grow (need len : Nat) : Option Nat := growLoop need need len

/-- The buffer is made large enough for some bytes, and they are written. -/
def put (bytes : List UInt8) : Encoder Unit := fun p =>
  (grow (p.ptr + bytes.length) p.size).map fun size =>
    ((), ⟨write p.buffer p.ptr bytes, size, p.ptr + bytes.length⟩)

/-- `GFSEncodeChar` -/
def encodeChar (w : UInt8) : Encoder Unit := put [w]

/-- `GFSEncodeUInt32` -/
def encodeUInt32 (w : UInt32) : Encoder Unit := put (Endian.bytes 4 w.toNat)

/-- `GFSEncodeUInt64` where the least significant byte comes first in memory. -/
def encodeUInt64 (w : UInt64) : Encoder Unit :=
  let lo := w.toNat % 2 ^ 32
  let hi := w.toNat / 2 ^ 32
  put (Endian.bytes 4 hi ++ Endian.bytes 4 lo)

/-- The bytes of a C string, up to the NUL. -/
def cstring (s : List UInt8) : List UInt8 := s.takeWhile (· ≠ 0)

/-- `GFSEncodeString` -/
def encodeString : CString → Encoder Unit
  | none => encodeUInt32 0
  | some s => do
    encodeUInt32 (.ofNat ((cstring s).length + 1))
    (cstring s).forM encodeChar

/-! ## 2. The requests -/

/-- The loop that packs the range list. -/
def encodeRanges (rangeList : RangeList) : Nat → Int → Int × Int → Encoder Unit
  | 0, _, _ => pure ()
  | n + 1, ctr, out => do
    let (_, out) ← StateT.lift (rangeList.at ctr out)
    encodeUInt64 (Int64.ofInt out.1).toUInt64
    encodeUInt64 (Int64.ofInt out.2).toUInt64
    encodeRanges rangeList n (ctr + 1) out

/-- The body in `globus_l_gfs_ipc_transfer_pack`. -/
def encodeTransfer (info : TransferInfo RangeList) : Encoder Unit := do
  encodeString info.pathname
  encodeString info.moduleName
  encodeString info.moduleArgs
  encodeString info.listType
  encodeUInt32 info.listDepth.toUInt32
  encodeUInt32 info.traversalOptions.toUInt32
  encodeUInt64 info.partialOffset.toUInt64
  encodeUInt64 info.partialLength.toUInt64
  encodeUInt64 info.allocSize.toUInt64
  encodeUInt32 info.dataArg.toUInt32
  encodeUInt32 info.eofCount.toUInt32
  encodeUInt32 info.stripeCount.toUInt32
  encodeUInt32 info.nodeCount.toUInt32
  encodeUInt32 info.nodeNdx.toUInt32
  encodeChar (toChar info.truncate)
  encodeString info.expectedChecksum
  encodeString info.expectedChecksumAlg
  encodeUInt32 (Int32.ofInt info.rangeList.size).toUInt32
  encodeRanges info.rangeList info.rangeList.size.toNat 0 (0, 0)

/-- The body in `globus_gfs_ipc_request_command`. -/
def encodeCommand (info : CommandInfo) : Encoder Unit := do
  encodeUInt32 info.command.toUInt32
  encodeString info.pathname
  encodeUInt64 info.cksmOffset.toUInt64
  encodeUInt64 info.cksmLength.toUInt64
  encodeString info.cksmAlg
  encodeUInt32 info.chmodMode.toUInt32
  encodeUInt32 (toTime info.utimeTime)
  encodeString info.chgrpGroup
  encodeString info.fromPathname
  encodeString info.authzAssert
  encodeUInt32 (.ofNat info.argv.length)
  info.argv.forM encodeString

/-- The end of the body in `globus_l_gfs_ipc_pack_data`: the credential, for which the buffer is made larger by its
length. -/
def encodeCred : Option (List UInt8) → Encoder Unit
  | none => encodeUInt32 0
  | some token => do
    encodeUInt32 (.ofNat token.length)
    fun p =>
      let size := if p.ptr + token.length ≥ p.size then p.size + token.length else p.size
      if p.ptr + token.length ≤ size then
        some ((), ⟨write p.buffer p.ptr token, size, p.ptr + token.length⟩)
      else none

/-- The body in `globus_l_gfs_ipc_pack_data`. -/
def encodeData (info : DataInfo) : Encoder Unit := do
  encodeChar (toChar info.ipv6)
  encodeUInt32 info.nstreams.toUInt32
  encodeChar info.mode
  encodeChar info.type
  encodeUInt32 info.tcpBufsize.toUInt32
  encodeUInt32 info.blocksize.toUInt32
  encodeUInt32 info.stripeBlocksize.toUInt32
  encodeUInt32 info.stripeLayout.toUInt32
  encodeChar info.prot
  encodeChar info.dcau
  encodeString info.subject
  encodeUInt32 info.maxCs.toUInt32
  encodeUInt32 info.csCount.toUInt32
  info.contactStrings.forM encodeString
  encodeString info.pathname
  encodeString info.interface
  encodeCred info.delCred

/-- `GFS_IPC_HEADER_SIZE` and `GFS_IPC_HEADER_SIZE_OFFSET` -/
def headerSize : Nat := 9
def headerSizeOffset : Nat := 5

/-- The length of the message is put into the header; what is given to `globus_xio_register_write`. -/
def encodeLength : Encoder (List UInt8) := do
  let msgSize := (← get).ptr
  modify fun p => { p with ptr := headerSizeOffset }
  encodeUInt32 (.ofNat msgSize)
  return (← get).buffer.take msgSize

/-- Header and body, then the length of the message. -/
def encodeMessage (type : UInt8) (id : UInt32) (body : Encoder Unit) : Encoder (List UInt8) := do
  encodeChar type
  encodeUInt32 id
  encodeUInt32 (-1)
  body
  encodeLength

def pack (bufferSize : Nat) (type : UInt8) (id : UInt32) (body : Encoder Unit) : Option (List UInt8) :=
  (encodeMessage type id body ⟨[], bufferSize, 0⟩).map Prod.fst

/-! ## 3. What encoders write -/

/-- A packer that writes at the end of its buffer. -/
structure Packer.Ready (p : Packer) : Prop where
  size : 0 < p.size
  ptr : p.ptr = p.buffer.length
  room : p.ptr ≤ p.size

/-- The encoder appends the bytes. -/
def Writes (e : Encoder Unit) (bytes : List UInt8) : Prop :=
  ∀ p : Packer, p.Ready → ∃ p', e p = some ((), p') ∧ p'.Ready ∧ p'.buffer = p.buffer ++ bytes

theorem growLoop_eq {need : Nat} : ∀ {fuel len : Nat}, need ≤ len * 2 ^ fuel →
    ∃ size, growLoop need fuel len = some size ∧ need ≤ size ∧ len ≤ size
  | 0, len, h => ⟨len, if_pos (by omega), by omega, Nat.le_refl _⟩
  | fuel + 1, len, h => by
    rw [growLoop]
    split
    next hle => exact ⟨len, rfl, hle, Nat.le_refl _⟩
    next =>
      have hdouble : need ≤ len * 2 * 2 ^ fuel := by rwa [Nat.mul_assoc, ← Nat.pow_succ']
      obtain ⟨size, heq, hneed, hlen⟩ := growLoop_eq hdouble
      exact ⟨size, heq, hneed, by omega⟩

/-- A buffer that is there can be made large enough. -/
theorem grow_eq {need len : Nat} (h : 0 < len) : ∃ size, grow need len = some size ∧ need ≤ size ∧ len ≤ size := by
  apply growLoop_eq
  calc need ≤ 2 ^ need := Nat.le_of_lt Nat.lt_two_pow_self
    _ ≤ len * 2 ^ need := Nat.le_mul_of_pos_left _ h

/-- A buffer of size 0 never is. -/
theorem growLoop_zero {need : Nat} (h : 0 < need) : ∀ fuel : Nat, growLoop need fuel 0 = none
  | 0 => if_neg (by omega)
  | fuel + 1 => by
    rw [growLoop, if_neg (by omega)]
    exact growLoop_zero h fuel

theorem writes_put (bytes : List UInt8) : Writes (put bytes) bytes := by
  intro p hp
  obtain ⟨size, hgrow, hneed, hle⟩ := @grow_eq (p.ptr + bytes.length) p.size hp.size
  have hbuffer : write p.buffer p.ptr bytes = p.buffer ++ bytes := by
    have h := write_append p.buffer [] bytes
    rwa [append_nil, drop_nil, append_nil, ← hp.ptr] at h
  refine ⟨⟨p.buffer ++ bytes, size, p.ptr + bytes.length⟩, ?_, ⟨lt_of_lt_of_le hp.size hle, ?_, hneed⟩, rfl⟩
  · rw [put, hgrow, Option.map_some, hbuffer]
  · rw [length_append, hp.ptr]

theorem writes_pure : Writes (pure ()) [] := fun p hp => ⟨p, rfl, hp, (append_nil _).symm⟩

theorem Writes.bind {e e' : Encoder Unit} {bytes bytes' : List UInt8} (h : Writes e bytes) (h' : Writes e' bytes') :
    Writes (do e; e') (bytes ++ bytes') := by
  intro p hp
  obtain ⟨p₁, heq, hp₁, hbuffer⟩ := h p hp
  obtain ⟨p₂, heq', hp₂, hbuffer'⟩ := h' p₁ hp₁
  refine ⟨p₂, ?_, hp₂, by rw [hbuffer', hbuffer, append_assoc]⟩
  show (e p).bind (fun r => e' r.2) = _
  rw [heq]
  exact heq'

theorem writes_forM {α : Type} {e : α → Encoder Unit} {w : α → List UInt8} : ∀ {l : List α}, (∀ a ∈ l, Writes (e a) (w a)) →
    Writes (l.forM e) (l.flatMap w)
  | [], _ => writes_pure
  | _ :: _, h => (h _ mem_cons_self).bind (writes_forM fun b hb => h b (mem_cons_of_mem _ hb))

theorem writes_char {w : UInt8} : Writes (encodeChar w) [w] := writes_put [w]

theorem writes_uint32 {w : UInt32} : Writes (encodeUInt32 w) (wireUInt32 w) := writes_put _

theorem writes_uint64 {w : UInt64} : Writes (encodeUInt64 w) (wireUInt64 w) := writes_put _

/-- A text without NUL. -/
def NulFree (s : CString) : Prop := ∀ t ∈ s, 0 ∉ t

theorem writes_string {s : CString} (h : NulFree s) : Writes (encodeString s) (wireString s) := by
  cases s with
  | none => exact writes_uint32
  | some s =>
    have hcstring : cstring s = s := by
      refine takeWhile_eq_self_iff.mpr fun c hc => decide_eq_true ?_
      rintro rfl
      exact h s rfl hc
    rw [encodeString, hcstring]
    have hchars := writes_forM (l := s) (w := fun c => [c]) fun _ _ => writes_char
    rw [flatMap_singleton'] at hchars
    exact writes_uint32.bind hchars

theorem writes_cred {cred : Option (List UInt8)} : Writes (encodeCred cred) (wireCred cred) := by
  cases cred with
  | none => exact writes_uint32
  | some token =>
    refine writes_uint32.bind fun p hp => ?_
    have hroom := hp.room
    have hsize := hp.size
    have hbuffer : write p.buffer p.ptr token = p.buffer ++ token := by
      have h := write_append p.buffer [] token
      rwa [append_nil, drop_nil, append_nil, ← hp.ptr] at h
    have hfits : p.ptr + token.length ≤ if p.ptr + token.length ≥ p.size then p.size + token.length else p.size := by
      split <;> omega
    refine ⟨⟨p.buffer ++ token, if p.ptr + token.length ≥ p.size then p.size + token.length else p.size,
      p.ptr + token.length⟩, ?_, ⟨?_, ?_, hfits⟩, rfl⟩
    · simp only [if_pos hfits, hbuffer]
    · show 0 < if p.ptr + token.length ≥ p.size then p.size + token.length else p.size
      split <;> omega
    · rw [length_append, hp.ptr]

/-! ## 4. The message -/

/-- The header of a message with a body of so many bytes. -/
def header (type : UInt8) (id : UInt32) (bodyLength : Nat) : List UInt8 :=
  [type] ++ wireUInt32 id ++ wireUInt32 (.ofNat (headerSize + bodyLength))

variable (type : UInt8) (id : UInt32)

@[simp] theorem length_header (bodyLength : Nat) : (header type id bodyLength).length = headerSize := by
  simp [header, headerSize]

/-- **A packed message is its header and its body.** -/
theorem pack_eq {bufferSize : Nat} {body : Encoder Unit} {bytes : List UInt8}
    (hsize : 0 < bufferSize) (hbody : Writes body bytes) :
    pack bufferSize type id body = some (header type id bytes.length ++ bytes) := by
  have hready : Packer.Ready ⟨[], bufferSize, 0⟩ := ⟨hsize, rfl, Nat.zero_le _⟩
  have hall : Writes (do encodeChar type; encodeUInt32 id; encodeUInt32 (-1); body)
      ([type] ++ (wireUInt32 id ++ (wireUInt32 (-1) ++ bytes))) :=
    writes_char.bind (writes_uint32.bind (writes_uint32.bind hbody))
  obtain ⟨p, heq, hp, hbuffer⟩ := hall _ hready
  have hlength : p.ptr = headerSize + bytes.length := by
    rw [hp.ptr, hbuffer]
    simp [headerSize]
    omega
  have hgrow : grow (headerSizeOffset + 4) p.size = some p.size := by
    have hroom := hp.room
    rw [hlength, headerSize] at hroom
    exact if_pos (by rw [headerSizeOffset]; omega)
  -- the -1 in the header is replaced
  have hwrite : write p.buffer headerSizeOffset (wireUInt32 (.ofNat p.ptr)) = header type id bytes.length ++ bytes := by
    have hfront : ([type] ++ wireUInt32 id).length = headerSizeOffset := by simp [headerSizeOffset]
    have hbuf : p.buffer = ([type] ++ wireUInt32 id) ++ (wireUInt32 (-1) ++ bytes) := by rw [hbuffer]; simp
    have hdrop : (wireUInt32 (-1) ++ bytes).drop (wireUInt32 (.ofNat p.ptr)).length = bytes := by
      rw [length_wireUInt32, ← length_wireUInt32 (-1), drop_left]
    rw [← hfront, hbuf, write_append, hdrop, header, hlength]
  have hmessage : encodeMessage type id body =
      (do encodeChar type; encodeUInt32 id; encodeUInt32 (-1); body) >>= fun _ => encodeLength := by
    simp only [encodeMessage, bind_assoc]
  have hend : encodeLength p = some (header type id bytes.length ++ bytes,
      ⟨header type id bytes.length ++ bytes, p.size, headerSizeOffset + 4⟩) := by
    have hput : encodeUInt32 (.ofNat p.ptr) { p with ptr := headerSizeOffset } =
        some ((), ⟨header type id bytes.length ++ bytes, p.size, headerSizeOffset + 4⟩) := by
      show (grow (headerSizeOffset + 4) p.size).map _ = _
      rw [hgrow, Option.map_some, ← hwrite]
      rfl
    show (encodeUInt32 (.ofNat p.ptr) { p with ptr := headerSizeOffset }).bind (fun r => some (r.2.buffer.take p.ptr, r.2)) =
      _
    have htake : (header type id bytes.length ++ bytes).take p.ptr = header type id bytes.length ++ bytes := by
      rw [hlength, take_of_length_le]
      simp
    rw [hput, Option.bind_some, htake]
  rw [pack, hmessage]
  show ((_ : Option (Unit × Packer)).bind fun r => encodeLength r.2).map Prod.fst = _
  rw [heq, Option.bind_some, hend, Option.map_some]

/-- Nothing is packed into a buffer of size 0. -/
theorem pack_zero (body : Encoder Unit) : pack 0 type id body = none := by
  have hput : put [type] ⟨[], 0, 0⟩ = none := by
    rw [put, grow, growLoop_zero (by simp)]
    rfl
  have hmessage : encodeMessage type id body ⟨[], 0, 0⟩ = none := by
    show (put [type] ⟨[], 0, 0⟩).bind (fun r =>
      (do encodeUInt32 id; encodeUInt32 (-1); body; encodeLength : Encoder (List UInt8)) r.2) = none
    rw [hput, Option.bind_none]
  rw [pack, hmessage]
  rfl

end Gct.Ipc
