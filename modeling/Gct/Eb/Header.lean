/-
# Extended block mode: what is on a data connection

A data connection in extended block mode carries headers and the bytes of data blocks.  A header says
what comes in its descriptor bits, and how many bytes of data follow it.  `EOD` is the end of the data
on the connection; `EOF` is the end of the file on all connections of the stripe, and such a header has
in the place of the offset the number of connections that will say `EOD`.
-/
import Gct.Lib.Channels

namespace Gct.Eb

/-! ## 1. Headers -/

def descriptorClose : UInt8 := 0x04
def descriptorEod : UInt8 := 0x08
def descriptorEof : UInt8 := 0x40

/-- `globus_l_ftp_eb_header_t`, with the two numbers as they are decoded. -/
structure EbHeader where
  descriptor : UInt8
  count : Nat
  offset : Int
deriving DecidableEq

namespace EbHeader

variable (h : EbHeader)

def close : Bool := h.descriptor &&& descriptorClose != 0
def eod : Bool := h.descriptor &&& descriptorEod != 0
def eof : Bool := h.descriptor &&& descriptorEof != 0

/-- The number of bytes of data behind the header: none behind `EOF`, whatever the count is. -/
def bytes : Nat := if h.eof then 0 else h.count

end EbHeader

/-- The header of a data block. -/
def dataHeader (count : Nat) (offset : Int) : EbHeader := ⟨0, count, offset⟩

/-- The header `globus_l_ftp_control_data_register_eod` writes. -/
def eodHeader : EbHeader := ⟨descriptorEod, 0, 0⟩

/-- The header `globus_l_ftp_control_data_register_eof` writes. -/
def eofHeader (totalConnectionCount : Int) : EbHeader :=
  ⟨descriptorEof ||| descriptorEod, 0, totalConnectionCount⟩

/-- The header `globus_l_ftp_control_register_close_msg` writes; `eod` is the flag of the connection. -/
def closeHeader (eod : Bool) : EbHeader :=
  ⟨if eod then descriptorClose ||| descriptorEod else descriptorClose, 0, 0⟩

section Flags

variable (count : Nat) (offset : Int) (eod : Bool)

@[simp] theorem dataHeader_close : (dataHeader count offset).close = false := by
  simp [EbHeader.close, dataHeader]

@[simp] theorem dataHeader_eod : (dataHeader count offset).eod = false := by
  simp [EbHeader.eod, dataHeader]

@[simp] theorem dataHeader_eof : (dataHeader count offset).eof = false := by
  simp [EbHeader.eof, dataHeader]

@[simp] theorem dataHeader_bytes : (dataHeader count offset).bytes = count := by
  simp [EbHeader.bytes]
  rfl

@[simp] theorem eodHeader_close : eodHeader.close = false := rfl

@[simp] theorem eodHeader_eod : eodHeader.eod = true := rfl

@[simp] theorem eodHeader_eof : eodHeader.eof = false := rfl

@[simp] theorem eodHeader_bytes : eodHeader.bytes = 0 := rfl

@[simp] theorem eofHeader_eod : (eofHeader offset).eod = true := by
  simp only [EbHeader.eod, eofHeader]
  decide

@[simp] theorem eofHeader_eof : (eofHeader offset).eof = true := by
  simp only [EbHeader.eof, eofHeader]
  decide

@[simp] theorem eofHeader_offset : (eofHeader offset).offset = offset := rfl

@[simp] theorem eofHeader_bytes : (eofHeader offset).bytes = 0 := by
  simp [EbHeader.bytes]

@[simp] theorem closeHeader_eod : (closeHeader eod).eod = eod := by
  cases eod <;> rfl

@[simp] theorem closeHeader_eof : (closeHeader eod).eof = false := by
  cases eod <;> rfl

@[simp] theorem closeHeader_bytes : (closeHeader eod).bytes = 0 := by
  cases eod <;> rfl

end Flags

/-! ## 2. What a connection carries -/

inductive Item
  | header (h : EbHeader)
  | byte (b : UInt8)
deriving DecidableEq

namespace Item

/-- For `Channels.due`: the bytes a header announces. -/
def size : Item → Option Nat
  | header h => some h.bytes
  | byte _ => none

def isEod : Item → Bool
  | header h => h.eod
  | byte _ => false

def isEof : Item → Bool
  | header h => h.eof
  | byte _ => false

/-- The sender writes nothing behind this. -/
def isLast : Item → Bool
  | header h => h.eod || h.close
  | byte _ => false

def byte? : Item → Option UInt8
  | header _ => none
  | byte b => some b

variable (b : UInt8) (h : EbHeader)

@[simp] theorem size_header : size (header h) = some h.bytes := rfl
@[simp] theorem size_byte : size (byte b) = none := rfl
@[simp] theorem isEod_header : isEod (header h) = h.eod := rfl
@[simp] theorem isEod_byte : isEod (byte b) = false := rfl
@[simp] theorem isEof_header : isEof (header h) = h.eof := rfl
@[simp] theorem isEof_byte : isEof (byte b) = false := rfl
@[simp] theorem isLast_header : isLast (header h) = (h.eod || h.close) := rfl
@[simp] theorem isLast_byte : isLast (byte b) = false := rfl

theorem isLast_of_isEod {x : Item} (h : x.isEod = true) : x.isLast = true := by
  cases x with
  | header g => simp_all
  | byte b => simp at h

end Item

/-- The bytes of data among the items. -/
def payload (l : List Item) : List UInt8 := l.filterMap Item.byte?

variable (buffer : List UInt8)

/-- A data block: its header and its bytes. -/
def block (offset : Int) : List Item :=
  .header (dataHeader buffer.length offset) :: buffer.map .byte

theorem due_block (offset : Int) : Channels.due Item.size 0 (block buffer offset) = some 0 :=
  Channels.due_frame (by simp) (by simp)

theorem isLast_of_mem_block {buffer : List UInt8} {offset : Int} {x : Item}
    (hx : x ∈ block buffer offset) : x.isLast = false := by
  rcases List.mem_cons.mp hx with rfl | hx
  · simp
  · obtain ⟨b, -, rfl⟩ := List.mem_map.mp hx
    rfl

/-- Neither `EOD` nor `EOF` is in a data block. -/
theorem countP_block (offset : Int) :
    (block buffer offset).countP Item.isEod = 0 ∧ (block buffer offset).countP Item.isEof = 0 := by
  simp [block, List.countP_eq_zero]

end Gct.Eb
