/-
# Restart markers of the FTP client: the program

`globus_ftp_client_restart_marker.c`.  A marker is a C union: nothing, the two offsets of a stream
mode transfer, or a queue of the byte ranges of an extended block transfer that have arrived.  The
queue is behind a pointer which may be null (`none`): `globus_fifo_move` and `globus_fifo_enqueue`
return an error code on the null queue that the callers here do not look at, while
`globus_fifo_empty` follows the pointer.

Ranges are written `offset-end_offset` in the text of a marker, which is the argument of the FTP
command `REST`.  Memory is assumed to be available, and `unsigned long` to have 64 bits.
-/
import Gct.Lib.Text
import Gct.Off
import Mathlib

namespace Gct

open CText

/-! ## 1. Markers -/

/-- `globus_i_ftp_client_range_t`. -/
structure ClientRange where
  offset : Int
  endOffset : Int
deriving Repr, DecidableEq

/-- `globus_ftp_client_restart_marker_t`. -/
inductive RestartMarker
  | restartNone
  | stream (offset asciiOffset : Int)
  | extendedBlock (ranges : Option (List ClientRange))
deriving Repr, DecidableEq

/-- `globus_ftp_client_restart_marker_init`. -/
def RestartMarker.init : RestartMarker := .restartNone

/-- The ranges in the queue. -/
def RestartMarker.ranges : RestartMarker → List ClientRange
  | .extendedBlock (some ranges) => ranges
  | _ => []

/-! ## 2. Insertion -/

/-- The loop of `globus_ftp_client_restart_marker_insert_range`: the first list is what is still
in `tmp`, the result what the queue of the marker gets. -/
def insertRangeLoop : Int → Int → List ClientRange → List ClientRange
  | offset, endOffset, [] => [⟨offset, endOffset⟩]
  | offset, endOffset, range :: tmp =>
    let larger := if endOffset < range.endOffset then range.endOffset else endOffset
    if offset ≤ range.offset then
      if offAdd endOffset 1 < range.offset then ⟨offset, endOffset⟩ :: range :: tmp
      else if offAdd endOffset 1 = range.offset then insertRangeLoop offset range.endOffset tmp
      -- "weird.... overlapping data"
      else insertRangeLoop offset larger tmp
    else
      if range.endOffset < offSub offset 1 then range :: insertRangeLoop offset endOffset tmp
      else if range.endOffset ≥ offSub offset 1 then insertRangeLoop range.offset larger tmp
      else range :: insertRangeLoop offset endOffset tmp

/-- `globus_ftp_client_restart_marker_insert_range`. -/
def RestartMarker.insertRange (marker : RestartMarker) (offset endOffset : Int) : RestartMarker :=
  match marker with
  -- nothing is moved out of the null queue, and nothing can be put into it
  | .extendedBlock none => .extendedBlock none
  | .extendedBlock (some ranges) => .extendedBlock (some (insertRangeLoop offset endOffset ranges))
  | _ => .extendedBlock (some (insertRangeLoop offset endOffset []))

/-! ## 3. The number of bytes -/

/-- `globus_ftp_client_restart_marker_get_total`; `none` when the null queue is followed. -/
def RestartMarker.getTotal : RestartMarker → Option Int
  | .restartNone => some 0
  | .stream offset _ => some offset
  | .extendedBlock none => none
  | .extendedBlock (some ranges) =>
    some (ranges.foldl (fun total range => offAdd total (offSub range.endOffset range.offset)) 0)

/-! ## 4. Markers as text -/

variable (range : ClientRange) (ranges : List ClientRange)

/-- One round of the loop of `globus_ftp_client_restart_marker_to_string`. -/
def rangeText : List Char :=
  printInt range.offset ++ '-' :: printInt range.endOffset ++ [',']

/-- `globus_ftp_client_restart_marker_to_string`: `none` when the null queue is followed, and
`some none` for the null string. -/
def RestartMarker.toString : RestartMarker → Option (Option (List Char))
  | .restartNone => some none
  | .stream offset asciiOffset =>
    let larger := if asciiOffset > offset then asciiOffset else offset
    some (some (printUnsigned (larger % 18446744073709551616).toNat))
  | .extendedBlock none => none
  | .extendedBlock (some []) => some none
  -- the last comma is overwritten
  | .extendedBlock (some (range :: rest)) =>
    some (some ((range :: rest).flatMap rangeText).dropLast)

/-- The conversion of an offset. -/
def scanOff (s : List Char) : Option (Int × List Char) := scanInt (-offMax - 1) offMax s

/-- The conversions `%d-%d` for two offsets: both, and what follows. -/
def scanRange (s : List Char) : Option (Int × Int × List Char) :=
  match scanOff s with
  | some (offset, '-' :: t) => (scanOff t).map fun p => (offset, p.1, p.2)
  | _ => none

theorem length_of_scanRange {s r : List Char} {a b : Int} (h : scanRange s = some (a, b, r)) : r.length < s.length := by
  unfold scanRange at h
  split at h
  next offset t hs =>
    obtain ⟨⟨n, r'⟩, hn, heq⟩ := Option.map_eq_some_iff.mp h
    simp only [Prod.mk.injEq] at heq
    have h1 := length_of_scanInt hs
    have h2 := length_of_scanInt hn
    rw [List.length_cons] at h1
    rw [heq.2.2] at h2
    omega
  · exact absurd h (by simp)

/-- The loop of `globus_ftp_client_restart_marker_from_string`. -/
def fromStringLoop (p : List Char) (marker : RestartMarker) : RestartMarker :=
  match _h : scanRange p with
  | none => marker
  | some (offset, endOffset, ',' :: p') => fromStringLoop p' (marker.insertRange offset endOffset)
  | some (offset, endOffset, _) => marker.insertRange offset endOffset
termination_by p.length
decreasing_by
  have := length_of_scanRange _h
  rw [List.length_cons] at this
  omega

/-- The one error of `globus_ftp_client_restart_marker_from_string` that a text can cause:
`GLOBUS_I_FTP_CLIENT_ERROR_INVALID_PARAMETER("marker_string")`. -/
inductive MarkerError
  | invalidMarkerString
deriving Repr, DecidableEq

/-- `globus_ftp_client_restart_marker_from_string`.  The marker is fresh, so the two checks of its
type that follow the choice of the branch succeed. -/
def RestartMarker.fromString (markerString : List Char) : Except MarkerError RestartMarker :=
  match strchr '-' markerString with
  -- only the type is set: the queue is the null one
  | some _ => .ok (fromStringLoop markerString (.extendedBlock none))
  | none =>
    match scanOff markerString with
    | none => .error .invalidMarkerString
    | some (offset, _) => .ok (.stream offset offset)

/-! ## 5. What a marker means -/

/-- The bytes of a range: `[offset, endOffset)`. -/
def ClientRange.bytes : Set Int := Set.Ico range.offset range.endOffset

/-- The bytes the ranges of a queue cover. -/
def rangesBytes : Set Int := ⋃ range ∈ ranges, range.bytes

/-- A range the callers pass: it begins at an offset and is not empty. -/
def ClientRange.Valid : Prop :=
  0 ≤ range.offset ∧ range.offset < range.endOffset ∧ range.endOffset ≤ offMax

instance (range : ClientRange) : Decidable range.Valid := inferInstanceAs (Decidable (_ ∧ _ ∧ _))

@[simp] theorem ClientRange.mem_bytes {range : ClientRange} {x : Int} :
    x ∈ range.bytes ↔ range.offset ≤ x ∧ x < range.endOffset := Iff.rfl

theorem mem_rangesBytes {ranges : List ClientRange} {x : Int} :
    x ∈ rangesBytes ranges ↔ ∃ range ∈ ranges, x ∈ range.bytes := by
  simp only [rangesBytes, Set.mem_iUnion, exists_prop]

@[simp] theorem rangesBytes_nil : rangesBytes [] = ∅ := by simp [rangesBytes]

@[simp] theorem rangesBytes_cons : rangesBytes (range :: ranges) = range.bytes ∪ rangesBytes ranges := by
  ext x
  simp [mem_rangesBytes]

end Gct
