/-
# `globus_ftp_client_restart_marker_copy`

The copy of a stream marker takes the local offset only: `ascii_offset` stays 0, and the text of a marker
shows the larger of the two.  The ranges of an extended block marker are inserted into the copy one by one.
Ranges that are in order and two bytes apart stay as they are; of the ranges callers pass, nonempty and below
the largest offset, no others do.
-/
import Gct.Lib.Strtol
import Gct.RestartMarker.Text

namespace Gct

open CText List

/-! ## 1. The copy -/

/-- `globus_ftp_client_restart_type_t` -/
inductive RestartType
  | restartNone
  | stream
  | extendedBlock
deriving DecidableEq

def RestartMarker.type : RestartMarker → RestartType
  | .restartNone => .restartNone
  | .stream _ _ => .stream
  | .extendedBlock _ => .extendedBlock

/-- `globus_ftp_client_restart_marker_copy`; `none` when the null queue is followed. -/
def RestartMarker.copy : RestartMarker → Option RestartMarker
  | .restartNone => some .restartNone
  | .stream offset _ => some (.stream offset 0)
  | .extendedBlock none => none
  | .extendedBlock (some ranges) => some (insertRanges (.extendedBlock (some [])) ranges)

/-- The copy cannot be told from the marker. -/
def RestartMarker.Copies (marker : RestartMarker) : Prop :=
  ∃ marker', marker.copy = some marker' ∧ marker'.type = marker.type ∧
    marker'.toString = marker.toString ∧ marker'.getTotal = marker.getTotal

/-- What the C types hold. -/
def RestartMarker.Fits : RestartMarker → Prop
  | .stream offset asciiOffset => OffFits offset ∧ OffFits asciiOffset
  | marker => ∀ range ∈ marker.ranges, OffFits range.offset ∧ OffFits range.endOffset

/-- The larger offset of a stream marker is the local one, or the 0 of the copy; ranges are in order and at
least two bytes apart. -/
def RestartMarker.Copyable : RestartMarker → Prop
  | .restartNone => True
  | .stream offset asciiOffset => max asciiOffset offset = max offset 0
  | .extendedBlock none => False
  | .extendedBlock (some ranges) => ranges.Pairwise fun a b => a.offset < b.offset ∧ a.endOffset + 1 < b.offset

/-! ## 2. Ranges inserted again -/

variable {ranges : List ClientRange} {offset endOffset : Int}

/-- A range behind all others is put at the end. -/
theorem insertRangeLoop_behind (ho : OffFits offset) : ∀ {ranges : List ClientRange},
    (∀ r ∈ ranges, OffFits r.endOffset ∧ r.offset < offset ∧ r.endOffset + 1 < offset) →
      insertRangeLoop offset endOffset ranges = ranges ++ [⟨offset, endOffset⟩]
  | [], _ => rfl
  | range :: ranges, h => by
    obtain ⟨⟨hf, hlt, hend⟩, h⟩ := forall_mem_cons.mp h
    have hsub : offSub offset 1 = offset - 1 := offSub_eq (by unfold OffFits at *; omega)
    rw [insertRangeLoop, if_neg (by omega), hsub, if_pos (by omega), insertRangeLoop_behind ho h, cons_append]

theorem insertRanges_of_pairwise : ∀ {ops ranges : List ClientRange},
    (∀ r ∈ ranges ++ ops, OffFits r.offset ∧ OffFits r.endOffset) →
    ((ranges ++ ops).Pairwise fun a b => a.offset < b.offset ∧ a.endOffset + 1 < b.offset) →
      insertRanges (.extendedBlock (some ranges)) ops = .extendedBlock (some (ranges ++ ops))
  | [], ranges, _, _ => by
    rw [append_nil]
    rfl
  | op :: ops, ranges, hf, hp => by
    have hbefore := (pairwise_append.mp hp).2.2
    have hstep : insertRangeLoop op.offset op.endOffset ranges = ranges ++ [op] :=
      insertRangeLoop_behind (hf op (by simp)).1 fun r hr =>
        ⟨(hf r (by simp [hr])).2, hbefore r hr op mem_cons_self⟩
    rw [append_cons] at hf hp ⊢
    rw [← insertRanges_of_pairwise hf hp, ← hstep]
    rfl

theorem insertRanges_wfRanges : ∀ {ops ranges : List ClientRange}, WfRanges ranges →
    (∀ op ∈ ops, op.Valid ∧ op.endOffset < offMax) →
      ∃ ranges', insertRanges (.extendedBlock (some ranges)) ops = .extendedBlock (some ranges') ∧ WfRanges ranges'
  | [], ranges, hw, _ => ⟨ranges, rfl, hw⟩
  | op :: ops, ranges, hw, hops => by
    obtain ⟨⟨hv, hlt⟩, hrest⟩ := forall_mem_cons.mp hops
    have hw' := (inserts_insertRangeLoop hv hw.valid).wfRanges hv hw fun he => absurd he hlt.ne
    exact (insertRanges_wfRanges hw' hrest :)

/-! ## 3. The text of a queue -/

theorem flatMap_rangeText_inj : ∀ {ranges ranges' : List ClientRange},
    (∀ r ∈ ranges, OffFits r.offset ∧ OffFits r.endOffset) → (∀ r ∈ ranges', OffFits r.offset ∧ OffFits r.endOffset) →
      ranges.flatMap rangeText = ranges'.flatMap rangeText → ranges = ranges'
  | [], [], _, _, _ => rfl
  | [], _ :: _, _, _, h => by simp [rangeText] at h
  | _ :: _, [], _, _, h => by simp [rangeText] at h
  | ⟨a, b⟩ :: ranges, ⟨a', b'⟩ :: ranges', hf, hf', h => by
    obtain ⟨⟨ha, hb⟩, hrest⟩ := forall_mem_cons.mp hf
    obtain ⟨⟨ha', hb'⟩, hrest'⟩ := forall_mem_cons.mp hf'
    -- both texts begin with the range that is scanned
    have hscan := scanRange_text (s := ',' :: ranges.flatMap rangeText) ha hb (noDigit_cons.mpr (by decide))
    have hscan' := scanRange_text (s := ',' :: ranges'.flatMap rangeText) ha' hb' (noDigit_cons.mpr (by decide))
    simp only [flatMap_cons, rangeText, append_assoc, cons_append, nil_append] at h hscan hscan'
    rw [h, hscan'] at hscan
    simp only [Option.some.injEq, Prod.mk.injEq, cons.injEq, true_and] at hscan
    obtain ⟨rfl, rfl, htail⟩ := hscan
    rw [flatMap_rangeText_inj hrest hrest' htail.symm]

/-- The text of a queue ends in the comma that `to_string` cuts off. -/
theorem flatMap_rangeText_eq (range : ClientRange) (ranges : List ClientRange) :
    ((range :: ranges).flatMap rangeText).dropLast ++ [','] = (range :: ranges).flatMap rangeText := by
  induction ranges generalizing range with
  | nil => rw [flatMap_singleton, rangeText, dropLast_concat]
  | cons range' ranges ih =>
    have hne : (range' :: ranges).flatMap rangeText ≠ [] := by simp [rangeText]
    rw [flatMap_cons, dropLast_append_of_ne_nil hne, append_assoc, ih]

theorem toString_extendedBlock_inj {ranges' : List ClientRange}
    (hf : ∀ r ∈ ranges, OffFits r.offset ∧ OffFits r.endOffset)
    (hf' : ∀ r ∈ ranges', OffFits r.offset ∧ OffFits r.endOffset)
    (h : (RestartMarker.extendedBlock (some ranges)).toString = (RestartMarker.extendedBlock (some ranges')).toString) :
    ranges = ranges' := by
  match ranges, ranges' with
  | [], [] => rfl
  | [], _ :: _ => exact nomatch h
  | _ :: _, [] => exact nomatch h
  | range :: ranges, range' :: ranges' =>
    simp only [RestartMarker.toString, Option.some.injEq] at h
    refine flatMap_rangeText_inj hf hf' ?_
    rw [← flatMap_rangeText_eq, h, flatMap_rangeText_eq]

/-! ## 4. When the copy is equal -/

theorem copies_stream_iff {asciiOffset : Int} (ho : OffFits offset) (ha : OffFits asciiOffset) :
    (RestartMarker.stream offset asciiOffset).Copies ↔ max asciiOffset offset = max offset 0 := by
  obtain ⟨o1, o2⟩ := ho
  obtain ⟨a1, a2⟩ := ha
  have hlarger : ∀ a : Int, (if a > offset then a else offset) = max a offset := by
    intro a
    split <;> omega
  simp only [RestartMarker.Copies, RestartMarker.copy, Option.some.injEq, exists_eq_left', RestartMarker.type,
    RestartMarker.toString, RestartMarker.getTotal, hlarger, true_and, and_true]
  constructor
  · intro h
    have hvalue := congrArg (valueOf 10) h
    rw [valueOf_printUnsigned, valueOf_printUnsigned] at hvalue
    omega
  · intro h
    rw [h, max_comm]

/-- **The copy cannot be told from the marker if the larger offset is not lost, or the ranges are in order and
two bytes apart; and for nonempty ranges below the largest offset only then.** -/
theorem copies_iff (marker : RestartMarker) (hfits : marker.Fits) :
    (marker.Copyable → marker.Copies) ∧
      ((∀ range ∈ marker.ranges, range.Valid ∧ range.endOffset < offMax) → marker.Copies → marker.Copyable) := by
  match marker with
  | .restartNone => exact ⟨fun _ => ⟨.restartNone, rfl, rfl, rfl, rfl⟩, fun _ _ => trivial⟩
  | .stream offset asciiOffset =>
    have hiff := copies_stream_iff hfits.1 hfits.2
    exact ⟨hiff.mpr, fun _ => hiff.mp⟩
  | .extendedBlock none => exact ⟨False.elim, fun _ ⟨_, h, _⟩ => nomatch h⟩
  | .extendedBlock (some ranges) =>
    constructor
    · intro hp
      exact ⟨_, congrArg some (insertRanges_of_pairwise hfits hp), rfl, rfl, rfl⟩
    · rintro hvalid ⟨marker', hcopy, -, htext, -⟩
      obtain ⟨ranges', heq, hwf⟩ := insertRanges_wfRanges wfRanges_nil hvalid
      obtain rfl : RestartMarker.extendedBlock (some ranges') = marker' := heq.symm.trans (Option.some.inj hcopy)
      have hfits' : ∀ r ∈ ranges', OffFits r.offset ∧ OffFits r.endOffset := by
        intro r hr
        have := hwf.valid r hr
        unfold ClientRange.Valid offMax at this
        unfold OffFits
        omega
      obtain rfl := toString_extendedBlock_inj hfits' hfits htext
      refine hwf.sep.imp_of_mem fun ha _ hab => ⟨?_, hab⟩
      have := (hwf.valid _ ha).2.1
      omega

/-- The ranges of a transfer with two gaps. -/
theorem copies_three_ranges : (RestartMarker.extendedBlock (some [⟨0, 10⟩, ⟨20, 30⟩, ⟨40, 50⟩])).Copies :=
  (copies_iff (.extendedBlock (some [⟨0, 10⟩, ⟨20, 30⟩, ⟨40, 50⟩])) (by unfold RestartMarker.Fits; decide)).1
    (by unfold RestartMarker.Copyable; decide)

/-- Seven bytes of text with two newlines are nine on the network. -/
theorem ascii_not_copies : ¬ (RestartMarker.stream 7 9).Copies := by
  rintro ⟨marker', hcopy, -, htext, -⟩
  obtain rfl := Option.some.inj hcopy
  exact absurd htext (by decide)

end Gct
