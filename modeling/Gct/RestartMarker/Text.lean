/-
# Restart markers as text, and back

`globus_ftp_client_restart_marker_to_string` writes the ranges of a queue as `a-b,c-d`, and
`globus_ftp_client_restart_marker_from_string` scans such a text range by range and inserts what it
finds into a fresh marker.  But the fresh marker is only given its type: its queue is never
initialised, so every insertion fails without a word and the marker that is returned has no ranges
at all (`fromString_of_mem`).  For a stream marker the offset goes through an unsigned conversion,
which the scan reads back if the offset is not negative.
-/
import Gct.RestartMarker.Insert

namespace Gct

open CText List

/-! ## 1. One range -/

/-- **A range is read back from its text**, whatever follows it, as long as that is no digit. -/
theorem scanRange_text {a b : Int} {s : List Char} (ha : OffFits a) (hb : OffFits b)
    (hs : NoDigit s) : scanRange (printInt a ++ '-' :: printInt b ++ s) = some (a, b, s) := by
  unfold OffFits at ha hb
  have h1 : scanOff (printInt a ++ '-' :: printInt b ++ s) = some (a, '-' :: (printInt b ++ s)) := by
    rw [append_assoc]
    exact scanInt_printInt (by unfold offMax; omega) (by unfold offMax; omega) (noDigit_cons.mpr (by decide))
  have h2 : scanOff (printInt b ++ s) = some (b, s) :=
    scanInt_printInt (by unfold offMax; omega) (by unfold offMax; omega) hs
  simp only [scanRange, h1, h2, Option.map_some]

/-! ## 2. Reading a marker -/

/-- The null queue stays null, whatever is scanned. -/
theorem fromStringLoop_null (p : List Char) : fromStringLoop p (.extendedBlock none) = .extendedBlock none := by
  generalize hm : RestartMarker.extendedBlock none = marker
  induction p, marker using fromStringLoop.induct with
  | case1 p marker h =>
    rw [fromStringLoop]
    split <;> simp_all
  | case2 p marker offset endOffset p' h ih =>
    subst hm
    rw [fromStringLoop]
    split
    · rfl
    next h' =>
      rw [h] at h'
      obtain ⟨rfl, rfl, rfl⟩ := h'
      exact ih rfl
    · rfl
  | case3 p marker offset endOffset rest hne h =>
    subst hm
    rw [fromStringLoop]
    split
    · rfl
    next p' h' =>
      rw [h] at h'
      simp only [Option.some.injEq, Prod.mk.injEq] at h'
      exact absurd h'.2.2 (hne p')
    · rfl

/-- **Any text with a dash in it is read as the marker with the null queue.** -/
theorem fromString_of_mem {text : List Char} (h : '-' ∈ text) :
    RestartMarker.fromString text = .ok (.extendedBlock none) := by
  obtain ⟨s, t, rfl, hs⟩ := eq_append_cons_of_mem h
  rw [RestartMarker.fromString, strchr_append hs]
  rw [fromStringLoop_null]

/-- A text of digits is read as a stream marker, up to the largest offset. -/
theorem fromString_printUnsigned (n : Nat) : RestartMarker.fromString (printUnsigned n)
      = .ok (.stream (min offMax n) (min offMax n)) := by
  have hscan : scanOff (printUnsigned n ++ []) = some (min offMax n, []) :=
    (scanInt_digits (isDigits_printUnsigned n) noDigit_nil).trans (by rw [ofDigitChars_printUnsigned])
  rw [append_nil] at hscan
  rw [RestartMarker.fromString, strchr_eq_none_iff.mpr (not_mem_printUnsigned (by decide))]
  simp only [hscan]

/-! ## 3. The round trip -/

/-- What the round trip should give: the larger of the two offsets of a stream marker, and
otherwise the same ranges and the same text. -/
def RestartMarker.RoundTrips (marker : RestartMarker) : Prop :=
  ∃ text marker', marker.toString = some (some text) ∧ fromString text = .ok marker'
    ∧ match marker with
      | .stream offset asciiOffset => ∃ ascii, marker' = .stream (max offset asciiOffset) ascii
      | _ => marker'.ranges = marker.ranges ∧ marker'.toString = some (some text)

/-- The queue is never empty after an insertion. -/
theorem insertRangeLoop_ne_nil (ranges : List ClientRange) :
    ∀ offset endOffset : Int, insertRangeLoop offset endOffset ranges ≠ [] := by
  induction ranges with
  | nil => simp [insertRangeLoop]
  | cons range tmp ih =>
    intro offset endOffset
    simp only [insertRangeLoop]
    repeat' split
    all_goals simp [ih]

/-- A run of insertions leaves a queue with a range in it. -/
theorem insertRanges_eq_cons : ∀ (ops : List ClientRange) {ranges : List ClientRange}, ranges ≠ [] →
      ∃ range rest, insertRanges (.extendedBlock (some ranges)) ops = .extendedBlock (some (range :: rest))
  | [], ranges, h => by
    obtain ⟨range, rest, rfl⟩ := exists_cons_of_ne_nil h
    exact ⟨range, rest, rfl⟩
  | op :: ops, ranges, _ =>
    insertRanges_eq_cons ops (insertRangeLoop_ne_nil ranges op.offset op.endOffset)

/-- A marker with ranges never comes back. -/
theorem not_roundTrips_extendedBlock (range : ClientRange) (rest : List ClientRange) :
    ¬ (RestartMarker.extendedBlock (some (range :: rest))).RoundTrips := by
  rintro ⟨text, marker', htext, hfrom, hranges, -⟩
  have hmem : '-' ∈ text := by
    simp only [RestartMarker.toString, Option.some.injEq] at htext
    rw [← htext, flatMap_cons, rangeText]
    have happ : ∀ s t : List Char, '-' ∈ (s ++ '-' :: t ++ [',']).dropLast := by
      intro s t
      rw [dropLast_concat]
      simp
    cases hr : rest.flatMap rangeText with
    | nil =>
      rw [append_nil]
      exact happ _ _
    | cons c cs =>
      rw [dropLast_append_of_ne_nil (by simp)]
      simp
  rw [fromString_of_mem hmem, Except.ok.injEq] at hfrom
  rw [← hfrom] at hranges
  exact absurd hranges (by simp [RestartMarker.ranges])

/-- A stream marker comes back if the larger offset is not negative. -/
theorem roundTrips_stream_iff {offset asciiOffset : Int} (ho : OffFits offset) (ha : OffFits asciiOffset) :
    (RestartMarker.stream offset asciiOffset).RoundTrips ↔ 0 ≤ max offset asciiOffset := by
  have hlarger : (if asciiOffset > offset then asciiOffset else offset) = max offset asciiOffset := by
    split <;> omega
  have hfits : OffFits (max offset asciiOffset) := by
    rcases max_choice offset asciiOffset with h | h <;> rw [h] <;> assumption
  unfold RestartMarker.RoundTrips RestartMarker.toString
  simp only [hlarger]
  generalize max offset asciiOffset = larger at hfits
  obtain ⟨h1, h2⟩ := hfits
  have hmod : ∀ n, n = (larger % 18446744073709551616).toNat → (min offMax (n : Int) = larger ↔ 0 ≤ larger) := by
    rintro n rfl
    unfold offMax
    omega
  constructor
  · rintro ⟨text, marker', htext, hfrom, ascii, heq⟩
    rw [Option.some.injEq, Option.some.injEq] at htext
    rw [← htext, fromString_printUnsigned, Except.ok.injEq, heq, RestartMarker.stream.injEq] at hfrom
    exact (hmod _ rfl).mp hfrom.1
  · intro h0
    have hfrom := fromString_printUnsigned (larger % 18446744073709551616).toNat
    rw [(hmod _ rfl).mpr h0] at hfrom
    exact ⟨_, _, rfl, hfrom, larger, rfl⟩

/-- **The text of a marker can be read back only for stream markers with an offset that is not
negative; the ranges of an extended block marker are always lost.** -/
theorem roundTrips_iff (marker : RestartMarker)
    (h : (∃ ops, ops ≠ [] ∧ marker = insertRanges .init ops)
      ∨ ∃ offset asciiOffset, OffFits offset ∧ OffFits asciiOffset
        ∧ marker = .stream offset asciiOffset) :
    marker.RoundTrips
      ↔ ∃ offset asciiOffset, marker = .stream offset asciiOffset
        ∧ 0 ≤ max offset asciiOffset := by
  rcases h with ⟨ops, hne, rfl⟩ | ⟨offset, asciiOffset, ho, ha, rfl⟩
  · obtain ⟨op, ops, rfl⟩ := exists_cons_of_ne_nil hne
    have hcons := insertRanges_eq_cons ops (insertRangeLoop_ne_nil [] op.offset op.endOffset)
    obtain ⟨range, rest, heq⟩ := hcons
    have hrun : insertRanges .init (op :: ops) = .extendedBlock (some (range :: rest)) := heq
    rw [hrun]
    constructor
    · intro hr
      exact absurd hr (not_roundTrips_extendedBlock range rest)
    · rintro ⟨_, _, hs, -⟩
      exact absurd hs (by simp)
  · rw [roundTrips_stream_iff ho ha]
    constructor
    · exact fun h0 => ⟨offset, asciiOffset, rfl, h0⟩
    · rintro ⟨o, a, hs, h0⟩
      rw [RestartMarker.stream.injEq] at hs
      rw [hs.1, hs.2]
      exact h0

/-- An ASCII transfer whose two offsets differ. -/
theorem roundTrips_ascii : (RestartMarker.stream 5 7).RoundTrips :=
  (roundTrips_iff (.stream 5 7) (.inr ⟨5, 7, by decide, by decide, rfl⟩)).mpr
    ⟨5, 7, rfl, by decide⟩

/-- The marker with the one range `0-10`. -/
theorem one_range_not_roundTrips :
    ClientRange.Valid ⟨0, 10⟩ ∧ ¬ (insertRanges .init [⟨0, 10⟩]).RoundTrips :=
  ⟨by decide, not_roundTrips_extendedBlock ⟨0, 10⟩ []⟩

end Gct
