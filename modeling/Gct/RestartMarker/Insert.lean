/-
# `globus_ftp_client_restart_marker_insert_range`: when the queue is the union

The callers pass half-open ranges `[offset, end_offset)`, and
`globus_ftp_client_restart_marker_get_total` counts them as such; but the insertion takes two
ranges for adjacent when `end_offset + 1` is the offset of the next.  Between two such ranges there
is one byte, which the queue then covers although nobody reported it.  The other exception is the
largest offset, where `end_offset + 1` wraps around and the new range is put in front of whatever
starts behind its offset.

`InsertRangeOk` excludes these cases, for the ranges in the queue before the call.  It is exact for
each step (`insertRange_exact_iff`) and sufficient along a run (`insertRanges_correct`).  Because
the insertion also joins ranges that are one byte apart, neighbours in the queue are at least two
bytes apart (`WfRanges`), which is what makes the condition so simple.
-/
import Gct.RestartMarker.Basic
import Mathlib.Data.Int.Interval
import Mathlib.Data.Set.Card

namespace Gct

open List ClientRange

/-! ## 1. The queue and the condition -/

/-- The queues that insertions build: valid ranges in increasing order, at least two bytes
apart. -/
structure WfRanges (ranges : List ClientRange) : Prop where
  valid : ∀ range ∈ ranges, range.Valid
  sep : ranges.Pairwise fun a b => a.endOffset + 1 < b.offset

/-- No range of the queue is one byte away from the new one, and none starts at or after a new
range that ends at the largest offset. -/
def InsertRangeOk (ranges : List ClientRange) (offset endOffset : Int) : Prop :=
  ∀ range ∈ ranges, range.endOffset + 1 ≠ offset ∧ endOffset + 1 ≠ range.offset
    ∧ (endOffset = offMax → range.offset < offset)

instance (ranges : List ClientRange) (offset endOffset : Int) :
    Decidable (InsertRangeOk ranges offset endOffset) :=
  inferInstanceAs (Decidable (∀ _ ∈ _, _ ∧ _ ∧ (_ → _)))

theorem wfRanges_nil : WfRanges [] := ⟨by simp, List.Pairwise.nil⟩

variable {range : ClientRange} {ranges : List ClientRange} {offset endOffset : Int} {marker : RestartMarker}
  {r : ClientRange}

theorem wfRanges_cons : WfRanges (range :: ranges)
      ↔ range.Valid ∧ (∀ r ∈ ranges, range.endOffset + 1 < r.offset) ∧ WfRanges ranges := by
  constructor
  · rintro ⟨hv, hs⟩
    obtain ⟨h1, h2⟩ := pairwise_cons.mp hs
    exact ⟨hv range (by simp), h1, fun r hr => hv r (by simp [hr]), h2⟩
  · rintro ⟨hv, hb, ht⟩
    exact ⟨forall_mem_cons.mpr ⟨hv, ht.valid⟩, pairwise_cons.mpr ⟨hb, ht.sep⟩⟩

/-! ## 2. One round of the loop -/

/-- A range that has grown over another is a valid range. -/
theorem valid_grown (hv : ClientRange.Valid ⟨offset, endOffset⟩) (hr : range.Valid) :
    ClientRange.Valid ⟨min offset range.offset, max endOffset range.endOffset⟩ := by
  obtain ⟨v0, v1, v2⟩ := hv
  obtain ⟨r0, r1, r2⟩ := hr
  refine ⟨le_min v0 r0, ?_, max_le v2 r2⟩
  exact lt_of_le_of_lt (min_le_left _ _) (lt_of_lt_of_le v1 (le_max_left _ _))

/-- What the loop makes of a queue of valid ranges. -/
inductive Inserts : Int → Int → List ClientRange → List ClientRange → Prop
  | last {offset endOffset : Int} : Inserts offset endOffset [] [⟨offset, endOffset⟩]
  | front {offset endOffset : Int} {range : ClientRange} {tmp : List ClientRange} :
      endOffset + 1 < range.offset →
      Inserts offset endOffset (range :: tmp) (⟨offset, endOffset⟩ :: range :: tmp)
  | wrapped {offset endOffset : Int} {range : ClientRange} {tmp : List ClientRange} :
      offset ≤ range.offset → endOffset = offMax →
      Inserts offset endOffset (range :: tmp) (⟨offset, endOffset⟩ :: range :: tmp)
  | grown {offset endOffset : Int} {range : ClientRange} {tmp res : List ClientRange} :
      range.offset ≤ endOffset + 1 → offset ≤ range.endOffset + 1 →
      (endOffset = offMax → range.offset < offset) →
      Inserts (min offset range.offset) (max endOffset range.endOffset) tmp res →
      Inserts offset endOffset (range :: tmp) res
  | behind {offset endOffset : Int} {range : ClientRange} {tmp res : List ClientRange} :
      range.endOffset + 1 < offset → Inserts offset endOffset tmp res →
      Inserts offset endOffset (range :: tmp) (range :: res)

theorem inserts_insertRangeLoop (hv : ClientRange.Valid ⟨offset, endOffset⟩)
    (hr : ∀ r ∈ ranges, r.Valid) : Inserts offset endOffset ranges (insertRangeLoop offset endOffset ranges) := by
  induction ranges generalizing offset endOffset with
  | nil => exact .last
  | cons range tmp ih =>
    obtain ⟨hr, htmp⟩ := forall_mem_cons.mp hr
    have hgrown := ih (valid_grown hv hr) htmp
    have hbehind := ih hv htmp
    obtain ⟨v0, v1, v2⟩ := hv
    obtain ⟨r0, r1, r2⟩ := hr
    dsimp only at v0 v1 v2
    have ho := offMax_eq
    have hlarger : (if endOffset < range.endOffset then range.endOffset else endOffset)
        = max endOffset range.endOffset := by
      split <;> omega
    simp only [insertRangeLoop, hlarger]
    by_cases hle : offset ≤ range.offset
    · rw [if_pos hle]
      rw [min_eq_left hle] at hgrown
      by_cases hmax : endOffset = offMax
      · have hwrap : offAdd endOffset 1 < range.offset := by
          rw [hmax]
          exact lt_of_lt_of_le (by decide) r0
        rw [if_pos hwrap]
        exact .wrapped hle hmax
      · rw [offAdd_eq ⟨by omega, by omega⟩]
        split
        · exact .front (by omega)
        · have hlong : endOffset + 1 = range.offset → range.endOffset = max endOffset range.endOffset := by
            omega
          rw [← min_eq_left hle] at hgrown
          have hres := Inserts.grown (by omega) (by omega) (fun h => absurd h hmax) hgrown
          rw [min_eq_left hle] at hres
          split
          next heq =>
            rw [hlong heq]
            exact hres
          · exact hres
    · rw [if_neg hle, offSub_eq ⟨by omega, by omega⟩]
      split
      · exact .behind (by omega) hbehind
      · rw [if_pos (by omega), ← min_eq_right (not_le.mp hle).le]
        exact .grown (by omega) (by omega) (fun _ => by omega) hgrown

/-! ## 3. Nothing is lost -/

namespace Inserts

variable {res : List ClientRange}

variable (h : Inserts offset endOffset ranges res)

include h

/-- Nothing in the result starts before both the new range and the old ones. -/
theorem lt_offset {z : Int} (hz : z < offset) (hlt : ∀ r ∈ ranges, z < r.offset) : ∀ x ∈ res, z < x.offset := by
  induction h with
  | last => exact forall_mem_singleton.mpr hz
  | front | wrapped => exact forall_mem_cons.mpr ⟨hz, hlt⟩
  | grown _ _ _ _ ih =>
    obtain ⟨h1, h2⟩ := forall_mem_cons.mp hlt
    exact ih (lt_min hz h1) h2
  | behind _ _ ih =>
    obtain ⟨h1, h2⟩ := forall_mem_cons.mp hlt
    exact forall_mem_cons.mpr ⟨h1, ih hz h2⟩

/-- What was in the queue and the new range are in the new queue, come what may. -/
theorem subset : rangesBytes ranges ∪ Set.Ico offset endOffset ⊆ rangesBytes res := by
  induction h with
  | last => simp [bytes]
  | front | wrapped =>
    rw [Set.union_comm]
    exact (rangesBytes_cons ⟨_, _⟩ _).ge
  | grown _ _ _ _ ih =>
    refine subset_trans ?_ ih
    rw [rangesBytes_cons, Set.union_comm (bytes _), Set.union_assoc]
    refine Set.union_subset_union_right _ (Set.union_subset ?_ ?_)
    · exact Set.Ico_subset_Ico (min_le_right _ _) (le_max_right _ _)
    · exact Set.Ico_subset_Ico (min_le_left _ _) (le_max_left _ _)
  | behind _ _ ih =>
    rw [rangesBytes_cons, rangesBytes_cons, Set.union_assoc]
    exact Set.union_subset_union_right _ ih

/-! ## 4. The condition is sufficient -/

section

variable (hv : ClientRange.Valid ⟨offset, endOffset⟩)

include hv

variable (hw : WfRanges ranges)

include hw

/-- Only a range that ends at the largest offset can be put in front of ranges it overlaps. -/
theorem wfRanges (hmax : endOffset = offMax → ∀ r ∈ ranges, r.offset < offset) : WfRanges res := by
  induction h with
  | last => exact wfRanges_cons.mpr ⟨hv, by simp, wfRanges_nil⟩
  | front hlt =>
    obtain ⟨hr, hb, -⟩ := wfRanges_cons.mp hw
    refine wfRanges_cons.mpr ⟨hv, forall_mem_cons.mpr ⟨hlt, fun r hr' => ?_⟩, hw⟩
    have := hb r hr'
    have := hr.2.1
    dsimp only
    omega
  | wrapped hle he => exact absurd (hmax he _ mem_cons_self) (not_lt.mpr hle)
  | grown _ h2 _ _ ih =>
    obtain ⟨hr, hb, ht⟩ := wfRanges_cons.mp hw
    -- nothing is left behind a range that has grown to the largest offset
    refine ih (valid_grown hv hr) ht fun he r hr' => ?_
    have := hb r hr'
    have := (ht.valid r hr').2
    have := fun h => hmax h r (mem_cons_of_mem _ hr')
    omega
  | behind hlt h ih =>
    obtain ⟨hr, hb, ht⟩ := wfRanges_cons.mp hw
    have hwf := ih hv ht fun he r hr' => hmax he r (mem_cons_of_mem _ hr')
    exact wfRanges_cons.mpr ⟨hr, h.lt_offset hlt hb, hwf⟩

/-- Without a gap of one byte nothing is added but the new range. -/
theorem subset_union (hok : ∀ r ∈ ranges, r.endOffset + 1 ≠ offset ∧ endOffset + 1 ≠ r.offset) :
    rangesBytes res ⊆ rangesBytes ranges ∪ Set.Ico offset endOffset := by
  induction h with
  | last => simp [bytes]
  | front | wrapped =>
    rw [Set.union_comm]
    exact (rangesBytes_cons ⟨_, _⟩ _).le
  | grown h1 h2 _ _ ih =>
    obtain ⟨hr, hb, ht⟩ := wfRanges_cons.mp hw
    obtain ⟨⟨hne1, hne2⟩, hok⟩ := forall_mem_cons.mp hok
    refine (ih (valid_grown hv hr) ht fun r hr' => ?_).trans ?_
    · have := hb r hr'
      have := hok r hr'
      have := (ht.valid r hr').2.1
      omega
    · rw [rangesBytes_cons, Set.union_comm (bytes _), Set.union_assoc]
      refine Set.union_subset_union_right _ ?_
      rintro x ⟨hx1, hx2⟩
      -- the two ranges overlap or touch, so what is between them is in one of them
      simp only [Set.mem_union, mem_bytes, Set.mem_Ico]
      omega
  | behind _ _ ih =>
    rw [rangesBytes_cons, rangesBytes_cons, Set.union_assoc]
    exact Set.union_subset_union_right _ (ih hv (wfRanges_cons.mp hw).2.2 (forall_mem_cons.mp hok).2)

/-! ## 5. The condition is necessary -/

/-- If there is one byte between the new range and one of the queue, the new queue covers it. -/
theorem gap_covered {x : Int} (hr : r ∈ ranges)
    (hgap : r.endOffset = x ∧ x + 1 = offset ∨ endOffset = x ∧ x + 1 = r.offset) : x ∈ rangesBytes res := by
  have hlt : offset < endOffset := hv.2.1
  have hrlt := (hw.valid r hr).2
  induction h with
  | last => cases hr
  | front | wrapped =>
    obtain ⟨hrv, hb, -⟩ := wfRanges_cons.mp hw
    have := hrv.2
    rcases mem_cons.mp hr with rfl | hr'
    · omega
    · have := hb r hr'
      omega
  | grown _ _ _ h ih =>
    obtain ⟨hrv, hb, ht⟩ := wfRanges_cons.mp hw
    rcases mem_cons.mp hr with rfl | hr'
    · exact h.subset (.inr ⟨by omega, by omega⟩)
    · have := hb r hr'
      exact ih (valid_grown hv hrv) ht hr' (by omega) (by omega)
  | behind _ _ ih =>
    rw [rangesBytes_cons]
    obtain ⟨hrv, -, ht⟩ := wfRanges_cons.mp hw
    rcases mem_cons.mp hr with rfl | hr'
    · omega
    · exact .inr (ih hv ht hr' hgap hlt)

end

/-- If the new range ends at the largest offset and a range starts behind it, the result is not in
order. -/
theorem not_increasing (he : endOffset = offMax)
    (hv : ClientRange.Valid ⟨offset, endOffset⟩) (hw : WfRanges ranges) (hr : r ∈ ranges)
    (hle : offset ≤ r.offset) : ¬ res.Pairwise fun a b => a.endOffset ≤ b.offset := by
  induction h with
  | last => cases hr
  | front hlt =>
    have := (hw.valid _ mem_cons_self).2
    omega
  | wrapped =>
    intro hp
    have := (pairwise_cons.mp hp).1 _ mem_cons_self
    have := (hw.valid _ mem_cons_self).2
    dsimp only at *
    omega
  | grown _ _ h3 _ ih =>
    obtain ⟨hrv, -, ht⟩ := wfRanges_cons.mp hw
    have := hrv.2.2
    rcases mem_cons.mp hr with rfl | hr'
    · exact absurd (h3 he) (not_lt.mpr hle)
    · exact ih (by omega) (valid_grown hv hrv) ht hr' ((min_le_left _ _).trans hle)
  | behind _ _ ih =>
    intro hp
    obtain ⟨hrv, -, ht⟩ := wfRanges_cons.mp hw
    have := hrv.2.1
    rcases mem_cons.mp hr with rfl | hr'
    · omega
    · exact ih he hv ht hr' hle (pairwise_cons.mp hp).2

end Inserts

/-- **Under the condition the loop keeps the queue well-formed and adds just the new range.** -/
theorem insertRangeLoop_spec (hv : ClientRange.Valid ⟨offset, endOffset⟩) (hw : WfRanges ranges)
    (hok : InsertRangeOk ranges offset endOffset) : WfRanges (insertRangeLoop offset endOffset ranges)
      ∧ rangesBytes (insertRangeLoop offset endOffset ranges) ⊆ rangesBytes ranges ∪ Set.Ico offset endOffset :=
  have h := inserts_insertRangeLoop hv hw.valid
  ⟨h.wfRanges hv hw fun he r hr => (hok r hr).2.2 he, h.subset_union hv hw fun r hr => ⟨(hok r hr).1, (hok r hr).2.1⟩⟩

/-- The bytes between ranges that are one byte apart were neither in the queue nor new. -/
theorem insertRangeOk_of_subset (hv : ClientRange.Valid ⟨offset, endOffset⟩) (hw : WfRanges ranges)
    (hinc : (insertRangeLoop offset endOffset ranges).Pairwise fun a b => a.endOffset ≤ b.offset)
    (hsub : rangesBytes (insertRangeLoop offset endOffset ranges)
      ⊆ rangesBytes ranges ∪ Set.Ico offset endOffset) : InsertRangeOk ranges offset endOffset := by
  have hfar : ∀ a ∈ ranges, ∀ b ∈ ranges, a = b ∨ a.endOffset + 1 < b.offset ∨ b.endOffset + 1 < a.offset := by
    have : Std.Symm fun a b : ClientRange => a = b ∨ a.endOffset + 1 < b.offset
        ∨ b.endOffset + 1 < a.offset := ⟨fun a b h => h.imp Eq.symm Or.symm⟩
    exact List.Pairwise.forall_of_forall (fun _ _ => .inl rfl) (hw.sep.imp fun h => .inr (.inl h))
  have h := inserts_insertRangeLoop hv hw.valid
  intro r hr
  have hno : ∀ x, ¬ (r.endOffset = x ∧ x + 1 = offset ∨ endOffset = x ∧ x + 1 = r.offset) := by
    intro x hgap
    have := (hw.valid r hr).2.1
    rcases hsub (h.gap_covered hv hw hr hgap) with hx | hx
    · obtain ⟨s, hs, hx1, hx2⟩ := mem_rangesBytes.mp hx
      rcases hfar r hr s hs with rfl | h | h <;> omega
    · obtain ⟨hx1, hx2⟩ := hx
      omega
  refine ⟨fun hgap => hno _ (.inl ⟨rfl, hgap⟩), fun hgap => hno _ (.inr ⟨rfl, hgap⟩), fun hmax => not_le.mp fun hle => ?_⟩
  exact h.not_increasing hmax hv hw hr hle hinc

/-! ## 6. The number of bytes -/

/-- The size of a queue whose ranges are in order is the sum of their lengths. -/
theorem ncard_rangesBytes (hv : ∀ r ∈ ranges, r.Valid) (hinc : ranges.Pairwise fun a b => a.endOffset ≤ b.offset) :
    ((rangesBytes ranges).ncard : Int) = (ranges.map fun r => r.endOffset - r.offset).sum
      ∧ (rangesBytes ranges).Finite := by
  induction ranges with
  | nil => simp
  | cons range ranges ih =>
    obtain ⟨hv1, hv2⟩ := forall_mem_cons.mp hv
    obtain ⟨hb, hinc'⟩ := pairwise_cons.mp hinc
    obtain ⟨ih1, ih2⟩ := ih hv2 hinc'
    have hdisj : Disjoint range.bytes (rangesBytes ranges) := by
      refine Set.disjoint_left.mpr fun x hx hx' => ?_
      obtain ⟨r, hr, hxr, -⟩ := mem_rangesBytes.mp hx'
      have := hb r hr
      have := hx.2
      omega
    have hcard : (range.bytes.ncard : Int) = range.endOffset - range.offset := by
      have hco : range.bytes = ↑(Finset.Ico range.offset range.endOffset) := by
        rw [Finset.coe_Ico, bytes]
      rw [hco, Set.ncard_coe_finset, Int.card_Ico]
      have := hv1.2.1
      omega
    have hfin : range.bytes.Finite := Set.finite_Ico _ _
    refine ⟨?_, by rw [rangesBytes_cons]; exact hfin.union ih2⟩
    rw [rangesBytes_cons, Set.ncard_union_eq hdisj hfin ih2, map_cons, sum_cons, ← ih1]
    omega

/-- The sum is computed without overflow: it never exceeds the end of the last range added. -/
theorem total_eq_sum : ∀ {ranges : List ClientRange} {total : Int}, 0 ≤ total →
    (∀ r ∈ ranges, r.Valid ∧ total ≤ r.offset) → ranges.Pairwise (fun a b => a.endOffset ≤ b.offset) →
      ranges.foldl (fun total range => offAdd total (offSub range.endOffset range.offset)) total
        = total + (ranges.map fun r => r.endOffset - r.offset).sum
  | [], total, _, _, _ => by simp
  | range :: ranges, total, h0, hall, hinc => by
    obtain ⟨⟨⟨v0, v1, v2⟩, hle⟩, hall'⟩ := forall_mem_cons.mp hall
    obtain ⟨hb, hinc'⟩ := pairwise_cons.mp hinc
    have hadd : offAdd total (offSub range.endOffset range.offset) = total + (range.endOffset - range.offset) := by
      rw [offSub_eq (by unfold OffFits; unfold offMax at *; omega),
        offAdd_eq (by unfold OffFits; unfold offMax at *; omega)]
    rw [foldl_cons, hadd, map_cons, sum_cons]
    rw [total_eq_sum (by omega) (fun r hr => ⟨(hall' r hr).1, ?_⟩) hinc']
    · omega
    · have := hb r hr
      omega

/-! ## 7. Markers -/

/-- The marker reports the bytes `bytes`, in order, and counts them. -/
structure MarkerExact (marker : RestartMarker) (bytes : Set Int) : Prop where
  increasing : marker.ranges.Pairwise fun a b => a.endOffset ≤ b.offset
  bytes_eq : rangesBytes marker.ranges = bytes
  total_eq : marker.getTotal = some (bytes.ncard : Int)

/-- A marker that has not been given a stream offset, with its queue as insertions build it. -/
structure RestartMarker.Queued (marker : RestartMarker) : Prop where
  kind : marker = .restartNone ∨ marker = .extendedBlock (some marker.ranges)
  wf : WfRanges marker.ranges

theorem RestartMarker.queued_init : RestartMarker.init.Queued := ⟨.inl rfl, wfRanges_nil⟩

theorem RestartMarker.Queued.insertRange_eq (h : marker.Queued) (offset endOffset : Int) :
    marker.insertRange offset endOffset = .extendedBlock (some (insertRangeLoop offset endOffset marker.ranges)) := by
  rcases h.kind with hk | hk
  · rw [hk]
    rfl
  · rw [hk]
    rfl

/-- A well-formed queue is in order, and its total is its size. -/
theorem RestartMarker.Queued.exact (h : marker.Queued) : MarkerExact marker (rangesBytes marker.ranges) := by
  have hinc : marker.ranges.Pairwise fun a b => a.endOffset ≤ b.offset :=
    h.wf.sep.imp fun hab => by omega
  refine ⟨hinc, rfl, ?_⟩
  rw [(ncard_rangesBytes h.wf.valid hinc).1]
  rcases h.kind with hk | hk
  · rw [hk]
    rfl
  · have hsum := total_eq_sum le_rfl (fun r hr => ⟨h.wf.valid r hr, (h.wf.valid r hr).1⟩) hinc
    rw [Int.zero_add] at hsum
    rw [← hsum, hk]
    rfl

/-- **One insertion is right exactly under the condition.** -/
theorem insertRange_exact_iff (h : marker.Queued) (hv : ClientRange.Valid ⟨offset, endOffset⟩) :
    MarkerExact (marker.insertRange offset endOffset) (rangesBytes marker.ranges ∪ Set.Ico offset endOffset)
      ↔ InsertRangeOk marker.ranges offset endOffset := by
  rw [h.insertRange_eq]
  constructor
  · intro hex
    exact insertRangeOk_of_subset hv h.wf hex.increasing hex.bytes_eq.subset
  · intro hok
    obtain ⟨hwf, hsub⟩ := insertRangeLoop_spec hv h.wf hok
    have hbytes := hsub.antisymm (inserts_insertRangeLoop hv h.wf.valid).subset
    rw [← hbytes]
    exact RestartMarker.Queued.exact ⟨.inr rfl, hwf⟩

theorem RestartMarker.Queued.insertRange (h : marker.Queued) (hv : ClientRange.Valid ⟨offset, endOffset⟩)
    (hok : InsertRangeOk marker.ranges offset endOffset) : (marker.insertRange offset endOffset).Queued := by
  rw [h.insertRange_eq]
  exact ⟨.inr rfl, (insertRangeLoop_spec hv h.wf hok).1⟩

/-! ## 8. Runs -/

/-- Successive insertions. -/
def insertRanges (marker : RestartMarker) (ops : List ClientRange) : RestartMarker :=
  ops.foldl (fun marker op => marker.insertRange op.offset op.endOffset) marker

/-- Every step of the run meets the condition on the marker it finds. -/
def InsertRangesOk : RestartMarker → List ClientRange → Prop
  | _, [] => True
  | marker, op :: ops =>
    op.Valid ∧ InsertRangeOk marker.ranges op.offset op.endOffset
      ∧ InsertRangesOk (marker.insertRange op.offset op.endOffset) ops

instance decInsertRangesOk : ∀ (marker : RestartMarker) (ops : List ClientRange),
    Decidable (InsertRangesOk marker ops)
  | _, [] => inferInstanceAs (Decidable True)
  | marker, op :: ops =>
    have := decInsertRangesOk (marker.insertRange op.offset op.endOffset) ops
    inferInstanceAs (Decidable (_ ∧ _ ∧ _))

theorem insertRanges_spec : ∀ (ops : List ClientRange) {marker : RestartMarker}, marker.Queued →
    InsertRangesOk marker ops → (insertRanges marker ops).Queued ∧ rangesBytes (insertRanges marker ops).ranges
          = rangesBytes marker.ranges ∪ rangesBytes ops
  | [], marker, h, _ => ⟨h, by simp [insertRanges]⟩
  | op :: ops, marker, h, ⟨hv, hok, hrest⟩ => by
    obtain ⟨hq, hb⟩ := insertRanges_spec ops (h.insertRange hv hok) hrest
    refine ⟨hq, ?_⟩
    rw [((insertRange_exact_iff h hv).mpr hok).bytes_eq] at hb
    rw [rangesBytes_cons, ← Set.union_assoc]
    exact hb

/-- **Along a run whose steps meet the condition the marker reports what was inserted, and counts
it; and the next insertion keeps that exactly if it meets the condition too.** -/
theorem insertRanges_correct (ops : List ClientRange) (hok : InsertRangesOk .init ops) :
    MarkerExact (insertRanges .init ops) (rangesBytes ops)
      ∧ ∀ op : ClientRange, op.Valid →
          (MarkerExact (insertRanges .init (ops ++ [op])) (rangesBytes (ops ++ [op]))
            ↔ InsertRangeOk (insertRanges .init ops).ranges op.offset op.endOffset) := by
  obtain ⟨hq, hb⟩ := insertRanges_spec ops RestartMarker.queued_init hok
  have hb' : rangesBytes (insertRanges .init ops).ranges = rangesBytes ops := by
    rw [hb]
    simp [RestartMarker.init, RestartMarker.ranges]
  refine ⟨hb' ▸ hq.exact, fun op hv => ?_⟩
  have happ : rangesBytes (ops ++ [op]) = rangesBytes ops ∪ Set.Ico op.offset op.endOffset := by
    ext x
    simp only [mem_rangesBytes, mem_append, mem_singleton, or_and_right, exists_or, exists_eq_left, Set.mem_union]
    rfl
  have hrun : insertRanges .init (ops ++ [op])
      = (insertRanges .init ops).insertRange op.offset op.endOffset := by
    simp [insertRanges]
  rw [happ, hrun, ← hb']
  exact insertRange_exact_iff hq hv

/-- Blocks that arrive out of order. -/
theorem insertRanges_correct_out_of_order : InsertRangesOk .init [⟨0, 10⟩, ⟨20, 30⟩, ⟨10, 20⟩]
      ∧ MarkerExact (insertRanges .init [⟨0, 10⟩, ⟨20, 30⟩, ⟨10, 20⟩])
          (rangesBytes [⟨0, 10⟩, ⟨20, 30⟩, ⟨10, 20⟩]) :=
  ⟨by decide, (insertRanges_correct [⟨0, 10⟩, ⟨20, 30⟩, ⟨10, 20⟩] (by decide)).1⟩

/-- Two blocks with one byte between them: the marker covers it. -/
theorem insertRanges_covers_gap : (∀ op ∈ [(⟨0, 5⟩ : ClientRange), ⟨6, 10⟩], op.Valid)
      ∧ ¬ MarkerExact (insertRanges .init [⟨0, 5⟩, ⟨6, 10⟩]) (rangesBytes [⟨0, 5⟩, ⟨6, 10⟩]) := by
  refine ⟨by decide, fun h => ?_⟩
  have hrun : (insertRanges .init [⟨0, 5⟩, ⟨6, 10⟩]).ranges = [⟨0, 10⟩] := by decide
  have h5 : (5 : Int) ∈ rangesBytes [⟨0, 5⟩, ⟨6, 10⟩] := by
    rw [← h.bytes_eq, hrun]
    simp
  simp at h5

end Gct
