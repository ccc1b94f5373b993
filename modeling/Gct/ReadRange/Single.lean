/-
# Reads on a single node

With one node a call takes the first entry of the range list, clips it to `partial_length` and shifts
it by `partial_offset`.  Clipping empties the entries from `partial_length` on, so the first empty range
is the end.  But both sums are computed in `globus_off_t`:

* an unbounded entry first gets the length `partial_length`, and if its end wraps around it keeps it;
* a shifted offset that wraps around is negative.

The reads are those of the request exactly if neither happens to an entry that is read
(`readsRequest_iff`).
-/
import Gct.ReadRange.Basic

namespace Gct

open List ReadOp

/-! ## 1. The run -/

/-- The ranges of successive calls up to the first of length 0, each with the `write_delta` that is set
with it; `none` is a run that has not ended after `fuel` calls. -/
def ReadOp.readRanges : Nat → ReadOp → Option (List ((Int × Int) × Int))
  | 0, _ => none
  | fuel + 1, op =>
    match op.getReadRange with
    | none => none
    | some (out, op') =>
      if out.2 = 0 then some [] else (op'.readRanges fuel).map ((out, op'.writeDelta) :: ·)

/-- The run ends, its ranges are increasing and disjoint, together they are the bytes that are asked
for, and in mode `E` the delta takes the shift back. -/
def ReadOp.ReadsRequest (op : ReadOp) : Prop :=
  ∃ reads, op.readRanges (op.rangeList.head.length + 1) = some reads
    ∧ (reads.Pairwise fun r r' => r.1.2 ≠ -1 ∧ r.1.1 + r.1.2 ≤ r'.1.1)
    ∧ (∀ x, (∃ r ∈ reads, x ∈ rangeBytes r.1.1 r.1.2) ↔ x ∈ op.requestBytes)
    ∧ (op.mode = 'E' → ∀ r ∈ reads, r.2 = -op.partialOffset)

/-- The shifted offset of an entry of which something is left is an offset, and so is the end that the
clipping computes for an unbounded entry, if the entries before it are not empty. -/
def ReadOp.SumsFit (op : ReadOp) (ents : List RangeEnt) : Prop :=
  ∀ e ∈ ents,
    (op.partialLength = -1 ∨ e.offset < op.partialLength → e.offset + op.partialOffset ≤ offMax)
    ∧ (e.length = rangeListMax → op.partialLength ≠ -1 →
        (∀ p ∈ ents, p.length ≠ rangeListMax → p.offset < op.partialLength) →
        e.offset + op.partialLength ≤ offMax)

/-- What is read of the entries. -/
def ReadOp.reads (op : ReadOp) : List RangeEnt → List (Int × Int)
  | [] => []
  | e :: ents =>
    if op.clipLength e.offset e.length = 0 then []
    else (offAdd e.offset op.partialOffset, op.clipLength e.offset e.length) :: op.reads ents

/-- The arguments of a transfer on one node. -/
structure ReadOp.Single (op : ReadOp) : Prop where
  nodes : op.nodeCount ≤ 1
  partialOffset : 0 ≤ op.partialOffset ∧ op.partialOffset ≤ offMax
  partialLength : op.partialLength = -1 ∨ 0 ≤ op.partialLength ∧ op.partialLength ≤ offMax

variable {op : ReadOp} {e : RangeEnt} {ents : List RangeEnt}

section

variable (h : op.Single)
include h

/-- One call. -/
theorem getReadRange_single (he : RangeValid e.offset e.length) (ents : List RangeEnt) (w : Int) :
    ({ op with rangeList := ⟨((e :: ents).length : Nat), e :: ents⟩, writeDelta := w }).getReadRange
      = some ((offAdd e.offset op.partialOffset, op.clipLength e.offset e.length), { op with
          rangeList := ⟨ents.length, ents⟩
          writeDelta := if op.mode = 'E' then -op.partialOffset else 0 }) := by
  obtain ⟨h0, hmax⟩ := h.partialOffset
  have hn := h.nodes
  have ho := offMax_eq
  obtain ⟨e0, e1, -⟩ := he
  have hdelta : offSub 0 op.partialOffset = -op.partialOffset := by
    rw [offSub_eq ⟨by omega, by omega⟩, Int.zero_sub]
  simp only [getReadRange, removeAt_zero, hdelta]
  rw [if_neg (by omega), if_pos (length_cons_ne_zero e ents)]
  split
  · rfl
  · have hzero : op.partialOffset = 0 := by omega
    rw [hzero, offAdd_eq ⟨by omega, by omega⟩, Int.add_zero, Int.neg_zero, ite_self]
    rfl

/-- The run over the entries that are left. -/
theorem readRanges_eq (hv : ∀ e ∈ ents, RangeValid e.offset e.length) (w : Int) :
    ({ op with rangeList := ⟨ents.length, ents⟩, writeDelta := w }).readRanges (ents.length + 1)
      = some ((op.reads ents).map fun r => (r, if op.mode = 'E' then -op.partialOffset else 0)) := by
  induction ents generalizing w with
  | nil =>
    have hn : ¬ op.nodeCount > 1 := not_lt.mpr h.nodes
    simp [readRanges, getReadRange, hn, reads]
  | cons e ents ih =>
    obtain ⟨he, hv⟩ := forall_mem_cons.mp hv
    rw [readRanges, getReadRange_single h he, reads]
    dsimp only
    split
    · rfl
    · rw [length_cons, ih hv]
      rfl

/-- An unbounded entry whose end wraps around. -/
theorem clipLength_overflow (he : RangeValid e.offset e.length) (hel : e.length = rangeListMax)
    (hpl : op.partialLength ≠ -1) (hover : offMax < e.offset + op.partialLength) :
    op.clipLength e.offset e.length = op.partialLength := by
  obtain ⟨e0, e1, -⟩ := he
  obtain ⟨h0, hmax⟩ := h.partialLength.resolve_left hpl
  have ho := offMax_eq
  have hl : (if e.length = -1 then op.partialLength else e.length) = op.partialLength := if_pos hel
  rw [clipLength, if_pos hpl]
  dsimp only
  rw [hl, offAdd_overflow e0 h0 e1 hmax hover, if_neg (by omega)]

/-- An entry that begins before `partial_length` is not emptied. -/
theorem clipLength_pos (he : RangeValid e.offset e.length) (hlt : op.partialLength = -1 ∨ e.offset < op.partialLength) :
    op.clipLength e.offset e.length = -1 ∨ 0 < op.clipLength e.offset e.length := by
  have hm := rangeListMax_eq
  have hpl := h.partialLength
  by_cases hover : e.length = rangeListMax ∧ op.partialLength ≠ -1 ∧ offMax < e.offset + op.partialLength
  · rw [clipLength_overflow h he hover.1 hover.2.1 hover.2.2]
    omega
  · have ho := offMax_eq
    have hlen : op.clipLength e.offset e.length = _ :=
      clipLength_eq he (by omega) (by omega) (by omega)
    have := he.2.2
    omega

/-! ## 2. The bytes -/

/-- **Under the condition the ranges are those of the entries, clipped and shifted.** -/
theorem reads_spec (hw : WfEnts ents) (hok : op.SumsFit ents) :
    ((op.reads ents).Pairwise fun r r' => r.2 ≠ -1 ∧ r.1 + r.2 ≤ r'.1)
    ∧ (∀ r ∈ op.reads ents, ∃ e ∈ ents, r.1 = e.offset + op.partialOffset)
    ∧ ∀ x, (∃ r ∈ op.reads ents, x ∈ rangeBytes r.1 r.2) ↔ x - op.partialOffset ∈ entsBytes ents
        ∧ (op.partialLength ≠ -1 → x - op.partialOffset < op.partialLength) := by
  induction ents with
  | nil => simp [reads]
  | cons e ents ih =>
    obtain ⟨he, hb, hwn⟩ := wfEnts_cons.mp hw
    obtain ⟨hshift, hclip⟩ := hok e mem_cons_self
    have hm := rangeListMax_eq
    have ho := offMax_eq
    have hpl := h.partialLength
    have hpo := h.partialOffset
    -- an unbounded entry is the only one left, so that no entry before it was emptied
    have hlen := clipLength_eq he (by omega) (by omega) fun hel hne => hclip hel hne fun p hp hpm => by
      rcases mem_cons.mp hp with rfl | hp
      · exact absurd hel hpm
      · exact absurd hel (hb p hp).1
    obtain ⟨e0, e1, e2⟩ := he
    rw [reads]
    by_cases hz : op.clipLength e.offset e.length = 0
    · rw [if_pos hz]
      refine ⟨.nil, by simp, fun x => iff_of_false (by simp) ?_⟩
      rintro ⟨hx, hlt⟩
      obtain ⟨y, hy, hxy⟩ := mem_entsBytes.mp hx
      have := (mem_rangeBytes.mp hxy).1
      rcases mem_cons.mp hy with rfl | hy
      · omega
      · obtain ⟨h1, h2⟩ := hb y hy
        omega
    · rw [if_neg hz, offAdd_eq ⟨by omega, by have := hshift (by omega); omega⟩]
      have htail : op.SumsFit ents := by
        intro x hx
        obtain ⟨h1, h2⟩ := hok x (mem_cons_of_mem e hx)
        refine ⟨h1, fun hxl hne hall => h2 hxl hne fun p hp hpm => ?_⟩
        rcases mem_cons.mp hp with rfl | hp
        · omega
        · exact hall p hp hpm
      obtain ⟨ih1, ih2, ih3⟩ := ih hwn htail
      refine ⟨pairwise_cons.mpr ⟨fun r hr => ?_, ih1⟩, forall_mem_cons.mpr ⟨⟨e, mem_cons_self, rfl⟩, ?_⟩, ?_⟩
      · obtain ⟨y, hy, hr⟩ := ih2 r hr
        obtain ⟨h1, h2⟩ := hb y hy
        rw [hr]
        exact ⟨by omega, by omega⟩
      · intro r hr
        obtain ⟨y, hy, hr⟩ := ih2 r hr
        exact ⟨y, mem_cons_of_mem e hy, hr⟩
      · intro x
        rw [exists_mem_cons_iff, ih3, entsBytes_cons, Set.mem_union, or_and_right]
        refine or_congr_left ?_
        simp only [mem_rangeBytes]
        omega

omit h in
/-- What is read of an entry when the entries up to it are not emptied. -/
theorem mem_reads (hw : WfEnts ents) (he : e ∈ ents)
    (hpos : ∀ p ∈ ents, p.offset ≤ e.offset → op.clipLength p.offset p.length ≠ 0) :
    (offAdd e.offset op.partialOffset, op.clipLength e.offset e.length) ∈ op.reads ents := by
  induction ents with
  | nil => cases he
  | cons p ents ih =>
    obtain ⟨hv, hb, hwn⟩ := wfEnts_cons.mp hw
    rw [reads]
    rcases mem_cons.mp he with rfl | he
    · rw [if_neg (hpos e mem_cons_self le_rfl)]
      exact mem_cons_self
    · obtain ⟨h1, h2⟩ := hb e he
      have := hv.2.2.resolve_left h1
      rw [if_neg (hpos p mem_cons_self (by omega))]
      exact mem_cons_of_mem _ (ih hwn he fun p hp => hpos p (mem_cons_of_mem _ hp))

/-- **Without it a range has a byte that is not asked for.** -/
theorem sumsFit_of_reads (hw : WfEnts ents)
    (hbytes : ∀ r ∈ op.reads ents, ∀ x ∈ rangeBytes r.1 r.2, x - op.partialOffset ∈ entsBytes ents
      ∧ (op.partialLength ≠ -1 → x - op.partialOffset < op.partialLength)) : op.SumsFit ents := by
  have hm := rangeListMax_eq
  obtain ⟨hpo, hpo'⟩ := h.partialOffset
  -- the first byte of a range is not negative, so its offset did not wrap around
  have hfirst : ∀ e ∈ ents, (offAdd e.offset op.partialOffset, op.clipLength e.offset e.length) ∈
      op.reads ents → op.clipLength e.offset e.length = -1 ∨ 0 < op.clipLength e.offset e.length →
      e.offset + op.partialOffset ≤ offMax := by
    intro e he hr hpos
    by_contra hover
    obtain ⟨e0, e1, -⟩ := hw.valid e he
    have hmem := (hbytes _ hr _ (mem_rangeBytes.mpr ⟨le_rfl, by omega⟩)).1
    obtain ⟨y, hy, hxy⟩ := mem_entsBytes.mp hmem
    have h1 := (mem_rangeBytes.mp hxy).1
    have h2 := (hw.valid y hy).1
    have ho := offMax_eq
    rw [offAdd_overflow e0 hpo e1 hpo' (by omega)] at h1
    omega
  intro e he
  have hve := hw.valid e he
  constructor
  · intro hlt
    refine hfirst e he (mem_reads hw he fun p hp hle => ?_) (clipLength_pos h hve hlt)
    have := clipLength_pos h (hw.valid p hp) (by omega)
    omega
  · intro hel hpl hall
    by_contra hover
    have hlen := clipLength_overflow h hve hel hpl (by omega)
    obtain ⟨e0, e1, -⟩ := hve
    obtain ⟨-, hpl'⟩ := h.partialLength.resolve_left hpl
    have hr : (_, op.clipLength e.offset e.length) ∈ op.reads ents := mem_reads hw he fun p hp hle => by
      by_cases hpm : p.length = rangeListMax
      · rcases hw.before_or hp he with rfl | hbefore | hbefore
        · omega
        · exact absurd hpm hbefore.1
        · exact absurd hel hbefore.1
      · have := clipLength_pos h (hw.valid p hp) (.inr (hall p hp hpm))
        omega
    have hfit := hfirst e he hr (by omega)
    have ho := offMax_eq
    rw [offAdd_eq ⟨by omega, by omega⟩, hlen] at hr
    have := (hbytes _ hr (e.offset + op.partialOffset + op.partialLength - 1)
      (mem_rangeBytes.mpr ⟨by omega, .inr (by omega)⟩)).2 hpl
    omega

end

/-- **Reads on a single node, exactly.** -/
theorem readsRequest_iff (op : ReadOp) (h : op.Single) (hw : op.rangeList.WellFormed) :
    op.ReadsRequest ↔ op.SumsFit op.rangeList.head := by
  have hrun := readRanges_eq h hw.ents.valid op.writeDelta
  rw [← hw.size_eq] at hrun
  constructor
  · rintro ⟨reads, hreads, -, hbytes, -⟩
    obtain rfl := Option.some.inj (hrun.symm.trans hreads)
    refine sumsFit_of_reads h hw.ents fun r hr x hx => (hbytes x).mp ?_
    exact ⟨_, mem_map_of_mem hr, hx⟩
  · intro hok
    obtain ⟨h1, -, h3⟩ := reads_spec h hw.ents hok
    refine ⟨_, hrun, pairwise_map.mpr h1, fun x => ?_, fun hmode r hr => ?_⟩
    · simp only [mem_map, exists_exists_and_eq_and]
      exact h3 x
    · obtain ⟨_, -, rfl⟩ := mem_map.mp hr
      exact if_pos hmode

/-- A request for the bytes from `offset` on of a part of `partialLength` bytes at `partialOffset`. -/
def oneNode (offset partialOffset partialLength : Int) : ReadOp :=
  { nodeCount := 1
    stripeLayout := .blocked
    stripeBlocksize := 10
    allocSize := 0
    mode := 'E'
    rangeList := ⟨1, [⟨offset, -1⟩]⟩
    partialOffset := partialOffset
    partialLength := partialLength
    stripeRangeList := .init
    stripeChunk := 0
    writeDelta := 0 }

theorem oneNode_readsRequest : (oneNode 25 100 50).ReadsRequest :=
  (readsRequest_iff (oneNode 25 100 50) ⟨by decide, by decide, by decide⟩
    ⟨wfEnts_cons.mpr ⟨by decide, by simp, wfEnts_nil⟩, rfl⟩).mpr (by
      intro e he
      obtain rfl := mem_singleton.mp he
      exact ⟨fun _ => by decide, fun _ _ _ => by decide⟩)

/-- A restart behind the end of a long part: the end wraps around, and `[2^62, 2^63)` is read where
nothing is asked for. -/
theorem oneNode_reads_beyond :
    ¬ (oneNode 4611686018427387904 0 4611686018427387904).ReadsRequest := by
  rintro ⟨reads, hreads, -, hbytes, -⟩
  have hrun : (oneNode 4611686018427387904 0 4611686018427387904).readRanges 2
      = some [((4611686018427387904, 4611686018427387904), 0)] := by decide
  obtain rfl := Option.some.inj (hrun.symm.trans hreads)
  have hmem := ((hbytes 4611686018427387904).mp ⟨_, mem_singleton_self _, by simp⟩).2 (by decide)
  exact absurd hmem (by decide)

end Gct
