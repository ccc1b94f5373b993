/-
# The list of a block

On several nodes `globus_gridftp_server_get_read_range` makes the list of a block by removing from
the request what is before the block and what is behind it.  `globus_range_list_remove` gets the
second removal right, and the first one except for an entry that begins before the block and ends
inside it: its offset is moved to the start of the block and its length is kept, so that it reaches
beyond its end (see `Gct.RangeList.Remove`).  `BlockShape` lists the two outcomes.
-/
import Gct.ReadRange.Basic

namespace Gct

open List RangeList Set

/-! ## 1. Removing what is before the block -/

/-- What is left of the request for the block `[start, stop)`. -/
def blockList (ents : List RangeEnt) (start stop : Int) : RangeList :=
  (((⟨ents.length, ents⟩ : RangeList).remove 0 start).2.remove stop rangeListMax).2

/-- The list of a block holds the requested bytes of the block, or its first entry runs on beyond
the end `b` of the request that it was made of. -/
inductive BlockShape (ents : List RangeEnt) (start stop : Int) : List RangeEnt → Prop
  | exact {chain : List RangeEnt} : WfEnts chain →
      entsBytes chain = entsBytes ents ∩ Set.Ico start stop →
      (start - 1 ∈ entsBytes ents → start ∈ entsBytes ents → Set.Ico start stop ⊆ entsBytes ents) →
      BlockShape ents start stop chain
  | extended {e : RangeEnt} {chain : List RangeEnt} {b : Int} : e.offset = start →
      start < b → b < stop → b < e.offset + e.length → e.offset + e.length ≤ stop →
      (∀ x ∈ chain, start ≤ x.offset ∧ 0 < x.length ∧ x.offset + x.length ≤ stop) →
      b ∉ entsBytes ents → (∀ x, start - 1 ≤ x → x < b → x ∈ entsBytes ents) →
      BlockShape ents start stop (e :: chain)

/-- A bounded entry that the front of the block cuts. -/
def Crosses (start : Int) (e : RangeEnt) : Prop :=
  e.length ≠ rangeListMax ∧ e.offset < start ∧ start < e.offset + e.length

/-- The removal of what is before the block moves the offset of the entry that crosses its start,
and only this. -/
theorem removeEnts_crossing {start : Int} (h0 : 0 < start) (hmax : start ≤ offMax) :
    ∀ {ents : List RangeEnt}, WfEnts ents → ∀ e ∈ ents, Crosses start e →
      ∃ rest, removeEnts 0 start ents = (⟨start, e.length⟩ :: rest, (rest.length : Int) + 1 - ents.length)
        ∧ WfEnts rest ∧ (∀ x ∈ rest, e.Before x) ∧ ∀ x ∈ rest, x ∈ ents
  | ent :: next, hw, e, he, hcross => by
    obtain ⟨hv, hb, hwn⟩ := wfEnts_cons.mp hw
    obtain ⟨hel, hlt, hgt⟩ := hcross
    have hv0 := hv.1
    have hv2 := hv.2.2
    have hm := rangeListMax_eq
    have hstep := removeEnts_step ⟨le_refl 0, by decide, .inr ⟨h0, by omega⟩⟩ next hv
    generalize hr : removeEnts 0 start (ent :: next) = res at hstep
    rcases mem_cons.mp he with rfl | he'
    · cases hstep with
      | gone | tailCut | split | passed | behind | stopped => omega
      | frontCut =>
        refine ⟨next, ?_, hwn, hb, fun x hx => by simp [hx]⟩
        simp only [length_cons, Int.zero_add, Prod.mk.injEq, true_and]
        omega
    · -- the entries before the crossing one are inside the removed range
      obtain ⟨hnl, hbl⟩ := hb e he'
      obtain ⟨rest, heq, hwr, hbr, hmem⟩ := removeEnts_crossing h0 hmax hwn e he' ⟨hel, hlt, hgt⟩
      cases hstep with
      | gone =>
        refine ⟨rest, ?_, hwr, hbr, fun x hx => by simp [hmem x hx]⟩
        rw [heq]
        simp only [length_cons, Prod.mk.injEq, true_and]
        omega
      | tailCut | frontCut | split | passed | behind | stopped => omega

/-- Without a crossing entry the removal is right. -/
theorem remove_front {ents : List RangeEnt} (hw : WfEnts ents) {start : Int} (h0 : 0 ≤ start)
    (hmax : start ≤ offMax) (hno : ∀ e ∈ ents, ¬ Crosses start e) :
    ((⟨ents.length, ents⟩ : RangeList).remove 0 start).2.WellFormed
      ∧ ((⟨ents.length, ents⟩ : RangeList).remove 0 start).2.bytes = entsBytes ents \ Set.Ico 0 start := by
  have hm := rangeListMax_eq
  have hwl : (⟨ents.length, ents⟩ : RangeList).WellFormed := ⟨hw, rfl⟩
  rcases h0.lt_or_eq with hpos | rfl
  · have hargs : RemoveArgs 0 start := ⟨le_rfl, by decide, .inr ⟨hpos, hmax⟩⟩
    have hok : RemoveOk ents 0 start := by
      refine .inr (.inr ⟨by omega, fun x hx hl => ?_⟩)
      have := (hw.valid x hx).1
      rw [Int.zero_add]
      exact ⟨fun h => hno x hx ⟨hl, h.2⟩, by omega, by omega⟩
    obtain ⟨h1, h2⟩ := remove_spec hwl hargs hok
    refine ⟨h1, ?_⟩
    rw [h2]
    ext x
    simp only [bytes, mem_sdiff, mem_rangeBytes, mem_Ico]
    refine and_congr_right fun _ => not_congr ?_
    omega
  · simp [remove, hwl, bytes]

/-- In a well-formed chain the bytes on both sides of `start` are in one entry. -/
theorem exists_of_both_sides {ents : List RangeEnt} (hw : WfEnts ents) {start : Int}
    (h1 : start - 1 ∈ entsBytes ents) (h2 : start ∈ entsBytes ents) :
    ∃ e ∈ ents, e.offset < start ∧ (e.length = rangeListMax ∨ start < e.offset + e.length) := by
  obtain ⟨a, ha, hx⟩ := mem_entsBytes.mp h1
  obtain ⟨b, hb, hy⟩ := mem_entsBytes.mp h2
  obtain ⟨hx1, hx2⟩ := mem_rangeBytes.mp hx
  obtain ⟨hy1, hy2⟩ := mem_rangeBytes.mp hy
  rcases hw.before_or ha hb with rfl | hab | hba
  · exact ⟨a, ha, by omega, hy2⟩
  · have := hx2.resolve_left hab.1
    have := hab.2
    omega
  · have := hy2.resolve_left hba.1
    have := hba.2
    omega

variable {chain : List RangeEnt}

/-- An entry of a well-formed chain that lies in `[lo, hi)`. -/
theorem within_of_subset (hw : WfEnts chain) {lo hi : Int} (hsub : entsBytes chain ⊆ Set.Ico lo hi) :
    ∀ x ∈ chain, lo ≤ x.offset ∧ 0 < x.length ∧ x.offset + x.length ≤ hi := by
  intro x hx
  obtain ⟨h0, -, h2⟩ := hw.valid x hx
  have hmem : ∀ z, x.offset ≤ z → (x.length = rangeListMax ∨ z < x.offset + x.length) → lo ≤ z ∧ z < hi :=
    fun z h3 h4 => hsub (mem_entsBytes.mpr ⟨x, hx, mem_rangeBytes.mpr ⟨h3, h4⟩⟩)
  have hlo := (hmem x.offset le_rfl (by omega)).1
  by_cases hl : x.length = rangeListMax
  · have := (hmem (max x.offset hi) (le_max_left _ _) (.inl hl)).2
    omega
  · have := (hmem (x.offset + x.length - 1) (by omega) (by omega)).2
    omega

/-! ## 2. The list -/

section Block

variable {ents : List RangeEnt} {start stop : Int}

/-- Without a crossing entry the list of the block is what it should be. -/
theorem blockList_exact (hw : WfEnts ents) (h0 : 0 ≤ start) (hlt : start < stop)
    (hmax : stop ≤ offMax) (hno : ∀ e ∈ ents, ¬ Crosses start e) :
    ∃ chain, blockList ents start stop = ⟨chain.length, chain⟩ ∧ BlockShape ents start stop chain := by
  obtain ⟨hw1, hb1⟩ := remove_front hw h0 (by omega) hno
  have hargs : RemoveArgs stop rangeListMax := ⟨by omega, hmax, .inl rfl⟩
  obtain ⟨hw2, hb2⟩ := remove_spec hw1 hargs (.inl rfl)
  have hlist : blockList ents start stop
      = ⟨(blockList ents start stop).head.length, (blockList ents start stop).head⟩ := by
    have := hw2.size_eq
    rw [blockList, ← this]
  refine ⟨_, hlist, .exact hw2.ents ?_ ?_⟩
  · have hb : entsBytes (blockList ents start stop).head
        = (entsBytes ents \ Set.Ico 0 start) \ rangeBytes stop rangeListMax := by
      rw [← hb1]
      exact hb2
    rw [hb]
    ext x
    simp only [mem_sdiff, mem_inter_iff, mem_Ico, mem_rangeBytes, true_or, and_true, not_and, not_lt, not_le]
    constructor
    · rintro ⟨⟨hx, h1⟩, h2⟩
      obtain ⟨e, he, hxe⟩ := mem_entsBytes.mp hx
      have := (mem_rangeBytes.mp hxe).1
      have := (hw.valid e he).1
      exact ⟨hx, h1 (by omega), h2⟩
    · rintro ⟨hx, h1, h2⟩
      exact ⟨⟨hx, fun _ => h1⟩, h2⟩
  · intro hs1 hs2 x hx
    obtain ⟨e, he, hel, her⟩ := exists_of_both_sides hw hs1 hs2
    have hinf : e.length = rangeListMax := by
      by_contra hne
      exact hno e he ⟨hne, hel, her.resolve_left hne⟩
    have := hx.1
    exact mem_entsBytes.mpr ⟨e, he, mem_rangeBytes.mpr ⟨by omega, .inl hinf⟩⟩

/-- With a crossing entry the list of the block begins with that entry, moved to the start. -/
theorem blockList_crossing (hw : WfEnts ents) (h0 : 0 < start) (hlt : start < stop)
    (hmax : stop ≤ offMax) {e : RangeEnt} (he : e ∈ ents) (hcross : Crosses start e)
    (hfit : start + e.length ≤ offMax) : ∃ chain, blockList ents start stop = ⟨chain.length, chain⟩
      ∧ BlockShape ents start stop chain := by
  have hm := rangeListMax_eq
  obtain ⟨rest, hfront, hwr, hbr, hmem⟩ := removeEnts_crossing h0 (by omega) hw e he hcross
  obtain ⟨hel, hel1, hel2⟩ := hcross
  have hargs : RemoveArgs 0 start := ⟨le_rfl, by decide, .inr ⟨h0, by omega⟩⟩
  have hargs' : RemoveArgs stop rangeListMax := ⟨by omega, hmax, .inl rfl⟩
  have hfront' : ((⟨ents.length, ents⟩ : RangeList).remove 0 start).2 = ⟨rest.length + 1, ⟨start, e.length⟩ :: rest⟩ := by
    rw [remove_eq hargs, hfront]
    simp only [mk.injEq, and_true]
    omega
  have hr : RangeValid stop rangeListMax := ⟨by omega, hmax, .inl rfl⟩
  obtain ⟨hwt, hbt⟩ := (removeEnts_correct_iff hr hwr).mpr fun h => absurd rfl h
  have hlen := removeEnts_length hr hwr fun h => absurd rfl h
  have hcover : ∀ x, start - 1 ≤ x → x < e.offset + e.length → x ∈ entsBytes ents := by
    intro x h1 h2
    exact mem_entsBytes.mpr ⟨e, he, mem_rangeBytes.mpr ⟨by omega, .inr h2⟩⟩
  have hvalid : RangeValid start e.length := ⟨h0.le, by omega, .inr ⟨by omega, hfit⟩⟩
  -- the moved entry is cut at the end of the block
  have hcut : removeEnts stop rangeListMax (⟨start, e.length⟩ :: rest)
      = (⟨start, min e.length (stop - start)⟩ :: (removeEnts stop rangeListMax rest).1,
          (removeEnts stop rangeListMax rest).2) := by
    have hstep := @removeEnts_step stop rangeListMax ⟨start, e.length⟩ hr rest hvalid
    generalize removeEnts stop rangeListMax (⟨start, e.length⟩ :: rest) = res at hstep
    cases hstep with
    | gone h => exact absurd h (not_le.mpr hlt)
    | tailCut h1 h2 h3 =>
      dsimp only at h3
      rw [min_eq_right (by omega)]
    | passed h1 h2 h3 =>
      dsimp only at h3
      rw [min_eq_left (by omega)]
    | frontCut h | split h | behind h | stopped h => exact absurd rfl h
  have htail : ∀ x ∈ (removeEnts stop rangeListMax rest).1,
      start ≤ x.offset ∧ 0 < x.length ∧ x.offset + x.length ≤ stop := by
    refine within_of_subset hwt ?_
    rw [hbt]
    rintro x ⟨hx, hnx⟩
    obtain ⟨y, hy, hxy⟩ := mem_entsBytes.mp hx
    have := (mem_rangeBytes.mp hxy).1
    have := (hbr y hy).2
    simp only [mem_rangeBytes, true_or, and_true, not_le] at hnx
    exact ⟨by omega, hnx⟩
  refine ⟨⟨start, min e.length (stop - start)⟩ :: (removeEnts stop rangeListMax rest).1, ?_, ?_⟩
  · rw [blockList, hfront', remove_eq hargs', hcut]
    simp only [length_cons, mk.injEq, and_true]
    omega
  by_cases hend : stop ≤ e.offset + e.length
  · -- the entry goes through the whole block
    have hnil : (removeEnts stop rangeListMax rest).1 = [] := by
      refine eq_nil_iff_forall_not_mem.mpr fun x hx => ?_
      obtain ⟨-, h1, h2⟩ := htail x hx
      have hxb : x.offset ∈ entsBytes (removeEnts stop rangeListMax rest).1 :=
        mem_entsBytes.mpr ⟨x, hx, mem_rangeBytes.mpr ⟨le_rfl, .inr (by omega)⟩⟩
      rw [hbt] at hxb
      obtain ⟨y, hy, hxy⟩ := mem_entsBytes.mp hxb.1
      have := (mem_rangeBytes.mp hxy).1
      have := (hbr y hy).2
      omega
    rw [hnil, min_eq_right (by omega)]
    refine .exact ?_ ?_ ?_
    · have hv : RangeValid start (stop - start) := ⟨h0.le, by omega, .inr ⟨by omega, by omega⟩⟩
      exact wfEnts_cons.mpr ⟨hv, by simp, wfEnts_nil⟩
    · ext x
      simp only [entsBytes_cons, entsBytes_nil, union_empty, mem_rangeBytes, mem_inter_iff, mem_Ico]
      constructor
      · rintro ⟨h1, h2⟩
        exact ⟨hcover x (by omega) (by omega), h1, by omega⟩
      · rintro ⟨-, h1, h2⟩
        exact ⟨h1, .inr (by omega)⟩
    · rintro - - x ⟨h1, h2⟩
      exact hcover x (by omega) (by omega)
  · -- it ends inside the block: what it was moved by is added at its end
    refine .extended rfl hel2 (by omega) ?_ ?_ htail (hw.end_notMem he hel) hcover
    · dsimp only
      omega
    · dsimp only
      omega

/-- **The list of a block, in all cases.** -/
theorem blockList_shape (hw : WfEnts ents) (h0 : 0 ≤ start) (hlt : start < stop) (hmax : stop ≤ offMax)
    (hfit : ∀ e ∈ ents, Crosses start e → start + e.length ≤ offMax) :
    ∃ chain, blockList ents start stop = ⟨chain.length, chain⟩ ∧ BlockShape ents start stop chain := by
  by_cases hno : ∀ e ∈ ents, ¬ Crosses start e
  · exact blockList_exact hw h0 hlt hmax hno
  · simp only [not_forall, not_not] at hno
    obtain ⟨e, he, hcross⟩ := hno
    refine blockList_crossing hw ?_ hlt hmax he hcross (hfit e he hcross)
    have := (hw.valid e he).1
    have := hcross.2.1
    omega

/-- All entries of the list are in the block. -/
theorem BlockShape.within (h : BlockShape ents start stop chain) :
    ∀ x ∈ chain, start ≤ x.offset ∧ 0 < x.length ∧ x.offset + x.length ≤ stop := by
  cases h with
  | exact hw hb _ =>
    refine within_of_subset hw ?_
    rw [hb]
    exact inter_subset_right
  | extended h1 h2 h3 h4 h5 h6 =>
    exact forall_mem_cons.mpr ⟨⟨h1.ge, by omega, h5⟩, h6⟩

/-- The list is empty exactly if nothing of the block is requested. -/
theorem BlockShape.eq_nil_iff (h : BlockShape ents start stop chain) :
    chain = [] ↔ ∀ x ∈ entsBytes ents, ¬ (start ≤ x ∧ x < stop) := by
  constructor
  · rintro rfl x hx ⟨h1, h2⟩
    cases h with
    | exact hw hb _ =>
      have : x ∈ entsBytes [] := by
        rw [hb]
        exact ⟨hx, h1, h2⟩
      simp at this
  · intro hno
    refine eq_nil_iff_forall_not_mem.mpr fun y hy => ?_
    cases h with
    | exact hw hb _ =>
      have hyb : y.offset ∈ entsBytes chain := by
        have := (hw.valid y hy).2.2
        exact mem_entsBytes.mpr ⟨y, hy, mem_rangeBytes.mpr ⟨le_rfl, by omega⟩⟩
      rw [hb] at hyb
      exact hno _ hyb.1 hyb.2
    | extended h1 h2 h3 h4 h5 h6 h7 h8 =>
      exact hno start (h8 start (by omega) h2) ⟨le_rfl, by omega⟩

end Block

end Gct
