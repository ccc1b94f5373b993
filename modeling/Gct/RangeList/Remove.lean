/-
# `globus_range_list_remove`: when removal is set difference

The loop of the removal sorts each entry into one of five cases by how it lies against the range
to remove, the "foul" bytes.  Three of the cases are not what their comments say:

* an entry that STARTS foul and extends fair gets the range's end as its new offset and keeps its
  old length, so a bounded entry comes out longer than what is left of it;
* an entry that starts fair and ends exactly where the range ends falls through to "all fair",
  because the case for it asks for a strictly smaller end;
* an entry that CROSSES the range is split, and the link of the second half is set to `NULL`, so
  every entry behind it is dropped (and stays counted).

`RemoveOk` says that none of this happens: the range is unbounded, or its end is an offset and no
bounded entry is in one of the three positions, the third one being harmless for the last entry.
`remove_correct_iff` shows the condition to be exact on every well-formed list.
-/
import Gct.RangeList.Insert

namespace Gct

open List Set

/-! ## 1. The condition -/

/-- A bounded entry that the removal of `[offset, stop)` treats as it should. -/
def RemoveEntOk (offset stop : Int) (ents : List RangeEnt) (x : RangeEnt) : Prop :=
  x.length ≠ rangeListMax → ¬ (offset ≤ x.offset ∧ x.offset < stop ∧ stop < x.offset + x.length)
      ∧ ¬ (x.offset < offset ∧ x.offset + x.length = stop)
      ∧ (x.offset < offset → stop < x.offset + x.length → ∀ y ∈ ents, ¬ x.Before y)

/-- The removed range is unbounded, or there is nothing to remove from, or its end is an offset
and it neither cuts off the front of a bounded entry, nor ends where an entry that starts before it
ends, nor lies strictly inside an entry that has a successor. -/
def RemoveOk (ents : List RangeEnt) (offset length : Int) : Prop :=
  length = rangeListMax ∨ ents = []
    ∨ (offset + length ≤ offMax ∧ ∀ x ∈ ents, RemoveEntOk offset (offset + length) ents x)

instance (offset stop : Int) (ents : List RangeEnt) (x : RangeEnt) :
    Decidable (RemoveEntOk offset stop ents x) :=
  inferInstanceAs (Decidable (_ → ¬ _ ∧ ¬ _ ∧ (_ → _ → ∀ _ ∈ _, _)))

instance (ents : List RangeEnt) (offset length : Int) : Decidable (RemoveOk ents offset length) :=
  inferInstanceAs (Decidable (_ ∨ _ ∨ (_ ∧ ∀ _ ∈ _, _)))

/-- The arguments `globus_range_list_remove` is called with: an offset, and a positive length or
the sentinel.  Nothing bounds their sum. -/
def RemoveArgs (offset length : Int) : Prop :=
  0 ≤ offset ∧ offset ≤ offMax ∧ (length = rangeListMax ∨ (0 < length ∧ length ≤ offMax))

instance (offset length : Int) : Decidable (RemoveArgs offset length) :=
  inferInstanceAs (Decidable (_ ∧ _ ∧ _))

/-- The condition for a bounded range, entry by entry. -/
theorem removeEntsOk_cons {e : RangeEnt} {ents : List RangeEnt} {offset stop : Int} (hw : WfEnts (e :: ents)) :
    (∀ x ∈ e :: ents, RemoveEntOk offset stop (e :: ents) x)
      ↔ RemoveEntOk offset stop ents e ∧ ∀ x ∈ ents, RemoveEntOk offset stop ents x := by
  obtain ⟨hv, hb, ht⟩ := wfEnts_cons.mp hw
  constructor
  · intro h
    refine forall_mem_cons.mp fun x hx hne => ?_
    obtain ⟨h1, h2, h3⟩ := h x hx hne
    exact ⟨h1, h2, fun h4 h5 y hy => h3 h4 h5 y (by simp [hy])⟩
  · intro h x hx hne
    obtain ⟨h1, h2, h3⟩ := forall_mem_cons.mpr h x hx hne
    refine ⟨h1, h2, fun h4 h5 => forall_mem_cons.mpr ⟨?_, h3 h4 h5⟩⟩
    rcases mem_cons.mp hx with rfl | hx'
    · exact fun hxx => not_before_of_before hv hv hxx hxx
    · exact not_before_of_before hv (ht.valid x hx') (hb x hx')

/-- Entries that all start at or behind the end of the range are in none of the bad positions. -/
theorem removeEntsOk_of_le {ents : List RangeEnt} {offset stop : Int} (hlt : offset < stop)
    (h : ∀ x ∈ ents, stop ≤ x.offset) : ∀ x ∈ ents, RemoveEntOk offset stop ents x := by
  intro x hx _
  have := h x hx
  exact ⟨by omega, by omega, by omega⟩

/-! ## 2. The loop -/

/-- What the loop does at an entry when the range is valid.  The last index is the result for the chain
from the entry on, `r` the result for the chain behind. -/
inductive RemoveStep (offset length : Int) (ent : RangeEnt) (next : List RangeEnt)
    (r : List RangeEnt × Int) : List RangeEnt × Int → Prop
  | gone : offset ≤ ent.offset →
      (length = rangeListMax ∨ ent.length ≠ rangeListMax ∧ ent.offset + ent.length ≤ offset + length) →
      RemoveStep offset length ent next r (r.1, r.2 - 1)
  | tailCut : ent.offset < offset →
      (length = rangeListMax ∨ ent.length ≠ rangeListMax ∧ ent.offset + ent.length < offset + length) →
      (ent.length = rangeListMax ∨ offset < ent.offset + ent.length) →
      RemoveStep offset length ent next r (⟨ent.offset, offset - ent.offset⟩ :: r.1, r.2)
  | frontCut : length ≠ rangeListMax → offset ≤ ent.offset → ent.offset < offset + length →
      (ent.length = rangeListMax ∨ offset + length < ent.offset + ent.length) →
      RemoveStep offset length ent next r (⟨offset + length, ent.length⟩ :: next, 0)
  | split : length ≠ rangeListMax → ent.offset < offset →
      (ent.length = rangeListMax ∨ offset + length < ent.offset + ent.length) →
      RemoveStep offset length ent next r
        ([⟨ent.offset, offset - ent.offset⟩,
          ⟨offset + length, if ent.length = rangeListMax then rangeListMax
            else ent.offset + ent.length - (offset + length)⟩], 1)
  | passed : ent.offset < offset → ent.length ≠ rangeListMax → (ent.offset + ent.length ≤ offset
        ∨ length ≠ rangeListMax ∧ ent.offset + ent.length = offset + length) →
      RemoveStep offset length ent next r (ent :: r.1, r.2)
  | behind : length ≠ rangeListMax → offset + length = ent.offset →
      RemoveStep offset length ent next r (ent :: r.1, r.2)
  | stopped : length ≠ rangeListMax → offset + length < ent.offset →
      RemoveStep offset length ent next r (ent :: next, 0)

variable {offset length : Int} {ent : RangeEnt} {next : List RangeEnt}

section Valid

variable (hr : RangeValid offset length)
include hr

theorem removeEnts_step (next : List RangeEnt) (he : RangeValid ent.offset ent.length) :
    RemoveStep offset length ent next (removeEnts offset length next) (removeEnts offset length (ent :: next)) := by
  have hend := rangeEnd_of_valid hr
  have hentEnd := rangeEnd_of_valid he
  obtain ⟨o0, o1, o2⟩ := hr
  obtain ⟨e0, e1, e2⟩ := he
  have hm := rangeListMax_eq
  have hmax := offMax_eq
  have hcut : offSub offset ent.offset = offset - ent.offset := offSub_eq ⟨by omega, by omega⟩
  simp only [removeEnts, hcut]
  generalize rangeEnd offset length = endOffset at *
  generalize rangeEnd ent.offset ent.length = entEnd at *
  split
  · exact .gone (by omega) (by omega)
  · split
    · exact .tailCut (by omega) (by omega) (by omega)
    · split
      · obtain rfl : endOffset = offset + length := by omega
        exact .frontCut (by omega) (by omega) (by omega) (by omega)
      · split
        · obtain rfl : endOffset = offset + length := by omega
          have hrest : (if entEnd = rangeListMax then rangeListMax else offSub entEnd (offset + length))
              = if ent.length = rangeListMax then rangeListMax
                else ent.offset + ent.length - (offset + length) := by
            by_cases hel : ent.length = rangeListMax
            · rw [if_pos hel, if_pos (by omega)]
            · rw [if_neg hel, if_neg (by omega), offSub_eq ⟨by omega, by omega⟩]
              omega
          rw [hrest]
          exact .split (by omega) (by omega) (by omega)
        · split
          · exact .stopped (by omega) (by omega)
          · by_cases hlt : ent.offset < offset
            · exact .passed hlt (by omega) (by omega)
            · exact .behind (by omega) (by omega)

/-- Nothing in the result starts before both the end of the range and the old entries. -/
theorem removeEnts_lt_offset {c : Int} : ∀ {ents : List RangeEnt},
    (∀ y ∈ ents, RangeValid y.offset y.length) → (∀ y ∈ ents, c < y.offset) →
      ∀ x ∈ (removeEnts offset length ents).1, c < x.offset
  | [], _, _ => by
    intro x hx
    simp [removeEnts] at hx
  | ent :: next, hve, hlt => by
    obtain ⟨hent, hnext⟩ := forall_mem_cons.mp hlt
    have ih := removeEnts_lt_offset (fun y hy => hve y (by simp [hy])) hnext
    have hcons : ∀ {m : RangeEnt} {l : List RangeEnt}, c < m.offset → (∀ y ∈ l, c < y.offset) →
        ∀ x ∈ m :: l, c < x.offset := fun hm hl => forall_mem_cons.mpr ⟨hm, hl⟩
    generalize hres : removeEnts offset length (ent :: next) = res
    have hstep := removeEnts_step hr next (hve ent (by simp))
    rw [hres] at hstep
    cases hstep with
    | gone => exact ih
    | tailCut | passed | behind => exact hcons hent ih
    | frontCut h1 h2 h3 => exact hcons (by dsimp only; omega) hnext
    | split h1 h2 h3 =>
      have := hr.2.2.resolve_left h1
      exact hcons hent (hcons (by dsimp only; omega) (by simp))
    | stopped => exact hcons hent hnext

/-- The entries behind stay behind. -/
theorem before_removeEnts (hw : WfEnts (ent :: next)) : ∀ x ∈ (removeEnts offset length next).1, ent.Before x := by
  obtain ⟨-, hb, hwn⟩ := wfEnts_cons.mp hw
  intro x hx
  cases next with
  | nil => simp [removeEnts] at hx
  | cons y next =>
    exact ⟨(hb y mem_cons_self).1, removeEnts_lt_offset hr hwn.valid (fun y hy => (hb y hy).2) x hx⟩

/-! ## 3. What is left -/

omit hr in
/-- An entry whose remainder is kept in front decides nothing: the rest does. -/
theorem remove_correct_cons {m ent : RangeEnt} {next r : List RangeEnt} {s : Set Int}
    (hm : RangeValid m.offset m.length) (hb : ∀ y ∈ next, ent.Before y) (hr : ∀ x ∈ r, m.Before x)
    (hbytes : rangeBytes m.offset m.length = rangeBytes ent.offset ent.length \ s) :
    (WfEnts (m :: r) ∧ entsBytes (m :: r) = entsBytes (ent :: next) \ s)
      ↔ (WfEnts r ∧ entsBytes r = entsBytes next \ s) := by
  rw [entsBytes_cons, entsBytes_cons, union_sdiff_distrib, ← hbytes]
  constructor
  · rintro ⟨hw, h⟩
    refine ⟨(wfEnts_cons.mp hw).2.2, IvlList.eq_of_union_eq_of_disjoint (disjoint_of_before hr) ?_ h⟩
    rw [hbytes]
    exact (disjoint_of_before hb).mono sdiff_subset sdiff_subset
  · rintro ⟨hw, h⟩
    exact ⟨wfEnts_cons.mpr ⟨hm, hr, hw⟩, by rw [h]⟩

/-- The removal of a valid range, exactly. -/
theorem removeEnts_correct_iff : ∀ {ents : List RangeEnt}, WfEnts ents →
      ((WfEnts (removeEnts offset length ents).1 ∧ entsBytes (removeEnts offset length ents).1
            = entsBytes ents \ rangeBytes offset length)
        ↔ (length ≠ rangeListMax → ∀ x ∈ ents, RemoveEntOk offset (offset + length) ents x))
  | [], _ => by simp [removeEnts, wfEnts_nil]
  | ent :: next, hw => by
    obtain ⟨he, hb, hwn⟩ := wfEnts_cons.mp hw
    have ih := removeEnts_correct_iff hwn
    have hbr := before_removeEnts hr hw
    have hm := rangeListMax_eq
    obtain ⟨e0, e1, e2⟩ := he
    obtain ⟨o0, o1, o2⟩ := hr
    rw [imp_congr_right fun _ => removeEntsOk_cons hw, imp_and, ← ih]
    generalize hres : removeEnts offset length (ent :: next) = res
    have hstep := removeEnts_step ⟨o0, o1, o2⟩ next ⟨e0, e1, e2⟩
    rw [hres] at hstep
    cases hstep with
    | gone h1 h2 =>
      refine Iff.trans ?_ (and_iff_right fun _ _ => ⟨by omega, by omega, by omega⟩).symm
      have hsub : rangeBytes ent.offset ent.length ⊆ rangeBytes offset length := by
        intro x hx
        rw [mem_rangeBytes] at hx ⊢
        omega
      rw [entsBytes_cons, union_sdiff_distrib, sdiff_eq_empty.mpr hsub, empty_union]
    | tailCut h1 h2 h3 =>
      refine Iff.trans ?_ (and_iff_right fun _ _ => ⟨by omega, by omega, by omega⟩).symm
      refine remove_correct_cons ⟨e0, e1, .inr ⟨?_, ?_⟩⟩ hb ?_ ?_
      · dsimp only
        omega
      · dsimp only
        omega
      · intro x hx
        obtain ⟨h4, h5⟩ := hbr x hx
        exact ⟨by dsimp only; omega, by dsimp only; omega⟩
      · ext x
        simp only [mem_rangeBytes, mem_sdiff]
        omega
    | frontCut hl h1 h2 h3 =>
      by_cases hel : ent.length = rangeListMax
      · -- the rest of an unbounded entry is unbounded, and nothing follows it
        have hnil : next = [] := eq_nil_iff_forall_not_mem.mpr fun y hy => (hb y hy).1 hel
        subst hnil
        refine Iff.trans ?_ (and_iff_right fun _ h => absurd hel h).symm
        refine iff_of_true ⟨wfEnts_cons.mpr ⟨⟨?_, by dsimp only; omega, .inl hel⟩, by simp, wfEnts_nil⟩, ?_⟩ ?_
        · dsimp only
          omega
        · ext x
          simp only [entsBytes_cons, entsBytes_nil, union_empty, mem_rangeBytes,
            mem_sdiff, hel, eq_self, true_or, and_true]
          omega
        · simp [removeEnts, wfEnts_nil]
      · -- a bounded entry keeps its length, and so covers its own old end
        have hgt := h3.resolve_left hel
        refine iff_of_false ?_ ?_
        · rintro ⟨-, hbytes⟩
          have hmem : ent.offset + ent.length ∈ entsBytes (⟨offset + length, ent.length⟩ :: next) := by
            rw [entsBytes_cons]
            exact .inl (mem_rangeBytes.mpr ⟨by dsimp only; omega, .inr (by dsimp only; omega)⟩)
          rw [hbytes, entsBytes_cons] at hmem
          rcases hmem.1 with h | h
          · have := (mem_rangeBytes.mp h).2.resolve_left hel
            omega
          · exact not_mem_entsBytes (fun y hy => (hb y hy).2) h
        · rintro ⟨hok, -⟩
          exact (hok hl hel).1 ⟨h1, h2, hgt⟩
    | split hl h1 h2 =>
      cases next with
      | nil =>
        refine Iff.trans ?_ (and_iff_right fun _ _ => ⟨by omega, by omega, fun _ _ y hy => absurd hy (by simp)⟩).symm
        refine iff_of_true ⟨wfEnts_cons.mpr ⟨⟨e0, e1, .inr ⟨?_, ?_⟩⟩, ?_,
          wfEnts_cons.mpr ⟨⟨?_, by dsimp only; omega, ?_⟩, by simp, wfEnts_nil⟩⟩, ?_⟩ ?_
        · dsimp only
          omega
        · dsimp only
          omega
        · intro x hx
          rw [mem_singleton.mp hx]
          exact ⟨by dsimp only; omega, by dsimp only; omega⟩
        · dsimp only
          omega
        · dsimp only
          split <;> omega
        · ext x
          simp only [entsBytes_cons, entsBytes_nil, union_empty, mem_rangeBytes, mem_sdiff, mem_union]
          split <;> omega
        · simp [removeEnts, wfEnts_nil]
      | cons y rest =>
        -- the first byte behind the entry is dropped with the rest of the chain
        obtain ⟨hel, hlt⟩ := hb y (by simp)
        have hgt := h2.resolve_left hel
        have hy := (hwn.valid y (by simp)).2.2
        refine iff_of_false ?_ ?_
        · rintro ⟨-, hbytes⟩
          have hmem : y.offset ∈ entsBytes (ent :: y :: rest) \ rangeBytes offset length := by
            refine ⟨?_, ?_⟩
            · rw [entsBytes_cons, entsBytes_cons]
              exact .inr (.inl (mem_rangeBytes.mpr ⟨by omega, by omega⟩))
            · rw [mem_rangeBytes]
              omega
          rw [← hbytes] at hmem
          simp only [entsBytes_cons, entsBytes_nil, union_empty, mem_union, mem_rangeBytes, if_neg hel] at hmem
          omega
        · rintro ⟨hok, -⟩
          exact (hok hl hel).2.2 h1 hgt y (by simp) ⟨hel, hlt⟩
    | passed h1 h2 h3 =>
      by_cases hle : ent.offset + ent.length ≤ offset
      · refine Iff.trans ?_ (and_iff_right fun _ _ => ⟨by omega, by omega, by omega⟩).symm
        refine remove_correct_cons ⟨e0, e1, e2⟩ hb hbr ?_
        ext x
        simp only [mem_rangeBytes, mem_sdiff]
        omega
      · -- the entry ends where the range ends and is left as it was
        obtain ⟨hl, heq⟩ := h3.resolve_left hle
        refine iff_of_false ?_ ?_
        · rintro ⟨-, hbytes⟩
          have hmem : offset ∈ entsBytes (ent :: (removeEnts offset length next).1) := by
            rw [entsBytes_cons]
            exact .inl (mem_rangeBytes.mpr ⟨h1.le, .inr (by omega)⟩)
          rw [hbytes] at hmem
          exact hmem.2 (mem_rangeBytes.mpr ⟨le_rfl, .inr (by omega)⟩)
        · rintro ⟨hok, -⟩
          exact (hok hl h2).2.1 ⟨h1, heq⟩
    | behind hl h1 =>
      refine Iff.trans ?_ (and_iff_right fun _ _ => ⟨by omega, by omega, by omega⟩).symm
      refine remove_correct_cons ⟨e0, e1, e2⟩ hb hbr ?_
      ext x
      simp only [mem_rangeBytes, mem_sdiff]
      omega
    | stopped hl h1 =>
      have hbehind : ∀ y ∈ next, offset + length ≤ y.offset := by
        intro y hy
        obtain ⟨h2, h3⟩ := hb y hy
        omega
      refine Iff.trans ?_ (and_iff_right fun _ _ => ⟨by omega, by omega, by omega⟩).symm
      have hstay : entsBytes (ent :: next) \ rangeBytes offset length = entsBytes (ent :: next) := by
        refine sdiff_eq_left.mpr (disjoint_left.mpr ?_)
        intro x hx hx'
        rw [mem_rangeBytes] at hx'
        rw [entsBytes_cons] at hx
        rcases hx with hx | hx
        · have := (mem_rangeBytes.mp hx).1
          omega
        · exact not_mem_entsBytes (fun y hy => by have := hbehind y hy; omega) hx
      rw [ih]
      exact iff_of_true ⟨hw, hstay.symm⟩ fun _ => removeEntsOk_of_le (by omega) hbehind

/-- Under the condition the change of `size` is the change of the number of entries. -/
theorem removeEnts_length : ∀ {ents : List RangeEnt}, WfEnts ents →
      (length ≠ rangeListMax → ∀ x ∈ ents, RemoveEntOk offset (offset + length) ents x) →
      ((removeEnts offset length ents).1.length : Int) = ents.length + (removeEnts offset length ents).2
  | [], _, _ => by simp [removeEnts]
  | ent :: next, hw, hok => by
    obtain ⟨he, hb, hwn⟩ := wfEnts_cons.mp hw
    obtain ⟨hoke, hokn⟩ := imp_and.mp fun hl => (removeEntsOk_cons hw).mp (hok hl)
    have ih := removeEnts_length hwn hokn
    generalize hres : removeEnts offset length (ent :: next) = res
    have hstep := removeEnts_step hr next he
    rw [hres] at hstep
    cases hstep with
    | gone | tailCut | passed | behind => simp only [length_cons]; omega
    | frontCut | stopped => simp
    | split hl h1 h2 =>
      match next, hb, hoke with
      | [], _, _ => simp
      | y :: rest, hb, hoke =>
        obtain ⟨hel, hlt⟩ := hb y (by simp)
        exact absurd ⟨hel, hlt⟩ ((hoke hl hel).2.2 h1 (h2.resolve_left hel) y (by simp))

end Valid

/-! ## 4. Ends that are no offsets -/

/-- An end offset that wraps around is negative: an entry that starts before the range is split
at a negative offset, and an entry that does not is left alone. -/
theorem removeEnts_overflow (ho : 0 ≤ offset) (ho' : offset ≤ offMax) (hn : 0 < length) (hn' : length ≤ offMax)
    (hover : offMax < offset + length) (hw : WfEnts (ent :: next)) :
    ¬ (WfEnts (removeEnts offset length (ent :: next)).1 ∧ entsBytes (removeEnts offset length (ent :: next)).1
        = entsBytes (ent :: next) \ rangeBytes offset length) := by
  have hm := rangeListMax_eq
  have hmax := offMax_eq
  have hl : length ≠ rangeListMax := by omega
  obtain ⟨⟨e0, e1, e2⟩, -, -⟩ := wfEnts_cons.mp hw
  have hend : rangeEnd offset length = offset + length - 18446744073709551616 := by
    rw [rangeEnd, if_neg hl]
    exact offAdd_overflow ho hn.le ho' hn' hover
  have heend := rangeEnd_of_valid ⟨e0, e1, e2⟩
  rintro ⟨hwr, hbytes⟩
  simp only [removeEnts] at hwr hbytes
  rw [if_neg (by omega), if_neg (by omega), if_neg (by omega)] at hwr hbytes
  by_cases hlt : ent.offset < offset
  · rw [if_pos (by omega)] at hwr
    have h1 := (wfEnts_cons.mp (wfEnts_cons.mp hwr).2.2).1.1
    dsimp only at h1
    omega
  · rw [if_neg (by omega), if_pos (by omega)] at hbytes
    have hmem : ent.offset ∈ entsBytes (ent :: next) := by
      rw [entsBytes_cons]
      exact .inl (mem_rangeBytes.mpr ⟨le_rfl, by omega⟩)
    rw [hbytes] at hmem
    exact hmem.2 (mem_rangeBytes.mpr ⟨by omega, .inr (by omega)⟩)

/-! ## 5. One removal -/

theorem remove_eq {l : RangeList} (ha : RemoveArgs offset length) : (l.remove offset length).2
      = ⟨l.size + (removeEnts offset length l.head).2, (removeEnts offset length l.head).1⟩ := by
  have hm := rangeListMax_eq
  obtain ⟨ho, -, hn⟩ := ha
  unfold RangeList.remove
  rw [if_neg (by omega), if_neg (by omega)]

/-- The condition is sufficient. -/
theorem remove_spec {l : RangeList} (hw : l.WellFormed)
    (ha : RemoveArgs offset length) (hok : RemoveOk l.head offset length) : (l.remove offset length).2.WellFormed
      ∧ (l.remove offset length).2.bytes = l.bytes \ rangeBytes offset length := by
  rw [remove_eq ha]
  -- well-formedness of the list is that of the chain once `size` is in step
  have hlist : ((removeEnts offset length l.head).1.length : Int) = l.head.length + (removeEnts offset length l.head).2 →
      WfEnts (removeEnts offset length l.head).1 →
      (⟨l.size + (removeEnts offset length l.head).2, (removeEnts offset length l.head).1⟩ : RangeList).WellFormed := by
    intro hlen h
    refine ⟨h, ?_⟩
    rw [hlen, hw.size_eq]
  have hcases : l.head = [] ∨ RangeValid offset length ∧
      (length ≠ rangeListMax → ∀ x ∈ l.head, RemoveEntOk offset (offset + length) l.head x) := by
    obtain ⟨ho, ho', hn⟩ := ha
    rcases hok with hmax | hnil | ⟨hfit, hok⟩
    · exact .inr ⟨⟨ho, ho', .inl hmax⟩, fun h => absurd hmax h⟩
    · exact .inl hnil
    · exact .inr ⟨⟨ho, ho', hn.imp_right fun h => ⟨h.1, hfit⟩⟩, fun _ => hok⟩
  rcases hcases with hnil | ⟨hr, hok⟩
  · refine ⟨hlist (by rw [hnil]; rfl) (by rw [hnil]; exact wfEnts_nil), ?_⟩
    simp [RangeList.bytes, hnil, removeEnts]
  · obtain ⟨h1, h2⟩ := (removeEnts_correct_iff hr hw.ents).mpr hok
    exact ⟨hlist (removeEnts_length hr hw.ents hok) h1, h2⟩

/-- **One removal, exactly.**  On a well-formed list the removal of `[offset, offset + length)`,
or of everything from `offset` on, leaves a well-formed list with exactly these bytes taken out if
and only if `RemoveOk` holds. -/
theorem remove_correct_iff (l : RangeList) (hw : l.WellFormed) (offset length : Int)
    (ha : RemoveArgs offset length) :
    ((l.remove offset length).2.WellFormed
        ∧ (l.remove offset length).2.bytes = l.bytes \ rangeBytes offset length)
      ↔ RemoveOk l.head offset length := by
  refine ⟨fun h => ?_, remove_spec hw ha⟩
  rw [remove_eq ha] at h
  obtain ⟨ho, ho', hn⟩ := ha
  rcases hn with hmax | ⟨hpos, hle⟩
  · exact .inl hmax
  · cases hh : l.head with
    | nil => exact .inr (.inl rfl)
    | cons ent next =>
      have hwe := hw.ents
      obtain ⟨⟨h1, -⟩, h2⟩ := h
      rw [RangeList.bytes, RangeList.bytes] at h2
      rw [hh] at hwe h1 h2
      by_cases hfit : offset + length ≤ offMax
      · have hr : RangeValid offset length := ⟨ho, ho', .inr ⟨hpos, hfit⟩⟩
        have hl : length ≠ rangeListMax := by unfold rangeListMax; omega
        exact .inr (.inr ⟨hfit, (removeEnts_correct_iff hr hwe).mp ⟨h1, h2⟩ hl⟩)
      · exact absurd ⟨h1, h2⟩ (removeEnts_overflow ho ho' hpos hle (not_le.mp hfit) hwe)

/-- Cutting the middle out of the last entry of a list of two. -/
theorem remove_correct_last : ((⟨2, [⟨0, 5⟩, ⟨10, -1⟩]⟩ : RangeList).remove 20 10).2.bytes
      = (⟨2, [⟨0, 5⟩, ⟨10, -1⟩]⟩ : RangeList).bytes \ rangeBytes 20 10 :=
  ((remove_correct_iff ⟨2, [⟨0, 5⟩, ⟨10, -1⟩]⟩
    ⟨⟨by decide, by decide⟩, by decide⟩ 20 10 (by decide)).mpr (by decide)).2

/-- **Where removal loses bytes.**  Cutting `[2,4)` out of the list `[0,10)`, `[20,30)` drops the
second entry, although it stays counted. -/
theorem remove_drops_entries : (⟨2, [⟨0, 10⟩, ⟨20, 10⟩]⟩ : RangeList).WellFormed ∧ RemoveArgs 2 2
      ∧ ¬ (((⟨2, [⟨0, 10⟩, ⟨20, 10⟩]⟩ : RangeList).remove 2 2).2.WellFormed
        ∧ ((⟨2, [⟨0, 10⟩, ⟨20, 10⟩]⟩ : RangeList).remove 2 2).2.bytes
          = (⟨2, [⟨0, 10⟩, ⟨20, 10⟩]⟩ : RangeList).bytes \ rangeBytes 2 2) := by
  refine ⟨⟨⟨by decide, by decide⟩, by decide⟩, by decide, ?_⟩
  rintro ⟨hw, -⟩
  exact absurd hw.size_eq (by decide)

end Gct
