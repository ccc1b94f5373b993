/-
# `globus_range_list_merge`: when merging is union

The destructive merge threads the entries of one list, the one whose head starts later, one by one
into the other.  Where an entry `c` lands is found as in the insertion, and the scan for the next
entry resumes there.  Two things go wrong on the way:

* the join with one successor is the one of the insertion, with the same two slips, so `InsertOk`
  is needed again for every entry of the second list;
* when `c` sticks out to the LEFT of the entry `x` it meets, and not to the right, `x` gets the
  offset of `c` and keeps its length (the insertion corrects it), so as many bytes as `c` sticks
  out are cut off the end of `x`.

The second loss can be made good: a later entry of the second list may cover the bytes that were
cut off, and then it finds the shortened `x` and extends it again.  `MergeEntsOk` says exactly
that: every entry of the second list satisfies `InsertOk` against the FIRST list as it came in, and
if it overhangs an entry, the bytes it displaces are covered by a later entry of its own list.  The
condition speaks of the two input lists only; that it can, although the first list changes along
the way, is `mergeEntsOk_step`.
-/
import Gct.RangeList.Insert

namespace Gct

open List RangeList Set

/-! ## 1. The condition -/

/-- `c` starts before `x`, reaches it and does not run past it, and every entry before `x` ends
before `c`: the merge meets `x` first and moves its start without correcting its length. -/
def Overhangs (ents : List RangeEnt) (c x : RangeEnt) : Prop :=
  c.length ≠ rangeListMax ∧ x.length ≠ rangeListMax ∧ c.offset < x.offset
    ∧ x.offset ≤ c.offset + c.length ∧ c.offset + c.length ≤ x.offset + x.length
    ∧ ∀ y ∈ ents, y.Before x → y.offset + y.length < c.offset

/-- A later entry of the second list covers what is cut off the end of `x`: from
`c.offset + x.length`, where the shortened entry ends, up to the old end. -/
def Refilled (ents : List RangeEnt) (c x : RangeEnt) : Prop :=
  ∃ d ∈ ents, c.Before d ∧ d.offset ≤ c.offset + x.length
    ∧ (d.length = rangeListMax ∨ x.offset + x.length ≤ d.offset + d.length)

/-- The condition on the two chains, `first` being the one whose head starts no later. -/
def MergeEntsOk (first second : List RangeEnt) : Prop :=
  ∀ c ∈ second, InsertOk first c.offset c.length
    ∧ ∀ x ∈ first, Overhangs first c x → Refilled second c x

/-- The condition on two range lists: the roles are given by where the heads start. -/
def MergeOk (src1 src2 : RangeList) : Prop :=
  match src1.head, src2.head with
  | e1 :: ents1, e2 :: ents2 =>
    if e1.offset ≤ e2.offset then MergeEntsOk (e1 :: ents1) (e2 :: ents2)
    else MergeEntsOk (e2 :: ents2) (e1 :: ents1)
  | _, _ => True

instance (ents : List RangeEnt) (c x : RangeEnt) : Decidable (Overhangs ents c x) :=
  inferInstanceAs (Decidable (_ ∧ _ ∧ _ ∧ _ ∧ _ ∧ ∀ _ ∈ _, _))

instance (ents : List RangeEnt) (c x : RangeEnt) : Decidable (Refilled ents c x) :=
  inferInstanceAs (Decidable (∃ d, d ∈ ents ∧ _))

instance (first second : List RangeEnt) : Decidable (MergeEntsOk first second) :=
  inferInstanceAs (Decidable (∀ _ ∈ _, _ ∧ ∀ _ ∈ _, _))

instance (src1 src2 : RangeList) : Decidable (MergeOk src1 src2) := by
  unfold MergeOk
  split <;> infer_instance

variable {first second passed ents : List RangeEnt} {c x : RangeEnt}

theorem mergeEntsOk_cons : MergeEntsOk first (c :: second) ↔ (InsertOk first c.offset c.length
          ∧ ∀ x ∈ first, Overhangs first c x → Refilled (c :: second) c x)
        ∧ ∀ d ∈ second, InsertOk first d.offset d.length
          ∧ ∀ x ∈ first, Overhangs first d x → Refilled (c :: second) d x :=
  forall_mem_cons

/-- Entries that a range lies behind add nothing to the condition for it. -/
theorem insertOk_append_behind {offset length : Int} : ∀ {passed ents : List RangeEnt},
    WfEnts (passed ++ ents) → (∀ p ∈ passed, p.offset + p.length < offset) →
      (InsertOk (passed ++ ents) offset length ↔ InsertOk ents offset length)
  | [], _, _, _ => Iff.rfl
  | p :: passed, ents, hw, hp => by
    have ih : InsertOk (passed ++ ents) offset length ↔ InsertOk ents offset length :=
      insertOk_append_behind (wfEnts_cons.mp hw).2.2 fun q hq => hp q (by simp [hq])
    rw [← ih]
    constructor
    · exact fun h => ((insertOk_cons hw).mp h).2
    · exact insertOk_cons_behind hw (hp p (by simp))

/-! ## 2. The scan -/

/-- The part of `Overhangs` that is about `c` and `x` alone. -/
def HangsOver (c x : RangeEnt) : Prop :=
  c.length ≠ rangeListMax ∧ x.length ≠ rangeListMax ∧ c.offset < x.offset
    ∧ x.offset ≤ c.offset + c.length ∧ c.offset + c.length ≤ x.offset + x.length

/-- The merge of two entries is the insertion of one into the other, unless it overhangs. -/
theorem mergeIntoEnt_eq (hc : RangeValid c.offset c.length) (hx : RangeValid x.offset x.length)
    (ht : c.length = rangeListMax ∨ x.offset ≤ c.offset + c.length) (h : ¬ HangsOver c x) :
    mergeIntoEnt c x = grown c.offset c.length x := by
  have hm := rangeListMax_eq
  have hmax := offMax_eq
  have hce := rangeEnd_of_valid hc
  have hxe := rangeEnd_of_valid hx
  obtain ⟨c0, c1, c2⟩ := hc
  obtain ⟨x0, x1, x2⟩ := hx
  obtain ⟨xo, xl⟩ := x
  simp only [mergeIntoEnt, grown, HangsOver] at *
  by_cases hlt : c.offset < xo
  · simp only [if_pos hlt]
    split
    · rw [RangeEnt.mk.injEq]
      omega
    · rw [if_pos (by omega), offSub_eq ⟨by omega, by omega⟩, RangeEnt.mk.injEq]
      omega
  · simp only [if_neg hlt]
    split
    · rw [RangeEnt.mk.injEq]
      omega
    · rw [offSub_eq ⟨by omega, by omega⟩]
      split <;> rw [RangeEnt.mk.injEq] <;> omega

/-- The merge of an overhanging entry moves the start and keeps the length. -/
theorem mergeIntoEnt_overhang (hc : RangeValid c.offset c.length)
    (hx : RangeValid x.offset x.length) (h : HangsOver c x) : mergeIntoEnt c x = ⟨c.offset, x.length⟩ := by
  obtain ⟨hcl, hxl, hlt, -, hle⟩ := h
  have hm := rangeListMax_eq
  unfold mergeIntoEnt
  rw [rangeEnd_of_valid hc, rangeEnd_of_valid hx, if_neg hcl, if_neg hxl, if_pos hlt]
  obtain ⟨c0, -, c2⟩ := hc
  rw [if_neg (by omega), if_neg (by omega)]

/-- What the scan for the place of `c` can return.  The entries passed all end before `c`; if the
scan stops at an entry `x`, then from `x` on it either does what the insertion of `c` does, or `c`
overhangs `x`. -/
inductive MergeScan (c : RangeEnt) (ents : List RangeEnt) :
    List RangeEnt × Option (List RangeEnt × Int) → Prop
  | offEnd : (∀ p ∈ ents, p.Before c) → MergeScan c ents (ents, none)
  | inserted {passed rest : List RangeEnt} {x : RangeEnt} : ents = passed ++ x :: rest →
      (∀ p ∈ passed, p.Before c) → ¬ x.Before c → ¬ HangsOver c x →
      MergeScan c ents (passed, some (insertEnts c.offset c.length (x :: rest)))
  | overhung {passed rest : List RangeEnt} {x : RangeEnt} : ents = passed ++ x :: rest →
      (∀ p ∈ passed, p.Before c) → HangsOver c x →
      MergeScan c ents (passed, some (⟨c.offset, x.length⟩ :: rest, 0))

/-- The scan does one of these things, and never follows `prev` unset: at the start of a scan the
entry it looks at begins no later than `c` does. -/
theorem mergeScan_cases {c : RangeEnt} (hc : RangeValid c.offset c.length) :
    ∀ (prev : Bool) {ents : List RangeEnt}, WfEnts ents →
      (prev = true ∨ ∃ x rest, ents = x :: rest ∧ x.offset ≤ c.offset) →
      ∃ r, mergeScan c prev ents = some r ∧ MergeScan c ents r
  | prev, [], _, hp => by
    rcases hp with rfl | ⟨x, rest, h, -⟩
    · exact ⟨([], none), rfl, .offEnd (by simp)⟩
    · exact absurd h (by simp)
  | prev, x :: rest, hw, hp => by
    obtain ⟨hx, hb, hwr⟩ := wfEnts_cons.mp hw
    have hm := rangeListMax_eq
    have hce := rangeEnd_of_valid hc
    have hxe := rangeEnd_of_valid hx
    have ⟨c0, c1, c2⟩ := hc
    have ⟨x0, x1, x2⟩ := hx
    -- the loop's three branches are those of the insertion
    rcases insertEnts_cons rest hc hx with ⟨hne, hlt, heq⟩ | ⟨ht, heq⟩ | ⟨hne, hlt, heq⟩
    · have hprev : prev = true := by
        rcases hp with hp | ⟨y, ys, h, hle⟩
        · exact hp
        · obtain ⟨rfl, rfl⟩ := cons.inj h
          omega
      refine ⟨([], some (insertEnts c.offset c.length (x :: rest))), ?_,
        .inserted rfl (by simp) ?_ fun h => absurd h.2.2.2.1 (not_le.mpr hlt)⟩
      · simp only [heq, mergeScan, hprev, if_true]
        rw [if_pos (by omega)]
      · rintro ⟨h1, h2⟩
        omega
    · have ⟨t1, t2⟩ := ht
      have hscan : mergeScan c prev (x :: rest)
          = some ([], some (joinNext (rangeEnd c.offset c.length) (mergeIntoEnt c x) rest)) := by
        simp only [mergeScan]
        rw [if_neg (by omega), if_pos (by omega)]
      have hnb : ¬ x.Before c := by
        rintro ⟨h1, h2⟩
        omega
      refine ⟨_, hscan, ?_⟩
      by_cases hov : HangsOver c x
      · rw [mergeIntoEnt_overhang hc hx hov]
        have hjoin : joinNext (rangeEnd c.offset c.length) ⟨c.offset, x.length⟩ rest
            = (⟨c.offset, x.length⟩ :: rest, 0) := by
          match rest, hb with
          | [], _ => rfl
          | nx :: rest, hb =>
            refine joinNext_of_lt ?_
            have := (hb nx (by simp)).2
            obtain ⟨hcl, -, -, -, hle⟩ := hov
            omega
        rw [hjoin]
        exact .overhung rfl (by simp) hov
      · rw [mergeIntoEnt_eq hc hx t1 hov, ← heq]
        exact .inserted rfl (by simp) hnb hov
    · obtain ⟨r, hr, hcase⟩ := mergeScan_cases hc true hwr (.inl rfl)
      have hscan : mergeScan c prev (x :: rest) = some (x :: r.1, r.2) := by
        simp only [mergeScan, hr]
        rw [if_neg (by omega), if_neg (by omega)]
      have hxc : x.Before c := ⟨hne, hlt⟩
      have hcons : ∀ {passed : List RangeEnt}, (∀ p ∈ passed, p.Before c) →
          ∀ p ∈ x :: passed, p.Before c := fun h => forall_mem_cons.mpr ⟨hxc, h⟩
      refine ⟨_, hscan, ?_⟩
      cases hcase with
      | offEnd h => exact .offEnd (hcons h)
      | inserted h1 h2 h3 h4 => exact .inserted (by rw [h1]; rfl) (hcons h2) h3 h4
      | overhung h1 h2 h3 => exact .overhung (by rw [h1]; rfl) (hcons h2) h3

/-! ## 3. One merge step leaves the condition for the later entries alone -/

/-- To an entry starting at `o`, the merged entry `m` in front of `rest` is what the entries
`replaced` were before: they start no later, `o` is past all of them but the last, and `m`
reaches up to `o` exactly when they did. -/
structure StandsFor (replaced : List RangeEnt) (m : RangeEnt) (rest : List RangeEnt) (o : Int) :
    Prop where
  past : ∀ p ∈ replaced, ∀ q ∈ replaced, p.Before q → p.offset + p.length < o
  reach : rest ≠ [] → ((∃ p ∈ replaced, o ≤ p.offset + p.length) ↔ o ≤ m.offset + m.length)
  start : ∀ q ∈ replaced, q.offset ≤ o
  start_ent : m.offset ≤ o

section StandsFor

variable {replaced rest : List RangeEnt} {m : RangeEnt}

theorem StandsFor.insertOk_iff {o length : Int} (h : StandsFor replaced m rest o)
    (hw : WfEnts (replaced ++ rest)) (hm : WfEnts (m :: rest)) :
    InsertOk (replaced ++ rest) o length ↔ InsertOk (m :: rest) o length := by
  obtain ⟨-, -, hbr⟩ := wfEnts_append.mp hw
  rw [insertOk_cons hm]
  constructor
  · intro hok
    refine ⟨fun y hy hle => ?_, fun x hx y hy => hok x (by simp [hx]) y (by simp [hy])⟩
    obtain ⟨p, hp, hpo⟩ := (h.reach (ne_nil_of_mem hy)).mpr hle
    exact hok p (by simp [hp]) y (by simp [hy]) (hbr p hp y hy) hpo
  · rintro ⟨h1, h2⟩ x hx y hy hxy hle
    rcases mem_append.mp hx with hx | hx <;> rcases mem_append.mp hy with hy | hy
    · exact absurd hle (not_le.mpr (h.past x hx y hy hxy))
    · exact h1 y hy ((h.reach (ne_nil_of_mem hy)).mp ⟨x, hx, hle⟩)
    · have := not_before_of_before (hw.valid y (by simp [hy])) (hw.valid x (by simp [hx])) (hbr y hy x hx)
      exact absurd hxy this
    · exact h2 x hx y hy hxy hle

theorem StandsFor.overhangs_iff (h : StandsFor replaced m rest c.offset)
    (hw : WfEnts (replaced ++ rest)) (hm : WfEnts (m :: rest)) (hx : x ∈ rest) :
    Overhangs (replaced ++ rest) c x ↔ Overhangs (m :: rest) c x := by
  obtain ⟨-, -, hbr⟩ := wfEnts_append.mp hw
  have hmx : m.Before x := (wfEnts_cons.mp hm).2.1 x hx
  have hreach := h.reach (ne_nil_of_mem hx)
  refine and_congr_right fun _ => and_congr_right fun _ => and_congr_right fun _ =>
    and_congr_right fun _ => and_congr_right fun _ => ?_
  constructor
  · intro hall y hy hyx
    rcases mem_cons.mp hy with rfl | hy
    · refine not_le.mp fun hle => ?_
      obtain ⟨p, hp, hpo⟩ := hreach.mpr hle
      exact absurd hpo (not_le.mpr (hall p (by simp [hp]) (hbr p hp x hx)))
    · exact hall y (by simp [hy]) hyx
  · intro hall y hy hyx
    rcases mem_append.mp hy with hy | hy
    · refine not_le.mp fun hle => ?_
      exact absurd (hreach.mp ⟨y, hy, hle⟩) (not_le.mpr (hall m (by simp) hmx))
    · exact hall y (by simp [hy]) hyx

/-- **The condition for the rest of the second list may be checked against the first list before
the step or after it.** -/
theorem mergeEntsOk_step (hw : WfEnts (replaced ++ rest)) (hm : WfEnts (m :: rest)) (hB : WfEnts (c :: second))
    (h : ∀ d ∈ second, StandsFor replaced m rest d.offset) : (∀ d ∈ second, InsertOk (replaced ++ rest) d.offset d.length
        ∧ ∀ x ∈ replaced ++ rest, Overhangs (replaced ++ rest) d x → Refilled (c :: second) d x)
      ↔ MergeEntsOk (m :: rest) second := by
  have hrefill : ∀ d ∈ second, ∀ x, Refilled (c :: second) d x ↔ Refilled second d x := by
    intro d hd x
    have hnb := not_before_of_before (hB.valid c (by simp)) (hB.valid d (by simp [hd])) ((wfEnts_cons.mp hB).2.1 d hd)
    constructor
    · rintro ⟨e, he, hde, hr⟩
      rcases mem_cons.mp he with rfl | he
      · exact absurd hde hnb
      · exact ⟨e, he, hde, hr⟩
    · rintro ⟨e, he, hr⟩
      exact ⟨e, by simp [he], hr⟩
  refine forall₂_congr fun d hd => and_congr ((h d hd).insertOk_iff hw hm) ?_
  constructor
  · intro hall x hx hov
    rcases mem_cons.mp hx with rfl | hx
    · exact absurd hov.2.2.1 (not_lt.mpr (h d hd).start_ent)
    · exact (hrefill d hd x).mp (hall x (by simp [hx]) (((h d hd).overhangs_iff hw hm hx).mpr hov))
  · intro hall x hx hov
    rcases mem_append.mp hx with hx | hx
    · exact absurd hov.2.2.1 (not_lt.mpr ((h d hd).start x hx))
    · exact (hrefill d hd x).mpr (hall x (by simp [hx]) (((h d hd).overhangs_iff hw hm hx).mp hov))

end StandsFor

theorem WfEnts.upTo {rest : List RangeEnt} (hw : WfEnts (passed ++ x :: rest)) : WfEnts (passed ++ [x]) :=
  (wfEnts_append.mp (append_cons passed x rest ▸ hw)).1

/-- The usual way for an entry to stand for others: it reaches as far as the last of them, and
`o` is past the rest. -/
theorem standsFor_last {tail : List RangeEnt} {m : RangeEnt} {o : Int}
    (hw : WfEnts (passed ++ [x])) (hp : ∀ p ∈ passed, p.offset + p.length < o) (hx : x.offset ≤ o)
    (hm : m.offset ≤ o) (hreach : tail ≠ [] → (o ≤ x.offset + x.length ↔ o ≤ m.offset + m.length)) :
    StandsFor (passed ++ [x]) m tail o := by
  obtain ⟨hwp, hwx, hpx⟩ := wfEnts_append.mp hw
  have hxv := hwx.valid x (by simp)
  have hlt : ∀ q ∈ passed, q.Before x ∧ q.offset < x.offset := fun q hq =>
    ⟨hpx q hq x (by simp), (hpx q hq x (by simp)).offset_lt (hwp.valid q hq)⟩
  refine ⟨forall_mem_append.mpr ⟨fun p hpp _ _ _ => hp p hpp, forall_mem_singleton.mpr ?_⟩,
    fun ht => ?_, forall_mem_append.mpr ⟨?_, forall_mem_singleton.mpr hx⟩, hm⟩
  · intro q hq hxq
    have hqx := hxq.offset_lt hxv
    rcases mem_append.mp hq with hq | hq
    · exact absurd hqx (hlt q hq).2.not_gt
    · exact absurd (mem_singleton.mp hq ▸ hqx) (lt_irrefl _)
  · rw [← hreach ht]
    refine ⟨?_, fun hle => ⟨x, by simp, hle⟩⟩
    rintro ⟨p, hpp, hle⟩
    rcases mem_append.mp hpp with hpp | hpp
    · exact absurd hle (not_le.mpr (hp p hpp))
    · exact mem_singleton.mp hpp ▸ hle
  · exact fun q hq => (hlt q hq).2.le.trans hx

/-- The entry that an insertion makes stands for those it replaced, to anything that starts after
the end of the inserted range. -/
theorem insertEnts_standsFor {rest : List RangeEnt} (hc : RangeValid c.offset c.length) (hne : c.length ≠ rangeListMax)
    (hw : WfEnts (passed ++ x :: rest)) (hp : ∀ p ∈ passed, p.Before c) (hx : ¬ x.Before c) :
    ∃ replaced m tail, passed ++ x :: rest = replaced ++ tail
      ∧ (insertEnts c.offset c.length (x :: rest)).1 = m :: tail ∧ m.offset ≤ c.offset
      ∧ ∀ o, c.offset + c.length < o → StandsFor replaced m tail o := by
  obtain ⟨hwp, hwx, hpx⟩ := wfEnts_append.mp hw
  obtain ⟨hxv, hb, hwr⟩ := wfEnts_cons.mp hwx
  have hm := rangeListMax_eq
  have hcl := hc.2.2.resolve_left hne
  have hpo : ∀ o, c.offset + c.length < o → ∀ p ∈ passed, p.offset + p.length < o := by
    intro o ho p hpp
    have := (hp p hpp).2
    omega
  rcases insertEnts_cons rest hc hxv with ⟨-, hlt, heq⟩ | ⟨ht, heq⟩ | ⟨h1, h2, -⟩
  · refine ⟨passed, c, x :: rest, rfl, by rw [heq], le_rfl, fun o ho => ⟨?_, fun _ => ?_, ?_, ?_⟩⟩
    · exact fun p hpp _ _ _ => hpo o ho p hpp
    · refine ⟨fun ⟨p, hpp, hle⟩ => absurd hle (not_le.mpr (hpo o ho p hpp)), fun hle => ?_⟩
      omega
    · intro q hq
      have := (hp q hq).offset_lt (hwp.valid q hq)
      omega
    · omega
  · have hmv := (grown_bytes hc hxv ht).1
    have hxc := ht.1.resolve_left hne
    have hmo : (grown c.offset c.length x).offset ≤ c.offset := min_le_left _ _
    match rest, hb, hw, hwr with
    | [], _, hw, _ =>
      refine ⟨passed ++ [x], _, [], by simp, by rw [heq]; rfl, hmo, fun o ho => ?_⟩
      exact standsFor_last hw (hpo o ho) (by omega) (by omega) fun h => absurd rfl h
    | nx :: rest, hb, hw, hwr =>
      have hxnx := hb nx (by simp)
      by_cases hlt : rangeEnd c.offset c.length < nx.offset
      · refine ⟨passed ++ [x], _, nx :: rest, by simp, by rw [heq, joinNext_of_lt hlt], hmo, fun o ho => ?_⟩
        refine standsFor_last hw.upTo (hpo o ho) (by omega) (by omega) fun _ => ?_
        simp only [grown]
        omega
      · rw [not_lt] at hlt
        rw [joinNext_of_le hmv (hwr.valid nx (by simp)) hlt] at heq
        rw [rangeEnd_of_valid hc, if_neg hne] at hlt
        refine ⟨(passed ++ [x]) ++ [nx], _, rest, by simp, congrArg Prod.fst heq, hmo, fun o ho => ?_⟩
        rw [append_cons] at hw
        refine standsFor_last hw.upTo ?_ (by omega) (by dsimp only; omega) fun h => ?_
        · refine forall_mem_append.mpr ⟨hpo o ho, forall_mem_singleton.mpr ?_⟩
          have := hxnx.2
          omega
        · obtain ⟨y, hy⟩ := exists_mem_of_ne_nil rest h
          dsimp only
          omega
  · exact absurd ⟨h1, h2⟩ hx

/-! ## 4. What one merge step loses -/

/-- What a merge should give. -/
def MergesTo (chain first second : List RangeEnt) : Prop :=
  WfEnts chain ∧ entsBytes chain = entsBytes first ∪ entsBytes second

/-- The result is right exactly if the step with `c`, which makes `ents'` of `ents`, loses nothing
that the rest of the second list does not bring back, and the merge goes on rightly from there. -/
theorem mergesTo_append {ents' chain : List RangeEnt}
    (hw : WfEnts (passed ++ ents)) (hpc : ∀ p ∈ passed, ∀ y ∈ c :: second, p.Before y)
    (hpl : ∀ p ∈ passed, ∀ y ∈ chain, p.Before y) (hchain : entsBytes chain ⊆ entsBytes ents' ∪ entsBytes second)
    (hents : entsBytes ents' ⊆ entsBytes ents ∪ rangeBytes c.offset c.length) :
    MergesTo (passed ++ chain) (passed ++ ents) (c :: second) ↔ entsBytes ents' ∪ entsBytes second
            = entsBytes ents ∪ rangeBytes c.offset c.length ∪ entsBytes second ∧ MergesTo chain ents' second := by
  obtain ⟨hwp, -, hpe⟩ := wfEnts_append.mp hw
  have hsub : entsBytes ents' ∪ entsBytes second ⊆ entsBytes ents ∪ rangeBytes c.offset c.length ∪ entsBytes second :=
    union_subset_union_left _ hents
  have hd1 : Disjoint (entsBytes passed) (entsBytes chain) := disjoint_entsBytes hpl
  have hd2 : Disjoint (entsBytes passed) (entsBytes ents ∪ rangeBytes c.offset c.length ∪ entsBytes second) := by
    rw [union_assoc, ← entsBytes_cons, disjoint_union_right]
    exact ⟨disjoint_entsBytes hpe, disjoint_entsBytes hpc⟩
  unfold MergesTo
  rw [entsBytes_append, entsBytes_append, entsBytes_cons, union_assoc, ← union_assoc (entsBytes ents)]
  constructor
  · rintro ⟨h1, h2⟩
    have heq := IvlList.eq_of_union_eq_of_disjoint hd1 hd2 h2
    have hall := hsub.antisymm (heq ▸ hchain)
    exact ⟨hall, (wfEnts_append.mp h1).2.1, by rw [hall]; exact heq⟩
  · rintro ⟨h1, h2, h3⟩
    exact ⟨wfEnts_append.mpr ⟨hwp, h2, hpl⟩, by rw [h3, h1]⟩

/-- A step that inserts loses nothing exactly if the insertion does not. -/
theorem insert_lossless_iff (hc : RangeValid c.offset c.length) (hne : c.length ≠ rangeListMax) (hw : WfEnts ents)
    (hB : ∀ d ∈ second, c.Before d) : entsBytes (insertEnts c.offset c.length ents).1 ∪ entsBytes second
        = entsBytes ents ∪ rangeBytes c.offset c.length ∪ entsBytes second ↔ InsertOk ents c.offset c.length := by
  constructor
  · intro h
    refine insertOk_of_covered hc hne hw fun z hz => ?_
    have hz' : z ∈ entsBytes (insertEnts c.offset c.length ents).1 ∪ entsBytes second := by
      rw [h]
      exact .inl (.inr hz)
    exact hz'.resolve_right fun hzB => (disjoint_of_before hB).le_bot ⟨hz, hzB⟩
  · intro h
    rw [(insertEnts_subset hc hw).antisymm (subset_insertEnts hc hw h)]

section Overhung

variable {c x : RangeEnt} {rest second : List RangeEnt}

/-- The shortened entry holds only bytes of the two it was made of. -/
theorem overhung_subset (rest : List RangeEnt) (h : HangsOver c x) : entsBytes (⟨c.offset, x.length⟩ :: rest)
      ⊆ entsBytes (x :: rest) ∪ rangeBytes c.offset c.length := by
  obtain ⟨-, hxl, hlt, hxc, -⟩ := h
  intro z hz
  simp only [entsBytes_cons, mem_union, mem_rangeBytes, hxl, false_or] at hz ⊢
  rcases hz with ⟨h1, h2⟩ | hz
  · by_cases hzx : x.offset ≤ z
    · exact .inl (.inl ⟨hzx, by omega⟩)
    · exact .inr ⟨h1, .inr (by omega)⟩
  · exact .inl (.inr hz)

/-- A step that overhangs loses nothing for good exactly if a later entry refills it. -/
theorem overhung_lossless_iff (hw : WfEnts (x :: rest)) (hB : WfEnts (c :: second)) (hover : HangsOver c x) :
    entsBytes (⟨c.offset, x.length⟩ :: rest) ∪ entsBytes second
        = entsBytes (x :: rest) ∪ rangeBytes c.offset c.length ∪ entsBytes second ↔ Refilled second c x := by
  obtain ⟨hcv, hcb, hwB⟩ := wfEnts_cons.mp hB
  obtain ⟨hxv, hxb, -⟩ := wfEnts_cons.mp hw
  have hsub := overhung_subset rest hover
  obtain ⟨hcl, hxl, hlt, hxc, hle⟩ := hover
  constructor
  · intro h
    -- the bytes cut off can only be in the rest of the second list
    have hcut : ∀ z, c.offset + x.length ≤ z → z < x.offset + x.length → z ∈ entsBytes second := by
      intro z h1 h2
      have hz : z ∈ entsBytes (x :: rest) ∪ rangeBytes c.offset c.length ∪ entsBytes second := by
        refine .inl ?_
        by_cases hzx : x.offset ≤ z
        · refine .inl ?_
          rw [entsBytes_cons]
          exact .inl (mem_rangeBytes.mpr ⟨hzx, .inr h2⟩)
        · exact .inr (mem_rangeBytes.mpr ⟨by omega, .inr (by omega)⟩)
      rw [← h, entsBytes_cons] at hz
      rcases hz with (hz | hz) | hz
      · have hz2 := (mem_rangeBytes.mp hz).2.resolve_left hxl
        dsimp only at hz2
        omega
      · refine absurd hz (not_mem_entsBytes fun y hy => ?_)
        have := (hxb y hy).2
        omega
      · exact hz
    obtain ⟨d, hd, hdz⟩ := mem_entsBytes.mp (hcut (c.offset + x.length) le_rfl (by omega))
    obtain ⟨hd1, hd2⟩ := mem_rangeBytes.mp hdz
    refine ⟨d, hd, hcb d hd, hd1, ?_⟩
    by_cases hdl : d.length = rangeListMax
    · exact .inl hdl
    refine .inr (not_lt.mp fun hlt' => ?_)
    exact hwB.end_notMem hd hdl (hcut (d.offset + d.length) (by omega) hlt')
  · rintro ⟨d, hd, -, hd1, hd2⟩
    refine (union_subset_union_left _ hsub).antisymm ?_
    have hrefill : ∀ z, c.offset ≤ z → z < x.offset + x.length →
        z ∈ entsBytes (⟨c.offset, x.length⟩ :: rest) ∪ entsBytes second := by
      intro z h1 h2
      by_cases hz : z < c.offset + x.length
      · refine .inl ?_
        rw [entsBytes_cons]
        exact .inl (mem_rangeBytes.mpr ⟨h1, .inr hz⟩)
      · exact .inr (mem_entsBytes.mpr ⟨d, hd, mem_rangeBytes.mpr ⟨by omega, by omega⟩⟩)
    rintro z ((hz | hz) | hz)
    · rw [entsBytes_cons] at hz
      rcases hz with hz | hz
      · obtain ⟨h1, h2⟩ := mem_rangeBytes.mp hz
        exact hrefill z (by omega) (h2.resolve_left hxl)
      · rw [entsBytes_cons]
        exact .inl (.inr hz)
    · obtain ⟨h1, h2⟩ := mem_rangeBytes.mp hz
      exact hrefill z h1 (by omega)
    · exact .inr hz

end Overhung

/-! ## 5. The condition for one entry -/

section StepCondition

variable {c x : RangeEnt} {passed rest second : List RangeEnt} (hw : WfEnts (passed ++ x :: rest))
  (hp : ∀ p ∈ passed, p.Before c)

include hw hp

/-- An entry that is placed or inserted overhangs nothing. -/
theorem not_overhangs (hx : ¬ x.Before c) (hov : ¬ HangsOver c x) :
    ∀ y ∈ passed ++ x :: rest, ¬ Overhangs (passed ++ x :: rest) c y := by
  obtain ⟨hwp, hwx, -⟩ := wfEnts_append.mp hw
  rintro y hy ⟨h1, h2, h3, h4, h5, h6⟩
  rcases mem_append.mp hy with hy | hy
  · exact lt_asymm h3 ((hp y hy).offset_lt (hwp.valid y hy))
  · rcases mem_cons.mp hy with rfl | hy
    · exact hov ⟨h1, h2, h3, h4, h5⟩
    · have hxy := (wfEnts_cons.mp hwx).2.1 y hy
      exact hx ⟨hxy.1, h6 x (by simp) hxy⟩

/-- An entry that overhangs `x` overhangs nothing else, and is all right otherwise. -/
theorem overhung_condition_iff (hB : WfEnts (c :: second)) (hover : HangsOver c x) :
    (InsertOk (passed ++ x :: rest) c.offset c.length ∧ ∀ y ∈ passed ++ x :: rest,
            Overhangs (passed ++ x :: rest) c y → Refilled (c :: second) c y) ↔ Refilled second c x := by
  obtain ⟨hwp, hwx, hpx⟩ := wfEnts_append.mp hw
  obtain ⟨hxv, hxb, -⟩ := wfEnts_cons.mp hwx
  obtain ⟨hcl, hxl, hlt, hxc, hle⟩ := hover
  have hcv := hB.valid c (by simp)
  have hover : Overhangs (passed ++ x :: rest) c x := by
    refine ⟨hcl, hxl, hlt, hxc, hle, fun y hy hyx => ?_⟩
    rcases mem_append.mp hy with hy | hy
    · exact (hp y hy).2
    · rcases mem_cons.mp hy with rfl | hy
      · exact absurd hyx (RangeEnt.not_before_self hxv)
      · exact absurd hyx (not_before_of_before hxv (hwx.valid y (by simp [hy])) (hxb y hy))
  constructor
  · rintro ⟨-, h⟩
    obtain ⟨d, hd, hcd, hr⟩ := h x (by simp) hover
    rcases mem_cons.mp hd with rfl | hd
    · exact absurd hcd (RangeEnt.not_before_self hcv)
    · exact ⟨d, hd, hcd, hr⟩
  · rintro ⟨d, hd, hr⟩
    constructor
    · rw [insertOk_append_behind hw fun p hpp => (hp p hpp).2]
      refine (insertOk_cons hwx).mpr ⟨fun y hy _ => ⟨hcl, .inl ?_⟩, ?_⟩
      · have := (hxb y hy).2
        omega
      · refine insertOk_of_lt hcl fun y hy => ?_
        have := (hxb y hy).2
        omega
    · intro y hy hov
      rcases mem_append.mp hy with hy | hy
      · exact absurd hov.2.2.1 (not_lt.mpr ((hp y hy).offset_lt (hwp.valid y hy)).le)
      · rcases mem_cons.mp hy with rfl | hy
        · exact ⟨d, by simp [hd], hr⟩
        · have := hov.2.2.2.2.2 x (by simp) (hxb y hy)
          omega

end StepCondition

/-! ## 6. The loop -/

/-- What the loop makes of `first` and `second`: nothing that was in neither, nothing before both,
and the right chain exactly under the condition. -/
structure MergeRun (first second chain : List RangeEnt) : Prop where
  subset : entsBytes chain ⊆ entsBytes first ∪ entsBytes second
  lower : ∀ z, (∀ y ∈ first, z < y.offset) → (∀ y ∈ second, z < y.offset) →
    ∀ x ∈ chain, z < x.offset
  correct_iff : MergesTo chain first second ↔ MergeEntsOk first second

theorem mergeRun_nil (hw : WfEnts first) : MergeRun first [] first where
  subset := by simp
  lower := fun _ h _ => h
  correct_iff := by simp [MergesTo, MergeEntsOk, hw]

/-- The rest of the second list goes to the end in one piece. -/
theorem mergeRun_offEnd (hw : WfEnts first) (hB : WfEnts (c :: second)) (h : ∀ p ∈ first, p.Before c) :
    MergeRun first (c :: second) (first ++ c :: second) where
  subset := by rw [entsBytes_append]
  lower := fun z h1 h2 => forall_mem_append.mpr ⟨h1, h2⟩
  correct_iff := by
    have hall : ∀ p ∈ first, ∀ d ∈ c :: second, p.Before d := fun p hp => (h p hp).chain hB
    refine iff_of_true ⟨wfEnts_append.mpr ⟨hw, hB, hall⟩, entsBytes_append _ _⟩ fun d hd => ?_
    constructor
    · intro x hx _ _ _ hle
      exact absurd hle (not_le.mpr (hall x hx d hd).2)
    · intro x hx hov
      exact absurd hov.2.2.1 (not_lt.mpr ((hall x hx d hd).offset_lt (hw.valid x hx)).le)

/-- An unbounded entry is the last of its list, and what it is inserted into is the result. -/
theorem mergeRun_unbounded {rest : List RangeEnt} (hw : WfEnts (passed ++ x :: rest)) (hc : RangeValid c.offset c.length)
    (hcl : c.length = rangeListMax) (hp : ∀ p ∈ passed, p.Before c) : MergeRun (passed ++ x :: rest) [c]
      (passed ++ (insertEnts c.offset c.length (x :: rest)).1) := by
  have hins : (insertEnts c.offset c.length (passed ++ x :: rest)).1
      = passed ++ (insertEnts c.offset c.length (x :: rest)).1 :=
    congrArg Prod.fst (insertEnts_append_of_before hc (fun p hpp => hw.valid p (by simp [hpp])) hp (x :: rest))
  rw [← hins]
  have hbytes : entsBytes [c] = rangeBytes c.offset c.length := by simp
  refine ⟨?_, ?_, ?_⟩
  · rw [hbytes]
    exact insertEnts_subset hc hw
  · exact fun z h1 h2 => insertEnts_lt_offset hc (h2 c (by simp)) hw.valid h1
  · unfold MergesTo
    rw [hbytes, insertEnts_correct_iff hc hw]
    simp [MergeEntsOk, Overhangs, hcl]

section Step

variable {passed rest second chain ents' : List RangeEnt} {c x : RangeEnt}

/-- What a step adds to the bound from below. -/
theorem lower_append (hents : ∀ z, z < c.offset → (∀ y ∈ x :: rest, z < y.offset) → ∀ y ∈ ents', z < y.offset)
    (hrun : MergeRun ents' second chain) (z : Int) (h1 : ∀ y ∈ passed ++ x :: rest, z < y.offset)
    (h2 : ∀ y ∈ c :: second, z < y.offset) : ∀ y ∈ passed ++ chain, z < y.offset := by
  obtain ⟨hpassed, hrest⟩ := forall_mem_append.mp h1
  obtain ⟨hc, hsecond⟩ := forall_mem_cons.mp h2
  exact forall_mem_append.mpr ⟨hpassed, hrun.lower z (hents z hc hrest) hsecond⟩

/-- What a step adds to the bound from above. -/
theorem subset_append (hents : entsBytes ents' ⊆ entsBytes (x :: rest) ∪ rangeBytes c.offset c.length)
    (hrun : MergeRun ents' second chain) :
    entsBytes (passed ++ chain) ⊆ entsBytes (passed ++ x :: rest) ∪ entsBytes (c :: second) := by
  rw [entsBytes_append, entsBytes_append, entsBytes_cons c, union_assoc (entsBytes passed)]
  refine union_subset_union_right _ (hrun.subset.trans ?_)
  rw [← union_assoc]
  exact union_subset_union_left _ hents

/-- The shortened entry leaves the chain well-formed. -/
theorem overhung_wf (hw : WfEnts (x :: rest)) (hc : RangeValid c.offset c.length)
    (hxl : x.length ≠ rangeListMax) (hlt : c.offset < x.offset) : WfEnts (⟨c.offset, x.length⟩ :: rest) := by
  obtain ⟨hxv, hxb, hwr⟩ := wfEnts_cons.mp hw
  obtain ⟨hxl0, hxl1⟩ := hxv.2.2.resolve_left hxl
  refine wfEnts_cons.mpr ⟨⟨hc.1, hc.2.1, .inr ⟨hxl0, ?_⟩⟩, fun y hy => ⟨hxl, ?_⟩, hwr⟩
  · dsimp only
    omega
  · have := (hxb y hy).2
    dsimp only
    omega

variable (hw : WfEnts (passed ++ x :: rest)) (hB : WfEnts (c :: second)) (hp : ∀ p ∈ passed, p.Before c)

include hw hB hp

/-- Before every entry of the result there is room for the entries that were passed. -/
theorem before_chain (hents : ∀ z, z < c.offset → (∀ y ∈ x :: rest, z < y.offset) → ∀ y ∈ ents', z < y.offset)
    (hrun : MergeRun ents' second chain) :
    (∀ p ∈ passed, ∀ y ∈ c :: second, p.Before y) ∧ ∀ p ∈ passed, ∀ y ∈ chain, p.Before y := by
  obtain ⟨-, -, hpx⟩ := wfEnts_append.mp hw
  have hpB : ∀ p ∈ passed, ∀ y ∈ c :: second, p.Before y := fun p hpp => (hp p hpp).chain hB
  refine ⟨hpB, fun p hpp y hy => ?_⟩
  refine ⟨(hp p hpp).1, hrun.lower _ ?_ (fun y hy => (hpB p hpp y (mem_cons_of_mem _ hy)).2) y hy⟩
  exact hents _ (hp p hpp).2 fun y hy => (hpx p hpp y hy).2

/-- A step that inserts a bounded entry. -/
theorem mergeRun_inserted (hcl : c.length ≠ rangeListMax) (hx : ¬ x.Before c) (hov : ¬ HangsOver c x)
    (hrun : MergeRun (insertEnts c.offset c.length (x :: rest)).1 second chain) :
    MergeRun (passed ++ x :: rest) (c :: second) (passed ++ chain) := by
  obtain ⟨-, hwx, -⟩ := wfEnts_append.mp hw
  obtain ⟨hc, hcb, -⟩ := wfEnts_cons.mp hB
  have hents := fun z hz h => insertEnts_lt_offset (c := z) hc hz hwx.valid h
  have hsub := insertEnts_subset hc hwx
  refine ⟨subset_append hsub hrun, lower_append hents hrun, ?_⟩
  obtain ⟨hpc, hpl⟩ := before_chain hw hB hp hents hrun
  rw [mergesTo_append hw hpc hpl hrun.subset hsub, insert_lossless_iff hc hcl hwx hcb, hrun.correct_iff, mergeEntsOk_cons,
    insertOk_append_behind hw fun p hpp => (hp p hpp).2]
  obtain ⟨replaced, m, tail, hrep, hm, -, hst⟩ := insertEnts_standsFor hc hcl hw hp hx
  have hstep := mergeEntsOk_step (hrep ▸ hw) (hm ▸ insertEnts_wf hc hwx fun h => absurd h hcl) hB
    fun d hd => hst d.offset (hcb d hd).2
  rw [← hrep, ← hm] at hstep
  rw [← hstep]
  refine and_congr_left fun _ => (and_iff_left fun y hy h => ?_).symm
  exact absurd h (not_overhangs hw hp hx hov y hy)

/-- The shortened entry stands for the one it was made of, if it is refilled later. -/
theorem overhung_standsFor (hlt : c.offset < x.offset) (hxc : x.offset ≤ c.offset + c.length)
    (href : Refilled second c x) : ∀ d ∈ second, StandsFor (passed ++ [x]) ⟨c.offset, x.length⟩ rest d.offset := by
  obtain ⟨-, hcb, hwB⟩ := wfEnts_cons.mp hB
  obtain ⟨e, he, -, he1, he2⟩ := href
  intro d hd
  have hcd := (hcb d hd).2
  refine standsFor_last hw.upTo (fun p hpp => ?_) (by omega) ?_ fun _ => ?_
  · have := (hp p hpp).2
    omega
  · exact ((hcb d hd).offset_lt (hB.valid c (by simp))).le
  · dsimp only
    constructor
    · intro hle
      rcases hwB.before_or hd he with rfl | hde | hed
      · exact he1
      · have := hde.offset_lt (hwB.valid d hd)
        omega
      · have := hed.2
        have := he2.resolve_left hed.1
        omega
    · intro hle
      omega

/-- A step in which an entry overhangs. -/
theorem mergeRun_overhung (hover : HangsOver c x) (hwm : WfEnts (⟨c.offset, x.length⟩ :: rest))
    (hrun : MergeRun (⟨c.offset, x.length⟩ :: rest) second chain) :
    MergeRun (passed ++ x :: rest) (c :: second) (passed ++ chain) := by
  obtain ⟨-, hwx, -⟩ := wfEnts_append.mp hw
  have hents : ∀ z, z < c.offset → (∀ y ∈ x :: rest, z < y.offset) →
      ∀ y ∈ (⟨c.offset, x.length⟩ : RangeEnt) :: rest, z < y.offset := by
    intro z hz h
    exact forall_mem_cons.mpr ⟨hz, (forall_mem_cons.mp h).2⟩
  have hsub := overhung_subset rest hover
  refine ⟨subset_append hsub hrun, lower_append hents hrun, ?_⟩
  obtain ⟨hpc, hpl⟩ := before_chain hw hB hp hents hrun
  rw [mergesTo_append hw hpc hpl hrun.subset hsub, overhung_lossless_iff hwx hB hover,
    hrun.correct_iff, mergeEntsOk_cons, overhung_condition_iff hw hp hB hover]
  refine and_congr_right fun href => ?_
  have hw' : WfEnts ((passed ++ [x]) ++ rest) := by
    rw [← append_cons]
    exact hw
  have hstep := mergeEntsOk_step hw' hwm hB (overhung_standsFor hw hB hp hover.2.2.1 hover.2.2.2.1 href)
  rw [← append_cons] at hstep
  exact hstep.symm

end Step

/-- **The loop never follows a null pointer, and its result is the union exactly under the
condition.**  It is entered with a head that starts no later than any entry of the second list. -/
theorem mergeLoop_run : ∀ (sizeInc : Int) {second first : List RangeEnt} {ent2Size : Int},
    WfEnts second → WfEnts first → ent2Size = second.length →
      (second ≠ [] → ∃ e tail, first = e :: tail ∧ ∀ c ∈ second, e.offset ≤ c.offset) →
      ∃ chain inc, mergeLoop second first ent2Size sizeInc = some (chain, inc)
        ∧ MergeRun first second chain ∧ (chain.length : Int) + sizeInc = first.length + inc
  | sizeInc, [], first, _, _, hw, _, _ => ⟨first, sizeInc, rfl, mergeRun_nil hw, rfl⟩
  | sizeInc, c :: second, first, ent2Size, hB, hw, hsize, hhead => by
    obtain ⟨hc, hcb, hwB⟩ := wfEnts_cons.mp hB
    obtain ⟨e, tail, hfirst, hle⟩ := hhead (by simp)
    obtain ⟨r, hr, hscan⟩ := mergeScan_cases hc false hw (.inr ⟨e, tail, hfirst, hle c (by simp)⟩)
    simp only [mergeLoop, hr]
    have hsize' : ent2Size - 1 = second.length := by
      rw [hsize, length_cons]
      omega
    cases hscan with
    | offEnd h =>
      refine ⟨_, _, rfl, mergeRun_offEnd hw hB h, ?_⟩
      rw [length_append, hsize]
      omega
    | @inserted passed rest x hA hp hx hov =>
      subst hA
      have hlen := insertEnts_length c.offset c.length (x :: rest)
      by_cases hcl : c.length = rangeListMax
      · match second, hcb with
        | [], _ =>
          refine ⟨passed ++ (insertEnts c.offset c.length (x :: rest)).1,
            sizeInc + (insertEnts c.offset c.length (x :: rest)).2, rfl,
            mergeRun_unbounded hw hc hcl hp, ?_⟩
          rw [length_append, length_append]
          omega
        | d :: _, hcb => exact absurd hcl (hcb d (by simp)).1
      · obtain ⟨-, hwx, -⟩ := wfEnts_append.mp hw
        obtain ⟨_, m, tail', -, hm, hmc, -⟩ := insertEnts_standsFor hc hcl hw hp hx
        obtain ⟨chain, inc, hloop, hrun, hl⟩ := mergeLoop_run (sizeInc + (insertEnts c.offset c.length (x :: rest)).2) hwB
          (insertEnts_wf hc hwx fun h => absurd h hcl) hsize'
          fun _ => ⟨m, tail', hm, fun d hd => hmc.trans ((hcb d hd).offset_lt hc).le⟩
        refine ⟨passed ++ chain, inc, ?_, mergeRun_inserted hw hB hp hcl hx hov hrun, ?_⟩
        · simp only [hloop]
        · rw [length_append, length_append]
          omega
    | @overhung passed rest x hA hp hover =>
      subst hA
      obtain ⟨-, hwx, -⟩ := wfEnts_append.mp hw
      have hwm := overhung_wf hwx hc hover.2.1 hover.2.2.1
      obtain ⟨chain, inc, hloop, hrun, hl⟩ := mergeLoop_run (sizeInc + 0) hwB hwm hsize'
        fun _ => ⟨_, rest, rfl, fun d hd => ((hcb d hd).offset_lt hc).le⟩
      refine ⟨passed ++ chain, inc, ?_, mergeRun_overhung hw hB hp hover hwm hrun, ?_⟩
      · simp only [hloop]
      · rw [length_append, length_append, length_cons]
        rw [length_cons] at hl
        omega

/-- In a well-formed chain the head starts first. -/
theorem head_offset_le {e : RangeEnt} (hw : WfEnts (e :: ents)) : ∀ c ∈ e :: ents, e.offset ≤ c.offset := by
  obtain ⟨he, hb, -⟩ := wfEnts_cons.mp hw
  exact forall_mem_cons.mpr ⟨le_rfl, fun c hc => ((hb c hc).offset_lt he).le⟩

/-- The body of the merge once the list with the earlier head is chosen. -/
theorem mergeLoop_correct_iff {l1 l2 : RangeList} (h1 : l1.WellFormed) (h2 : l2.WellFormed)
    {e1 e2 : RangeEnt} {ents1 ents2 : List RangeEnt} (hl1 : l1.head = e1 :: ents1)
    (hl2 : l2.head = e2 :: ents2) (hle : e1.offset ≤ e2.offset) :
    ∃ chain inc, mergeLoop l2.head l1.head l2.size 0 = some (chain, inc)
      ∧ (((⟨l1.size + inc, chain⟩ : RangeList).WellFormed ∧ entsBytes chain = l1.bytes ∪ l2.bytes)
        ↔ MergeEntsOk l1.head l2.head) := by
  obtain ⟨chain, inc, hloop, hrun, hl⟩ := mergeLoop_run 0 h2.ents h1.ents h2.size_eq fun _ => ⟨e1, ents1, hl1, fun c hc =>
      hle.trans (head_offset_le (hl2 ▸ h2.ents) c (hl2 ▸ hc))⟩
  refine ⟨chain, inc, hloop, ?_⟩
  rw [← hrun.correct_iff]
  refine and_congr_left fun _ => ⟨fun h => h.ents, fun h => ⟨h, ?_⟩⟩
  have := h1.size_eq
  dsimp only
  omega

/-- The destructive merge always returns, and empties its sources. -/
theorem mergeDestructive_correct_iff {src1 src2 : RangeList} (h1 : src1.WellFormed) (h2 : src2.WellFormed) :
    ∃ dest, src1.mergeDestructive src2 = some (dest, ⟨0, []⟩, ⟨0, []⟩)
      ∧ ((dest.WellFormed ∧ dest.bytes = src1.bytes ∪ src2.bytes) ↔ MergeOk src1 src2) := by
  unfold mergeDestructive MergeOk
  cases hl1 : src1.head with
  | nil => exact ⟨src2, rfl, by simp [bytes, hl1, h2]⟩
  | cons e1 ents1 =>
    cases hl2 : src2.head with
    | nil => exact ⟨src1, rfl, by simp [bytes, hl2, h1]⟩
    | cons e2 ents2 =>
      dsimp only
      rw [← hl1, ← hl2]
      by_cases hle : e1.offset ≤ e2.offset
      · obtain ⟨chain, inc, hloop, hiff⟩ := mergeLoop_correct_iff h1 h2 hl1 hl2 hle
        rw [if_pos hle, if_pos hle, hloop]
        exact ⟨_, rfl, hiff⟩
      · obtain ⟨chain, inc, hloop, hiff⟩ := mergeLoop_correct_iff h2 h1 hl2 hl1 (not_le.mp hle).le
        rw [if_neg hle, if_neg hle, hloop]
        refine ⟨_, rfl, ?_⟩
        rw [union_comm]
        exact hiff

/-! ## 7. The merge of two lists -/

/-- **The merge is union, in either order and with or without keeping the sources, exactly if no
entry of one list lies badly over those of the other.** -/
theorem merge_correct_iff (src1 src2 : RangeList) (h1 : src1.WellFormed) (h2 : src2.WellFormed) :
    (∃ dest : RangeList, src1.merge src2 = some (dest, src1, src2)
        ∧ dest.WellFormed ∧ dest.bytes = src1.bytes ∪ src2.bytes
        ∧ src2.merge src1 = some (dest, src2, src1)
        ∧ src1.mergeDestructive src2 = some (dest, .init, .init))
      ↔ MergeOk src1 src2 ∧ MergeOk src2 src1 := by
  obtain ⟨dest, hd, hiff⟩ := mergeDestructive_correct_iff h1 h2
  obtain ⟨dest', hd', hiff'⟩ := mergeDestructive_correct_iff h2 h1
  have hmerge : src1.merge src2 = some (dest, src1, src2) := by
    simp only [RangeList.merge, copy_eq, hd]
  have hmerge' : src2.merge src1 = some (dest', src2, src1) := by
    simp only [RangeList.merge, copy_eq, hd']
  rw [hmerge, hmerge', hd, ← hiff, ← hiff', union_comm src2.bytes]
  constructor
  · rintro ⟨r, hr, hwf, hb, hr', -⟩
    simp only [Option.some.injEq, Prod.mk.injEq, and_true] at hr hr'
    subst hr hr'
    exact ⟨⟨hwf, hb⟩, hwf, hb⟩
  · rintro ⟨⟨hwf, hb⟩, hwf', hb'⟩
    have heq : dest' = dest := hwf'.eq_of_bytes_eq hwf (hb'.trans hb.symm)
    subst heq
    exact ⟨dest', rfl, hwf, hb, rfl, rfl⟩

/-- The range of the second list overhangs `[5, 10)`, and its list refills what that cuts off. -/
theorem merge_correct_refilled :
    ∃ dest : RangeList, RangeList.merge ⟨2, [⟨0, 1⟩, ⟨5, 5⟩]⟩ ⟨2, [⟨4, 2⟩, ⟨8, 4⟩]⟩
        = some (dest, ⟨2, [⟨0, 1⟩, ⟨5, 5⟩]⟩, ⟨2, [⟨4, 2⟩, ⟨8, 4⟩]⟩)
      ∧ dest.bytes = entsBytes [⟨0, 1⟩, ⟨5, 5⟩] ∪ entsBytes [⟨4, 2⟩, ⟨8, 4⟩] := by
  have h1 : RangeList.WellFormed ⟨2, [⟨0, 1⟩, ⟨5, 5⟩]⟩ := ⟨⟨by decide, by decide⟩, rfl⟩
  have h2 : RangeList.WellFormed ⟨2, [⟨4, 2⟩, ⟨8, 4⟩]⟩ := ⟨⟨by decide, by decide⟩, rfl⟩
  obtain ⟨dest, hm, -, hb, -⟩ := (merge_correct_iff _ _ h1 h2).mpr ⟨by decide, by decide⟩
  exact ⟨dest, hm, hb⟩

/-- Without that second range the last byte of `[5, 10)` is gone. -/
theorem merge_loses_byte :
    RangeList.WellFormed ⟨2, [⟨0, 1⟩, ⟨5, 5⟩]⟩ ∧ RangeList.WellFormed ⟨1, [⟨4, 2⟩]⟩
      ∧ ¬ ∃ dest : RangeList, RangeList.merge ⟨2, [⟨0, 1⟩, ⟨5, 5⟩]⟩ ⟨1, [⟨4, 2⟩]⟩
            = some (dest, ⟨2, [⟨0, 1⟩, ⟨5, 5⟩]⟩, ⟨1, [⟨4, 2⟩]⟩)
          ∧ dest.bytes = entsBytes [⟨0, 1⟩, ⟨5, 5⟩] ∪ entsBytes [⟨4, 2⟩] := by
  refine ⟨⟨⟨by decide, by decide⟩, rfl⟩, ⟨⟨by decide, by decide⟩, rfl⟩, ?_⟩
  rintro ⟨dest, hm, hb⟩
  have hrun : RangeList.merge ⟨2, [⟨0, 1⟩, ⟨5, 5⟩]⟩ ⟨1, [⟨4, 2⟩]⟩
      = some (⟨2, [⟨0, 1⟩, ⟨4, 5⟩]⟩, ⟨2, [⟨0, 1⟩, ⟨5, 5⟩]⟩, ⟨1, [⟨4, 2⟩]⟩) := by decide
  rw [hrun, Option.some.injEq, Prod.mk.injEq] at hm
  have h9 : (9 : Int) ∈ dest.bytes := by
    rw [hb]
    simp [rangeListMax]
  rw [← hm.1] at h9
  simp [bytes, rangeListMax] at h9

end Gct
