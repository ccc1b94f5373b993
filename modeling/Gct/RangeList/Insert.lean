/-
# `globus_range_list_insert`: when insertion is union

Insertion walks to the first entry the range overlaps or touches, extends that entry, and then
looks at ONE successor.  A range can reach any number of entries, so one look is not enough, and
the look itself has two slips: it replaces the extended end by the successor's end even when that
is the smaller one, and for an unbounded range, whose end offset is `-1`, it never happens.

The condition under which none of this matters is `InsertOk`: if the range starts no later than
the end of an entry, then it is bounded, and every LATER entry either starts beyond its end or
reaches at least as far.  On a well-formed list this is exact: insertion keeps the list well formed
and adds precisely the bytes of the range if and only if `InsertOk` holds (`insert_correct_iff`).
Along a run the condition is asked at every step, and then the list is the canonical form of the
union, whatever the order of the insertions (`insertAll_correct`).
-/
import Gct.RangeList.Basic

namespace Gct

open List RangeList RangeEnt.Before Set

/-! ## 1. The condition -/

/-- The range does not run past the end of a second entry it reaches, and an unbounded range
reaches no second entry at all. -/
def InsertOk (ents : List RangeEnt) (offset length : Int) : Prop :=
  ∀ x ∈ ents, ∀ y ∈ ents, x.Before y → offset ≤ x.offset + x.length → length ≠ rangeListMax
      ∧ (offset + length < y.offset ∨ y.length = rangeListMax
        ∨ offset + length ≤ y.offset + y.length)

instance (ents : List RangeEnt) (offset length : Int) : Decidable (InsertOk ents offset length) :=
  inferInstanceAs (Decidable (∀ _ ∈ _, ∀ _ ∈ _, _ → _ → _ ∧ _))

variable {ents : List RangeEnt} {offset length : Int} {ent : RangeEnt} {next : List RangeEnt} {endOffset : Int}
  {m nx : RangeEnt} {rest : List RangeEnt}

/-- The condition, entry by entry. -/
theorem insertOk_cons {e : RangeEnt} (hw : WfEnts (e :: ents)) : InsertOk (e :: ents) offset length
      ↔ (∀ y ∈ ents, offset ≤ e.offset + e.length → length ≠ rangeListMax
            ∧ (offset + length < y.offset ∨ y.length = rangeListMax ∨ offset + length ≤ y.offset + y.length))
        ∧ InsertOk ents offset length := by
  obtain ⟨hv, hb, ht⟩ := wfEnts_cons.mp hw
  constructor
  · intro h
    exact ⟨fun y hy hle => h e (by simp) y (by simp [hy]) (hb y hy) hle,
      fun x hx y hy => h x (by simp [hx]) y (by simp [hy])⟩
  · rintro ⟨h1, h2⟩ x hx y hy hxy hle
    rcases mem_cons.mp hx with rfl | hx'
    · rcases mem_cons.mp hy with rfl | hy'
      · exact absurd hxy (not_before_of_before hv hv hxy)
      · exact h1 y hy' hle
    · rcases mem_cons.mp hy with rfl | hy'
      · exact absurd hxy (not_before_of_before hv (ht.valid x hx') (hb x hx'))
      · exact h2 x hx' y hy' hxy hle

/-- One entry has no successor. -/
theorem insertOk_singleton (hw : WfEnts [ent]) : InsertOk [ent] offset length :=
  (insertOk_cons hw).mpr ⟨nofun, nofun⟩

/-- A bounded range that ends before every entry satisfies the condition. -/
theorem insertOk_of_lt (hne : length ≠ rangeListMax) (h : ∀ y ∈ ents, offset + length < y.offset) :
    InsertOk ents offset length :=
  fun _ _ y hy _ _ => ⟨hne, .inl (h y hy)⟩

/-! ## 2. The pieces of the loop -/

/-- An entry extended by a range that meets it: the smaller start and the larger end. -/
def grown (offset length : Int) (ent : RangeEnt) : RangeEnt :=
  ⟨min offset ent.offset, if length = rangeListMax ∨ ent.length = rangeListMax then rangeListMax
    else max (offset + length) (ent.offset + ent.length) - min offset ent.offset⟩

theorem insertIntoEnt_eq (hv : RangeValid offset length) (he : RangeValid ent.offset ent.length) :
    insertIntoEnt offset (rangeEnd offset length) ent = grown offset length ent := by
  have hend := rangeEnd_of_valid hv
  have hentEnd := rangeEnd_of_valid he
  obtain ⟨h0, h1, h2⟩ := hv
  obtain ⟨e0, e1, e2⟩ := he
  have hm := rangeListMax_eq
  have hmax := offMax_eq
  obtain ⟨eo, el⟩ := ent
  simp only [insertIntoEnt, grown] at *
  by_cases hlt : offset < eo
  · simp only [if_pos hlt]
    split
    · rw [RangeEnt.mk.injEq]
      omega
    · split
      · rw [offSub_eq ⟨by omega, by omega⟩, RangeEnt.mk.injEq]
        omega
      · rw [if_pos (by omega), offSub_eq ⟨by omega, by omega⟩, offAdd_eq ⟨by omega, by omega⟩, RangeEnt.mk.injEq]
        omega
  · simp only [if_neg hlt]
    split
    · rw [RangeEnt.mk.injEq]
      omega
    · rw [offSub_eq ⟨by omega, by omega⟩]
      split <;> rw [RangeEnt.mk.injEq] <;> omega

/-- The chain loses one entry exactly when the successor is joined. -/
theorem joinNext_length (endOffset : Int) (ent : RangeEnt) (next : List RangeEnt) :
    ((joinNext endOffset ent next).1.length : Int) = next.length + 1 + (joinNext endOffset ent next).2 := by
  unfold joinNext
  split
  · simp
  · split
    · simp only [length_cons]
      omega
    · simp

/-- The change of `size` is the change of the number of entries. -/
theorem insertEnts_length (offset length : Int) : ∀ ents : List RangeEnt,
    ((insertEnts offset length ents).1.length : Int) = ents.length + (insertEnts offset length ents).2
  | [] => by simp [insertEnts]
  | ent :: next => by
    have ih := insertEnts_length offset length next
    simp only [insertEnts]
    split
    · simp
    · split
      · rw [joinNext_length]
        simp
      · simp only [length_cons]
        omega

/-- Nothing in the result starts before both the range and the old entries. -/
theorem joinNext_lt_offset {c endOffset : Int} (he : c < ent.offset) (hn : ∀ y ∈ next, c < y.offset) :
    ∀ x ∈ (joinNext endOffset ent next).1, c < x.offset := by
  unfold joinNext
  split
  · exact forall_mem_singleton.mpr he
  · split
    · exact forall_mem_cons.mpr ⟨he, (forall_mem_cons.mp hn).2⟩
    · exact forall_mem_cons.mpr ⟨he, hn⟩

theorem insertEnts_lt_offset {c offset length : Int} (hv : RangeValid offset length)
    (hc : c < offset) : ∀ {ents : List RangeEnt},
    (∀ y ∈ ents, RangeValid y.offset y.length) → (∀ y ∈ ents, c < y.offset) →
      ∀ x ∈ (insertEnts offset length ents).1, c < x.offset
  | [], _, _ => forall_mem_singleton.mpr hc
  | ent :: next, hve, hlt => by
    obtain ⟨hve, hvn⟩ := forall_mem_cons.mp hve
    obtain ⟨hent, hnext⟩ := forall_mem_cons.mp hlt
    simp only [insertEnts]
    split
    · exact forall_mem_cons.mpr ⟨hc, hlt⟩
    · split
      · refine joinNext_lt_offset ?_ hnext
        rw [insertIntoEnt_eq hv hve]
        exact lt_min hc hent
      · exact forall_mem_cons.mpr ⟨hent, insertEnts_lt_offset hv hc hvn hnext⟩

/-! ## 3. One insertion -/

/-- The two ways an entry and a range can fail to meet are the two other branches of the loop. -/
def Touches (offset length : Int) (ent : RangeEnt) : Prop :=
  (length = rangeListMax ∨ ent.offset ≤ offset + length)
    ∧ (ent.length = rangeListMax ∨ offset ≤ ent.offset + ent.length)

/-- The branch the loop takes at an entry, in terms of the plain ends. -/
theorem insertEnts_cons (next : List RangeEnt) (hv : RangeValid offset length) (he : RangeValid ent.offset ent.length) :
    (length ≠ rangeListMax ∧ offset + length < ent.offset
        ∧ insertEnts offset length (ent :: next) = (⟨offset, length⟩ :: ent :: next, 1))
    ∨ (Touches offset length ent ∧ insertEnts offset length (ent :: next)
          = joinNext (rangeEnd offset length) (grown offset length ent) next)
    ∨ (ent.length ≠ rangeListMax ∧ ent.offset + ent.length < offset ∧ insertEnts offset length (ent :: next)
          = (ent :: (insertEnts offset length next).1, (insertEnts offset length next).2)) := by
  rw [← insertIntoEnt_eq hv he]
  have hend := rangeEnd_of_valid hv
  have hentEnd := rangeEnd_of_valid he
  obtain ⟨h0, h1, h2⟩ := hv
  obtain ⟨e0, e1, e2⟩ := he
  have hm := rangeListMax_eq
  simp only [insertEnts, Touches]
  split
  · exact .inl ⟨by omega, by omega, rfl⟩
  · split
    · exact .inr (.inl ⟨⟨by omega, by omega⟩, rfl⟩)
    · exact .inr (.inr ⟨by omega, by omega, rfl⟩)

/-- The extended entry covers the old entry and the range, which touch. -/
theorem grown_bytes (hv : RangeValid offset length) (he : RangeValid ent.offset ent.length)
    (ht : Touches offset length ent) : RangeValid (grown offset length ent).offset (grown offset length ent).length
      ∧ rangeBytes (grown offset length ent).offset (grown offset length ent).length
        = rangeBytes ent.offset ent.length ∪ rangeBytes offset length := by
  obtain ⟨h0, h1, h2⟩ := hv
  obtain ⟨e0, e1, e2⟩ := he
  obtain ⟨t1, t2⟩ := ht
  have hm := rangeListMax_eq
  simp only [grown]
  refine ⟨⟨by omega, by omega, by omega⟩, ?_⟩
  ext x
  simp only [mem_rangeBytes, mem_union]
  omega

section

variable (hm : RangeValid m.offset m.length)

include hm

/-- What joining with a reached successor amounts to: the entry gets the successor's end. -/
theorem joinNext_of_le (hnx : RangeValid nx.offset nx.length) (hge : nx.offset ≤ endOffset) :
    joinNext endOffset m (nx :: rest) = (⟨m.offset, if nx.length = rangeListMax then rangeListMax
          else nx.offset + nx.length - m.offset⟩ :: rest, -1) := by
  obtain ⟨m0, m1, -⟩ := hm
  obtain ⟨n0, n1, n2⟩ := hnx
  simp only [joinNext, ge_iff_le, hge, if_true]
  by_cases h : nx.length = rangeListMax
  · rw [if_pos h, if_pos h]
  · unfold offMax at *
    rw [offAdd_eq (by unfold OffFits; omega), offSub_eq (by unfold OffFits; omega)]

omit hm in
theorem joinNext_of_lt (hlt : endOffset < nx.offset) : joinNext endOffset m (nx :: rest) = (m :: nx :: rest, 0) := by
  simp only [joinNext, ge_iff_le, not_le.mpr hlt, if_false]

/-- Joining keeps the chain well formed: either the successor is absorbed, or the extended entry
stops short of it.  Whether bytes are lost is another matter. -/
theorem joinNext_wf (hne : m.length ≠ rangeListMax) (hw : WfEnts (nx :: rest))
    (hlo : m.offset ≤ nx.offset) (hlt : endOffset < nx.offset → m.offset + m.length < nx.offset) :
    WfEnts (joinNext endOffset m (nx :: rest)).1 := by
  obtain ⟨hnx, hb, hwr⟩ := wfEnts_cons.mp hw
  rcases lt_or_ge endOffset nx.offset with h | h
  · rw [joinNext_of_lt h]
    exact wfEnts_cons.mpr ⟨hm, chain ⟨hne, hlt h⟩ hw, hw⟩
  · rw [joinNext_of_le hm hnx h]
    obtain ⟨m0, m1, -⟩ := hm
    obtain ⟨n0, n1, n2⟩ := hnx
    refine wfEnts_cons.mpr ⟨⟨m0, m1, ?_⟩, ?_, hwr⟩
    · dsimp only
      split <;> omega
    · intro x hx
      obtain ⟨h1, h2⟩ := hb x hx
      unfold RangeEnt.Before
      dsimp only
      unfold rangeListMax at *
      omega

/-- Joining gains no byte: an absorbed successor is one that the extended entry reaches. -/
theorem joinNext_subset (hw : WfEnts (nx :: rest)) (hlo : m.offset ≤ nx.offset)
    (hge : nx.offset ≤ endOffset → m.length = rangeListMax ∨ nx.offset ≤ m.offset + m.length) :
    entsBytes (joinNext endOffset m (nx :: rest)).1 ⊆ rangeBytes m.offset m.length ∪ entsBytes (nx :: rest) := by
  obtain ⟨hnx, -, -⟩ := wfEnts_cons.mp hw
  rcases lt_or_ge endOffset nx.offset with h | h
  · rw [joinNext_of_lt h, entsBytes_cons]
  · rw [joinNext_of_le hm hnx h, entsBytes_cons, entsBytes_cons, ← union_assoc]
    refine union_subset_union_left _ ?_
    have := hnx.2.2
    intro x hx
    simp only [mem_rangeBytes, mem_union] at hx ⊢
    unfold rangeListMax at *
    split at hx <;> omega

/-- Joining with the successor loses nothing when the extended entry reaches no further than the
successor does. -/
theorem subset_joinNext (hw : WfEnts (nx :: rest)) (hlo : m.offset ≤ nx.offset)
    (hle : nx.offset ≤ endOffset → nx.length = rangeListMax
      ∨ (m.length ≠ rangeListMax ∧ m.offset + m.length ≤ nx.offset + nx.length)) :
    rangeBytes m.offset m.length ∪ entsBytes (nx :: rest) ⊆ entsBytes (joinNext endOffset m (nx :: rest)).1 := by
  obtain ⟨hnx, -, -⟩ := wfEnts_cons.mp hw
  rcases lt_or_ge endOffset nx.offset with h | h
  · rw [joinNext_of_lt h]
    exact (entsBytes_cons _ _).symm.subset
  · rw [joinNext_of_le hm hnx h, entsBytes_cons, entsBytes_cons, ← union_assoc]
    refine union_subset_union_left _ ?_
    intro x hx
    simp only [mem_rangeBytes, mem_union] at hx ⊢
    split <;> omega

end

section

variable (hv : RangeValid offset length)

include hv

/-- The extended entry against the chain behind the entry it comes from. -/
theorem grown_next {ent nx : RangeEnt} (hw : WfEnts (ent :: nx :: rest)) : (grown offset length ent).offset ≤ nx.offset
      ∧ (length ≠ rangeListMax → (grown offset length ent).length ≠ rangeListMax ∧ (nx.offset ≤ rangeEnd offset length ↔
              nx.offset ≤ (grown offset length ent).offset + (grown offset length ent).length)
          ∧ (nx.offset ≤ rangeEnd offset length →
              (grown offset length ent).offset + (grown offset length ent).length = offset + length)) := by
  obtain ⟨he, hb, -⟩ := wfEnts_cons.mp hw
  obtain ⟨hbe, hblt⟩ := hb nx (by simp)
  have hpos := he.2.2.resolve_left hbe
  have hend := rangeEnd_of_valid hv
  have hm := rangeListMax_eq
  simp only [grown]
  exact ⟨by omega, fun hne => ⟨by omega, by omega, by omega⟩⟩

/-- A bounded range always leaves a well-formed chain, an unbounded one does under the condition. -/
theorem insertEnts_wf : ∀ {ents : List RangeEnt}, WfEnts ents →
    (length = rangeListMax → InsertOk ents offset length) → WfEnts (insertEnts offset length ents).1
  | [], _, _ => wfEnts_cons.mpr ⟨hv, by simp, wfEnts_nil⟩
  | ent :: next, hw, hok => by
    obtain ⟨he, hb, hwn⟩ := wfEnts_cons.mp hw
    rcases insertEnts_cons next hv he with ⟨hne, hlt, heq⟩ | ⟨ht, heq⟩ | ⟨hbe, hlt, heq⟩
    · rw [heq]
      exact wfEnts_cons.mpr ⟨hv, chain ⟨hne, hlt⟩ hw, hw⟩
    · rw [heq]
      obtain ⟨hmv, -⟩ := grown_bytes hv he ht
      match next, hw, hb, hwn with
      | [], _, _, _ => exact wfEnts_cons.mpr ⟨hmv, by simp, wfEnts_nil⟩
      | nx :: rest, hw, hb, hwn =>
        have hne : length ≠ rangeListMax := fun hl => by
          have hle := ht.2.resolve_left (hb nx (by simp)).1
          exact (((insertOk_cons hw).mp (hok hl)).1 nx (by simp) hle).1 hl
        obtain ⟨hlo, h⟩ := grown_next hv hw
        obtain ⟨h1, h2, -⟩ := h hne
        exact joinNext_wf hmv h1 hwn hlo fun hlt =>
          not_le.mp fun hle => absurd (h2.mpr hle) (not_le.mpr hlt)
    · rw [heq]
      refine wfEnts_cons.mpr ⟨he, ?_, insertEnts_wf hwn fun hl => ((insertOk_cons hw).mp (hok hl)).2⟩
      intro x hx
      exact ⟨hbe, insertEnts_lt_offset hv hlt hwn.valid (fun y hy => (hb y hy).2) x hx⟩

/-- No insertion gains a byte. -/
theorem insertEnts_subset : ∀ {ents : List RangeEnt}, WfEnts ents →
      entsBytes (insertEnts offset length ents).1 ⊆ entsBytes ents ∪ rangeBytes offset length
  | [], _ => by simp [insertEnts]
  | ent :: next, hw => by
    obtain ⟨he, hb, hwn⟩ := wfEnts_cons.mp hw
    rcases insertEnts_cons next hv he with ⟨-, -, heq⟩ | ⟨ht, heq⟩ | ⟨-, -, heq⟩
    · rw [heq, entsBytes_cons, union_comm]
    · obtain ⟨hmv, hmb⟩ := grown_bytes hv he ht
      rw [heq, entsBytes_cons, union_right_comm, ← hmb]
      match next, hw, hwn with
      | [], _, _ => simp [joinNext]
      | nx :: rest, hw, hwn =>
        refine joinNext_subset hmv hwn (grown_next hv hw).1 fun hge => ?_
        by_cases hl : length = rangeListMax
        · exact .inl (if_pos (.inl hl))
        · exact .inr (((grown_next hv hw).2 hl).2.1.mp hge)
    · rw [heq, entsBytes_cons, entsBytes_cons, union_assoc]
      exact union_subset_union_right _ (insertEnts_subset hwn)

/-- Under the condition no byte is lost either. -/
theorem subset_insertEnts : ∀ {ents : List RangeEnt}, WfEnts ents → InsertOk ents offset length →
      entsBytes ents ∪ rangeBytes offset length ⊆ entsBytes (insertEnts offset length ents).1
  | [], _, _ => by simp [insertEnts]
  | ent :: next, hw, hok => by
    obtain ⟨he, hb, hwn⟩ := wfEnts_cons.mp hw
    obtain ⟨hok1, hokn⟩ := (insertOk_cons hw).mp hok
    rcases insertEnts_cons next hv he with ⟨-, -, heq⟩ | ⟨ht, heq⟩ | ⟨-, -, heq⟩
    · rw [heq, union_comm]
      exact (entsBytes_cons ⟨offset, length⟩ (ent :: next)).symm.subset
    · obtain ⟨hmv, hmb⟩ := grown_bytes hv he ht
      rw [heq, entsBytes_cons, union_right_comm, ← hmb]
      match next, hw, hb, hwn, hok1 with
      | [], _, _, _, _ => simp [joinNext]
      | nx :: rest, hw, hb, hwn, hok1 =>
        obtain ⟨hbe, -⟩ := hb nx (by simp)
        obtain ⟨hne, hcase⟩ := hok1 nx (by simp) (ht.2.resolve_left hbe)
        obtain ⟨hlo, h⟩ := grown_next hv hw
        obtain ⟨h1, -, h3⟩ := h hne
        refine subset_joinNext hmv hwn hlo fun hge => ?_
        have hend := h3 hge
        rw [rangeEnd_of_valid hv, if_neg hne] at hge
        rcases hcase with hc | hc | hc
        · exact absurd hge (not_le.mpr hc)
        · exact .inl hc
        · exact .inr ⟨h1, by rw [hend]; exact hc⟩
    · rw [heq, entsBytes_cons, entsBytes_cons, union_assoc]
      exact union_subset_union_right _ (subset_insertEnts hwn hokn)

/-- The loop walks past the entries that end before the range. -/
theorem insertEnts_append_of_before
    {passed : List RangeEnt} (hp : ∀ p ∈ passed, RangeValid p.offset p.length)
    (hb : ∀ p ∈ passed, p.Before ⟨offset, length⟩) (ents : List RangeEnt) : insertEnts offset length (passed ++ ents)
      = (passed ++ (insertEnts offset length ents).1, (insertEnts offset length ents).2) := by
  induction passed with
  | nil => rfl
  | cons p passed ih =>
    obtain ⟨hp1, hp2⟩ := forall_mem_cons.mp hp
    obtain ⟨hb1, hb2⟩ := forall_mem_cons.mp hb
    obtain ⟨hpl, hpo⟩ := hb1
    rcases insertEnts_cons (passed ++ ents) hv hp1 with ⟨hne, hlt, -⟩ | ⟨ht, -⟩ | ⟨-, -, heq⟩
    · have := hp1.2.2.resolve_left hpl
      have := hv.2.2.resolve_left hne
      dsimp only at hpo
      omega
    · exact absurd (ht.2.resolve_left hpl) (not_le.mpr hpo)
    · rw [cons_append, heq, ih hp2 hb2, cons_append]

/-- A range behind all entries is appended. -/
theorem insert_of_before {l : RangeList} (hl : ∀ p ∈ l.head, RangeValid p.offset p.length)
    (hb : ∀ p ∈ l.head, p.Before ⟨offset, length⟩) (hs : l.size = l.head.length) :
    l.insert offset length = (.success, ⟨l.size + 1, l.head ++ [⟨offset, length⟩]⟩) := by
  have hm := rangeListMax_eq
  have heq := insertEnts_append_of_before hv hl hb []
  rw [append_nil] at heq
  obtain ⟨v0, -, v2⟩ := hv
  unfold RangeList.insert
  rw [if_neg (by omega), if_neg (by omega), heq]
  by_cases hnil : l.head = []
  · rw [if_pos hnil, hs, hnil]
    rfl
  · rw [if_neg hnil]
    rfl

end

/-! ## 4. The condition is exact -/

/-- Entries that all start beyond `x` do not cover `x`. -/
theorem not_mem_entsBytes {x : Int} (h : ∀ y ∈ ents, x < y.offset) : x ∉ entsBytes ents := by
  rw [mem_entsBytes]
  rintro ⟨y, hy, hx⟩
  exact absurd (mem_rangeBytes.mp hx).1 (not_le.mpr (h y hy))

/-- What decides between right and wrong is the first successor alone: everything behind it starts
beyond its end. -/
theorem insertOk_of_next {ent nx : RangeEnt} (hw : WfEnts (ent :: nx :: rest)) (hne : length ≠ rangeListMax)
    (hstop : offset + length < nx.offset ∨ nx.length = rangeListMax ∨ offset + length ≤ nx.offset + nx.length) :
    InsertOk (ent :: nx :: rest) offset length := by
  obtain ⟨-, -, hwn⟩ := wfEnts_cons.mp hw
  obtain ⟨hnx, hbn, -⟩ := wfEnts_cons.mp hwn
  have hrest : ∀ y ∈ rest, offset + length < y.offset := by
    intro y hy
    obtain ⟨h1, h2⟩ := hbn y hy
    have := hnx.2.2.resolve_left h1
    rcases hstop with h | h | h
    · omega
    · exact absurd h h1
    · omega
  refine (insertOk_cons hw).mpr ⟨?_, (insertOk_cons hwn).mpr ⟨?_, ?_⟩⟩
  · exact forall_mem_cons.mpr ⟨fun _ => ⟨hne, hstop⟩, fun y hy _ => ⟨hne, .inl (hrest y hy)⟩⟩
  · exact fun y hy _ => ⟨hne, .inl (hrest y hy)⟩
  · exact insertOk_of_lt hne hrest

/-- The condition says nothing about entries the range lies behind. -/
theorem insertOk_cons_behind (hw : WfEnts (ent :: next)) (hlt : ent.offset + ent.length < offset)
    (hok : InsertOk next offset length) : InsertOk (ent :: next) offset length :=
  (insertOk_cons hw).mpr ⟨fun _ _ hle => absurd hle (not_le.mpr hlt), hok⟩

theorem insertOk_cons_front (hw : WfEnts (ent :: next)) (hne : length ≠ rangeListMax)
    (hlt : offset + length < ent.offset) : InsertOk (ent :: next) offset length := by
  exact insertOk_of_lt hne fun y hy => ((chain (a := ⟨offset, length⟩) ⟨hne, hlt⟩ hw) y hy).2

/-- **A bounded range is covered only under the condition.**  A range that runs past a joined
successor leaves the byte at the end of the successor uncovered. -/
theorem insertOk_of_covered (hv : RangeValid offset length)
    (hne : length ≠ rangeListMax) : ∀ {ents : List RangeEnt}, WfEnts ents →
      rangeBytes offset length ⊆ entsBytes (insertEnts offset length ents).1 → InsertOk ents offset length
  | [], _, _ => fun x hx => absurd hx (by simp)
  | ent :: next, hw, hcov => by
    obtain ⟨he, hb, hwn⟩ := wfEnts_cons.mp hw
    rcases insertEnts_cons next hv he with ⟨-, hlt, heq⟩ | ⟨ht, heq⟩ | ⟨hbe, hlt, heq⟩
    · exact insertOk_cons_front hw hne hlt
    · rw [heq] at hcov
      match next, hw, hb, hwn with
      | [], hw, _, _ => exact insertOk_singleton hw
      | nx :: rest, hw, hb, hwn =>
        refine insertOk_of_next hw hne ?_
        by_contra hcon
        simp only [not_or, not_lt, not_le] at hcon
        obtain ⟨hge, hnl, hgt⟩ := hcon
        obtain ⟨hnx, hbn, -⟩ := wfEnts_cons.mp hwn
        obtain ⟨hmv, -⟩ := grown_bytes hv he ht
        have hbe := hb nx (by simp)
        have h1 := ht.2.resolve_left hbe.1
        have h2 := hnx.2.2.resolve_left hnl
        have hge' : nx.offset ≤ rangeEnd offset length := by
          rw [rangeEnd_of_valid hv, if_neg hne]
          exact hge
        have hmem : nx.offset + nx.length ∈ rangeBytes offset length :=
          mem_rangeBytes.mpr ⟨by have := hbe.2; omega, .inr hgt⟩
        have := hcov hmem
        rw [joinNext_of_le hmv hnx hge', if_neg hnl, entsBytes_cons] at this
        rcases this with h | h
        · have := (mem_rangeBytes.mp h).2
          unfold rangeListMax at *
          dsimp only at this
          have := (grown_next hv hw).1
          omega
        · exact not_mem_entsBytes (fun y hy => (hbn y hy).2) h
    · refine insertOk_cons_behind hw hlt (insertOk_of_covered hv hne hwn ?_)
      rw [heq, entsBytes_cons] at hcov
      intro x hx
      refine (hcov hx).resolve_left fun hxe => ?_
      have h1 := (mem_rangeBytes.mp hxe).2.resolve_left hbe
      have h2 := (mem_rangeBytes.mp hx).1
      omega

/-- **An unbounded range leaves a well-formed chain only under the condition**: otherwise the
entry it makes unbounded has a successor. -/
theorem insertOk_of_wf {offset : Int} (hv : RangeValid offset rangeListMax) :
    ∀ {ents : List RangeEnt}, WfEnts ents → WfEnts (insertEnts offset rangeListMax ents).1 →
      InsertOk ents offset rangeListMax
  | [], _, _ => fun x hx => absurd hx (by simp)
  | ent :: next, hw, hr => by
    obtain ⟨he, hb, hwn⟩ := wfEnts_cons.mp hw
    rcases insertEnts_cons next hv he with ⟨h, -, -⟩ | ⟨ht, heq⟩ | ⟨-, hlt, heq⟩
    · exact absurd rfl h
    · rw [heq] at hr
      match next, hw, hwn with
      | [], hw, _ => exact insertOk_singleton hw
      | nx :: rest, hw, hwn =>
        obtain ⟨hnx, -, -⟩ := wfEnts_cons.mp hwn
        have hlt : rangeEnd offset rangeListMax < nx.offset := by
          rw [rangeEnd, if_pos rfl]
          have := hnx.1
          unfold rangeListMax
          omega
        rw [joinNext_of_lt hlt, grown, if_pos (.inl rfl)] at hr
        exact absurd rfl ((wfEnts_cons.mp hr).2.1 nx (by simp)).1
    · rw [heq] at hr
      exact insertOk_cons_behind hw hlt (insertOk_of_wf hv hwn (wfEnts_cons.mp hr).2.2)

/-- The loop of the insertion, exactly. -/
theorem insertEnts_correct_iff (hv : RangeValid offset length) (hw : WfEnts ents) :
    (WfEnts (insertEnts offset length ents).1
        ∧ entsBytes (insertEnts offset length ents).1 = entsBytes ents ∪ rangeBytes offset length)
      ↔ InsertOk ents offset length := by
  constructor
  · rintro ⟨hr, hb⟩
    by_cases hl : length = rangeListMax
    · subst hl
      exact insertOk_of_wf hv hw hr
    · exact insertOk_of_covered hv hl hw (hb ▸ subset_union_right)
  · intro hok
    exact ⟨insertEnts_wf hv hw fun _ => hok, Set.Subset.antisymm (insertEnts_subset hv hw) (subset_insertEnts hv hw hok)⟩

/-- **One insertion, exactly.**  On a well-formed list, inserting a valid range gives a
well-formed list with the bytes of the range added if and only if `InsertOk` holds. -/
theorem insert_correct_iff {l : RangeList} (hw : l.WellFormed) (hv : RangeValid offset length) :
    ((l.insert offset length).2.WellFormed ∧ (l.insert offset length).2.bytes = l.bytes ∪ rangeBytes offset length)
      ↔ InsertOk l.head offset length := by
  have h0 : ¬ offset < 0 := not_lt.mpr hv.1
  have hl : length ≠ 0 := by
    rcases hv.2.2 with h | h
    · rw [h]
      decide
    · omega
  by_cases hnil : l.head = []
  · have : (l.insert offset length).2 = ⟨1, [⟨offset, length⟩]⟩ := by
      simp [RangeList.insert, h0, hl, hnil]
    rw [this]
    constructor
    · intro _ x hx
      exact absurd (hnil ▸ hx) (by simp)
    · intro _
      refine ⟨⟨wfEnts_cons.mpr ⟨hv, by simp, wfEnts_nil⟩, rfl⟩, ?_⟩
      simp [bytes, hnil]
  · have : (l.insert offset length).2
        = ⟨l.size + (insertEnts offset length l.head).2, (insertEnts offset length l.head).1⟩ := by
      simp [RangeList.insert, h0, hl, hnil]
    rw [this]
    constructor
    · rintro ⟨hwr, hb⟩
      exact (insertEnts_correct_iff hv hw.ents).mp ⟨hwr.ents, hb⟩
    · intro hok
      obtain ⟨h1, h2⟩ := (insertEnts_correct_iff hv hw.ents).mpr hok
      refine ⟨⟨h1, ?_⟩, h2⟩
      rw [insertEnts_length, hw.size_eq]

/-! ## 5. Runs -/

/-- The list after a sequence of insertions `(offset, length)`. -/
def insertAll (l : RangeList) (ops : List (Int × Int)) : RangeList :=
  ops.foldl (fun l op => (l.insert op.1 op.2).2) l

/-- Every step of the run meets the condition on the list it finds. -/
def InsertsOk : RangeList → List (Int × Int) → Prop
  | _, [] => True
  | l, op :: ops =>
    RangeValid op.1 op.2 ∧ InsertOk l.head op.1 op.2 ∧ InsertsOk (l.insert op.1 op.2).2 ops

instance decInsertsOk : ∀ (l : RangeList) (ops : List (Int × Int)), Decidable (InsertsOk l ops)
  | _, [] => inferInstanceAs (Decidable True)
  | l, op :: ops =>
    have := decInsertsOk (l.insert op.1 op.2).2 ops
    inferInstanceAs (Decidable (_ ∧ _ ∧ _))

/-- The bytes a sequence of insertions asks for. -/
def opsBytes (ops : List (Int × Int)) : Set Int := ⋃ op ∈ ops, rangeBytes op.1 op.2

theorem opsBytes_cons (op : Int × Int) (ops : List (Int × Int)) :
    opsBytes (op :: ops) = rangeBytes op.1 op.2 ∪ opsBytes ops := by
  simp [opsBytes, iUnion_or, iUnion_union_distrib]

theorem opsBytes_perm {ops ops' : List (Int × Int)} (h : ops'.Perm ops) : opsBytes ops' = opsBytes ops := by
  ext x
  simp only [opsBytes, mem_iUnion, exists_prop]
  exact exists_congr fun op => and_congr_left fun _ => h.mem_iff

/-- The run lemma: a run all of whose steps meet the condition keeps the list well formed and
collects the bytes. -/
theorem insertAll_spec : ∀ (ops : List (Int × Int)) {l : RangeList}, l.WellFormed → InsertsOk l ops →
      (insertAll l ops).WellFormed ∧ (insertAll l ops).bytes = l.bytes ∪ opsBytes ops
  | [], l, hw, _ => ⟨hw, by simp [insertAll, opsBytes]⟩
  | op :: ops, l, hw, ⟨hv, hok, hrest⟩ => by
    obtain ⟨hw', hb'⟩ := (insert_correct_iff hw hv).mpr hok
    obtain ⟨h1, h2⟩ := insertAll_spec ops hw' hrest
    refine ⟨h1, ?_⟩
    rw [opsBytes_cons, ← union_assoc, ← hb']
    exact h2

/-- **Insertion along a run.**  From the empty list, a sequence of insertions each of which meets
`InsertOk` on the list it finds yields a well-formed list, `size` included, that denotes exactly
the union of the ranges; any reordering whose steps meet the condition too yields the very same
list; and the next insertion is right exactly when it meets the condition. -/
theorem insertAll_correct (ops : List (Int × Int)) (hok : InsertsOk .init ops) :
    (insertAll .init ops).WellFormed
      ∧ (insertAll .init ops).bytes = opsBytes ops
      ∧ (∀ ops' : List (Int × Int), ops'.Perm ops → InsertsOk .init ops' →
          insertAll .init ops' = insertAll .init ops)
      ∧ ∀ offset length : Int, RangeValid offset length →
          (((insertAll .init (ops ++ [(offset, length)])).WellFormed
              ∧ (insertAll .init (ops ++ [(offset, length)])).bytes
                = opsBytes (ops ++ [(offset, length)]))
            ↔ InsertOk (insertAll .init ops).head offset length) := by
  have hempty : init.bytes = ∅ := by simp [init, bytes]
  obtain ⟨hw, hb⟩ := insertAll_spec ops wellFormed_init hok
  rw [hempty, empty_union] at hb
  refine ⟨hw, hb, ?_, ?_⟩
  · intro ops' hperm hok'
    obtain ⟨hw', hb'⟩ := insertAll_spec ops' wellFormed_init hok'
    rw [hempty, empty_union, opsBytes_perm hperm] at hb'
    exact hw'.eq_of_bytes_eq hw (hb'.trans hb.symm)
  · intro offset length hv
    have hsnoc : insertAll .init (ops ++ [(offset, length)])
        = ((insertAll .init ops).insert offset length).2 := by
      simp [insertAll, foldl_append]
    have hobs : opsBytes (ops ++ [(offset, length)])
        = (insertAll .init ops).bytes ∪ rangeBytes offset length := by
      rw [opsBytes_perm (perm_append_singleton _ _), opsBytes_cons, hb, union_comm]
    rw [hsnoc, hobs]
    exact insert_correct_iff hw hv

/-- Three blocks that arrive out of order and meet the condition at every step. -/
theorem insertAll_correct_out_of_order : InsertsOk .init [(0, 10), (20, 10), (10, 10)]
      ∧ (insertAll .init [(0, 10), (20, 10), (10, 10)]).bytes
        = opsBytes [(0, 10), (20, 10), (10, 10)] :=
  ⟨by decide, (insertAll_correct [(0, 10), (20, 10), (10, 10)] (by decide)).2.1⟩

/-- **Where insertion loses bytes.**  With `[0,1)` and `[2,3)` in the list, inserting `[0,4)`
gives `[0,3)`: byte 3 is gone. -/
theorem insertAll_loses_byte :
    (∀ op ∈ [((0 : Int), (1 : Int)), (2, 1), (0, 4)], RangeValid op.1 op.2)
      ∧ ¬ (insertAll .init [(0, 1), (2, 1), (0, 4)]).bytes = opsBytes [(0, 1), (2, 1), (0, 4)] := by
  refine ⟨by decide, ?_⟩
  have hl : insertAll .init [(0, 1), (2, 1), (0, 4)] = ⟨1, [⟨0, 3⟩]⟩ := by decide
  rw [hl]
  intro h
  have h3 : (3 : Int) ∈ opsBytes [(0, 1), (2, 1), (0, 4)] := by
    simp only [opsBytes, mem_iUnion]
    exact ⟨(0, 4), by simp, mem_rangeBytes.mpr (by decide)⟩
  rw [← h] at h3
  simp [bytes, rangeListMax] at h3

end Gct
