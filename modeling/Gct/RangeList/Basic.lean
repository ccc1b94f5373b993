/-
# Range lists (`globus_range_list.c`)

A `globus_range_list_t` holds byte ranges as a singly linked list of entries `(offset, length)`
and a count of the entries.  The length `GLOBUS_RANGE_LIST_MAX`, which is `-1`, stands for "to
infinity", and every comparison against an end offset in the C text has to treat it apart.

This file is the model of the whole C file, function by function, in the order of the source.
The chain of `next` pointers from `head` is a `List`, so the loops over `prev`/`ent`/`next` become
recursions that return the rebuilt chain together with the change of `size`.  Handles are never
`NULL` here and allocation does not fail; the one pointer that the code dereferences without a
check, `prev` in `globus_range_list_merge_destructive`, is modelled, and following it when it is
`NULL` makes the result `none`.

What a list MEANS is the set of bytes it covers (`RangeList.bytes`), and what a list should look
like is `RangeList.WellFormed`: entries strictly increasing, neither overlapping nor touching, only
the last one unbounded, and `size` the number of entries.  Both are read off the interval lists of
`Lib/Intervals.lean`, so well-formed lists with the same bytes are equal (`WfEnts.eq_of_bytes_eq`).
-/
import Gct.Lib.Intervals
import Gct.Off
import Mathlib.Data.List.Basic

namespace Gct

open IvlList List

/-! ## 1. The data -/

/-- `GLOBUS_RANGE_LIST_MAX`: the length of a range without an end. -/
def rangeListMax : Int := -1

theorem rangeListMax_eq : rangeListMax = -1 := rfl

/-- `globus_l_range_ent_t`, without its link. -/
structure RangeEnt where
  offset : Int
  length : Int
deriving DecidableEq, Repr

/-- `globus_l_range_list_t`: `head` is the chain of entries reached from the head pointer. -/
structure RangeList where
  size : Int
  head : List RangeEnt
deriving DecidableEq, Repr

/-- The return codes: `GLOBUS_SUCCESS` and `globus_range_list_error_type_t`. -/
inductive RangeListRc
  | success
  | errorParameter
  | errorMemory
deriving DecidableEq, Repr

variable (l : RangeList) (offset length : Int) (src1 src2 : RangeList)

/-- The end of a range, as every function of the file computes it for the ranges it compares:
the sentinel is passed on, and is itself no offset. -/
def rangeEnd : Int :=
  if length = rangeListMax then rangeListMax else offAdd offset length

/-- `globus_range_list_init`. -/
def RangeList.init : RangeList := ⟨0, []⟩

/-! ## 2. The destructive merge -/

/-- The join with ONE successor, common to `globus_range_list_merge_destructive` and
`globus_range_list_insert`: if the incoming range reaches `next`, the entry takes over the end of
`next`, whatever end it had. -/
def joinNext (endOffset : Int) (ent : RangeEnt) : List RangeEnt → List RangeEnt × Int
  | [] => ([ent], 0)
  | next :: rest =>
    if endOffset ≥ next.offset then
      ({ ent with
          length := if next.length = rangeListMax then rangeListMax
            else offSub (offAdd next.offset next.length) ent.offset } :: rest, -1)
    else (ent :: next :: rest, 0)

/-- The merge of `curr2` into `curr1`.  When `curr1` is extended to the left its length stays. -/
def mergeIntoEnt (curr2 curr1 : RangeEnt) : RangeEnt :=
  let curr2End := rangeEnd curr2.offset curr2.length
  let curr1End := rangeEnd curr1.offset curr1.length
  let curr1 := if curr2.offset < curr1.offset then { curr1 with offset := curr2.offset } else curr1
  if curr2End = rangeListMax ∨ curr1End = rangeListMax then { curr1 with length := rangeListMax }
  else if curr2End > curr1End then { curr1 with length := offSub curr2End curr1.offset }
  else curr1

/-- The inner `while(ent1 != NULL && !done)`: place `curr2` into the chain that starts at `ent1`.
The first component is the part of the chain that was passed; the second is the chain from the
new `ent1` on with the change of `size`, or `none` when the scan ran off the end.  `prev` says
whether the pointer of that name is set, and the result is `none` when it is followed unset. -/
def mergeScan (curr2 : RangeEnt) :
    Bool → List RangeEnt → Option (List RangeEnt × Option (List RangeEnt × Int))
  | prev, [] => if prev then some ([], none) else none
  | prev, curr1 :: next =>
    let curr2End := rangeEnd curr2.offset curr2.length
    let curr1End := rangeEnd curr1.offset curr1.length
    if curr2End < curr1.offset ∧ curr2End ≠ rangeListMax then
      if prev then some ([], some (curr2 :: curr1 :: next, 1)) else none
    else if (curr2End ≥ curr1.offset ∨ curr2End = rangeListMax)
        ∧ (curr2.offset ≤ curr1End ∨ curr1End = rangeListMax) then
      some ([], some (joinNext curr2End (mergeIntoEnt curr2 curr1) next))
    else
      match mergeScan curr2 true next with
      | none => none
      | some (passed, r) => some (curr1 :: passed, r)

/-- The outer `while(ent2)`, from the chain `ent1` on: the rebuilt chain and `size_inc`. -/
def mergeLoop : List RangeEnt → List RangeEnt → Int → Int → Option (List RangeEnt × Int)
  | [], ent1, _, sizeInc => some (ent1, sizeInc)
  | curr2 :: rest, ent1, ent2Size, sizeInc =>
    match mergeScan curr2 false ent1 with
    | none => none
    | some (passed, none) => some (passed ++ curr2 :: rest, sizeInc + ent2Size)
    | some (passed, some (ent1', inc)) =>
      match mergeLoop rest ent1' (ent2Size - 1) (sizeInc + inc) with
      | none => none
      | some (chain, sizeInc') => some (passed ++ chain, sizeInc')

/-- `globus_range_list_merge_destructive`: the new list, and the two sources afterwards. -/
def RangeList.mergeDestructive : Option (RangeList × RangeList × RangeList) :=
  let emptied : RangeList := ⟨0, []⟩
  let run (ent1 ent2 : RangeList) : Option (RangeList × RangeList × RangeList) :=
    match mergeLoop ent2.head ent1.head ent2.size 0 with
    | none => none
    | some (chain, sizeInc) => some (⟨ent1.size + sizeInc, chain⟩, emptied, emptied)
  match src1.head, src2.head with
  | [], _ => some (src2, emptied, emptied)
  | _, [] => some (src1, emptied, emptied)
  | e1 :: _, e2 :: _ => if e1.offset ≤ e2.offset then run src1 src2 else run src2 src1

/-- `globus_range_list_copy`. -/
def RangeList.copy (src : RangeList) : RangeList :=
  ⟨src.size, src.head.map fun e => ⟨e.offset, e.length⟩⟩

/-- `globus_range_list_merge`: the destructive merge of two copies, then both sources. -/
def RangeList.merge : Option (RangeList × RangeList × RangeList) :=
  match src1.copy.mergeDestructive src2.copy with
  | none => none
  | some (dest, _, _) => some (dest, src1, src2)

/-! ## 3. Insertion -/

/-- The merge of the range to insert into `ent`. -/
def insertIntoEnt (offset endOffset : Int) (ent : RangeEnt) : RangeEnt :=
  let entEnd := rangeEnd ent.offset ent.length
  let ent : RangeEnt := if offset < ent.offset then
      ⟨offset, if ent.length ≠ rangeListMax then offAdd ent.length (offSub ent.offset offset)
        else ent.length⟩
    else ent
  if endOffset = rangeListMax ∨ entEnd = rangeListMax then { ent with length := rangeListMax }
  else if endOffset > entEnd then { ent with length := offSub endOffset ent.offset }
  else ent

/-- The loop of `globus_range_list_insert` from `ent` on: the rebuilt chain and the change of
`size`. -/
def insertEnts (offset length : Int) : List RangeEnt → List RangeEnt × Int
  | [] => ([⟨offset, length⟩], 1)
  | ent :: next =>
    let endOffset := rangeEnd offset length
    let entEnd := rangeEnd ent.offset ent.length
    if endOffset < ent.offset ∧ endOffset ≠ rangeListMax then
      (⟨offset, length⟩ :: ent :: next, 1)
    else if (endOffset ≥ ent.offset ∨ endOffset = rangeListMax)
        ∧ (offset ≤ entEnd ∨ entEnd = rangeListMax) then
      joinNext endOffset (insertIntoEnt offset endOffset ent) next
    else
      (ent :: (insertEnts offset length next).1, (insertEnts offset length next).2)

variable (ents : List RangeEnt)

/-- `globus_range_list_insert`. -/
def RangeList.insert : RangeListRc × RangeList :=
  if offset < 0 then (.errorParameter, l)
  else if length = 0 then (.success, l)
  else if l.head = [] then (.success, ⟨1, [⟨offset, length⟩]⟩)
  else
    (.success, ⟨l.size + (insertEnts offset length l.head).2, (insertEnts offset length l.head).1⟩)

/-! ## 4. Removal -/

/-- The loop of `globus_range_list_remove` from `ent` on: the rebuilt chain and the change of
`size`. -/
def removeEnts (offset length : Int) : List RangeEnt → List RangeEnt × Int
  | [] => ([], 0)
  | ent :: next =>
    let endOffset := rangeEnd offset length
    let entEnd := rangeEnd ent.offset ent.length
    -- "this range is all foul, remove it"
    if ent.offset ≥ offset
        ∧ ((entEnd ≤ endOffset ∧ entEnd ≠ rangeListMax) ∨ endOffset = rangeListMax) then
      ((removeEnts offset length next).1, (removeEnts offset length next).2 - 1)
    -- "this range starts fair and extends foul, adjust length"
    else if ent.offset < offset
        ∧ ((entEnd < endOffset ∧ entEnd ≠ rangeListMax) ∨ endOffset = rangeListMax)
        ∧ (entEnd > offset ∨ entEnd = rangeListMax) then
      ({ ent with length := offSub offset ent.offset } :: (removeEnts offset length next).1,
        (removeEnts offset length next).2)
    -- "this range starts foul and extends fair, adjust offset"
    else if ent.offset ≥ offset ∧ ent.offset < endOffset
        ∧ ((entEnd > endOffset ∧ endOffset ≠ rangeListMax) ∨ entEnd = rangeListMax) then
      ({ ent with offset := endOffset } :: next, 0)
    -- "this range starts fair and ends fair, but crosses foul": the new entry's link is `NULL`
    else if ent.offset < offset
        ∧ ((entEnd > endOffset ∧ endOffset ≠ rangeListMax) ∨ entEnd = rangeListMax) then
      ([{ ent with length := offSub offset ent.offset },
        ⟨endOffset, if entEnd = rangeListMax then rangeListMax else offSub entEnd endOffset⟩], 1)
    -- "this range is all fair"
    else if ent.offset > endOffset ∧ endOffset ≠ rangeListMax then (ent :: next, 0)
    else (ent :: (removeEnts offset length next).1, (removeEnts offset length next).2)

/-- `globus_range_list_remove`. -/
def RangeList.remove : RangeListRc × RangeList :=
  if offset < 0 then (.errorParameter, l)
  else if length = 0 then (.success, l)
  else
    (.success, ⟨l.size + (removeEnts offset length l.head).2, (removeEnts offset length l.head).1⟩)

/-! ## 5. Access by index -/

/-- The walk `for(ctr = 0; ctr < ndx; ctr++)`: `none` when it meets the end of the chain before
the last step. -/
def entsFrom : List RangeEnt → Nat → Option (List RangeEnt)
  | ents, 0 => some ents
  | [], _ + 1 => none
  | _ :: rest, n + 1 => entsFrom rest n

/-- `globus_range_list_at`, with the values `*offset` and `*length` hold before.  At `ndx` equal to
the number of entries the walk succeeds and the entry read is behind a `NULL` pointer. -/
def RangeList.at (ndx : Int) (out : Int × Int) : Option (RangeListRc × (Int × Int)) :=
  match entsFrom l.head ndx.toNat with
  | none => some (.errorParameter, out)
  | some [] => none
  | some (i :: _) => some (.success, (i.offset, i.length))

/-- `globus_range_list_remove_at`, with the values `*offset` and `*length` hold before. -/
def RangeList.removeAt (ndx : Int) (out : Int × Int) : RangeListRc × (Int × Int) × RangeList :=
  match entsFrom l.head ndx.toNat with
  | none => (.errorParameter, out, l)
  | some [] => (.errorParameter, out, l)
  | some (i :: rest) =>
    (.success, (i.offset, i.length), ⟨l.size - 1, l.head.take ndx.toNat ++ rest⟩)

/-! ## 6. What a list means, and what it should look like -/

/-- The interval a range denotes. -/
def rangeIvl : Ivl Int :=
  ⟨offset, if length = rangeListMax then ⊤ else ((offset + length : Int) : WithTop Int)⟩

/-- The bytes of a range: `[offset, offset + length)`, or everything from `offset` on. -/
def rangeBytes : Set Int := (rangeIvl offset length).toSet

/-- The bytes a chain of entries covers. -/
def entsBytes : Set Int :=
  points (ents.map fun e => rangeIvl e.offset e.length)

/-- The bytes a range list denotes. -/
def RangeList.bytes : Set Int := entsBytes l.head

/-- A range the callers may pass: it starts at an offset, it is nonempty, and its end, if it has
one, is an offset too. -/
def RangeValid : Prop :=
  0 ≤ offset ∧ offset ≤ offMax
    ∧ (length = rangeListMax ∨ (0 < length ∧ offset + length ≤ offMax))

instance (offset length : Int) : Decidable (RangeValid offset length) :=
  inferInstanceAs (Decidable (_ ∧ _ ∧ _))

/-- `a` is bounded and ends strictly before `b` begins. -/
def RangeEnt.Before (a b : RangeEnt) : Prop :=
  a.length ≠ rangeListMax ∧ a.offset + a.length < b.offset

instance (a b : RangeEnt) : Decidable (a.Before b) := inferInstanceAs (Decidable (_ ∧ _))

/-- A well-formed chain: valid entries in increasing order, neither overlapping nor touching, and
none after an unbounded one. -/
structure WfEnts : Prop where
  valid : ∀ e ∈ ents, RangeValid e.offset e.length
  sep : ents.Pairwise RangeEnt.Before

/-- A well-formed range list. -/
structure RangeList.WellFormed : Prop where
  ents : WfEnts l.head
  size_eq : l.size = l.head.length

@[simp] theorem mem_rangeBytes {offset length x : Int} : x ∈ rangeBytes offset length
      ↔ offset ≤ x ∧ (length = rangeListMax ∨ x < offset + length) := by
  unfold rangeBytes rangeIvl
  by_cases h : length = rangeListMax
  · simp [h]
  · simp only [Ivl.mem_toSet, h, if_false, false_or, WithTop.coe_lt_coe]

@[simp] theorem entsBytes_nil : entsBytes [] = ∅ := by simp [entsBytes]

@[simp] theorem entsBytes_cons (e : RangeEnt) (ents : List RangeEnt) :
    entsBytes (e :: ents) = rangeBytes e.offset e.length ∪ entsBytes ents := by
  simp [entsBytes, rangeBytes]

@[simp] theorem entsBytes_append (a b : List RangeEnt) :
    entsBytes (a ++ b) = entsBytes a ∪ entsBytes b := by simp [entsBytes]

variable {ents : List RangeEnt} {a b : RangeEnt}

theorem mem_entsBytes {x : Int} : x ∈ entsBytes ents ↔ ∃ e ∈ ents, x ∈ rangeBytes e.offset e.length := by
  simp [entsBytes, mem_points, rangeBytes]

theorem wfEnts_nil : WfEnts [] := ⟨by simp, List.Pairwise.nil⟩

theorem wfEnts_cons {e : RangeEnt} : WfEnts (e :: ents)
      ↔ RangeValid e.offset e.length ∧ (∀ x ∈ ents, e.Before x) ∧ WfEnts ents := by
  constructor
  · rintro ⟨hv, hs⟩
    obtain ⟨hv1, hv2⟩ := forall_mem_cons.mp hv
    obtain ⟨hs1, hs2⟩ := pairwise_cons.mp hs
    exact ⟨hv1, hs1, hv2, hs2⟩
  · rintro ⟨hv, hb, ht⟩
    exact ⟨forall_mem_cons.mpr ⟨hv, ht.valid⟩, pairwise_cons.mpr ⟨hb, ht.sep⟩⟩

theorem RangeEnt.Before.offset_lt (h : a.Before b) (ha : RangeValid a.offset a.length) : a.offset < b.offset := by
  have := (ha.2.2.resolve_left h.1).1
  have := h.2
  omega

theorem RangeEnt.not_before_self {a : RangeEnt} (ha : RangeValid a.offset a.length) : ¬ a.Before a :=
  fun h => lt_irrefl _ (h.offset_lt ha)

/-- What ends before the head of a well-formed chain ends before all of it. -/
theorem RangeEnt.Before.chain (h : a.Before b) (hw : WfEnts (b :: ents)) : ∀ x ∈ b :: ents, a.Before x := by
  obtain ⟨hb, hbefore, -⟩ := wfEnts_cons.mp hw
  exact forall_mem_cons.mpr ⟨h, fun x hx => ⟨h.1, h.2.trans ((hbefore x hx).offset_lt hb)⟩⟩

/-- In a well-formed chain no entry comes before one that precedes it. -/
theorem not_before_of_before (ha : RangeValid a.offset a.length)
    (hb : RangeValid b.offset b.length) (h : a.Before b) : ¬ b.Before a :=
  fun h' => lt_asymm (h.offset_lt ha) (h'.offset_lt hb)

theorem wfEnts_append {a b : List RangeEnt} : WfEnts (a ++ b) ↔ WfEnts a ∧ WfEnts b ∧ ∀ x ∈ a, ∀ y ∈ b, x.Before y := by
  constructor
  · rintro ⟨hv, hs⟩
    obtain ⟨h1, h2, h3⟩ := pairwise_append.mp hs
    exact ⟨⟨fun x hx => hv x (by simp [hx]), h1⟩, ⟨fun x hx => hv x (by simp [hx]), h2⟩, h3⟩
  · rintro ⟨ha, hb, hab⟩
    exact ⟨forall_mem_append.mpr ⟨ha.valid, hb.valid⟩, pairwise_append.mpr ⟨ha.sep, hb.sep, hab⟩⟩

/-- Two entries of a well-formed chain are ordered one way or the other. -/
theorem WfEnts.before_or (h : WfEnts ents) (ha : a ∈ ents) (hb : b ∈ ents) : a = b ∨ a.Before b ∨ b.Before a := by
  have : Std.Symm fun a b : RangeEnt => a = b ∨ a.Before b ∨ b.Before a :=
    ⟨fun a b hab => hab.imp Eq.symm Or.symm⟩
  exact List.Pairwise.forall_of_forall (R := fun a b => a = b ∨ a.Before b ∨ b.Before a)
    (fun _ _ => .inl rfl) (h.sep.imp fun hab => .inr (.inl hab)) ha hb

/-- The order of the entries is the order of their intervals. -/
theorem RangeEnt.Before.ivl (h : a.Before b) : (rangeIvl a.offset a.length).Before (rangeIvl b.offset b.length) := by
  simp only [Ivl.Before, rangeIvl, h.1, if_false, WithTop.coe_lt_coe]
  exact h.2

/-- The bytes of an entry are none of those that come after it. -/
theorem disjoint_of_before {e : RangeEnt} {ents : List RangeEnt} (h : ∀ x ∈ ents, e.Before x) :
    Disjoint (rangeBytes e.offset e.length) (entsBytes ents) := by
  refine IvlList.disjoint_of_before ?_
  intro i hi
  obtain ⟨x, hx, rfl⟩ := mem_map.mp hi
  exact (h x hx).ivl

theorem disjoint_entsBytes {a b : List RangeEnt} (h : ∀ x ∈ a, ∀ y ∈ b, x.Before y) :
    Disjoint (entsBytes a) (entsBytes b) := by
  induction a with
  | nil => simp
  | cons x a ih =>
    rw [entsBytes_cons, Set.disjoint_union_left]
    exact ⟨disjoint_of_before (h x (by simp)), ih fun y hy => h y (by simp [hy])⟩

/-- The interval determines the range: the sentinel is the only unbounded length. -/
theorem rangeIvl_injective (h : rangeIvl a.offset a.length = rangeIvl b.offset b.length) : a = b := by
  obtain ⟨ao, al⟩ := a
  obtain ⟨bo, bl⟩ := b
  simp only [rangeIvl, Ivl.mk.injEq] at h
  obtain ⟨rfl, h2⟩ := h
  by_cases ha : al = rangeListMax <;> by_cases hb : bl = rangeListMax
  · rw [ha, hb]
  · rw [if_pos ha, if_neg hb] at h2
    exact absurd h2 WithTop.top_ne_coe
  · rw [if_neg ha, if_pos hb] at h2
    exact absurd h2 WithTop.coe_ne_top
  · rw [if_neg ha, if_neg hb, WithTop.coe_inj] at h2
    have : al = bl := by omega
    rw [this]

/-- The intervals of a well-formed chain are a canonical list. -/
def WfEnts.canon {ents : List RangeEnt} (h : WfEnts ents) : Canon Int where
  ivls := ents.map fun e => rangeIvl e.offset e.length
  pos := by
    intro i hi
    obtain ⟨e, he, rfl⟩ := mem_map.mp hi
    obtain ⟨-, -, hl⟩ := h.valid e he
    unfold rangeIvl
    split
    · exact WithTop.coe_lt_top _
    next hne =>
      rw [WithTop.coe_lt_coe]
      rcases hl with hl | hl
      · exact absurd hl hne
      · exact Int.lt_add_of_pos_right _ hl.1
  sep := by
    rw [pairwise_map]
    exact h.sep.imp fun hab => hab.ivl

/-- The byte at the end of an entry is in no entry. -/
theorem WfEnts.end_notMem (h : WfEnts ents) {x : RangeEnt} (hx : x ∈ ents)
    (hl : x.length ≠ rangeListMax) : x.offset + x.length ∉ entsBytes ents := by
  intro hmem
  obtain ⟨e, he, hez⟩ := mem_entsBytes.mp hmem
  obtain ⟨he1, he2⟩ := mem_rangeBytes.mp hez
  rcases h.before_or hx he with rfl | hxe | hex
  · omega
  · have := hxe.2
    omega
  · have := he2.resolve_left hex.1
    have := hex.2
    have := (h.valid x hx).2.2.resolve_left hl
    omega

/-- **Well-formed chains with the same bytes are the same chain.** -/
theorem WfEnts.eq_of_bytes_eq {a b : List RangeEnt} (ha : WfEnts a) (hb : WfEnts b)
    (h : entsBytes a = entsBytes b) : a = b := by
  have hc : ha.canon = hb.canon := Canon.points_injective h
  have hm : a.map (fun e => rangeIvl e.offset e.length)
      = b.map (fun e => rangeIvl e.offset e.length) := congrArg Canon.ivls hc
  exact map_injective_iff.mpr (fun _ _ h => rangeIvl_injective h) hm

/-- Well-formed range lists with the same bytes are equal, `size` included. -/
theorem RangeList.WellFormed.eq_of_bytes_eq {a b : RangeList} (ha : a.WellFormed)
    (hb : b.WellFormed) (h : a.bytes = b.bytes) : a = b := by
  obtain ⟨as, ah⟩ := a
  obtain ⟨bs, bh⟩ := b
  have hh : ah = bh := ha.ents.eq_of_bytes_eq hb.ents h
  have h1 : as = ah.length := ha.size_eq
  have h2 : bs = bh.length := hb.size_eq
  subst hh
  rw [h1, h2]

theorem RangeList.wellFormed_init : RangeList.init.WellFormed := ⟨wfEnts_nil, rfl⟩

@[simp] theorem RangeList.copy_eq : l.copy = l := by
  simp [RangeList.copy]

/-- The end offset of a valid range is computed without overflow. -/
theorem rangeEnd_of_valid {offset length : Int} (h : RangeValid offset length) : rangeEnd offset length
      = if length = rangeListMax then rangeListMax else offset + length := by
  obtain ⟨h0, h1, h2⟩ := h
  unfold rangeEnd
  split
  · rfl
  next hne =>
    rcases h2 with h2 | h2
    · exact absurd h2 hne
    · exact offAdd_eq (by unfold OffFits; unfold offMax at *; omega)

end Gct
