/-
# `globus_gridftp_server_get_read_range`: the program

A storage module (DSI) that sends a file asks again and again for the next range to read, until
it gets the length 0, which it takes for the end.  On one node the ranges of the request are handed
out one by one.  On several nodes each one is to send every `node_count`-th block of the file: a
call fills `stripe_range_list` with the whole request, takes out what is before and what is behind
the block of number `stripe_chunk`, and hands out what is left, a range a call; when the list is
used up the next call goes on to the block `node_count` further.

In both cases a request is first clipped to `partial_length` and shifted by `partial_offset`.
-/
import Gct.RangeList.Remove

namespace Gct

open List

/-! ## 1. The program -/

/-- `globus_gfs_layout_t`: everything but the partitioned layout is treated as the blocked one. -/
inductive StripeLayout
  | partitioned
  | blocked
deriving DecidableEq, Repr

/-- The fields of the operation that the function uses, those of `data_handle->info` and of
`info_struct` included. -/
structure ReadOp where
  nodeCount : Int
  stripeLayout : StripeLayout
  stripeBlocksize : Int
  allocSize : Int
  mode : Char
  rangeList : RangeList
  partialOffset : Int
  partialLength : Int
  stripeRangeList : RangeList
  stripeChunk : Int
  writeDelta : Int
deriving DecidableEq, Repr

variable (op : ReadOp) (e : RangeEnt) (ents : List RangeEnt)

/-- The size of the blocks of the stripes. -/
def ReadOp.stripeBlockSize : Int :=
  match op.stripeLayout with
  | .partitioned =>
    let partSize := if op.partialLength > 0 then op.partialLength else op.allocSize
    if partSize ≤ 0 then op.stripeBlocksize
    else if partSize.tmod op.nodeCount ≠ 0 then partSize.tdiv op.nodeCount + 1
    else partSize.tdiv op.nodeCount
  | .blocked => op.stripeBlocksize

/-- The length of a range clipped to `partial_length`. -/
def ReadOp.clipLength (tmpOff tmpLen : Int) : Int :=
  if op.partialLength ≠ -1 then
    let tmpLen := if tmpLen = -1 then op.partialLength else tmpLen
    if offAdd tmpOff tmpLen > op.partialLength then
      let tmpLen := offSub op.partialLength tmpOff
      if tmpLen < 0 then 0 else tmpLen
    else tmpLen
  else tmpLen

/-- The variables of the loop that fills `stripe_range_list`. -/
structure StripeFill where
  tmpOff : Int
  tmpLen : Int
  tmpWrite : Int
  stripeRangeList : RangeList
  writeDelta : Int

/-- One round of that loop, after `globus_range_list_at`. -/
def ReadOp.fillStep (f : StripeFill) (tmpOff tmpLen : Int) : StripeFill :=
  let tmpLen := op.clipLength tmpOff tmpLen
  let tmpOff := if op.partialOffset > 0 then offAdd tmpOff op.partialOffset else tmpOff
  let tmpWrite := if op.partialOffset > 0 then offSub 0 op.partialOffset else f.tmpWrite
  ⟨tmpOff, tmpLen, tmpWrite, (f.stripeRangeList.insert tmpOff tmpLen).2, tmpWrite⟩

/-- The loop `for(i = 0; i < size; i++)`, from `i` on; `none` when `globus_range_list_at` follows
a null pointer. -/
def ReadOp.fillLoop (op : ReadOp) : Nat → Nat → StripeFill → Option StripeFill
  | 0, _, f => some f
  | rounds + 1, i, f =>
    match op.rangeList.at i (f.tmpOff, f.tmpLen) with
    | none => none
    | some (_, tmpOff, tmpLen) => op.fillLoop rounds (i + 1) (op.fillStep f tmpOff tmpLen)

/-- `globus_gridftp_server_get_read_range`: `*offset` and `*length`, and the operation. -/
def ReadOp.getReadRange : Option ((Int × Int) × ReadOp) :=
  if op.nodeCount > 1 then
    let startOffset := offMul op.stripeChunk op.stripeBlockSize
    let endOffset := offAdd startOffset op.stripeBlockSize
    if op.stripeRangeList.size ≠ 0 then
      let (_, out, l) := op.stripeRangeList.removeAt 0 (0, -1)
      some (out, { op with stripeRangeList := l })
    else if op.rangeList.size ≠ 0 then
      match op.fillLoop op.rangeList.size.toNat 0 ⟨0, -1, 0, op.stripeRangeList, op.writeDelta⟩ with
      | none => none
      | some f =>
        let l := (f.stripeRangeList.remove 0 startOffset).2
        let l := (l.remove endOffset rangeListMax).2
        let op := { op with stripeChunk := intAdd op.stripeChunk op.nodeCount }
        if l.size ≠ 0 then
          let (_, out, l) := l.removeAt 0 (f.tmpOff, f.tmpLen)
          some (out, { op with stripeRangeList := l, writeDelta := f.writeDelta })
        else some ((0, 0), { op with stripeRangeList := l, writeDelta := 0 })
    else some ((0, 0), { op with writeDelta := 0 })
  else if op.rangeList.size ≠ 0 then
    let (_, (tmpOff, tmpLen), l) := op.rangeList.removeAt 0 (0, -1)
    let tmpLen := op.clipLength tmpOff tmpLen
    if op.partialOffset > 0 then
      some ((offAdd tmpOff op.partialOffset, tmpLen), { op with
          rangeList := l, writeDelta := if op.mode = 'E' then offSub 0 op.partialOffset else 0 })
    else some ((tmpOff, tmpLen), { op with rangeList := l, writeDelta := 0 })
  else some ((0, 0), { op with writeDelta := 0 })

/-- The ranges that `globus_l_gfs_file_dispatch_read` reads from a file of `fileSize` bytes.  It
goes on until it gets the length 0, or until a read meets the end of the file; `none` is a run that
has not ended after `fuel` calls. -/
def ReadOp.dispatchReads (fileSize : Int) : Nat → ReadOp → Option (List (Int × Int))
  | 0, _ => none
  | fuel + 1, op =>
    match op.getReadRange with
    | none => none
    | some ((readOffset, readLength), op') =>
      if readLength = 0 then some []
      else if readLength = -1 ∨ readOffset + readLength > fileSize then
        some [(readOffset, readLength)]
      else (op'.dispatchReads fileSize fuel).map ((readOffset, readLength) :: ·)

theorem removeAt_zero (out : Int × Int) : (⟨((e :: ents).length : Nat), e :: ents⟩ : RangeList).removeAt 0 out
      = (.success, (e.offset, e.length), ⟨ents.length, ents⟩) := by
  simp [RangeList.removeAt, entsFrom]

theorem length_cons_ne_zero : (((e :: ents).length : Nat) : Int) ≠ 0 :=
  Int.natCast_ne_zero.mpr (Nat.succ_ne_zero _)

/-! ## 2. The request -/

/-- The bytes that are asked for: those of the range list, clipped and shifted. -/
def ReadOp.requestBytes : Set Int :=
  {x | x - op.partialOffset ∈ op.rangeList.bytes
    ∧ (op.partialLength ≠ -1 → x - op.partialOffset < op.partialLength)}

/-- An entry of the range list, clipped and shifted. -/
def ReadOp.requestEnt : Option RangeEnt :=
  if op.clipLength e.offset e.length = 0 then none
  else some ⟨e.offset + op.partialOffset, op.clipLength e.offset e.length⟩

/-- The entries of the range list, clipped and shifted. -/
def ReadOp.requestEnts : List RangeEnt := op.rangeList.head.filterMap op.requestEnt

/-- The request is well-formed, and its offsets are so far below the largest one that sums of two
of them are offsets. -/
structure ReadOp.InRange (bound : Int) : Prop where
  wf : op.rangeList.WellFormed
  partialOffset : 0 ≤ op.partialOffset
  partialLength : op.partialLength = -1 ∨ 0 ≤ op.partialLength
  ents : ∀ e ∈ op.rangeList.head, e.offset + op.partialOffset ≤ bound
    ∧ (e.length ≠ rangeListMax → e.offset + e.length + op.partialOffset ≤ bound)
  clip : op.partialLength + op.partialOffset ≤ bound
  double : 2 * bound ≤ offMax

section Request

variable {op : ReadOp} {bound : Int} {e : RangeEnt}

/-- The clipped length in closed form. -/
theorem clipLength_eq (he : RangeValid e.offset e.length)
    (hpl : op.partialLength = -1 ∨ 0 ≤ op.partialLength) (hmax : op.partialLength ≤ offMax)
    (hclip : e.length = rangeListMax → op.partialLength ≠ -1 → e.offset + op.partialLength ≤ offMax) :
    op.clipLength e.offset e.length = if op.partialLength = -1 then e.length
        else max 0 ((if e.length = rangeListMax then op.partialLength
          else min (e.offset + e.length) op.partialLength) - e.offset) := by
  have hm := rangeListMax_eq
  have ho := offMax_eq
  obtain ⟨e0, e1, e2⟩ := he
  unfold ReadOp.clipLength
  by_cases h : op.partialLength = -1
  · rw [if_neg (not_not.mpr h), if_pos h]
  · have hsub : offSub op.partialLength e.offset = op.partialLength - e.offset :=
      offSub_eq ⟨by omega, by omega⟩
    have hadd : offAdd e.offset (if e.length = -1 then op.partialLength else e.length)
        = e.offset + if e.length = -1 then op.partialLength else e.length :=
      offAdd_eq ⟨by omega, by omega⟩
    dsimp only
    rw [if_pos h, if_neg h, hsub, hadd]
    split
    · split <;> omega
    · omega

theorem requestEnt_eq_some {e e' : RangeEnt} (hs : op.requestEnt e = some e') :
    e'.offset = e.offset + op.partialOffset ∧ e'.length = op.clipLength e.offset e.length ∧ e'.length ≠ 0 := by
  unfold ReadOp.requestEnt at hs
  split at hs
  · cases hs
  · cases hs
    exact ⟨rfl, rfl, ‹_›⟩

variable (h : op.InRange bound)

include h

/-- What clipping and shifting leaves of an entry is a valid entry with the bytes below
`partial_length`. -/
theorem requestEnt_spec {e e' : RangeEnt} (he : e ∈ op.rangeList.head) (hs : op.requestEnt e = some e') :
    RangeValid e'.offset e'.length ∧ e'.offset ≤ bound ∧ (e'.length ≠ rangeListMax → e'.offset + e'.length ≤ bound)
      ∧ (e.length ≠ rangeListMax → e'.length ≠ rangeListMax
          ∧ e'.offset + e'.length ≤ e.offset + e.length + op.partialOffset)
      ∧ ∀ x, x ∈ rangeBytes e'.offset e'.length ↔ x - op.partialOffset ∈ rangeBytes e.offset e.length
            ∧ (op.partialLength ≠ -1 → x - op.partialOffset < op.partialLength) := by
  have hm := rangeListMax_eq
  obtain ⟨e0, e1, e2⟩ := h.wf.ents.valid e he
  obtain ⟨b1, b2⟩ := h.ents e he
  have hpo := h.partialOffset
  have hpl := h.partialLength
  have hclip := h.clip
  have hdouble := h.double
  have hlen := clipLength_eq ⟨e0, e1, e2⟩ hpl (by omega) (by omega)
  obtain ⟨ho, hl, hz⟩ := requestEnt_eq_some hs
  rw [← hl] at hlen
  refine ⟨⟨by omega, by omega, by omega⟩, by omega, by omega, by omega, fun x => ?_⟩
  simp only [mem_rangeBytes]
  omega

theorem requestEnt_eq_none (he : e ∈ op.rangeList.head)
    (hn : op.requestEnt e = none) : op.partialLength ≠ -1 ∧ op.partialLength ≤ e.offset := by
  have hm := rangeListMax_eq
  obtain ⟨e0, e1, e2⟩ := h.wf.ents.valid e he
  obtain ⟨b1, -⟩ := h.ents e he
  have hpo := h.partialOffset
  have hclip := h.clip
  have hdouble := h.double
  have hlen := clipLength_eq ⟨e0, e1, e2⟩ h.partialLength (by omega) (by omega)
  have hz : op.clipLength e.offset e.length = 0 := by simpa [ReadOp.requestEnt] using hn
  omega

/-- The clipped and shifted request is a well-formed chain. -/
theorem requestEnts_wf : WfEnts op.requestEnts := by
  constructor
  · intro e' he'
    obtain ⟨e, he, hs⟩ := mem_filterMap.mp he'
    exact (requestEnt_spec h he hs).1
  · rw [ReadOp.requestEnts, pairwise_filterMap]
    refine List.Pairwise.imp_of_mem ?_ h.wf.ents.sep
    intro a b ha hb hab a' ha' b' hb'
    obtain ⟨-, -, -, hend, -⟩ := requestEnt_spec h ha ha'
    obtain ⟨h1, h2⟩ := hend hab.1
    have h3 := hab.2
    have h4 := (requestEnt_eq_some hb').1
    exact ⟨h1, by omega⟩

/-- Its bytes are those that are asked for. -/
theorem requestEnts_bytes : entsBytes op.requestEnts = op.requestBytes := by
  ext x
  simp only [ReadOp.requestBytes, RangeList.bytes, Set.mem_ofPred_eq, mem_entsBytes]
  constructor
  · rintro ⟨e', he', hx⟩
    obtain ⟨e, he, hs⟩ := mem_filterMap.mp he'
    obtain ⟨-, -, -, -, hb⟩ := requestEnt_spec h he hs
    obtain ⟨h1, h2⟩ := (hb x).mp hx
    exact ⟨⟨e, he, h1⟩, h2⟩
  · rintro ⟨⟨e, he, h1⟩, h2⟩
    cases hs : op.requestEnt e with
    | none =>
      obtain ⟨hn1, hn2⟩ := requestEnt_eq_none h he hs
      have := (mem_rangeBytes.mp h1).1
      omega
    | some e' =>
      obtain ⟨-, -, -, -, hb⟩ := requestEnt_spec h he hs
      exact ⟨e', mem_filterMap.mpr ⟨e, he, hs⟩, (hb x).mpr ⟨h1, h2⟩⟩

/-- Its offsets are below the bound. -/
theorem requestEnts_le : ∀ e ∈ op.requestEnts, e.offset ≤ bound
    ∧ (e.length ≠ rangeListMax → e.offset + e.length ≤ bound) := by
  intro e' he'
  obtain ⟨e, he, hs⟩ := mem_filterMap.mp he'
  obtain ⟨-, h1, h2, -⟩ := requestEnt_spec h he hs
  exact ⟨h1, h2⟩

/-! ## 3. Filling the list of the block -/

omit h in
theorem entsFrom_append (pre ents : List RangeEnt) : entsFrom (pre ++ ents) pre.length = some ents := by
  induction pre with
  | nil => simp [entsFrom]
  | cons e pre ih => exact ih

/-- One round appends what is left of the entry. -/
theorem fillStep_stripeRangeList {pre suf : List RangeEnt} (hl : op.rangeList.head = pre ++ e :: suf) {f : StripeFill}
    (hf : f.stripeRangeList = ⟨(pre.filterMap op.requestEnt).length, pre.filterMap op.requestEnt⟩) :
    (op.fillStep f e.offset e.length).stripeRangeList
      = ⟨((pre ++ [e]).filterMap op.requestEnt).length, (pre ++ [e]).filterMap op.requestEnt⟩ := by
  have he : e ∈ op.rangeList.head := by rw [hl]; simp
  have hshift : (if op.partialOffset > 0 then offAdd e.offset op.partialOffset else e.offset)
      = e.offset + op.partialOffset := by
    have h1 := h.partialOffset
    have h2 := (h.ents e he).1
    have h3 := h.double
    have h4 := (h.wf.ents.valid e he).1
    split
    · exact offAdd_eq (by unfold OffFits; unfold offMax at *; omega)
    · omega
  have hins : (op.fillStep f e.offset e.length).stripeRangeList
      = (f.stripeRangeList.insert (e.offset + op.partialOffset) (op.clipLength e.offset e.length)).2 := by
    rw [← hshift]
    rfl
  rw [hins, hf, filterMap_append]
  cases hs : op.requestEnt e with
  | none =>
    have hz : op.clipLength e.offset e.length = 0 := by simpa [ReadOp.requestEnt] using hs
    have h0 : ¬ e.offset + op.partialOffset < 0 := by
      have h2 := (h.wf.ents.valid e he).1
      omega
    simp [RangeList.insert, h0, hz, hs]
  | some e' =>
    -- the chain so far is before the new entry: both are part of the well-formed request
    have hwf := requestEnts_wf h
    have happ : op.requestEnts = pre.filterMap op.requestEnt ++ e' :: suf.filterMap op.requestEnt := by
      rw [ReadOp.requestEnts, hl, filterMap_append, filterMap_cons_some hs]
    rw [happ] at hwf
    obtain ⟨hwp, -, hb⟩ := wfEnts_append.mp hwf
    obtain ⟨ho, hlen, -⟩ := requestEnt_eq_some hs
    rw [← ho, ← hlen]
    have hins := insert_of_before (l := ⟨(pre.filterMap op.requestEnt).length,
      pre.filterMap op.requestEnt⟩) (requestEnt_spec h he hs).1 hwp.valid (fun p hp => hb p hp e' (by simp)) rfl
    rw [hins]
    simp [hs]

theorem fillLoop_eq : ∀ (suf pre : List RangeEnt) {f : StripeFill}, op.rangeList.head = pre ++ suf →
    f.stripeRangeList = ⟨(pre.filterMap op.requestEnt).length, pre.filterMap op.requestEnt⟩ →
      ∃ f', op.fillLoop suf.length pre.length f = some f' ∧ f'.stripeRangeList = ⟨op.requestEnts.length, op.requestEnts⟩
  | [], pre, f, hl, hf => by
    refine ⟨f, rfl, ?_⟩
    rw [hf, ReadOp.requestEnts, hl, append_nil]
  | e :: suf, pre, f, hl, hf => by
    have hat : op.rangeList.at pre.length (f.tmpOff, f.tmpLen) = some (.success, (e.offset, e.length)) := by
      simp only [RangeList.at, Int.toNat_natCast, hl, entsFrom_append]
    have hl' : op.rangeList.head = (pre ++ [e]) ++ suf := by
      rw [hl, append_cons]
    obtain ⟨f', hf', hs⟩ := fillLoop_eq suf (pre ++ [e]) hl' (fillStep_stripeRangeList h hl hf)
    refine ⟨f', ?_, hs⟩
    rw [length_append, length_singleton] at hf'
    simp only [length_cons, ReadOp.fillLoop, hat, hf']

end Request

end Gct
