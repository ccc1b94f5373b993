/-
# Striped reads: when the nodes send every byte once

Node `i` of `n` is to send the blocks `i`, `i + n`, `i + 2 n`, … of the file, as far as they are
requested, and stops at the first block whose list is empty.  Two things go wrong:

* a request that runs across the start of a block and ends inside it is sent beyond its end
  (see `Gct.ReadRange.Block`);
* a block without a requested byte looks like the end of the file, and the node never gets to the
  later ones.

So the transfer is right exactly if a request that runs across the start of a block fills the block
(up to the end of the file), and no node meets a block without requested bytes before one with some.

A node is a walker of `Gct.Lib.Stride`: the run lemma `dispatchReads_walk` says so, and the rest is
about what is sent for one block (`blockOut_correct`, `blockOut_wrong`) and which blocks are reached.
-/
import Mathlib.Tactic.Ring
import Gct.Lib.Stride
import Gct.ReadRange.Block

namespace Gct

open List ReadOp Stride

/-! ## 1. The nodes -/

variable (op : ReadOp) (fileSize : Int) (k : Nat)

/-- The operation of node `i` at the start of the transfer. -/
def ReadOp.node (i : Nat) : ReadOp :=
  { op with stripeRangeList := .init, stripeChunk := i }

/-- The first byte of block `k`. -/
def ReadOp.blockStart : Int := k * op.stripeBlocksize

/-- The list of block `k`. -/
def ReadOp.blockEnts : List RangeEnt :=
  (blockList op.requestEnts (op.blockStart k) (op.blockStart (k + 1))).head

/-- The entries of a list up to the first that meets the end of the file. -/
def takeToEof (fileSize : Int) : List RangeEnt → List (Int × Int)
  | [] => []
  | e :: ents => (e.offset, e.length) ::
      if e.offset + e.length > fileSize then [] else takeToEof fileSize ents

/-- One of the entries meets the end of the file. -/
def MeetsEof (ents : List RangeEnt) : Prop :=
  ∃ e ∈ ents, e.offset + e.length > fileSize

instance (fileSize : Int) (ents : List RangeEnt) : Decidable (MeetsEof fileSize ents) :=
  inferInstanceAs (Decidable (∃ e ∈ ents, e.offset + e.length > fileSize))

/-- What is sent for block `k`. -/
def ReadOp.blockOut : List (Int × Int) :=
  takeToEof fileSize (op.blockEnts k)

/-- The node stops at block `k`. -/
def ReadOp.BlockStops : Prop :=
  op.blockEnts k = [] ∨ MeetsEof fileSize (op.blockEnts k)

instance (op : ReadOp) (fileSize : Int) : DecidablePred (op.BlockStops fileSize) := fun k =>
  inferInstanceAs (Decidable (op.blockEnts k = [] ∨ MeetsEof fileSize (op.blockEnts k)))

/-- A striped transfer in the blocked layout of a file of `fileSize` bytes, with all offsets and
block numbers that can come up in the range of their types. -/
structure ReadOp.Striped (bound fileSize : Int) : Prop extends op.InRange bound where
  nodes : 2 ≤ op.nodeCount
  layout : op.stripeLayout = .blocked
  blocksize : 0 < op.stripeBlocksize
  fileSize_nonneg : 0 ≤ fileSize
  fileSize_le : fileSize ≤ bound
  starts : bound + (op.nodeCount + 1) * op.stripeBlocksize ≤ offMax
  chunks : bound / op.stripeBlocksize + 2 * op.nodeCount ≤ 2147483647

/-- The block numbers a node can come to. -/
def ReadOp.Near (bound : Int) (k : Nat) : Prop :=
  op.blockStart k < bound + op.nodeCount * op.stripeBlocksize

variable {x : Int} {k : Nat} {i : Nat} {ents : List RangeEnt}

section Nodes

variable {op : ReadOp} {bound fileSize : Int}

theorem blockStart_succ (op : ReadOp) (k : Nat) : op.blockStart (k + 1) = op.blockStart k + op.stripeBlocksize := by
  simp only [blockStart, Nat.cast_succ]
  ring

section

variable (h : op.Striped bound fileSize)

include h

theorem blockStart_add (k : Nat) : op.blockStart (k + op.nodeCount.toNat)
      = op.blockStart k + op.nodeCount * op.stripeBlocksize := by
  have hn : ((op.nodeCount.toNat : Nat) : Int) = op.nodeCount :=
    Int.toNat_of_nonneg (by have := h.nodes; omega)
  simp only [blockStart, Nat.cast_add, hn]
  ring

theorem blockStart_mono {k k' : Nat} (hk : k ≤ k') : op.blockStart k ≤ op.blockStart k' :=
  Int.mul_le_mul_of_nonneg_right (by omega) h.blocksize.le

theorem blockStart_nonneg (k : Nat) : 0 ≤ op.blockStart k :=
  Int.mul_nonneg (Int.natCast_nonneg k) h.blocksize.le

/-- A byte is in one block. -/
theorem block_unique {k k' : Nat} (h1 : op.blockStart k ≤ x) (h2 : x < op.blockStart (k + 1)) (h3 : op.blockStart k' ≤ x)
    (h4 : x < op.blockStart (k' + 1)) : k = k' := by
  rcases Nat.lt_trichotomy k k' with hlt | heq | hgt
  · have := blockStart_mono h (show k + 1 ≤ k' from hlt)
    omega
  · exact heq
  · have := blockStart_mono h (show k' + 1 ≤ k from hgt)
    omega

theorem exists_block (hx : 0 ≤ x) : ∃ k, op.blockStart k ≤ x ∧ x < op.blockStart (k + 1) := by
  have hs := h.blocksize
  refine ⟨(x / op.stripeBlocksize).toNat, ?_⟩
  have hq : (((x / op.stripeBlocksize).toNat : Nat) : Int) = x / op.stripeBlocksize :=
    Int.toNat_of_nonneg (Int.ediv_nonneg hx hs.le)
  rw [blockStart_succ, blockStart, hq]
  have h1 := Int.ediv_mul_add_emod x op.stripeBlocksize
  have h2 := Int.emod_nonneg x hs.ne'
  have h3 := Int.emod_lt_of_pos x hs
  omega

section

variable (hk : op.Near bound k)

include hk

theorem blockStart_succ_le : op.blockStart (k + 1) ≤ offMax := by
  have h1 := h.starts
  have h2 : (op.nodeCount + 1) * op.stripeBlocksize = op.nodeCount * op.stripeBlocksize + op.stripeBlocksize := by ring
  rw [ReadOp.Near] at hk
  rw [blockStart_succ]
  omega

/-- The number of the next block is a value of the type `int`. -/
theorem intAdd_chunk : intAdd k op.nodeCount = ((k + op.nodeCount.toNat : Nat) : Int) := by
  have hn := h.nodes
  have hle : (k : Int) - op.nodeCount ≤ bound / op.stripeBlocksize := by
    refine Int.le_ediv_of_mul_le h.blocksize ?_
    rw [ReadOp.Near, blockStart] at hk
    rw [Int.sub_mul]
    omega
  have hmax := h.chunks
  rw [intAdd_eq (by omega) (by omega)]
  omega

/-- The list of a block that a node can come to. -/
theorem blockEnts_shape : blockList op.requestEnts (op.blockStart k) (op.blockStart (k + 1))
      = ⟨(op.blockEnts k).length, op.blockEnts k⟩
    ∧ BlockShape op.requestEnts (op.blockStart k) (op.blockStart (k + 1)) (op.blockEnts k) := by
  have hs := h.blocksize
  obtain ⟨chain, heq, hshape⟩ := blockList_shape (requestEnts_wf h.toInRange)
    (blockStart_nonneg h k) (by rw [blockStart_succ]; omega) (blockStart_succ_le h hk) (by
      intro e he hcross
      have h1 := (requestEnts_le h.toInRange e he).2 hcross.1
      have h2 := hcross.2.2
      have h3 := (requestEnts_wf h.toInRange).valid e he
      have h4 := h3.1
      have h5 := h.double
      omega)
  have hents : op.blockEnts k = chain := by rw [blockEnts, heq]
  rw [hents]
  exact ⟨heq, hshape⟩

/-- A node stops at the latest behind the end of the request and of the file. -/
theorem lt_of_not_blockStops (hns : ¬ op.BlockStops fileSize k) : op.blockStart k < bound := by
  rw [ReadOp.BlockStops, not_or] at hns
  obtain ⟨hne, heof⟩ := hns
  obtain ⟨d, hd⟩ := exists_mem_of_ne_nil _ hne
  obtain ⟨h1, h2, -⟩ := (blockEnts_shape h hk).2.within d hd
  have h3 : ¬ d.offset + d.length > fileSize := fun hgt => heof ⟨d, hd, hgt⟩
  have h4 := h.fileSize_le
  omega

theorem near_add (hns : ¬ op.BlockStops fileSize k) : op.Near bound (k + op.nodeCount.toNat) := by
  rw [ReadOp.Near, blockStart_add h]
  have := lt_of_not_blockStops h hk hns
  omega

end

theorem near_of_lt (hi : i < op.nodeCount.toNat) : op.Near bound i := by
  have h1 : op.blockStart (i + 1) ≤ op.nodeCount * op.stripeBlocksize :=
    Int.mul_le_mul_of_nonneg_right (by omega) h.blocksize.le
  rw [blockStart_succ] at h1
  have := h.blocksize
  have := h.fileSize_nonneg
  have := h.fileSize_le
  rw [ReadOp.Near]
  omega

theorem near_of_blockStart_le (hk : op.blockStart k ≤ bound) : op.Near bound k := by
  have : 0 < op.nodeCount * op.stripeBlocksize :=
    Int.mul_pos (by have := h.nodes; omega) h.blocksize
  rw [ReadOp.Near]
  omega

end

end Nodes

/-! ## 2. Runs -/

/-- The operation of a node in the middle of the transfer: `ents` is what is left of the list of the
last block, and `k` is the number of the next one. -/
def ReadOp.nodeAt (op : ReadOp) (k : Nat) (ents : List RangeEnt) (w : Int) : ReadOp :=
  { op with stripeRangeList := ⟨ents.length, ents⟩, stripeChunk := k, writeDelta := w }

section Runs

variable {op : ReadOp} {bound fileSize : Int}

/-- A call with entries left hands out the first one. -/
theorem getReadRange_left {o : ReadOp} (hn : o.nodeCount > 1) {e : RangeEnt}
    (hl : o.stripeRangeList = ⟨((e :: ents).length : Nat), e :: ents⟩) : o.getReadRange
      = some ((e.offset, e.length), { o with stripeRangeList := ⟨ents.length, ents⟩ }) := by
  simp only [getReadRange, if_pos hn, hl, removeAt_zero, if_pos (length_cons_ne_zero e ents)]

/-- A call with no entry left makes the list of the next block. -/
theorem getReadRange_next {o : ReadOp} (hn : o.nodeCount > 1) (hl : o.stripeRangeList.size = 0)
    (hr : o.rangeList.size ≠ 0) {f : StripeFill} (hf : o.fillLoop o.rangeList.size.toNat 0
      ⟨0, -1, 0, o.stripeRangeList, o.writeDelta⟩ = some f)
    (hents : ((f.stripeRangeList.remove 0 (offMul o.stripeChunk o.stripeBlockSize)).2.remove
      (offAdd (offMul o.stripeChunk o.stripeBlockSize) o.stripeBlockSize) rangeListMax).2 = ⟨ents.length, ents⟩) :
    ∃ o', o.getReadRange = some (match ents with
      | [] => ((0, 0), o')
      | e :: ents => ((e.offset, e.length), { o with
          stripeRangeList := ⟨ents.length, ents⟩
          stripeChunk := intAdd o.stripeChunk o.nodeCount
          writeDelta := f.writeDelta })) := by
  simp only [getReadRange, if_pos hn, if_neg (not_not.mpr hl), if_pos hr, hf, hents]
  cases ents with
  | nil => exact ⟨_, rfl⟩
  | cons e ents =>
    refine ⟨o, ?_⟩
    simp only [if_pos (length_cons_ne_zero e ents), removeAt_zero]

variable (h : op.Striped bound fileSize)

include h

/-- The next block of a node, or the end. -/
theorem getReadRange_nil (hk : op.Near bound k) (w : Int) :
    ∃ w' op', (op.nodeAt k [] w).getReadRange = some (match op.blockEnts k with
      | [] => ((0, 0), op')
      | e :: ents => ((e.offset, e.length), op.nodeAt (k + op.nodeCount.toNat) ents w')) := by
  have hn : op.nodeCount > 1 := by
    have := h.nodes
    omega
  have hsize := h.wf.size_eq
  by_cases hr : op.rangeList.size = 0
  · have hnil : op.blockEnts k = [] := by
      refine (blockEnts_shape h hk).2.eq_nil_iff.mpr ?_
      have hhead : op.rangeList.head = [] := eq_nil_of_length_eq_zero (by omega)
      simp [requestEnts, hhead]
    have hn' : (op.nodeAt k [] w).nodeCount > 1 := hn
    have hl : ¬ (op.nodeAt k [] w).stripeRangeList.size ≠ 0 := by simp [nodeAt]
    have hr' : ¬ (op.nodeAt k [] w).rangeList.size ≠ 0 := not_not.mpr hr
    rw [hnil]
    simp only [getReadRange, if_pos hn', if_neg hl, if_neg hr']
    exact ⟨0, _, rfl⟩
  · -- the fields that the request is made of are those of `op`
    have hin : (op.nodeAt k [] w).InRange bound :=
      ⟨h.wf, h.partialOffset, h.partialLength, h.ents, h.clip, h.double⟩
    obtain ⟨f, hf, hfl⟩ := fillLoop_eq hin op.rangeList.head []
      (f := ⟨0, -1, 0, (op.nodeAt k [] w).stripeRangeList, w⟩) rfl rfl
    have hrounds : op.rangeList.size.toNat = op.rangeList.head.length := by omega
    have hblock : (op.nodeAt k [] w).stripeBlockSize = op.stripeBlocksize := by
      simp only [stripeBlockSize, nodeAt, h.layout]
    have hstart0 := blockStart_nonneg h k
    have hstop0 := blockStart_succ_le h hk
    have hs := h.blocksize
    rw [blockStart_succ, offMax] at hstop0
    have hfits : OffFits (op.blockStart k) := ⟨by omega, by omega⟩
    have hstart : offMul k op.stripeBlocksize = op.blockStart k := offMul_eq hfits
    have hstop : offAdd (op.blockStart k) op.stripeBlocksize = op.blockStart (k + 1) := by
      rw [blockStart_succ]
      exact offAdd_eq ⟨by omega, by omega⟩
    have hents : ((f.stripeRangeList.remove 0
        (offMul (op.nodeAt k [] w).stripeChunk (op.nodeAt k [] w).stripeBlockSize)).2.remove
        (offAdd (offMul (op.nodeAt k [] w).stripeChunk (op.nodeAt k [] w).stripeBlockSize)
          (op.nodeAt k [] w).stripeBlockSize) rangeListMax).2
          = ⟨(op.blockEnts k).length, op.blockEnts k⟩ := by
      rw [hblock, hfl, ← (blockEnts_shape h hk).1]
      have hk' : (op.nodeAt k [] w).stripeChunk = k := rfl
      rw [hk', hstart, hstop]
      rfl
    obtain ⟨o', ho'⟩ := getReadRange_next (o := op.nodeAt k [] w) hn rfl hr
      (by exact (congrArg (fun m => fillLoop _ m 0 _) hrounds).trans hf) hents
    refine ⟨f.writeDelta, o', ?_⟩
    rw [ho']
    cases op.blockEnts k with
    | nil => rfl
    | cons e ents =>
      simp only [nodeAt, intAdd_chunk h hk]

omit h in
/-- Two runs that end give the same ranges. -/
theorem dispatchReads_unique : ∀ {fuel fuel' : Nat} {o : ReadOp} {l l' : List (Int × Int)},
    o.dispatchReads fileSize fuel = some l → o.dispatchReads fileSize fuel' = some l' → l = l'
  | 0, _, _, _, _, h, _ => absurd h (by simp [dispatchReads])
  | _ + 1, 0, _, _, _, _, h' => absurd h' (by simp [dispatchReads])
  | fuel + 1, fuel' + 1, o, l, l', h, h' => by
    rw [dispatchReads] at h h'
    cases hget : o.getReadRange with
    | none =>
      rw [hget] at h
      exact absurd h (by simp)
    | some r =>
      obtain ⟨⟨readOffset, readLength⟩, o'⟩ := r
      rw [hget] at h h'
      dsimp only at h h'
      by_cases h0 : readLength = 0
      · rw [if_pos h0, Option.some.injEq] at h h'
        exact h.symm.trans h'
      · rw [if_neg h0] at h h'
        by_cases hend : readLength = -1 ∨ readOffset + readLength > fileSize
        · rw [if_pos hend, Option.some.injEq] at h h'
          exact h.symm.trans h'
        · rw [if_neg hend, Option.map_eq_some_iff] at h h'
          obtain ⟨a, ha, rfl⟩ := h
          obtain ⟨b, hb, rfl⟩ := h'
          rw [dispatchReads_unique ha hb]

/-- Reading the entries that are left. -/
theorem dispatchReads_left (k : Nat) (w : Int) (fuel : Nat) : ∀ ents : List RangeEnt, (∀ e ∈ ents, 0 < e.length) →
      (op.nodeAt k ents w).dispatchReads fileSize (ents.length + fuel)
        = if MeetsEof fileSize ents then some (takeToEof fileSize ents)
          else ((op.nodeAt k [] w).dispatchReads fileSize fuel).map (takeToEof fileSize ents ++ ·)
  | [], _ => by
    simp [MeetsEof, takeToEof]
  | e :: ents, hpos => by
    have he := hpos e (by simp)
    have hn : (op.nodeAt k (e :: ents) w).nodeCount > 1 := h.nodes
    have ih := dispatchReads_left k w fuel ents fun x hx => hpos x (by simp [hx])
    have hlen : (e :: ents).length + fuel = ents.length + fuel + 1 := by
      simp only [length_cons]
      omega
    have hcall : (op.nodeAt k (e :: ents) w).getReadRange
        = some ((e.offset, e.length), op.nodeAt k ents w) := getReadRange_left hn rfl
    rw [hlen, dispatchReads, hcall]
    dsimp only
    rw [if_neg (by omega), takeToEof]
    by_cases hend : e.offset + e.length > fileSize
    · have hmeets : MeetsEof fileSize (e :: ents) := ⟨e, by simp, hend⟩
      rw [if_pos (.inr hend), if_pos hend, if_pos hmeets]
    · have hmeets : MeetsEof fileSize (e :: ents) ↔ MeetsEof fileSize ents := by
        simp [MeetsEof, hend]
      rw [if_neg (by omega), if_neg hend, ih]
      by_cases hm : MeetsEof fileSize ents
      · rw [if_pos hm, if_pos (hmeets.mpr hm)]
        rfl
      · rw [if_neg hm, if_neg (mt hmeets.mp hm), Option.map_map]
        rfl

/-- Reading a block: at most one call that makes the list, then those for the entries left. -/
theorem dispatchReads_block (hk : op.Near bound k)
    (w : Int) : ∃ calls w', ∀ fuel, (op.nodeAt k [] w).dispatchReads fileSize (calls + fuel)
      = if op.BlockStops fileSize k then some (op.blockOut fileSize k)
        else ((op.nodeAt (k + op.nodeCount.toNat) [] w').dispatchReads fileSize fuel).map
          (op.blockOut fileSize k ++ ·) := by
  obtain ⟨w', o', hcall⟩ := getReadRange_nil h hk w
  have hwithin := (blockEnts_shape h hk).2.within
  rw [blockOut]
  cases hents : op.blockEnts k with
  | nil =>
    refine ⟨1, w', fun fuel => ?_⟩
    rw [hents] at hcall
    have hstop : op.BlockStops fileSize k := .inl hents
    rw [Nat.add_comm, dispatchReads, hcall, if_pos hstop]
    rfl
  | cons e ents =>
    rw [hents] at hcall hwithin
    -- the first call leaves the node where it would be after reading `e` of the whole list
    have hn : (op.nodeAt (k + op.nodeCount.toNat) (e :: ents) w').nodeCount > 1 := h.nodes
    refine ⟨(e :: ents).length, w', fun fuel => ?_⟩
    have hleft := dispatchReads_left h (k + op.nodeCount.toNat) w' fuel (e :: ents) fun x hx => (hwithin x hx).2.1
    have hsame : (op.nodeAt k [] w).getReadRange = (op.nodeAt (k + op.nodeCount.toNat) (e :: ents) w').getReadRange := by
      rw [hcall, getReadRange_left hn rfl]
      rfl
    have hlen : (e :: ents).length + fuel = ents.length + fuel + 1 := by
      simp only [length_cons]
      omega
    have hstop : op.BlockStops fileSize k ↔ MeetsEof fileSize (e :: ents) := by
      simp [ReadOp.BlockStops, hents]
    have hrun : (op.nodeAt k [] w).dispatchReads fileSize ((e :: ents).length + fuel)
        = (op.nodeAt (k + op.nodeCount.toNat) (e :: ents) w').dispatchReads fileSize ((e :: ents).length + fuel) := by
      rw [hlen, dispatchReads, dispatchReads, hsame]
    rw [hrun, hleft]
    simp only [hstop]

/-- **A run of a node is a walk over its blocks.** -/
theorem dispatchReads_walk : ∀ (m : Nat) {k : Nat} (w : Int),
    op.Near bound k → (∃ j < m, op.BlockStops fileSize (k + j * op.nodeCount.toNat)) →
      ∃ fuel, (op.nodeAt k [] w).dispatchReads fileSize fuel
        = some (walk op.nodeCount.toNat (op.blockOut fileSize) (op.BlockStops fileSize) m k)
  | 0, _, _, _, ⟨_, hj, _⟩ => absurd hj (Nat.not_lt_zero _)
  | m + 1, k, w, hk, ⟨j, hj, hstop⟩ => by
    obtain ⟨calls, w', hblock⟩ := dispatchReads_block h hk w
    rw [walk]
    by_cases hs : op.BlockStops fileSize k
    · exact ⟨calls + 0, by rw [hblock, if_pos hs, if_pos hs, append_nil]⟩
    · have hrest : ∃ j' < m, op.BlockStops fileSize (k + op.nodeCount.toNat + j' * op.nodeCount.toNat) := by
        cases j with
        | zero => exact absurd (by simpa using hstop) hs
        | succ j => exact ⟨j, by omega, by rw [← stride_succ]; exact hstop⟩
      obtain ⟨fuel, hfuel⟩ := dispatchReads_walk m w' (near_add h hk hs) hrest
      exact ⟨calls + fuel, by rw [hblock, if_neg hs, if_neg hs, hfuel]; rfl⟩

/-- Every node stops. -/
theorem exists_blockStops : ∀ (m : Nat) {k : Nat}, op.Near bound k → bound ≤ op.blockStart k + m →
      ∃ j < m + 1, op.BlockStops fileSize (k + j * op.nodeCount.toNat)
  | m, k, hk, hm => by
    by_cases hs : op.BlockStops fileSize k
    · exact ⟨0, by omega, by simpa using hs⟩
    · have hlt := lt_of_not_blockStops h hk hs
      cases m with
      | zero => omega
      | succ m =>
        have hpos : 0 < op.nodeCount * op.stripeBlocksize :=
          Int.mul_pos (by have := h.nodes; omega) h.blocksize
        obtain ⟨j, hj, hstop⟩ := exists_blockStops m (near_add h hk hs) (by rw [blockStart_add h]; omega)
        exact ⟨j + 1, by omega, by rw [stride_succ]; exact hstop⟩

/-- What node `i` sends in the whole transfer. -/
def ReadOp.nodeReads (op : ReadOp) (bound fileSize : Int) : Nat → List (Int × Int) :=
  walk op.nodeCount.toNat (op.blockOut fileSize) (op.BlockStops fileSize) (bound.toNat + 1)

theorem stops_of_lt (hi : i < op.nodeCount.toNat) :
    ∃ j < bound.toNat + 1, op.BlockStops fileSize (i + j * op.nodeCount.toNat) := by
  refine exists_blockStops h _ (near_of_lt h hi) ?_
  have := blockStart_nonneg h i
  omega

theorem dispatchReads_node (hi : i < op.nodeCount.toNat) :
    ∃ fuel, (op.node i).dispatchReads fileSize fuel = some (op.nodeReads bound fileSize i) :=
  dispatchReads_walk h _ op.writeDelta (near_of_lt h hi) (stops_of_lt h hi)

end Runs

/-! ## 3. What is sent for one block -/

/-- The bytes of the file that a range reads. -/
def readBytes (fileSize : Int) (r : Int × Int) : Set Int := rangeBytes r.1 r.2 ∩ Set.Iio fileSize

/-- If the request runs across the start of block `k`, it fills the block up to the end of the
file. -/
def ReadOp.CrossFills (op : ReadOp) (fileSize : Int) (k : Nat) : Prop :=
  op.blockStart k - 1 ∈ op.requestBytes → op.blockStart k ∈ op.requestBytes →
    ∀ x, op.blockStart k ≤ x → x < op.blockStart (k + 1) → x < fileSize → x ∈ op.requestBytes

section Out

variable {op : ReadOp} {bound fileSize : Int}

theorem exists_of_mem_takeToEof {r : Int × Int}
    (hr : r ∈ takeToEof fileSize ents) : ∃ e ∈ ents, r = (e.offset, e.length) := by
  induction ents with
  | nil => exact absurd hr (by simp [takeToEof])
  | cons e ents ih =>
    rw [takeToEof, mem_cons] at hr
    rcases hr with rfl | hr
    · exact ⟨e, by simp, rfl⟩
    · split at hr
      · exact absurd hr (by simp)
      · obtain ⟨x, hx, rfl⟩ := ih hr
        exact ⟨x, by simp [hx], rfl⟩

/-- What is cut off the list is behind the end of the file. -/
theorem mem_takeToEof_bytes (hw : WfEnts ents) (hx : x < fileSize) :
    (∃ r ∈ takeToEof fileSize ents, x ∈ rangeBytes r.1 r.2) ↔ x ∈ entsBytes ents := by
  induction ents with
  | nil => simp [takeToEof]
  | cons e ents ih =>
    obtain ⟨-, hb, hwn⟩ := wfEnts_cons.mp hw
    simp only [takeToEof, exists_mem_cons_iff, entsBytes_cons, Set.mem_union]
    refine or_congr_right ?_
    split
    · refine iff_of_false (by simp) fun hmem => ?_
      obtain ⟨y, hy, hxy⟩ := mem_entsBytes.mp hmem
      have h1 := (mem_rangeBytes.mp hxy).1
      have h2 := (hb y hy).2
      omega
    · exact ih hwn

theorem takeToEof_disjoint (hw : WfEnts ents) : (takeToEof fileSize ents).Pairwise fun r r' =>
      Disjoint (readBytes fileSize r) (readBytes fileSize r') := by
  induction ents with
  | nil => exact List.Pairwise.nil
  | cons e ents ih =>
    obtain ⟨-, hb, hwn⟩ := wfEnts_cons.mp hw
    rw [takeToEof, pairwise_cons]
    split
    · simp
    · refine ⟨fun r hr => ?_, ih hwn⟩
      obtain ⟨y, hy, rfl⟩ := exists_of_mem_takeToEof hr
      refine Set.disjoint_left.mpr fun x hx hx' => ?_
      have h1 := (mem_rangeBytes.mp hx.1).2.resolve_left (hb y hy).1
      have h2 := (mem_rangeBytes.mp hx'.1).1
      have h3 := (hb y hy).2
      omega

variable (h : op.Striped bound fileSize)

include h

/-- What is sent for a block is in the block. -/
theorem blockOut_within (hk : op.Near bound k)
    {r : Int × Int} (hr : r ∈ op.blockOut fileSize k) (hx : x ∈ rangeBytes r.1 r.2) :
    op.blockStart k ≤ x ∧ x < op.blockStart (k + 1) := by
  obtain ⟨e, he, rfl⟩ := exists_of_mem_takeToEof hr
  obtain ⟨h1, h2, h3⟩ := (blockEnts_shape h hk).2.within e he
  obtain ⟨h4, h5⟩ := mem_rangeBytes.mp hx
  have hm := rangeListMax_eq
  omega

/-- **Where the request fills what it crosses into, the requested bytes of the block are sent**,
each of them once. -/
theorem blockOut_correct (hk : op.Near bound k) (hc : op.CrossFills fileSize k) :
    (∀ x < fileSize, (∃ r ∈ op.blockOut fileSize k, x ∈ rangeBytes r.1 r.2)
      ↔ x ∈ op.requestBytes ∧ op.blockStart k ≤ x ∧ x < op.blockStart (k + 1))
    ∧ (op.blockOut fileSize k).Pairwise fun r r' =>
      Disjoint (readBytes fileSize r) (readBytes fileSize r') := by
  have hshape := (blockEnts_shape h hk).2
  rw [blockOut]
  unfold ReadOp.CrossFills at hc
  rw [← requestEnts_bytes h.toInRange] at hc ⊢
  generalize op.blockEnts k = chain at hshape
  cases hshape with
  | exact hw hb _ =>
    refine ⟨fun x hx => ?_, takeToEof_disjoint hw⟩
    rw [mem_takeToEof_bytes hw hx, hb]
    rfl
  | @extended e chain b he h1 h2 h3 h4 h5 h6 h7 =>
    -- the entry is sent up to the end of the file, which is not behind `b`
    have hb : fileSize ≤ b := by
      by_contra hlt
      exact h6 (hc (h7 _ (by omega) (by omega)) (h7 _ (by omega) (by omega)) b (by omega) h2 (by omega))
    have hend : e.offset + e.length > fileSize := by omega
    rw [takeToEof, if_pos hend]
    refine ⟨fun x hx => ?_, pairwise_singleton _ _⟩
    simp only [mem_singleton, exists_eq_left, mem_rangeBytes]
    constructor
    · rintro ⟨hx1, -⟩
      exact ⟨h7 x (by omega) (by omega), by omega, by omega⟩
    · rintro ⟨-, hx1, -⟩
      exact ⟨by omega, .inr (by omega)⟩

/-- **Where it does not, a byte is sent that nobody asked for.** -/
theorem blockOut_wrong (hk : op.Near bound k) (hc : ¬ op.CrossFills fileSize k) :
    ∃ r ∈ op.blockOut fileSize k, ∃ x ∈ readBytes fileSize r, x ∉ op.requestBytes := by
  have hshape := (blockEnts_shape h hk).2
  rw [blockOut]
  unfold ReadOp.CrossFills at hc
  rw [← requestEnts_bytes h.toInRange] at hc ⊢
  generalize op.blockEnts k = chain at hshape
  cases hshape with
  | exact hw hb hfull => exact absurd (fun h1 h2 x hx1 hx2 _ => hfull h1 h2 ⟨hx1, hx2⟩) hc
  | @extended e chain b he h1 h2 h3 h4 h5 h6 h7 =>
    have hb : b < fileSize := by
      by_contra hge
      exact hc fun _ _ x hx1 hx2 hx3 => h7 x (by omega) (by omega)
    refine ⟨(e.offset, e.length), by simp [takeToEof], b, ⟨?_, hb⟩, h6⟩
    exact mem_rangeBytes.mpr ⟨by omega, .inr h3⟩

end Out

/-! ## 4. The whole transfer -/

/-- If the next block of the node of block `k` has a requested byte of the file, so has block `k`. -/
def ReadOp.NoGap (op : ReadOp) (fileSize : Int) (k : Nat) : Prop :=
  (∃ x ∈ op.requestBytes, op.blockStart (k + op.nodeCount.toNat) ≤ x
      ∧ x < op.blockStart (k + op.nodeCount.toNat + 1) ∧ x < fileSize) →
    ∃ x ∈ op.requestBytes, op.blockStart k ≤ x ∧ x < op.blockStart (k + 1)

/-- The nodes come to an end, the ranges they read are disjoint, and together these are the requested
bytes of the file. -/
def ReadOp.SendsOnce (op : ReadOp) (fileSize : Int) : Prop :=
  ∃ reads : Nat → List (Int × Int),
    (∀ i < op.nodeCount.toNat, ∃ fuel, (op.node i).dispatchReads fileSize fuel = some (reads i))
    ∧ (((range op.nodeCount.toNat).flatMap reads).Pairwise fun r r' =>
        Disjoint (readBytes fileSize r) (readBytes fileSize r'))
    ∧ ∀ x, (∃ r ∈ (range op.nodeCount.toNat).flatMap reads, x ∈ readBytes fileSize r)
        ↔ x ∈ op.requestBytes ∧ x < fileSize

section Transfer

variable {op : ReadOp} {bound fileSize : Int}

/-- Block `k` is reached by its node. -/
def ReadOp.BlockReached (op : ReadOp) (fileSize : Int) (k : Nat) : Prop :=
  Stride.Reached op.nodeCount.toNat (op.BlockStops fileSize) k

section

variable (h : op.Striped bound fileSize)

include h

theorem near_of_reached (hk : op.BlockReached fileSize k) : op.Near bound k := by
  have hn := h.nodes
  induction k using Nat.strong_induction_on with
  | _ k ih =>
    by_cases hlt : k < op.nodeCount.toNat
    · exact near_of_lt h hlt
    · have hprev : op.BlockReached fileSize (k - op.nodeCount.toNat) := by
        intro j hj hle
        have hsub : k - op.nodeCount.toNat - j * op.nodeCount.toNat = k - (j + 1) * op.nodeCount.toNat := by
          rw [Nat.succ_mul]
          omega
        rw [hsub]
        exact hk (j + 1) (Nat.succ_pos j) (by rw [Nat.succ_mul]; omega)
      have hns : ¬ op.BlockStops fileSize (k - op.nodeCount.toNat) := by
        have := hk 1 Nat.one_pos (by omega)
        rwa [Nat.one_mul] at this
      have hnear := near_add h (ih _ (by omega) hprev) hns
      rwa [Nat.sub_add_cancel (by omega)] at hnear

/-- The bytes that are sent, block by block. -/
theorem mem_reads_iff : (∃ r ∈ (range op.nodeCount.toNat).flatMap (op.nodeReads bound fileSize), x ∈ readBytes fileSize r)
      ↔ ∃ k, op.BlockReached fileSize k ∧ ∃ r ∈ op.blockOut fileSize k, x ∈ readBytes fileSize r := by
  have hn : 0 < op.nodeCount.toNat := by
    have := h.nodes
    omega
  constructor
  · rintro ⟨r, hr, hx⟩
    obtain ⟨k, hk, hr⟩ := (mem_flatMap_walk hn fun i hi => stops_of_lt h hi).mp hr
    exact ⟨k, hk, r, hr, hx⟩
  · rintro ⟨k, hk, r, hr, hx⟩
    exact ⟨r, (mem_flatMap_walk hn fun i hi => stops_of_lt h hi).mpr ⟨k, hk, hr⟩, hx⟩

/-- A node stops before the block of a requested byte only at a block without such bytes. -/
theorem reached_of_noGap (hgap : ∀ k, op.NoGap fileSize k)
    (hx : x ∈ op.requestBytes) (hxf : x < fileSize) (h1 : op.blockStart k ≤ x)
    (h2 : x < op.blockStart (k + 1)) : op.BlockReached fileSize k := by
  have hn := h.nodes
  -- the blocks before it in its stride are before `x`
  have hbefore : ∀ j, 0 < j → j * op.nodeCount.toNat ≤ k → op.blockStart (k - j * op.nodeCount.toNat + 1) ≤ x := by
    intro j hj hle
    have hpos : 0 < j * op.nodeCount.toNat := Nat.mul_pos hj (by omega)
    exact (blockStart_mono h (by omega)).trans h1
  -- going back along the stride, every block has a requested byte
  have hback : ∀ j, j * op.nodeCount.toNat ≤ k → ∃ y ∈ op.requestBytes, op.blockStart (k - j * op.nodeCount.toNat) ≤ y
        ∧ y < op.blockStart (k - j * op.nodeCount.toNat + 1) ∧ y < fileSize := by
    intro j
    induction j with
    | zero => exact fun _ => ⟨x, hx, by simpa using h1, by simpa using h2, hxf⟩
    | succ j ih =>
      intro hle
      have hlt := hbefore (j + 1) (Nat.succ_pos j) hle
      rw [Nat.succ_mul] at hle hlt ⊢
      have hcur : k - (j * op.nodeCount.toNat + op.nodeCount.toNat) + op.nodeCount.toNat
          = k - j * op.nodeCount.toNat := by omega
      obtain ⟨y, hy, hy1, hy2⟩ := hgap (k - (j * op.nodeCount.toNat + op.nodeCount.toNat))
        (by rw [hcur]; exact ih (by omega))
      exact ⟨y, hy, hy1, hy2, by omega⟩
  intro j hj hle
  obtain ⟨y, hy, hy1, hy2, -⟩ := hback j hle
  have hlt := hbefore j hj hle
  have hfile := h.fileSize_le
  have hshape := (blockEnts_shape h (near_of_blockStart_le h (by omega) : op.Near bound (k - j * op.nodeCount.toNat))).2
  rintro (hnil | ⟨e, he, hend⟩)
  · rw [← requestEnts_bytes h.toInRange] at hy
    exact hshape.eq_nil_iff.mp hnil y hy ⟨hy1, hy2⟩
  · have := (hshape.within e he).2.2
    omega

/-- Requested bytes are not negative. -/
theorem nonneg_of_mem_requestBytes (hx : x ∈ op.requestBytes) : 0 ≤ x := by
  rw [← requestEnts_bytes h.toInRange] at hx
  obtain ⟨e, he, hxe⟩ := mem_entsBytes.mp hx
  have h1 := ((requestEnts_wf h.toInRange).valid e he).1
  have h2 := (mem_rangeBytes.mp hxe).1
  omega

/-- If the requested bytes are all sent, their blocks are reached. -/
theorem reached_of_sent (hsent : ∀ x, (∃ k, op.BlockReached fileSize k ∧ ∃ r ∈ op.blockOut fileSize k,
      x ∈ readBytes fileSize r) ↔ x ∈ op.requestBytes ∧ x < fileSize)
    (hx : x ∈ op.requestBytes) (hxf : x < fileSize) (h1 : op.blockStart k ≤ x)
    (h2 : x < op.blockStart (k + 1)) : op.BlockReached fileSize k := by
  obtain ⟨k', hk', r, hr, hxr⟩ := (hsent x).mpr ⟨hx, hxf⟩
  obtain ⟨h3, h4⟩ := blockOut_within h (near_of_reached h hk') hr hxr.1
  rwa [block_unique h h1 h2 h3 h4]

end

end Transfer

/-- Two nodes, blocks of 10 bytes, and one request from `offset` to the end of the file. -/
def twoNodes (offset : Int) : ReadOp :=
  { nodeCount := 2
    stripeLayout := .blocked
    stripeBlocksize := 10
    allocSize := 0
    mode := 'E'
    rangeList := ⟨1, [⟨offset, -1⟩]⟩
    partialOffset := 0
    partialLength := -1
    stripeRangeList := .init
    stripeChunk := 0
    writeDelta := 0 }

theorem mem_requestBytes_twoNodes {offset x : Int} : x ∈ (twoNodes offset).requestBytes ↔ offset ≤ x := by
  simp [requestBytes, twoNodes, RangeList.bytes, mem_rangeBytes, rangeListMax]

end Gct
