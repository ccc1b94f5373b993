/-
# Extended block mode: a write on several stripes

A write is cut into pieces by the layout function, and each piece goes to the queue of its stripe.
`globus_ftp_control_layout_blocked` cuts at the multiples of the block size and deals the blocks out in
turn.  It passes the flag `eof` of the write on with every piece; then
`globus_l_ftp_control_data_eb_write` looks at the last entry of each queue, and puts an empty one with
the flag behind it if it has none.

So the flag is on every piece of the last write.  A stripe that gets two of them has it twice, and the
poll that takes the first sends `EOD` on all its connections (`ebWrite_striped_iff`).
-/
import Gct.Off
import Gct.Eb.SenderRun

namespace Gct.Eb

open List Function Sender

/-! ## 1. The layout -/

/-- The arguments of a call of `globus_X_ftp_control_data_write_stripe`. -/
structure Piece where
  stripeNdx : Int
  buffer : List UInt8
  offset : Int
deriving DecidableEq

/-- The conversion to `globus_size_t`, 64 bits without a sign. -/
def sizeT (x : Int) : Int := x % 18446744073709551616

/-- The loop of `globus_ftp_control_layout_blocked`, for at most `fuel` rounds. -/
def blockedLoop (chunk stripeCount : Int) (buffer : List UInt8) (inOffset : Int) :
    Nat → Int → List Piece
  | 0, _ => []
  | fuel + 1, offset =>
    if sizeT offset < sizeT (inOffset + buffer.length) then
      let size := sizeT (chunk - offset.tmod chunk)
      let rest := sizeT (buffer.length - sizeT (offSub offset inOffset))
      let size := if size > rest then rest else size
      ⟨(offset.tdiv chunk).tmod stripeCount,
        (buffer.drop (sizeT (offSub offset inOffset)).toNat).take size.toNat, offset⟩ ::
        blockedLoop chunk stripeCount buffer inOffset fuel (wrapOff (offset + size))
    else []

/-- `globus_ftp_control_layout_blocked`: the pieces that are written.  No round is empty, so as many as
there are bytes are enough. -/
def layoutBlocked (chunk stripeCount : Int) (buffer : List UInt8) (inOffset : Int) : List Piece :=
  blockedLoop chunk stripeCount buffer inOffset buffer.length inOffset

/-! ## 2. The write -/

/-- The queues of the stripes.  `shared` has the fields of the handle and of the transfer; those of a
stripe are not used there. -/
structure Transfer where
  stripeCount : Nat
  blockSize : Int
  shared : Sender
  commandQ : Nat → List Entry

namespace Transfer

variable (t : Transfer)

/-- A stripe of the transfer. -/
def stripe (i : Nat) : Sender := { t.shared with commandQ := t.commandQ i }

/-- The transfer after an operation on one stripe. -/
def putStripe (i : Nat) (s : Sender) : Transfer :=
  { t with shared := s, commandQ := update t.commandQ i s.commandQ }

/-- The layout function registers the pieces, and stops at an error, which nobody looks at. -/
def layout (eof : Bool) (handle : Nat) : List Piece → Transfer → Transfer
  | [], t => t
  | piece :: pieces, t =>
    let i := piece.stripeNdx.toNat
    match (t.stripe i).writeStripe eof handle (piece.buffer, piece.offset) with
    | .ok s => layout eof handle pieces (t.putStripe i s)
    | .error _ => t

/-- The loop over the stripes at the end of `globus_l_ftp_control_data_eb_write` if `eof` is true. -/
def finishQueues (handle : Nat) : List Nat → Transfer → Transfer
  | [], t => t
  | i :: stripes, t => finishQueues handle stripes (t.putStripe i ((t.stripe i).finishQueue handle))

/-- `globus_l_ftp_control_data_eb_write` with `globus_ftp_control_layout_blocked` -/
def ebWrite (buffer : List UInt8) (offset : Int) (eof : Bool) : Except String Transfer :=
  if t.shared.eofRegistered then
    .error "[globus_ftp_control]:globus_l_ftp_control_data_eb_write() : eof has already been registered"
  else if buffer.length = 0 ∧ ¬ eof then
    .error "[globus_ftp_control]:globus_l_ftp_control_data_eb_write() : cannot register a zero length message unless you are signifying eof."
  else
    let handle := t.shared.nextHandle
    let t := { t with shared := t.shared.createDataInfo }
    let t := layout eof handle (layoutBlocked t.blockSize t.stripeCount buffer offset) t
    let t := if eof then
        finishQueues handle (range t.stripeCount)
          { t with shared := { t.shared with eofRegistered := true, eofTableHandle := handle } }
      else t
    .ok { t with shared := t.shared.releaseDataInfo handle }

end Transfer

/-! ## 3. Where the pieces lie -/

/-- The pieces are cut from the buffer one after the other, at the multiples of `chunk` and nowhere else,
and block `n` is for stripe `n % count`. -/
inductive Spans (chunk count : Nat) : Nat → List UInt8 → List Piece → Prop
  | nil (offset : Nat) : Spans chunk count offset [] []
  | cons {offset : Nat} {b rest : List UInt8} {pieces : List Piece} (ne : b ≠ [])
      (inside : (offset + (b.length - 1)) / chunk = offset / chunk)
      (whole : rest = [] ∨ chunk ∣ offset + b.length)
      (tail : Spans chunk count (offset + b.length) rest pieces) :
      Spans chunk count offset (b ++ rest) (⟨(offset / chunk % count : Nat), b, offset⟩ :: pieces)

/-- The conversion does nothing to a value that fits. -/
theorem sizeT_eq {x : Int} (h0 : 0 ≤ x) (h : x ≤ offMax) : sizeT x = x :=
  Int.emod_eq_of_lt h0 (h.trans_lt (by decide))

section Loop

variable {chunk count : Nat} {buffer : List UInt8} {inOffset : Nat}

/-- One round, as the source computes it. -/
theorem blockedLoop_succ (hchunk : (chunk : Int) ≤ 2147483647) (hpos : 0 < chunk)
    (hfits : (inOffset + buffer.length : Int) ≤ offMax) (fuel : Nat) {n : Nat} (hn : n < buffer.length) :
    blockedLoop chunk count buffer inOffset (fuel + 1) (inOffset + n : Nat) =
      let offset := inOffset + n
      let size := min (chunk - offset % chunk) (buffer.length - n)
      ⟨(offset / chunk % count : Nat), (buffer.drop n).take size, offset⟩ ::
        blockedLoop chunk count buffer inOffset fuel (offset + size : Nat) := by
  have hmod : (inOffset + n) % chunk < chunk := Nat.mod_lt _ hpos
  have hmax := offMax_eq
  have hoffset : sizeT ((inOffset + n : Nat) : Int) = (inOffset + n : Nat) :=
    sizeT_eq (by omega) (by omega)
  have hend : sizeT ((inOffset : Int) + buffer.length) = inOffset + buffer.length :=
    sizeT_eq (by omega) hfits
  have hdone : sizeT (offSub ((inOffset + n : Nat) : Int) inOffset) = n := by
    rw [offSub_eq ⟨by omega, by omega⟩, sizeT_eq (by omega) (by omega)]
    omega
  have hrest : sizeT ((buffer.length : Int) - n) = (buffer.length - n : Nat) := by
    rw [sizeT_eq (by omega) (by omega)]
    omega
  have hsize : sizeT ((chunk : Int) - ((inOffset + n : Nat) : Int).tmod chunk) =
      (chunk - (inOffset + n) % chunk : Nat) := by
    rw [← Int.ofNat_tmod, sizeT_eq (by omega) (by omega)]
    omega
  have hstripe : (((inOffset + n : Nat) : Int).tdiv chunk).tmod count = ((inOffset + n) / chunk % count : Nat) := by
    rw [← Int.ofNat_tdiv, ← Int.ofNat_tmod]
  rw [blockedLoop, hoffset, hend, if_pos (by omega)]
  dsimp only
  rw [hdone, hrest, hsize, hstripe]
  have hmin : (if ((chunk - (inOffset + n) % chunk : Nat) : Int) > (buffer.length - n : Nat) then
      ((buffer.length - n : Nat) : Int) else (chunk - (inOffset + n) % chunk : Nat)) =
      (min (chunk - (inOffset + n) % chunk) (buffer.length - n) : Nat) := by
    split <;> omega
  have hnext : wrapOff (((inOffset + n : Nat) : Int) + (min (chunk - (inOffset + n) % chunk) (buffer.length - n) : Nat)) =
      (inOffset + n + min (chunk - (inOffset + n) % chunk) (buffer.length - n) : Nat) :=
    wrapOff_eq ⟨by omega, by omega⟩
  rw [hmin, hnext, Int.toNat_natCast, Int.toNat_natCast]

/-- No round without bytes left. -/
theorem blockedLoop_end (fuel : Nat) :
    blockedLoop chunk count buffer inOffset fuel (inOffset + buffer.length : Nat) = [] := by
  cases fuel with
  | zero => rfl
  | succ fuel =>
    rw [blockedLoop, if_neg]
    exact lt_irrefl _

/-- Within a block. -/
theorem div_of_mod_add_lt {offset size : Nat} (hpos : 0 < chunk) (h : offset % chunk + size < chunk) :
    (offset + size) / chunk = offset / chunk := by
  have hsplit : offset + size = offset % chunk + size + chunk * (offset / chunk) := by
    rw [Nat.add_right_comm, Nat.mod_add_div]
  rw [hsplit, Nat.add_mul_div_left _ _ hpos, Nat.div_eq_of_lt h, Nat.zero_add]

theorem blockedLoop_spans (hchunk : (chunk : Int) ≤ 2147483647) (hpos : 0 < chunk)
    (hfits : (inOffset + buffer.length : Int) ≤ offMax) (fuel : Nat) : ∀ {n : Nat},
    n ≤ buffer.length → buffer.length ≤ n + fuel → Spans chunk count (inOffset + n) (buffer.drop n)
      (blockedLoop chunk count buffer inOffset fuel (inOffset + n : Nat)) := by
  induction fuel with
  | zero =>
    intro n hle hfuel
    obtain rfl : n = buffer.length := le_antisymm hle hfuel
    rw [drop_length]
    exact .nil _
  | succ fuel ih =>
    intro n hle hfuel
    rcases Nat.eq_or_lt_of_le hle with rfl | hlt
    · rw [drop_length, blockedLoop_end]
      exact .nil _
    · rw [blockedLoop_succ hchunk hpos hfits fuel hlt]
      dsimp only
      have hmod : (inOffset + n) % chunk < chunk := Nat.mod_lt _ hpos
      generalize hsize : min (chunk - (inOffset + n) % chunk) (buffer.length - n) = size
      have hlen : ((buffer.drop n).take size).length = size := by
        rw [length_take, length_drop]
        omega
      have htail := ih (n := n + size) (by omega) (by omega)
      have hsplit : (buffer.drop n).take size ++ buffer.drop (n + size) = buffer.drop n := by
        rw [← drop_drop, take_append_drop]
      rw [← hsplit, take_left' hlen]
      refine .cons ?_ ?_ ?_ ?_
      · rw [← length_pos_iff, hlen]
        omega
      · rw [hlen]
        exact div_of_mod_add_lt hpos (by omega)
      · rw [hlen]
        rcases Nat.lt_or_ge (chunk - (inOffset + n) % chunk) (buffer.length - n) with h | h
        · -- the piece goes to the end of its block
          right
          have hsum : inOffset + n + size = inOffset + n - (inOffset + n) % chunk + chunk := by
            have := Nat.mod_le (inOffset + n) chunk
            omega
          rw [hsum]
          exact Nat.dvd_add (Nat.dvd_sub_mod _) (Nat.dvd_refl chunk)
        · left
          rw [drop_eq_nil_iff]
          omega
      · rw [hlen, Nat.add_assoc]
        exact htail

end Loop

/-- The pieces are the buffer, one after the other from `offset` on, and each lies in one block of its
stripe. -/
structure Partition (chunk count : Int) (offset : Int) (buffer : List UInt8) (pieces : List Piece) :
    Prop where
  bytes : pieces.flatMap Piece.buffer = buffer
  consecutive : ∀ l p l', pieces = l ++ p :: l' → p.offset = offset + (l.flatMap Piece.buffer).length
  owned : ∀ p ∈ pieces, p.buffer ≠ [] ∧ (p.offset + p.buffer.length - 1) / chunk = p.offset / chunk ∧
    p.stripeNdx = p.offset / chunk % count

namespace Spans

variable {chunk count offset : Nat} {buffer : List UInt8} {pieces : List Piece}

variable (h : Spans chunk count offset buffer pieces)

include h

theorem partition : Partition chunk count offset buffer pieces := by
  induction h with
  | nil offset => exact ⟨rfl, by simp, by simp⟩
  | @cons offset b rest pieces ne inside whole tail ih =>
    have hlen := length_pos_iff.mpr ne
    refine ⟨by rw [flatMap_cons, ih.bytes], ?_, ?_⟩
    · intro l p l' heq
      cases l with
      | nil =>
        obtain ⟨rfl, rfl⟩ := cons.inj heq
        simp
      | cons q l =>
        obtain ⟨rfl, htail⟩ := cons.inj heq
        rw [ih.consecutive l p l' htail, flatMap_cons, length_append]
        dsimp only
        omega
    · intro p hp
      rcases mem_cons.mp hp with rfl | hp
      · refine ⟨ne, ?_, by norm_cast⟩
        rw [← Int.natCast_div, ← inside]
        have : (offset : Int) + b.length - 1 = (offset + (b.length - 1) : Nat) := by omega
        rw [this]
        norm_cast
      · exact ih.owned p hp

theorem eq_nil (hb : buffer = []) : pieces = [] := by
  cases h with
  | nil offset => rfl
  | cons ne inside whole tail => exact absurd (append_eq_nil_iff.mp hb).1 ne

omit h in
/-- A piece that goes to the end of its block. -/
theorem next_block {size : Nat} (hsize : 0 < size)
    (inside : (offset + (size - 1)) / chunk = offset / chunk) (hdvd : chunk ∣ offset + size) :
    (offset + size) / chunk = offset / chunk + 1 := by
  obtain ⟨m, hm⟩ := hdvd
  have hlast : offset + (size - 1) + 1 = chunk * m := by omega
  have hdiv := Nat.succ_div_of_dvd (a := offset + (size - 1)) (b := chunk) ⟨m, hlast⟩
  rw [inside] at hdiv
  rw [← hdiv]
  congr 1
  omega

/-- The stripes take turns. -/
theorem stripes : pieces.map Piece.stripeNdx =
      (range' (offset / chunk) pieces.length).map fun n => ((n % count : Nat) : Int) := by
  induction h with
  | nil offset => rfl
  | @cons offset b rest pieces ne inside whole tail ih =>
    rw [map_cons, ih, length_cons, range'_succ, map_cons]
    rcases whole with rfl | hdvd
    · rw [tail.eq_nil rfl]
      rfl
    · rw [next_block (length_pos_iff.mpr ne) inside hdvd]

/-- There are as many pieces as blocks. -/
theorem length (hb : buffer ≠ []) : pieces.length + offset / chunk = (offset + (buffer.length - 1)) / chunk + 1 := by
  induction h with
  | nil offset => exact absurd rfl hb
  | @cons offset b rest pieces ne inside whole tail ih =>
    have hlen := length_pos_iff.mpr ne
    by_cases hrest : rest = []
    · rw [hrest, append_nil, inside, tail.eq_nil hrest, length_singleton]
      omega
    · have hnext := next_block hlen inside (whole.resolve_left hrest)
      have hlast : offset + ((b ++ rest).length - 1) = offset + b.length + (rest.length - 1) := by
        have := length_pos_iff.mpr hrest
        rw [length_append]
        omega
      have := ih hrest
      rw [hlast, length_cons]
      omega

theorem exists_stripe {p : Piece} (hp : p ∈ pieces) : ∃ n : Nat, p.stripeNdx = (n % count : Nat) := by
  have hmem : p.stripeNdx ∈ pieces.map Piece.stripeNdx := mem_map_of_mem hp
  rw [h.stripes] at hmem
  obtain ⟨n, -, hn⟩ := mem_map.mp hmem
  exact ⟨n, hn.symm⟩

end Spans

/-- Consecutive blocks are on different stripes exactly if there are no more of them than stripes. -/
theorem nodup_turns {count : Nat} (hcount : 0 < count) (first n : Nat) :
    ((range' first n).map fun m => ((m % count : Nat) : Int)).Nodup ↔ n ≤ count := by
  constructor
  · intro hnodup
    have hsub : ((range' first n).map fun m => ((m % count : Nat) : Int)) ⊆ (range count).map (Nat.cast : Nat → Int) := by
      intro x hx
      obtain ⟨m, -, rfl⟩ := mem_map.mp hx
      exact mem_map.mpr ⟨m % count, mem_range.mpr (Nat.mod_lt _ hcount), rfl⟩
    simpa using (hnodup.subperm hsub).length_le
  · intro hn
    refine List.Nodup.map_on (fun x hx y hy heq => ?_) nodup_range'
    simp only [mem_range'_1] at hx hy
    have hmod : x % count = y % count := Int.ofNat.inj heq
    rcases le_total x y with hxy | hxy
    · have hzero := Nat.sub_mod_eq_zero_of_mod_eq hmod.symm
      rw [Nat.mod_eq_of_lt (by omega)] at hzero
      omega
    · have hzero := Nat.sub_mod_eq_zero_of_mod_eq hmod
      rw [Nat.mod_eq_of_lt (by omega)] at hzero
      omega

/-! ## 4. The queues -/

namespace Transfer

variable {t : Transfer} {handle : Nat} {pieces : List Piece} {offset : Int}

/-- The entries of a stripe. -/
def onStripe (i : Nat) (pieces : List Piece) : List Piece :=
  pieces.filter fun p => p.stripeNdx.toNat == i

theorem layout_commandQ (eof : Bool) (handle : Nat) (ht : t.shared.eofRegistered = false)
    (hne : ∀ p ∈ pieces, p.buffer ≠ []) : (layout eof handle pieces t).stripeCount = t.stripeCount ∧
    ∀ i, (layout eof handle pieces t).commandQ i = t.commandQ i ++
      (onStripe i pieces).map fun p => pieceEntry eof handle (p.buffer, p.offset) := by
  induction pieces generalizing t with
  | nil => exact ⟨rfl, fun i => by simp [layout, onStripe]⟩
  | cons p pieces ih =>
    have hp : (p.buffer, p.offset).1 ≠ [] := hne p mem_cons_self
    have hwrite : (t.stripe p.stripeNdx.toNat).writeStripe eof handle (p.buffer, p.offset) = _ :=
      writeStripe_eq (s := t.stripe p.stripeNdx.toNat) ht hp
    rw [layout, hwrite]
    obtain ⟨hcount, hqueue⟩ := ih (t := t.putStripe p.stripeNdx.toNat
      ((t.stripe p.stripeNdx.toNat).withPieces eof handle [(p.buffer, p.offset)])) ht
      (fun q hq => hne q (mem_cons_of_mem _ hq))
    refine ⟨hcount, fun i => ?_⟩
    rw [hqueue i]
    by_cases hi : p.stripeNdx.toNat = i
    · subst hi
      simp [putStripe, withPieces, stripe, onStripe]
    · have hi' : i ≠ p.stripeNdx.toNat := fun h => hi h.symm
      simp [putStripe, onStripe, hi, hi', update_of_ne]

/-- What `finishQueue` does to a queue. -/
def closed (handle : Nat) (q : List Entry) : List Entry :=
  if q.getLast?.any Entry.eof then q else q ++ [⟨[], 0, true, handle⟩]

theorem finishQueues_commandQ {stripes : List Nat} (hnodup : stripes.Nodup) (i : Nat) :
    (finishQueues handle stripes t).commandQ i =
      if i ∈ stripes then closed handle (t.commandQ i) else t.commandQ i := by
  induction stripes generalizing t with
  | nil => rfl
  | cons j stripes ih =>
    obtain ⟨hj, hnodup⟩ := nodup_cons.mp hnodup
    rw [finishQueues, ih hnodup]
    by_cases hi : i = j
    · subst hi
      rw [if_neg hj, if_pos mem_cons_self]
      exact update_self i _ t.commandQ
    · simp [putStripe, hi, update_of_ne]

/-- Exactly one entry has the flag `eof`, and it is the last. -/
def OneEof (q : List Entry) : Prop :=
  ∃ l e, q = l ++ [e] ∧ e.eof = true ∧ ∀ x ∈ l, x.eof = false

theorem OneEof.countP {q : List Entry} (h : OneEof q) : q.countP Entry.eof = 1 := by
  obtain ⟨l, e, rfl, he, hl⟩ := h
  have hzero : l.countP Entry.eof = 0 := by
    rw [countP_eq_zero]
    intro x hx
    rw [hl x hx]
    exact Bool.false_ne_true
  rw [countP_append, hzero, countP_singleton, he]
  rfl

/-- A queue without the flag, and pieces that all have it. -/
theorem oneEof_closed_iff {q entries : List Entry} (hq : ∀ e ∈ q, e.eof = false)
    (he : ∀ e ∈ entries, e.eof = true) : OneEof (closed handle (q ++ entries)) ↔ entries.length ≤ 1 := by
  rcases eq_nil_or_concat entries with rfl | ⟨init, e, rfl⟩
  · -- an empty entry is put behind the queue
    have hlast : (q ++ []).getLast?.any Entry.eof = false := by
      rw [append_nil]
      cases hl : q.getLast? with
      | none => rfl
      | some e => exact hq e (mem_of_getLast? hl)
    rw [closed, hlast, if_neg Bool.false_ne_true, append_nil]
    exact ⟨fun _ => Nat.zero_le 1, fun _ => ⟨q, _, rfl, rfl, hq⟩⟩
  · have heof : e.eof = true := he e (by simp)
    have hlast : (q ++ init.concat e).getLast?.any Entry.eof = true := by
      simp [heof]
    rw [closed, hlast, if_pos rfl, concat_eq_append, ← append_assoc]
    constructor
    · rintro ⟨l, e', heq, -, hl⟩
      obtain ⟨rfl, -⟩ := append_inj' heq rfl
      cases init with
      | nil => simp
      | cons x init =>
        have hfalse := hl x (by simp)
        rw [he x (by simp)] at hfalse
        cases hfalse
    · intro hlen
      obtain rfl : init = [] := by
        rw [length_append, length_singleton] at hlen
        exact length_eq_zero_iff.mp (by omega)
      exact ⟨q, e, by rw [append_nil], heof, hq⟩

/-! ## 5. The last write -/

/-- Before the last write: no entry has the flag, and the layout is a sensible one. -/
structure Open (t : Transfer) : Prop where
  eofRegistered : t.shared.eofRegistered = false
  eof : ∀ i, ∀ e ∈ t.commandQ i, e.eof = false
  stripeCount : 0 < t.stripeCount
  blockSize : 0 < t.blockSize ∧ t.blockSize ≤ 2147483647

theorem open_layout (ht : t.Open) (handle : Nat) : (layout false handle pieces t).Open := by
  induction pieces generalizing t with
  | nil => exact ht
  | cons p pieces ih =>
    rw [layout]
    unfold writeStripe
    rw [if_neg (by simp [stripe, ht.eofRegistered])]
    by_cases hlen : p.buffer.length = 0 ∧ ¬ false = true
    · rw [if_pos hlen]
      exact ht
    · rw [if_neg hlen]
      have heof : ∀ e ∈ t.commandQ p.stripeNdx.toNat ++ [⟨p.buffer, p.offset, false, handle⟩], e.eof = false :=
        forall_mem_append.mpr ⟨ht.eof _, forall_mem_singleton.mpr rfl⟩
      exact ih ⟨ht.eofRegistered, (forall_update_iff _ fun _ q => ∀ e ∈ q, Entry.eof e = false).mpr
        ⟨heof, fun i _ => ht.eof i⟩, ht.stripeCount, ht.blockSize⟩

/-- Every write before the last one keeps the transfer open. -/
theorem Open.ebWrite {buffer : List UInt8} {t' : Transfer} (ht : t.Open)
    (h : t.ebWrite buffer offset false = .ok t') : t'.Open := by
  unfold Transfer.ebWrite at h
  rw [if_neg (by simp [ht.eofRegistered])] at h
  split at h
  · cases h
  · cases h
    have hinfo : Open { t with shared := t.shared.createDataInfo } := { ht with }
    exact { open_layout hinfo t.shared.nextHandle with }

/-- What the last write should do: the pieces are put behind the queues, apart from empty entries, and
each queue has the flag once, at its end. -/
structure StripedWrite (t t' : Transfer) (buffer : List UInt8) (offset : Int) : Prop where
  pieces : ∃ pieces : List Piece, Partition t.blockSize t.stripeCount offset buffer pieces ∧
    ∀ i < t.stripeCount, ∃ rest, (∀ e ∈ rest, e.1 = []) ∧
      (t'.commandQ i).map (fun e => (e.buffer, e.offset)) =
        (t.commandQ i).map (fun e => (e.buffer, e.offset)) ++
        (pieces.filter fun p => p.stripeNdx == (i : Int)).map (fun p => (p.buffer, p.offset)) ++ rest
  eof : ∀ i < t.stripeCount, OneEof (t'.commandQ i)

variable {buffer : List UInt8}

/-- No stripe has a negative index. -/
theorem onStripe_eq {chunk count offset : Nat} (h : Spans chunk count offset buffer pieces) (i : Nat) :
    onStripe i pieces = pieces.filter fun p => p.stripeNdx == (i : Int) := by
  refine filter_congr fun p hp => ?_
  obtain ⟨n, hn⟩ := h.exists_stripe hp
  rw [hn, Int.toNat_natCast, Bool.eq_iff_iff, beq_iff_eq, beq_iff_eq]
  exact Int.natCast_inj.symm

/-- No stripe gets two pieces exactly if there are no more blocks than stripes. -/
theorem onStripe_length_iff {chunk count offset : Nat} (hcount : 0 < count)
    (h : Spans chunk count offset buffer pieces) (hb : buffer ≠ []) : (∀ i < count, (onStripe i pieces).length ≤ 1) ↔
      (offset + (buffer.length - 1)) / chunk - offset / chunk < count := by
  have hturns := nodup_turns hcount (offset / chunk) pieces.length
  rw [← h.stripes, nodup_iff_count_le_one] at hturns
  have hlen := h.length hb
  have hle : pieces.length ≤ count ↔ (offset + (buffer.length - 1)) / chunk - offset / chunk < count := by omega
  rw [← hle, ← hturns]
  have hstripe : ∀ i : Nat, (onStripe i pieces).length = (pieces.map Piece.stripeNdx).count (i : Int) := by
    intro i
    rw [onStripe_eq h, List.count, countP_map, countP_eq_length_filter]
    rfl
  constructor
  · intro hone x
    by_cases hx : x ∈ pieces.map Piece.stripeNdx
    · obtain ⟨p, hp, rfl⟩ := mem_map.mp hx
      obtain ⟨n, hn⟩ := h.exists_stripe hp
      rw [hn, ← hstripe]
      exact hone _ (Nat.mod_lt n hcount)
    · rw [count_eq_zero.mpr hx]
      exact Nat.zero_le 1
  · intro hone i _
    rw [hstripe]
    exact hone i

/-- The queues after the last write. -/
theorem ebWrite_commandQ (ht : t.Open) (hpieces : layoutBlocked t.blockSize t.stripeCount buffer offset = pieces)
    (hne : ∀ p ∈ pieces, p.buffer ≠ []) :
    ∃ t', t.ebWrite buffer offset true = .ok t' ∧ ∀ i < t.stripeCount, t'.commandQ i =
      closed t.shared.nextHandle (t.commandQ i ++ (onStripe i pieces).map fun p =>
        pieceEntry true t.shared.nextHandle (p.buffer, p.offset)) := by
  obtain ⟨hcount, hqueue⟩ := layout_commandQ (t := { t with shared := t.shared.createDataInfo }) true
    t.shared.nextHandle ht.eofRegistered hne
  unfold ebWrite
  dsimp only
  rw [hpieces, if_neg (by simp [ht.eofRegistered]), if_neg (by simp), if_pos rfl]
  refine ⟨_, rfl, fun i hi => ?_⟩
  rw [finishQueues_commandQ nodup_range, hcount, if_pos (mem_range.mpr hi)]
  rw [hqueue]

/-- **The last write is right exactly if it has no more blocks than there are stripes.** -/
theorem ebWrite_striped_iff {t : Transfer} (ht : t.Open) {buffer : List UInt8} (hb : buffer ≠ [])
    {offset : Int} (hoffset : 0 ≤ offset) (hfits : offset + buffer.length ≤ offMax) :
    ∃ t', t.ebWrite buffer offset true = .ok t' ∧ (StripedWrite t t' buffer offset ↔
      (offset + buffer.length - 1) / t.blockSize - offset / t.blockSize < t.stripeCount) := by
  obtain ⟨n, rfl⟩ := Int.eq_ofNat_of_zero_le hoffset
  obtain ⟨chunk, hchunk⟩ := Int.eq_ofNat_of_zero_le ht.blockSize.1.le
  obtain ⟨hpos, hint⟩ := ht.blockSize
  rw [hchunk] at hpos hint
  have hspans : Spans chunk t.stripeCount n buffer (layoutBlocked t.blockSize t.stripeCount buffer n) := by
    rw [hchunk]
    exact blockedLoop_spans hint (by omega) hfits buffer.length (Nat.zero_le _) (by omega)
  have hpart := hspans.partition
  generalize hpieces : layoutBlocked t.blockSize t.stripeCount buffer n = pieces at hspans hpart
  obtain ⟨t', hwrite, hqueue⟩ := ebWrite_commandQ ht hpieces fun p hp => (hpart.owned p hp).1
  have hcond : (n + buffer.length - 1 : Int) / t.blockSize - n / t.blockSize < t.stripeCount ↔
      (n + (buffer.length - 1)) / chunk - n / chunk < t.stripeCount := by
    have hlen := length_pos_iff.mpr hb
    have hle : n / chunk ≤ (n + (buffer.length - 1)) / chunk := Nat.div_le_div_right (by omega)
    rw [hchunk, show (n + buffer.length - 1 : Int) = (n + (buffer.length - 1) : Nat) by omega,
      ← Int.natCast_div, ← Int.natCast_div]
    omega
  have heof : ∀ i < t.stripeCount, (OneEof (t'.commandQ i) ↔ (onStripe i pieces).length ≤ 1) := by
    intro i hi
    rw [hqueue i hi, oneEof_closed_iff (ht.eof i), length_map]
    intro e he
    obtain ⟨p, -, rfl⟩ := mem_map.mp he
    rfl
  refine ⟨t', hwrite, ?_⟩
  rw [hcond, ← onStripe_length_iff ht.stripeCount hspans hb]
  constructor
  · exact fun h i hi => (heof i hi).mp (h.eof i hi)
  · intro h
    refine ⟨⟨pieces, hchunk ▸ hpart, fun i hi => ?_⟩, fun i hi => (heof i hi).mpr (h i hi)⟩
    rw [hqueue i hi, ← onStripe_eq hspans, closed]
    split
    · exact ⟨[], by simp, by simp [pieceEntry]⟩
    · exact ⟨[([], 0)], by simp, by simp [pieceEntry]⟩

/-- Two stripes with blocks of four bytes. -/
def twoStripes : Transfer where
  stripeCount := 2
  blockSize := 4
  shared := Setup.sender ⟨1, Nat.one_pos, false, none, 0, false, false, 0⟩
  commandQ := fun _ => []

theorem open_twoStripes : twoStripes.Open :=
  ⟨rfl, by simp [twoStripes], Nat.two_pos, by decide⟩

/-- Five bytes at offset 2 are in two blocks. -/
theorem ebWrite_striped_two_blocks : ∃ t', twoStripes.ebWrite [1, 2, 3, 4, 5] 2 true = .ok t' ∧
    StripedWrite twoStripes t' [1, 2, 3, 4, 5] 2 := by
  have hb : ([1, 2, 3, 4, 5] : List UInt8) ≠ [] := by decide
  have hoffset : (0 : Int) ≤ 2 := by decide
  obtain ⟨t', hwrite, hiff⟩ := ebWrite_striped_iff open_twoStripes hb hoffset (by decide)
  exact ⟨t', hwrite, hiff.mpr (by decide)⟩

/-- Nine bytes at offset 0 are in three: the first stripe gets the first and the third, both with the
flag. -/
theorem ebWrite_eof_twice : ∃ t', twoStripes.ebWrite [1, 2, 3, 4, 5, 6, 7, 8, 9] 0 true = .ok t' ∧
    (t'.commandQ 0).map (fun e => (e.buffer, e.eof)) = [([1, 2, 3, 4], true), ([9], true)] ∧
    ¬ StripedWrite twoStripes t' [1, 2, 3, 4, 5, 6, 7, 8, 9] 0 := by
  refine ⟨_, rfl, by decide, fun h => ?_⟩
  have hcount := (h.eof 0 Nat.two_pos).countP
  revert hcount
  decide

end Transfer

end Gct.Eb
