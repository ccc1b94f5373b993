/-
# ASCII transfers

The sender puts a carriage return before every newline (`globus_l_ftp_control_add_ascii`), and the
receiver takes every carriage return away that stands before a newline
(`globus_l_ftp_control_strip_ascii`).  The bytes are moved down in the buffer one place for each of them,
and the loop goes on to the end of the buffer as it was, over what is left there from the moves.

On a whole stream this gives the text back.  But each read is stripped by itself, so a pair that is cut
by the end of a read stays (`streamRead_eq_iff`).
-/
import Gct.Lib.Buffer
import Gct.Eb.Sender

namespace Gct

open List

/-! ## 1. The program -/

def cr : UInt8 := 13
def lf : UInt8 := 10

/-- The loop of `globus_l_ftp_control_strip_ascii`, with `n` rounds to go.  The result is the buffer and
`count`. -/
def stripLoop (length : Nat) : Nat → Nat → List UInt8 → Nat → List UInt8 × Nat
  | 0, _, buf, count => (buf, count)
  | n + 1, ctr, buf, count =>
    if buf[ctr]? = some cr ∧ buf[ctr + 1]? = some lf then
      stripLoop length n (ctr + 1) (Buffer.memmove buf ctr (ctr + 1) (length - (ctr + 1))) (count + 1)
    else stripLoop length n (ctr + 1) buf count

/-- `globus_l_ftp_control_strip_ascii`: the buffer afterwards, and the number of bytes that count. -/
def stripAscii (buf : List UInt8) : List UInt8 × Nat :=
  if buf.length < 1 then (buf, buf.length)
  else
    let (buf', count) := stripLoop buf.length (buf.length - 1) 0 buf 0
    (buf', buf.length - count)

/-- What `globus_l_ftp_stream_read_callback` hands to the user of an ASCII transfer: the bytes and their
offset.  `offset` is that of the data connection, which goes on with the bytes handed over. -/
def streamReadCallback (offset : Int) (buf : List UInt8) : (List UInt8 × Int) × Int :=
  let (buf', nbyte) := stripAscii buf
  ((buf'.take nbyte, offset), offset + nbyte)

/-- The reads of a transfer. -/
def streamRead : Int → List (List UInt8) → List (List UInt8 × Int)
  | _, [] => []
  | offset, buf :: reads =>
    let (read, offset) := streamReadCallback offset buf
    read :: streamRead offset reads

/-! ## 2. The loop strips -/

/-- Every carriage return before a newline is taken away. -/
def strip : List UInt8 → List UInt8
  | a :: b :: l => if a = cr ∧ b = lf then strip (b :: l) else a :: strip (b :: l)
  | l => l

@[simp] theorem strip_nil : strip [] = [] := rfl

@[simp] theorem strip_singleton (a : UInt8) : strip [a] = [a] := rfl

variable (l : List UInt8) (reads : List (List UInt8))

theorem strip_pair : strip (cr :: lf :: l) = strip (lf :: l) := if_pos ⟨rfl, rfl⟩

theorem strip_cons {a b : UInt8} (h : ¬ (a = cr ∧ b = lf)) (l : List UInt8) :
    strip (a :: b :: l) = a :: strip (b :: l) := if_neg h

theorem strip_cons_of_head {a : UInt8} {l : List UInt8} (h : ¬ (a = cr ∧ l.head? = some lf)) :
    strip (a :: l) = a :: strip l := by
  cases l with
  | nil => rfl
  | cons b l => exact strip_cons (by simpa using h) l

theorem strip_lf : strip (lf :: l) = lf :: strip l :=
  strip_cons_of_head fun h => absurd h.1 (by decide)

section Loop

variable {x : UInt8}

/-- Bytes that are all the same are passed over. -/
theorem stripLoop_replicate (length : Nat) (done : List UInt8) (m count : Nat) : ∀ n ctr,
    done.length ≤ ctr → stripLoop length n ctr (done ++ replicate m x) count = (done ++ replicate m x, count)
  | 0, _, _ => rfl
  | n + 1, ctr, hctr => by
    have hget : ∀ i, done.length ≤ i → ∀ y ∈ (done ++ replicate m x)[i]?, y = x := by
      intro i hi y hy
      rw [getElem?_append_right hi] at hy
      exact eq_of_mem_replicate (mem_of_getElem? hy)
    rw [stripLoop, if_neg, stripLoop_replicate length done m count n (ctr + 1) (by omega)]
    rintro ⟨h1, h2⟩
    have := (hget ctr hctr cr h1).trans (hget (ctr + 1) (by omega) lf h2).symm
    exact absurd this (by decide)

/-- The end of the buffer, where copies of its last byte are. -/
theorem exists_concat {rest : List UInt8} (hne : rest ≠ []) (hx : ∀ y ∈ rest.getLast?, y = x) (count : Nat) :
    ∃ r, rest ++ replicate count x = r ++ [x] := by
  cases count with
  | zero =>
    obtain ⟨r, y, rfl⟩ := eq_nil_or_concat rest |>.resolve_left hne
    obtain rfl : y = x := hx y (by simp)
    exact ⟨r, by simp⟩
  | succ count =>
    exact ⟨rest ++ replicate count x, by rw [replicate_succ', append_assoc]⟩

/-- **The loop.**  `done` is passed, `rest` is to come, and behind it there are as many copies of the last
byte as carriage returns were taken away. -/
theorem stripLoop_eq : ∀ (rest done : List UInt8) (count n : Nat), (∀ y ∈ rest.getLast?, y = x) →
    n + 1 = rest.length + count → ∃ count', (strip rest).length + count' = rest.length + count ∧
      stripLoop (done.length + rest.length + count) n done.length (done ++ rest ++ replicate count x) count =
          (done ++ strip rest ++ replicate count' x, count')
  | [], done, count, n, _, _ => by
    refine ⟨count, rfl, ?_⟩
    rw [strip_nil, append_nil]
    exact stripLoop_replicate _ done count count n _ le_rfl
  | [a], done, count, n, hx, hn => by
    obtain rfl : a = x := hx a rfl
    refine ⟨count, rfl, ?_⟩
    have hall : done ++ [a] ++ replicate count a = done ++ replicate (count + 1) a := by
      rw [replicate_succ, append_assoc, singleton_append]
    rw [strip_singleton, hall]
    exact stripLoop_replicate _ done (count + 1) count n _ le_rfl
  | a :: b :: rest, done, count, n, hx, hn => by
    obtain ⟨n, rfl⟩ : ∃ m, n = m + 1 := ⟨rest.length + count, by simp at hn; omega⟩
    have hb : ∀ y ∈ (b :: rest).getLast?, y = x := by
      rw [getLast?_cons_cons] at hx
      exact hx
    have hget : (done ++ a :: b :: rest ++ replicate count x)[done.length]? = some a ∧
        (done ++ a :: b :: rest ++ replicate count x)[done.length + 1]? = some b := by
      simp [append_assoc]
    rw [stripLoop, hget.1, hget.2]
    by_cases h : a = cr ∧ b = lf
    · obtain ⟨rfl, rfl⟩ := h
      rw [if_pos ⟨rfl, rfl⟩]
      -- the move leaves one more copy of the last byte
      obtain ⟨r, hr⟩ := exists_concat (cons_ne_nil lf rest) hb count
      have hbuf : done ++ cr :: lf :: rest ++ replicate count x = done ++ cr :: (r ++ [x]) := by
        rw [← hr]
        simp
      have hlen : done.length + (cr :: lf :: rest).length + count - (done.length + 1) = r.length + 1 := by
        have := congrArg length hr
        simp at this ⊢
        omega
      have hmove : done ++ r ++ [x, x] = done ++ [lf] ++ rest ++ replicate (count + 1) x := by
        have : r ++ [x, x] = lf :: rest ++ replicate count x ++ [x] := by
          rw [hr]
          simp
        rw [append_assoc, this, replicate_succ']
        simp
      have hrest : ∀ y ∈ rest.getLast?, y = x := by
        intro y hy
        exact hb y (by rw [getLast?_cons, hy]; rfl)
      obtain ⟨count', hcount, ih⟩ := stripLoop_eq rest (done ++ [lf]) (count + 1) n hrest (by simp at hn; omega)
      refine ⟨count', by rw [strip_pair, strip_lf]; simp; omega, ?_⟩
      have hlength : done.length + (cr :: lf :: rest).length + count =
          (done ++ [lf]).length + rest.length + (count + 1) := by
        simp
        omega
      have hctr : done.length + 1 = (done ++ [lf]).length := by simp
      rw [hlen, hbuf, Buffer.memmove_down, hmove, hlength, hctr, ih, strip_pair, strip_lf]
      simp
    · rw [if_neg (by simpa using h), strip_cons h]
      obtain ⟨count', hcount, ih⟩ := stripLoop_eq (b :: rest) (done ++ [a]) count n hb (by simp at hn ⊢; omega)
      refine ⟨count', by simp at hcount ⊢; omega, ?_⟩
      have hlength : done.length + (a :: b :: rest).length + count =
          (done ++ [a]).length + (b :: rest).length + count := by
        simp
        omega
      have hctr : done.length + 1 = (done ++ [a]).length := by simp
      have hbuf : done ++ a :: b :: rest ++ replicate count x = done ++ [a] ++ b :: rest ++ replicate count x := by simp
      rw [hlength, hctr, hbuf, ih]
      simp

end Loop

/-- **Stripping a buffer.** -/
theorem take_stripAscii (buf : List UInt8) :
    (stripAscii buf).1.take (stripAscii buf).2 = strip buf ∧ (stripAscii buf).2 = (strip buf).length := by
  unfold stripAscii
  split
  · obtain rfl : buf = [] := length_eq_zero_iff.mp (by omega)
    exact ⟨rfl, rfl⟩
  · obtain ⟨x, hx⟩ : ∃ x, buf.getLast? = some x := by
      cases h : buf.getLast? with
      | none => simp_all
      | some x => exact ⟨x, rfl⟩
    obtain ⟨count, hcount, hloop⟩ := stripLoop_eq buf [] 0 (buf.length - 1) (x := x) (by simp [hx]) (by omega)
    simp only [length_nil, Nat.zero_add, Nat.add_zero, nil_append, replicate_zero, append_nil] at hloop
    rw [hloop]
    have hnbyte : buf.length - count = (strip buf).length := by omega
    dsimp only
    rw [hnbyte, take_left]
    exact ⟨rfl, rfl⟩

/-! ## 3. The whole stream -/

open Eb.Sender (addAscii)

theorem addAscii_append (a b : List UInt8) : addAscii (a ++ b) = addAscii a ++ addAscii b :=
  flatMap_append

/-- What was written in several buffers is what would be written in one. -/
theorem flatten_map_addAscii (bufs : List (List UInt8)) : (bufs.map addAscii).flatten = addAscii bufs.flatten := by
  induction bufs with
  | nil => rfl
  | cons buf bufs ih => rw [map_cons, flatten_cons, flatten_cons, addAscii_append, ih]

/-- The stream never goes on with a newline. -/
theorem head_addAscii : (addAscii l).head? ≠ some lf := by
  cases l with
  | nil => exact nofun
  | cons b l =>
    by_cases hb : b = 10
    · simp [addAscii, hb, lf]
    · simp [addAscii, hb, lf]

theorem strip_addAscii : strip (addAscii l) = l := by
  induction l with
  | nil => rfl
  | cons b l ih =>
    by_cases hb : b = lf
    · have hadd : addAscii (b :: l) = cr :: lf :: addAscii l := by
        rw [hb]
        rfl
      rw [hadd, strip_pair, strip_lf, ih, hb]
    · have hadd : addAscii (b :: l) = b :: addAscii l := by
        have hb' : ¬ b = 10 := hb
        rw [addAscii, flatMap_cons, if_neg hb']
        rfl
      rw [hadd, strip_cons_of_head fun h => head_addAscii l h.2, ih]

/-! ## 4. Reads -/

/-- A cut that is not between the two bytes of a pair. -/
theorem strip_append {b : List UInt8} : ∀ {a : List UInt8},
    ¬ (a.getLast? = some cr ∧ b.head? = some lf) → strip (a ++ b) = strip a ++ strip b
  | [], _ => rfl
  | [x], h => strip_cons_of_head (by simpa using h)
  | x :: y :: a, h => by
    have ih : strip (y :: a ++ b) = strip (y :: a) ++ strip b :=
      strip_append (by rwa [getLast?_cons_cons] at h)
    by_cases hpair : x = cr ∧ y = lf
    · obtain ⟨rfl, rfl⟩ := hpair
      rw [strip_pair, ← ih]
      exact strip_pair _
    · have hcons : strip (x :: y :: a ++ b) = x :: strip (y :: a ++ b) := strip_cons hpair _
      rw [hcons, ih, strip_cons hpair, cons_append]

/-- A cut between them leaves the carriage return. -/
theorem length_strip_append {a b : List UInt8} (ha : a.getLast? = some cr) (hb : b.head? = some lf) :
    (strip (a ++ b)).length + 1 = (strip a).length + (strip b).length := by
  obtain ⟨a, rfl⟩ := getLast?_eq_some_iff.mp ha
  obtain ⟨b, rfl⟩ := head?_eq_some_iff.mp hb
  have hcut : ∀ l, strip (a ++ cr :: l) = strip a ++ strip (cr :: l) := fun l =>
    strip_append fun h => by simp [cr, lf] at h
  rw [append_assoc, singleton_append, hcut, hcut [], strip_pair, strip_lf, strip_singleton]
  simp only [length_append, length_cons, length_nil]
  omega

theorem length_strip_append_le (a b : List UInt8) : (strip (a ++ b)).length ≤ (strip a).length + (strip b).length := by
  by_cases h : a.getLast? = some cr ∧ b.head? = some lf
  · have := length_strip_append h.1 h.2
    omega
  · rw [strip_append h, length_append]

theorem length_strip_flatten_le : (strip reads.flatten).length ≤ (reads.map strip).flatten.length := by
  induction reads with
  | nil => exact le_rfl
  | cons buf reads ih =>
    rw [flatten_cons, map_cons, flatten_cons, length_append]
    exact (length_strip_append_le _ _).trans (Nat.add_le_add_left ih _)

/-- No read ends between a carriage return and a newline. -/
def Whole : Prop :=
  ∀ n ≤ reads.length,
    ¬ ((reads.take n).flatten.getLast? = some cr ∧ (reads.drop n).flatten.head? = some lf)

instance (reads : List (List UInt8)) : Decidable (Whole reads) :=
  inferInstanceAs (Decidable (∀ n ≤ reads.length, _))

theorem Whole.tail {buf : List UInt8} {reads : List (List UInt8)} (h : Whole (buf :: reads)) : Whole reads := by
  rintro n hn ⟨hl, hr⟩
  refine h (n + 1) (Nat.succ_le_succ hn) ⟨?_, hr⟩
  rw [take_succ_cons, flatten_cons, getLast?_append, hl]
  rfl

theorem strip_flatten {reads : List (List UInt8)} (h : Whole reads) :
    (reads.map strip).flatten = strip reads.flatten := by
  induction reads with
  | nil => rfl
  | cons buf reads ih =>
    have hcut : ¬ (buf.getLast? = some cr ∧ reads.flatten.head? = some lf) := by
      simpa using h 1 (Nat.le_add_left 1 reads.length)
    rw [map_cons, flatten_cons, flatten_cons, strip_append hcut, ih h.tail]

theorem strip_flatten_iff : (reads.map strip).flatten = strip reads.flatten ↔ Whole reads := by
  refine ⟨?_, strip_flatten⟩
  rintro heq n - ⟨hl, hr⟩
  have hcut := length_strip_append hl hr
  have hl' := length_strip_flatten_le (reads.take n)
  have hr' := length_strip_flatten_le (reads.drop n)
  have hlen := congrArg length heq
  rw [← take_append_drop n reads, map_append, flatten_append, flatten_append, length_append] at hlen
  omega

theorem streamRead_bytes (offset : Int) (reads : List (List UInt8)) :
    (streamRead offset reads).map Prod.fst = reads.map strip := by
  induction reads generalizing offset with
  | nil => rfl
  | cons buf reads ih =>
    simp only [streamRead, streamReadCallback, map_cons, ih, (take_stripAscii buf).1]

/-- **An ASCII transfer gives the text back exactly if no read ends between a carriage return and a
newline.** -/
theorem streamRead_eq_iff (offset : Int) (bufs reads : List (List UInt8))
    (hreads : reads.flatten = (bufs.map addAscii).flatten) :
    ((streamRead offset reads).map Prod.fst).flatten = bufs.flatten ↔ Whole reads := by
  rw [← strip_flatten_iff, streamRead_bytes, hreads, flatten_map_addAscii, strip_addAscii]

/-- A line in two buffers, and three reads. -/
theorem streamRead_line :
    ((streamRead 0 [[104], [105, 13, 10], []]).map Prod.fst).flatten = [104, 105, 10] :=
  (streamRead_eq_iff 0 [[104], [105, 10]] [[104], [105, 13, 10], []] rfl).mpr
    (by decide)

/-- A newline that is read in two parts. -/
theorem streamRead_cut_pair : [[13], [10]].flatten = ([[10]].map addAscii).flatten ∧
      ((streamRead 0 [[13], [10]]).map Prod.fst).flatten = [13, 10] ∧
      ((streamRead 0 [[13], [10]]).map Prod.fst).flatten ≠ [[10]].flatten := by
  decide

end Gct
