/-
# Scattered buffers

A reader hands over a list of buffers, and data is put into them from the first one on.  `fill` is that
step, `truncate` lowers the room of the buffers to a total, and `memory` is what the reader finds in them
afterwards, with the places nobody wrote to unknown.

Data that is filled in in several steps stands in the buffers without a gap (`Holds.fill`), also if the
room is cut down before the last step (`Holds.fill_truncate`), so the reader finds it when it takes as
many places as were filled (`Holds.take_memory`).
-/
import Mathlib.Data.List.Basic

namespace Scatter

open List

variable {α : Type*}

/-! ## 1. Buffers and what is done to them -/

/-- A buffer of `size` places, with what has been written to it and the room it still has. -/
structure Iovec (α : Type*) where
  size : Nat
  written : List α
  len : Nat
  deriving DecidableEq, Repr

def Iovec.fresh (size : Nat) : Iovec α := ⟨size, [], size⟩

def Iovec.write (v : Iovec α) (l : List α) : Iovec α :=
  { v with written := v.written ++ l, len := v.len - l.length }

/-- The room of all the buffers. -/
def room : List (Iovec α) → Nat
  | [] => 0
  | v :: iov => v.len + room iov

def fill : List (Iovec α) → List α → List (Iovec α)
  | [], _ => []
  | v :: iov, l => v.write (l.take v.len) :: fill iov (l.drop v.len)

/-- No more than `max` places in all, `nbytes` of them in buffers that come before. -/
def truncate (max : Nat) : Nat → List (Iovec α) → List (Iovec α)
  | _, [] => []
  | nbytes, v :: iov =>
    let len := if v.len + nbytes > max then max - nbytes else v.len
    { v with len := len } :: truncate max (nbytes + len) iov

variable (iov : List (Iovec α))

/-- The places of the buffers, one buffer after the other. -/
def memory : List (Option α) :=
  iov.flatMap fun v => v.written.map some ++ replicate (v.size - v.written.length) none

/-! ## 2. Room -/

@[simp] theorem fill_nil : fill iov [] = iov := by
  induction iov with
  | nil => rfl
  | cons v iov ih => simp [fill, Iovec.write, ih]

theorem room_fill (l : List α) : room (fill iov l) = room iov - l.length := by
  induction iov generalizing l with
  | nil => simp [fill, room]
  | cons v iov ih =>
    simp only [fill, room, ih, Iovec.write, length_take, length_drop]
    omega

variable {max : Nat} {data l : List α}

theorem room_truncate {nbytes : Nat} (h : nbytes ≤ max) (iov : List (Iovec α)) :
    room (truncate max nbytes iov) = min (max - nbytes) (room iov) := by
  induction iov generalizing nbytes with
  | nil => simp [truncate, room]
  | cons v iov ih =>
    simp only [truncate, room]
    split
    · rw [ih (by omega)]
      omega
    · rw [ih (by omega)]
      omega

/-! ## 3. Data without gaps -/

/-- The data stands in the buffers from the first place on, and nothing else does. -/
def Holds : List (Iovec α) → List α → Prop
  | [], data => data = []
  | v :: iov, data => v.written = data.take v.size ∧ Holds iov (data.drop v.size)

/-- The buffers can be filled up to their last place. -/
def Open : Prop := ∀ v ∈ iov, v.written.length + v.len = v.size

variable {iov : List (Iovec α)}

theorem open_cons {v : Iovec α} : Open (v :: iov) ↔ v.written.length + v.len = v.size ∧ Open iov := by
  simp [Open]

theorem open_fresh (sizes : List Nat) : Open (sizes.map (Iovec.fresh : Nat → Iovec α)) := by
  simp [Open, Iovec.fresh]

theorem holds_fresh (sizes : List Nat) : Holds (sizes.map (Iovec.fresh : Nat → Iovec α)) [] := by
  induction sizes with
  | nil => rfl
  | cons n sizes ih => exact ⟨by simp [Iovec.fresh], by simpa using ih⟩

theorem Holds.take_memory (h : Holds iov data) : (memory iov).take data.length = data.map some := by
  induction iov generalizing data with
  | nil =>
    obtain rfl : data = [] := h
    rfl
  | cons v iov ih =>
    obtain ⟨hv, hiov⟩ := h
    have hmem : memory (v :: iov)
        = (v.written.map some ++ replicate (v.size - v.written.length) none) ++ memory iov := rfl
    rw [hmem]
    rcases Nat.le_total data.length v.size with hle | hle
    · -- the data ends in this buffer
      have hw : v.written = data := by rw [hv, take_of_length_le hle]
      rw [hw, append_assoc, take_append_of_le_length (by simp), take_of_length_le (by simp)]
    · have hlen : v.written.length = v.size := by rw [hv, length_take]; omega
      have hdata : data.map some = v.written.map some ++ (data.drop v.size).map some := by
        rw [hv, ← map_append, take_append_drop]
      have htail := ih hiov
      have hcount : data.length = (v.written.map some).length + (data.drop v.size).length := by
        simp only [length_map, length_drop, hlen]
        omega
      rw [hdata, hlen, Nat.sub_self, replicate_zero, append_nil, hcount, take_length_add_append, htail]

theorem Holds.fill {iov : List (Iovec α)} (h : Holds iov data) (hopen : Open iov)
    (hl : l.length ≤ room iov) : Holds (fill iov l) (data ++ l) := by
  induction iov generalizing data l with
  | nil =>
    obtain rfl : data = [] := h
    exact length_eq_zero_iff.mp (Nat.le_zero.mp hl)
  | cons v iov ih =>
    obtain ⟨hv, hiov⟩ := h
    obtain ⟨hlen, hopen⟩ := open_cons.mp hopen
    have hroom : (l.drop v.len).length ≤ room iov := by
      rw [length_drop]
      exact Nat.sub_le_iff_le_add'.mpr hl
    -- the room of the buffer is the part of it that the data does not reach
    have hsub : v.len = v.size - data.length := by
      rw [hv, length_take] at hlen
      omega
    refine ⟨?_, ?_⟩
    · rw [Iovec.write, take_append, ← hsub, ← hv]
    · show Holds (Scatter.fill iov (l.drop v.len)) _
      rw [Iovec.write, drop_append, ← hsub]
      exact ih hiov hopen hroom

theorem Open.fill (hopen : Open iov) (l : List α) : Open (fill iov l) := by
  induction iov generalizing l with
  | nil => exact hopen
  | cons v iov ih =>
    obtain ⟨hlen, hopen⟩ := open_cons.mp hopen
    refine open_cons.mpr ⟨?_, ih hopen _⟩
    simp only [Iovec.write, length_append, length_take]
    omega

/-! ## 4. Less room -/

/-- What a buffer shows to the reader. -/
def Iovec.content (v : Iovec α) : Nat × List α := (v.size, v.written)

theorem Holds.congr {iov iov' : List (Iovec α)} (h : Holds iov data)
    (heq : iov.map Iovec.content = iov'.map Iovec.content) : Holds iov' data := by
  induction iov generalizing iov' data with
  | nil =>
    obtain rfl : iov' = [] := map_eq_nil_iff.mp heq.symm
    exact h
  | cons v iov ih =>
    cases iov' with
    | nil => exact absurd heq (by simp)
    | cons v' iov' =>
      simp only [map_cons, cons.injEq, Iovec.content, Prod.mk.injEq] at heq
      obtain ⟨⟨hsize, hwritten⟩, htail⟩ := heq
      obtain ⟨hv, hiov⟩ := h
      refine ⟨?_, ?_⟩
      · rw [← hwritten, hv, hsize]
      · rw [← hsize]
        exact ih hiov htail

/-- Data that the lowered room takes is put where it would have been put anyway. -/
theorem content_fill_truncate {nbytes : Nat} (hle : nbytes ≤ max) (hl : l.length ≤ max - nbytes) (iov : List (Iovec α)) :
    (fill (truncate max nbytes iov) l).map Iovec.content = (fill iov l).map Iovec.content := by
  induction iov generalizing nbytes l with
  | nil => rfl
  | cons v iov ih =>
    simp only [truncate, fill, map_cons, Iovec.content, Iovec.write]
    split
    next hgt =>
      -- the cut is here, and all of the data comes before it
      have htake : l.take (max - nbytes) = l.take v.len := by
        rw [take_of_length_le hl, take_of_length_le (by omega)]
      have hdrop : l.drop (max - nbytes) = l.drop v.len := by
        rw [drop_of_length_le hl, drop_of_length_le (by omega)]
      have hempty : (l.drop v.len).length ≤ max - (nbytes + (max - nbytes)) := by
        rw [drop_of_length_le (by omega)]
        exact Nat.zero_le _
      rw [htake, hdrop, ih (by omega) hempty]
    next hle' =>
      rw [ih (by omega) (by rw [length_drop]; omega)]

theorem Holds.fill_truncate (h : Holds iov data) (hopen : Open iov) (hl : l.length ≤ room (truncate max 0 iov)) :
    Holds (Scatter.fill (truncate max 0 iov) l) (data ++ l) := by
  rw [room_truncate (Nat.zero_le max), Nat.sub_zero, Nat.le_min] at hl
  exact (h.fill hopen hl.2).congr (content_fill_truncate (Nat.zero_le max) hl.1 iov).symm

end Scatter
