/-
# Channels that carry frames and an end mark

A channel is a list of the items written to it so far, and the reader has a prefix of them.  Two things
are told of such a stream.

* **Frames.**  Some items are headers and announce how many payload items follow.  `due` reads a stream
  and says how many payload items are still to come; it is `none` where a header stands in the place of
  a payload item, or a payload item in the place of a header.
* **End marks.**  `Sealed` says that nothing follows an end mark.  If the marks are counted over all
  channels, and as many were read as were written, then everything was read on every channel that has
  one (`eq_of_tally_eq`).
-/
import Mathlib.Algebra.Order.BigOperators.Group.Finset

namespace Channels

open List

variable {ι α : Type*} {x : α}

/-! ## 1. Frames -/

section Frames

variable {size : α → Option Nat} {l : List α}

/-- The number of payload items due after the items given, if `k` were due before them.  `size x` is the
number of payload items that the header `x` announces, `none` for a payload item. -/
def due (size : α → Option Nat) : Nat → List α → Option Nat
  | k, [] => some k
  | 0, x :: l => (size x).bind fun n => due size n l
  | k + 1, x :: l => if (size x).isNone then due size k l else none

@[simp] theorem due_nil (k : Nat) : due size k [] = some k := by
  cases k <;> rfl

theorem due_append (a b : List α) : ∀ k, due size k (a ++ b) = (due size k a).bind fun j => due size j b := by
  induction a with
  | nil => intro k; simp
  | cons x a ih =>
    intro k
    cases k with
    | zero =>
      simp only [cons_append, due]
      cases size x with
      | none => rfl
      | some n => exact ih n
    | succ k =>
      simp only [cons_append, due]
      split
      · exact ih k
      · rfl

/-- A header, read where a header is due. -/
theorem due_header {n : Nat} (hx : size x = some n) (l : List α) : due size 0 (x :: l) = due size n l := by
  simp [due, hx]

theorem due_payload (hl : ∀ x ∈ l, size x = none) : ∀ {k}, l.length ≤ k → due size k l = some (k - l.length) := by
  induction l with
  | nil => intro k _; simp
  | cons x l ih =>
    intro k hk
    cases k with
    | zero => simp at hk
    | succ k =>
      have hx : size x = none := hl x mem_cons_self
      rw [due, hx, if_pos Option.isNone_none, ih (fun y hy => hl y (mem_cons_of_mem x hy)) (by simpa using hk)]
      simp

/-- A frame: the header and all of its payload. -/
theorem due_frame (hx : size x = some l.length) (hl : ∀ y ∈ l, size y = none) : due size 0 (x :: l) = some 0 := by
  rw [due_header hx, due_payload hl le_rfl, Nat.sub_self]

/-- Where a header is due, the next item is one. -/
theorem size_of_due_zero {k : Nat} (h : due size 0 (x :: l) = some k) : ∃ n, size x = some n ∧ due size n l = some k :=
  Option.bind_eq_some_iff.mp h

/-- Where `k` payload items are due, the next `k` items are payload. -/
theorem size_of_due : ∀ {l : List α} {k j : Nat}, due size k l = some j → ∀ x ∈ l.take k, size x = none
  | [], k, j, _, x, hx => by simp at hx
  | _ :: _, 0, _, _, x, hx => by simp at hx
  | y :: l, k + 1, j, h, x, hx => by
    rw [due] at h
    split at h
    next hy =>
      rcases mem_cons.mp hx with rfl | hx
      · simpa using hy
      · exact size_of_due h x hx
    · simp at h

end Frames

/-! ## 2. End marks -/

section Marks

variable {last : α → Bool} {l a : List α}

/-- Nothing follows an end mark. -/
def Sealed (last : α → Bool) (l : List α) : Prop :=
  ∀ x ∈ l.dropLast, last x = false

theorem sealed_nil : Sealed last [] := by
  simp [Sealed]

theorem sealed_of_open (h : ∀ x ∈ l, last x = false) : Sealed last l :=
  fun x hx => h x (dropLast_subset l hx)

/-- An open stream can be closed with any item. -/
theorem sealed_concat (h : ∀ x ∈ l, last x = false) (x : α) : Sealed last (l ++ [x]) := by
  simpa [Sealed] using h

/-- A reader who has an end mark has everything. -/
theorem Sealed.eq_of_isPrefix (hl : Sealed last l) (ha : a <+: l) (hx : x ∈ a) (hlast : last x = true) : a = l := by
  obtain ⟨b, rfl⟩ := ha
  rcases eq_nil_or_concat b with rfl | ⟨b, y, rfl⟩
  · simp
  · have h := hl x (by simp [hx])
    rw [hlast] at h
    cases h

end Marks

/-! ## 3. Counting over all channels -/

section Tally

variable {p : α → Bool} {s : Finset ι} {sent got : ι → List α}

/-- The number of items with `p` on the channels of `s`. -/
def tally (p : α → Bool) (s : Finset ι) (f : ι → List α) : Nat :=
  ∑ c ∈ s, (f c).countP p

theorem countP_le_of_isPrefix {l a : List α} (h : a <+: l) : a.countP p ≤ l.countP p :=
  h.sublist.countP_le

theorem tally_update [DecidableEq ι] {c : ι} (hc : c ∈ s) (f : ι → List α) (l : List α) :
    tally p s (Function.update f c (f c ++ l)) = tally p s f + l.countP p := by
  unfold tally
  rw [← Finset.add_sum_erase s _ hc, ← Finset.add_sum_erase s (fun d => (f d).countP p) hc,
    Finset.sum_congr rfl fun d hd => by rw [Function.update_of_ne (Finset.ne_of_mem_erase hd)],
    Function.update_self, countP_append]
  omega

/-- If as many items with `p` were read as were written, they were all read. -/
theorem countP_eq_of_tally_eq (hpre : ∀ c ∈ s, got c <+: sent c) (h : tally p s got = tally p s sent) :
    ∀ c ∈ s, (got c).countP p = (sent c).countP p :=
  (Finset.sum_eq_sum_iff_of_le fun c hc => countP_le_of_isPrefix (hpre c hc)).mp h

/-- Everything was read on the channels that end with a mark, once all marks were counted. -/
theorem eq_of_tally_eq {last : α → Bool} (hp : ∀ x, p x = true → last x = true)
    (hpre : ∀ c ∈ s, got c <+: sent c) (hsealed : ∀ c ∈ s, Sealed last (sent c))
    (h : tally p s got = tally p s sent) {c : ι} (hc : c ∈ s) (hmark : 0 < (sent c).countP p) : got c = sent c := by
  rw [← countP_eq_of_tally_eq hpre h c hc] at hmark
  obtain ⟨x, hx, hpx⟩ := countP_pos_iff.mp hmark
  exact (hsealed c hc).eq_of_isPrefix (hpre c hc) hx (hp x hpx)

end Tally

/-! ## 3. Places -/

section Places

variable {a : α} {l : List α}

/-- The item that is found, and the list without it. -/
theorem split_of_find? {p : α → Bool} (h : l.find? p = some a) :
    p a = true ∧ ∃ l₁ l₂, l = l₁ ++ a :: l₂ ∧ l.eraseP p = l₁ ++ l₂ := by
  obtain ⟨ha, l₁, l₂, heq, hl₁⟩ := find?_eq_some_iff_append.mp h
  refine ⟨ha, l₁, l₂, heq, ?_⟩
  rw [heq, eraseP_append_right _ (fun b hb => by simpa using hl₁ b hb), eraseP_cons, ha, cond_true]

variable [DecidableEq α]

/-- A new item of a register is counted where it is put. -/
theorem ite_mem_concat (h : a ∉ l) (b : α) :
    (if b ∈ l ++ [a] then 1 else 0) = (if b ∈ l then 1 else 0) + [a].count b := by
  by_cases hb : b = a
  · simp [hb, h]
  · simp [hb, Ne.symm hb]

end Places

end Channels
