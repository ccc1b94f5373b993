/-
# Buffers in memory

A buffer is the list of its elements.  `memmove` copies within a buffer, `write` puts a text into it, and
`cstr` is the text that the first `NUL` ends.  None of them changes the length of a buffer, as long as
they stay inside it.
-/
import Mathlib.Data.List.Basic

namespace Buffer

open List

variable {α : Type*}

/-- `n` elements are copied from `src` to `dst`; the places may overlap. -/
def memmove (buf : List α) (dst src n : Nat) : List α :=
  buf.take dst ++ (buf.drop src).take n ++ buf.drop (dst + n)

/-- Everything behind `a` moves down by one place, and the last element is there twice. -/
theorem memmove_down (l r : List α) (a x : α) :
    memmove (l ++ a :: (r ++ [x])) l.length (l.length + 1) (r.length + 1) = l ++ r ++ [x, x] := by
  unfold memmove
  have hdrop : (l ++ a :: (r ++ [x])).drop (l.length + 1) = r ++ [x] := by
    rw [← drop_drop, drop_left, drop_succ_cons, drop_zero]
  have hlast : (l ++ a :: (r ++ [x])).drop (l.length + (r.length + 1)) = [x] := by
    rw [← drop_drop, drop_left, drop_succ_cons, drop_left]
  have hlen : (r ++ [x]).length = r.length + 1 := length_append
  rw [take_left, hdrop, hlast, ← hlen, take_length]
  simp

theorem length_memmove {buf : List α} {dst src n : Nat} (hsrc : src + n ≤ buf.length) (hdst : dst + n ≤ buf.length) :
    (memmove buf dst src n).length = buf.length := by
  simp only [memmove, length_append, length_take, length_drop]
  omega

/-- The elements of `l` are put at `pos` and the places behind it. -/
def write (buf : List α) (pos : Nat) (l : List α) : List α :=
  buf.take pos ++ l ++ buf.drop (pos + l.length)

/-- The place is given by what stands before it. -/
theorem write_append (a b l : List α) : write (a ++ b) a.length l = a ++ l ++ b.drop l.length := by
  rw [write, take_left, ← drop_drop, drop_left]

/-- The character that ends a text. -/
def nul : Char := Char.ofNat 0

def cstr (buf : List Char) : List Char := buf.takeWhile (· ≠ nul)

theorem cstr_append_left {s : List Char} (h : nul ∉ s) (t : List Char) : cstr (s ++ t) = s ++ cstr t := by
  have hs : ∀ c ∈ s, decide (c ≠ nul) = true := by
    intro c hc
    simp only [decide_eq_true_eq]
    rintro rfl
    exact h hc
  rw [cstr, takeWhile_append_of_pos hs, cstr]

theorem cstr_append {s : List Char} (h : nul ∉ s) (t : List Char) : cstr (s ++ nul :: t) = s := by
  rw [cstr_append_left h, cstr, takeWhile_cons_of_neg (by simp), append_nil]

end Buffer
