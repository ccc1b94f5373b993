/-
# Lists of the common library

`globus_list_from_string` cuts a text at a character and gives the parts in reverse order.
`globus_list_sort_destructive` is a merge sort: it cuts the list in the middle, sorts the halves and merges
them.  The relation is asked about the heads of the halves, so a relation that is total and transitive
orders the result (`pairwise_listSort`).
-/
import Gct.Lib.Text
import Mathlib.Data.List.Sort

namespace Gct

open List

/-! ## 1. From a text -/

/-- The loop of `globus_list_from_string`.  The characters `ignored` are skipped before every part but
the last, and an empty last part is dropped. -/
def listFromStringLoop (delim : Char) (ignored : List Char) :
    Nat → List Char → List (List Char) → List (List Char)
  | 0, _, list => list
  | fuel + 1, entry, list =>
    match CText.strchr delim entry with
    | some ptr =>
      let part := entry.take (entry.length - ptr.length)
      listFromStringLoop delim ignored fuel ptr.tail (part.dropWhile (· ∈ ignored) :: list)
    | none => if entry = [] then list else entry :: list

def listFromString (s : List Char) (delim : Char) (ignored : List Char) : List (List Char) :=
  listFromStringLoop delim ignored (s.length + 1) s []

/-! ## 2. Sorting -/

section Sorting

variable {α : Type*} (relation : α → α → Bool) (l : List α)

def listHalves : List α × List α := (l.take (l.length / 2), l.drop (l.length / 2))

/-- `globus_list_sort_destructive`; the depth is at most the length. -/
def listSortLoop : Nat → List α → List α
  | 0, l => l
  | fuel + 1, l =>
    if l.length ≤ 1 then l
    else (listSortLoop fuel (listHalves l).1).merge (listSortLoop fuel (listHalves l).2) relation

def listSort : List α := listSortLoop relation l.length l

theorem listSortLoop_perm (fuel : Nat) (l : List α) : (listSortLoop relation fuel l).Perm l := by
  induction fuel generalizing l with
  | zero => exact .refl l
  | succ fuel ih =>
    rw [listSortLoop]
    split
    · exact .refl l
    · refine (merge_perm_append relation).trans (((ih _).append (ih _)).trans ?_)
      rw [listHalves, take_append_drop]

theorem listSort_perm : (listSort relation l).Perm l := listSortLoop_perm relation _ l

variable {relation}

variable (htrans : ∀ a b c, relation a b → relation b c → relation a c)

include htrans

theorem pairwise_listSortLoop
    (htotal : ∀ a b, relation a b || relation b a) (fuel : Nat) (l : List α) (hl : l.length ≤ fuel) :
    (listSortLoop relation fuel l).Pairwise (relation · ·) := by
  induction fuel generalizing l with
  | zero =>
    rw [length_eq_zero_iff.mp (Nat.le_zero.mp hl)]
    exact .nil
  | succ fuel ih =>
    rw [listSortLoop]
    split
    · rename_i hle
      rcases l with _ | ⟨a, _ | ⟨b, l⟩⟩
      · exact .nil
      · exact pairwise_singleton _ a
      · simp at hle
    · -- both halves of a list with two elements are shorter than the list
      refine pairwise_merge htrans htotal _ _ (ih _ ?_) (ih _ ?_)
      · rw [listHalves, length_take]
        omega
      · rw [listHalves, length_drop]
        omega

/-- **The list comes out in order.** -/
theorem pairwise_listSort (htotal : ∀ a b, relation a b || relation b a) (l : List α) :
    (listSort relation l).Pairwise (relation · ·) :=
  pairwise_listSortLoop htrans htotal _ l (Nat.le_refl _)

end Sorting

end Gct
