/-
# Searching for a text

`strstr` is the search of the C library: where the first occurrence of a text begins.  `whileFound`
rewrites a text at the first occurrence until there is none.  If every rewriting makes the text shorter,
as many rounds as it has characters are enough, and what the rewriting keeps holds at the end
(`whileFound_keeps`).
-/
import Mathlib.Data.List.Basic

namespace Search

open List

variable {α : Type*} [DecidableEq α] {pat s : List α} {i : Nat}

/-! ## 1. The first occurrence -/

def strstr (pat : List α) : List α → Option Nat
  | [] => if pat = [] then some 0 else none
  | c :: s => if pat <+: c :: s then some 0 else (strstr pat s).map (· + 1)

theorem isPrefix_of_strstr (h : strstr pat s = some i) : pat <+: s.drop i := by
  fun_induction strstr pat s generalizing i with
  | case1 hpat =>
    rw [hpat]
    exact nil_prefix
  | case2 => cases h
  | case3 _ _ hpat =>
    cases h
    exact hpat
  | case4 c s _ ih =>
    obtain ⟨i, hi, rfl⟩ := Option.map_eq_some_iff.mp h
    exact ih hi

/-- What is found is the first occurrence. -/
theorem not_isPrefix_of_before {j : Nat} (h : ∀ i ∈ strstr pat s, j < i) : ¬ pat <+: s.drop j := by
  fun_induction strstr pat s generalizing j with
  | case1 | case3 => exact absurd (h 0 rfl) (Nat.not_lt_zero j)
  | case2 hpat =>
    rw [drop_nil]
    exact fun hj => hpat (prefix_nil.mp hj)
  | case4 c s hpat ih =>
    cases j with
    | zero => exact hpat
    | succ j => exact ih fun i hi => Nat.lt_of_succ_lt_succ (h (i + 1) (Option.mem_map_of_mem _ hi))

theorem not_isPrefix_of_lt (h : strstr pat s = some i) : ∀ j < i, ¬ pat <+: s.drop j := fun j hj =>
  not_isPrefix_of_before fun k hk => by cases h.symm.trans hk; exact hj

theorem not_isPrefix_of_none (h : strstr pat s = none) : ∀ j, ¬ pat <+: s.drop j := fun j =>
  not_isPrefix_of_before fun k hk => by cases h.symm.trans hk

theorem strstr_of_isPrefix (h : pat <+: s) : strstr pat s = some 0 := by
  cases s with
  | nil => rw [strstr, if_pos (prefix_nil.mp h)]
  | cons c s => rw [strstr, if_pos h]

/-- A text in which no occurrence begins is passed. -/
theorem strstr_append {a t : List α} (h : ∀ j < a.length, ¬ pat <+: (a ++ t).drop j) :
    strstr pat (a ++ t) = (strstr pat t).map (· + a.length) := by
  induction a with
  | nil =>
    rw [nil_append, length_nil]
    exact Option.map_id'.symm
  | cons c a ih =>
    have ih := ih fun j hj => h (j + 1) (Nat.succ_lt_succ hj)
    have hfirst : ¬ pat <+: c :: (a ++ t) := h 0 (Nat.succ_pos _)
    rw [cons_append, strstr, if_neg hfirst, ih, Option.map_map]
    rfl

omit [DecidableEq α] in
theorem not_isPrefix_of_notMem {c : α} {a : List α} (h : c ∉ a) (pat t : List α) :
    ∀ j < a.length, ¬ c :: pat <+: (a ++ t).drop j := by
  intro j hj hpre
  rw [drop_append_of_le_length (Nat.le_of_lt hj), drop_eq_getElem_cons hj, cons_append, cons_prefix_cons] at hpre
  exact h (hpre.1 ▸ getElem_mem hj)

/-- In a part of the text that ends before the occurrence does, there is none. -/
theorem strstr_of_cut {t : List α} (hpat : pat ≠ []) (h : strstr pat s = some i) (ht : t <+: s)
    (hlen : t.length < i + pat.length) : strstr pat t = none := by
  cases hfound : strstr pat t with
  | none => rfl
  | some j =>
    obtain ⟨r, rfl⟩ := ht
    have hj := isPrefix_of_strstr hfound
    have hjlen := hj.length_le
    have hpos := length_pos_iff.mpr hpat
    rw [length_drop] at hjlen
    refine absurd ?_ (not_isPrefix_of_lt h j (by omega))
    rw [drop_append_of_le_length (by omega)]
    exact hj.trans (prefix_append _ _)

/-! ## 2. Rewriting -/

/-- Rewriting at the first occurrence, for at most `fuel` rounds. -/
def whileFound (pat : List α) (rewrite : List α → Nat → List α) : Nat → List α → List α
  | 0, s => s
  | fuel + 1, s =>
    match strstr pat s with
    | none => s
    | some i => whileFound pat rewrite fuel (rewrite s i)

/-- What every round keeps holds at the end, and then there is no occurrence. -/
theorem whileFound_keeps {rewrite : List α → Nat → List α} {P : List α → Prop} (hpat : pat ≠ [])
    (h : ∀ s i, P s → strstr pat s = some i → P (rewrite s i) ∧ (rewrite s i).length < s.length) :
    ∀ fuel s, P s → s.length ≤ fuel →
      P (whileFound pat rewrite fuel s) ∧ strstr pat (whileFound pat rewrite fuel s) = none := by
  intro fuel
  induction fuel with
  | zero =>
    intro s hs hlen
    obtain rfl : s = [] := length_eq_zero_iff.mp (Nat.le_zero.mp hlen)
    exact ⟨hs, by rw [whileFound, strstr, if_neg hpat]⟩
  | succ fuel ih =>
    intro s hs hlen
    rw [whileFound]
    cases hfound : strstr pat s with
    | none => exact ⟨hs, hfound⟩
    | some i =>
      obtain ⟨hkept, hlt⟩ := h s i hs hfound
      exact ih _ hkept (by omega)

end Search
