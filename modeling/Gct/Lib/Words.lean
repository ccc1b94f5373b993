/-
# Words

The words of a list are its longest parts without a separator.  `cutter` is the loop that is written with `strcspn` and
`strspn`: it takes everything up to the next separator and then passes all separators.  It finds the words, and before
them one empty entry if the list begins with a separator (`tokens_cutter`).
-/
import Mathlib.Data.List.TakeWhile
import Gct.Lib.Lexer

namespace Words

open List

variable {α : Type} (sep : α → Bool)

/-- The longest parts without a separator. -/
def words (s : List α) : List (List α) := (s.splitOnP sep).filter (!·.isEmpty)

/-- What stands before the first separator, and what is left behind the separators that follow it. -/
def cut (s : List α) : List α × List α :=
  (s.takeWhile (!sep ·), (s.dropWhile (!sep ·)).dropWhile sep)

/-- The loop that cuts a list at its separators until nothing is left. -/
def cutter : Lexer Unit α (List α) where
  step _ s := if s.isEmpty then none else some (some (cut sep s).1, (), (cut sep s).2)
  size _ s := s.length
  size_lt := by
    intro _ s t _ rest h
    split at h
    · cases h
    next hne =>
      cases h
      cases s with
      | nil => simp at hne
      | cons c s =>
        have htail : ∀ l : List α, (l.dropWhile sep).length ≤ l.length := fun l => (dropWhile_suffix _).length_le
        cases hc : sep c with
        | true =>
          have hcut : (cut sep (c :: s)).2 = s.dropWhile sep := by simp [cut, hc]
          rw [hcut, length_cons]
          exact Nat.lt_succ_of_le (htail s)
        | false =>
          have hcut : (cut sep (c :: s)).2 = (s.dropWhile (!sep ·)).dropWhile sep := by simp [cut, hc]
          rw [hcut, length_cons]
          exact Nat.lt_succ_of_le ((htail _).trans (dropWhile_suffix _).length_le)

variable {sep}

/-! ## 1. Words -/

variable {c : α} {s : List α}

theorem eq_false_of_dropWhile {p : α → Bool} {s rest : List α} (h : s.dropWhile p = c :: rest) : p c = false := by
  have hhead := head?_dropWhile_not p s
  rw [h] at hhead
  exact hhead

@[simp] theorem words_nil : words sep ([] : List α) = [] := by
  rw [words, splitOnP_nil]
  rfl

theorem words_cons_of_sep (hc : sep c = true) : words sep (c :: s) = words sep s := by
  rw [words, splitOnP_cons_eq_if_modifyHead, if_pos hc]
  rfl

theorem words_of_no_sep {w : List α} (hne : w ≠ []) (hw : ∀ c ∈ w, sep c = false) : words sep w = [w] := by
  rw [words, splitOnP_eq_singleton hw, filter_cons_of_pos (by simpa using hne), filter_nil]

theorem words_append {w s : List α} (hne : w ≠ []) (hw : ∀ c ∈ w, sep c = false) (hc : sep c = true) :
    words sep (w ++ c :: s) = w :: words sep s := by
  rw [words, splitOnP_append_cons_of_forall_mem hw c hc, filter_cons_of_pos (by simpa using hne), words]

theorem words_dropWhile (s : List α) : words sep (s.dropWhile sep) = words sep s := by
  induction s with
  | nil => rfl
  | cons c s ih =>
    cases hc : sep c with
    | true => rw [dropWhile_cons_of_pos hc, ih, words_cons_of_sep hc]
    | false => rw [dropWhile_cons_of_neg (by simp [hc])]

/-- The first word of a list that does not begin with a separator is what stands before the first one. -/
theorem words_of_no_sep_head (hc : sep c = false) :
    words sep (c :: s) = (cut sep (c :: s)).1 :: words sep (cut sep (c :: s)).2 := by
  have hsplit : (c :: s).takeWhile (!sep ·) ++ (c :: s).dropWhile (!sep ·) = c :: s := takeWhile_append_dropWhile
  have hne : (c :: s).takeWhile (!sep ·) ≠ [] := by simp [hc]
  have hword : ∀ x ∈ (c :: s).takeWhile (!sep ·), sep x = false := fun x hx => by
    simpa using mem_takeWhile_imp hx
  cases hrest : (c :: s).dropWhile (!sep ·) with
  | nil =>
    rw [hrest, append_nil] at hsplit
    rw [cut, hrest, dropWhile_nil, words_nil]
    nth_rewrite 1 [← hsplit]
    exact words_of_no_sep hne hword
  | cons d rest =>
    have hd : sep d = true := by simpa using eq_false_of_dropWhile hrest
    rw [hrest] at hsplit
    rw [cut, hrest, words_dropWhile, words_cons_of_sep hd]
    nth_rewrite 1 [← hsplit]
    exact words_append hne hword hd

theorem head?_words (hne : s ≠ []) (h : ∀ c ∈ s.head?, sep c = false) :
    (words sep s).head? = some (s.takeWhile (!sep ·)) := by
  cases s with
  | nil => exact absurd rfl hne
  | cons c s => rw [words_of_no_sep_head (h c rfl), head?_cons, cut]

theorem of_mem_splitOnP {s part : List α} (h : part ∈ s.splitOnP sep) : ∀ c ∈ part, c ∈ s ∧ sep c = false := by
  induction s generalizing part with
  | nil =>
    rw [splitOnP_nil, mem_singleton] at h
    simp [h]
  | cons d s ih =>
    intro c hc
    rw [splitOnP_cons_eq_if_modifyHead] at h
    cases hd : sep d with
    | true =>
      rw [hd, if_pos rfl] at h
      rcases mem_cons.mp h with rfl | h
      · cases hc
      · exact ⟨mem_cons_of_mem _ (ih h c hc).1, (ih h c hc).2⟩
    | false =>
      rw [hd, if_neg (by simp)] at h
      obtain ⟨first, others, hsplit⟩ := exists_cons_of_ne_nil (splitOnP_ne_nil sep s)
      rw [hsplit, modifyHead_cons] at h
      rcases mem_cons.mp h with rfl | h
      · rcases mem_cons.mp hc with rfl | hc
        · exact ⟨mem_cons_self, hd⟩
        · have hfirst := ih (hsplit ▸ mem_cons_self) c hc
          exact ⟨mem_cons_of_mem _ hfirst.1, hfirst.2⟩
      · have hother := ih (hsplit ▸ mem_cons_of_mem _ h) c hc
        exact ⟨mem_cons_of_mem _ hother.1, hother.2⟩

/-! ## 2. The loop -/

theorem eq_false_of_mem_head?_dropWhile {p : α → Bool} : ∀ c ∈ (s.dropWhile p).head?, p c = false := by
  intro c hc
  obtain ⟨rest, hrest⟩ := head?_eq_some_iff.mp hc
  exact eq_false_of_dropWhile hrest

@[simp] theorem tokens_cutter_nil : (cutter sep).tokens () [] = [] := Lexer.tokens_of_stop rfl

theorem step_cutter_cons (c : α) (s : List α) :
    (cutter sep).step () (c :: s) = some (some (cut sep (c :: s)).1, (), (cut sep (c :: s)).2) := rfl

theorem tokens_cutter_cons (c : α) (s : List α) :
    (cutter sep).tokens () (c :: s) = (cut sep (c :: s)).1 :: (cutter sep).tokens () (cut sep (c :: s)).2 :=
  Lexer.tokens_of_step (step_cutter_cons c s)

theorem tokens_cutter (h : ∀ c ∈ s.head?, sep c = false) : (cutter sep).tokens () s = words sep s := by
  induction hn : s.length using Nat.strong_induction_on generalizing s with
  | _ n ih =>
    cases s with
    | nil => rw [tokens_cutter_nil, words_nil]
    | cons c s =>
      have hlt : (cut sep (c :: s)).2.length < n := hn ▸ (cutter sep).size_lt (step_cutter_cons c s)
      have hrest : (cutter sep).tokens () (cut sep (c :: s)).2 = words sep (cut sep (c :: s)).2 :=
        ih _ hlt eq_false_of_mem_head?_dropWhile rfl
      rw [tokens_cutter_cons, words_of_no_sep_head (h c rfl), hrest]

/-- A separator at the beginning makes an empty entry. -/
theorem tokens_cutter_cons_of_sep (hc : sep c = true) : (cutter sep).tokens () (c :: s) = [] :: words sep s := by
  have hcut : cut sep (c :: s) = ([], s.dropWhile sep) := by simp [cut, hc]
  rw [tokens_cutter_cons, hcut, ← words_dropWhile s, tokens_cutter eq_false_of_mem_head?_dropWhile]

end Words
