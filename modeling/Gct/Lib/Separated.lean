/-
# Texts with separators

A list of entries is written as one text, with a separator between two entries.  Around one of its entries
the text is `front`, the entry, `back`: every entry before it has a separator behind it, and every entry
behind it has one before it.

A pattern without the separator is found inside of an entry.  So `strstr` finds it in the first entry that
contains it, and there where it is in this entry (`strstr_intercalate`).
-/
import Gct.Lib.Search

namespace Separated

open Search List

variable {α : Type*} {sep : α} (before : List (List α)) (entry : List α) (after : List (List α))
  (entries : List (List α))

/-! ## 1. Around an entry -/

def front (sep : α) (entries : List (List α)) : List α := entries.flatMap (· ++ [sep])

def back (sep : α) (entries : List (List α)) : List α := entries.flatMap (sep :: ·)

theorem front_cons : front sep (entry :: entries) = entry ++ sep :: front sep entries := by
  rw [front, flatMap_cons, append_assoc]
  rfl

theorem back_cons : back sep (entry :: entries) = sep :: (entry ++ back sep entries) := rfl

theorem intercalate_cons : [sep].intercalate (entry :: after) = entry ++ back sep after := by
  induction after generalizing entry with
  | nil => rw [intercalate_singleton, back, flatMap_nil, append_nil]
  | cons next after ih => rw [intercalate_cons_cons, ih, back_cons, append_assoc, singleton_append]

theorem intercalate_split :
    [sep].intercalate (before ++ entry :: after) = front sep before ++ (entry ++ back sep after) := by
  induction before with
  | nil => exact intercalate_cons entry after
  | cons first before ih =>
    have hcons : [sep].intercalate (first :: (before ++ entry :: after)) =
        first ++ sep :: [sep].intercalate (before ++ entry :: after) := by
      cases before with
      | nil | cons => exact intercalate_cons_cons.trans (append_assoc _ _ _)
    rw [cons_append, hcons, ih, front_cons, append_assoc, cons_append]

theorem front_eq_append (h : before ≠ []) : front sep before = [sep].intercalate before ++ [sep] := by
  induction before with
  | nil => exact absurd rfl h
  | cons first before ih =>
    cases before with
    | nil => rw [front_cons, intercalate_singleton]; rfl
    | cons second before =>
      rw [front_cons, ih (cons_ne_nil _ _), intercalate_cons_cons, append_assoc, append_assoc, singleton_append]

/-- Before an entry there is nothing, or a separator at the end of the text of the entries before it. -/
theorem front_eq_nil_or :
    (before = [] ∧ front sep before = []) ∨ front sep before = [sep].intercalate before ++ [sep] := by
  by_cases h : before = []
  · subst h
    exact .inl ⟨rfl, rfl⟩
  · exact .inr (front_eq_append before h)

/-- Behind an entry there is the end of the text or a separator. -/
theorem back_eq_nil_or : back sep after = [] ∨ ∃ t, back sep after = sep :: t := by
  cases after with
  | nil => exact .inl rfl
  | cons entry after => exact .inr ⟨_, back_cons entry after⟩

/-! ## 2. Searching -/

variable [DecidableEq α] {pat : List α} {s : List α}

omit [DecidableEq α] in
/-- A pattern does not go over the end of an entry. -/
theorem isPrefix_of_append {a rest : List α} (hsep : sep ∉ pat) (hrest : rest = [] ∨ ∃ t, rest = sep :: t)
    (h : pat <+: a ++ rest) : pat <+: a := by
  obtain ⟨v, hv⟩ := h
  rcases append_eq_append_iff.mp hv with ⟨r, rfl, -⟩ | ⟨r, rfl, hr⟩
  · exact prefix_append pat r
  · cases r with
    | nil => exact ⟨[], by rw [append_nil, append_nil]⟩
    | cons c r =>
      rcases hrest with rfl | ⟨t, rfl⟩
      · cases hr
      · obtain ⟨rfl, -⟩ := cons.inj hr
        exact absurd (mem_append_right _ mem_cons_self) hsep

theorem exists_strstr_of_isInfix (h : pat <:+: s) : ∃ i, strstr pat s = some i := by
  cases hfound : strstr pat s with
  | some i => exact ⟨i, rfl⟩
  | none =>
    obtain ⟨u, v, rfl⟩ := h
    refine absurd ?_ (not_isPrefix_of_none hfound u.length)
    rw [append_assoc, drop_left]
    exact prefix_append pat v

theorem strstr_eq_none_of_not_isInfix (h : ¬ pat <:+: s) : strstr pat s = none := by
  cases hfound : strstr pat s with
  | none => rfl
  | some i => exact absurd ((isPrefix_of_strstr hfound).isInfix.trans (drop_suffix i s).isInfix) h

/-- An entry without the pattern is passed. -/
theorem strstr_append_of_not_isInfix {entry rest : List α} (hsep : sep ∉ pat)
    (hrest : rest = [] ∨ ∃ t, rest = sep :: t) (h : ¬ pat <:+: entry) :
    strstr pat (entry ++ rest) = (strstr pat rest).map (· + entry.length) := by
  refine strstr_append fun j hj hpre => h ?_
  rw [drop_append_of_le_length (Nat.le_of_lt hj)] at hpre
  exact (isPrefix_of_append hsep hrest hpre).isInfix.trans (drop_suffix j entry).isInfix

theorem strstr_sep_cons (hpat : pat ≠ []) (hsep : sep ∉ pat) (t : List α) :
    strstr pat (sep :: t) = (strstr pat t).map (· + 1) := by
  rw [strstr, if_neg]
  intro hpre
  cases pat with
  | nil => exact hpat rfl
  | cons c pat =>
    obtain ⟨rfl, -⟩ := cons_prefix_cons.mp hpre
    exact hsep mem_cons_self

theorem strstr_front {before : List (List α)} (hpat : pat ≠ []) (hsep : sep ∉ pat)
    (h : ∀ entry ∈ before, ¬ pat <:+: entry) (t : List α) :
    strstr pat (front sep before ++ t) = (strstr pat t).map (· + (front sep before).length) := by
  induction before with
  | nil => exact Option.map_id'.symm
  | cons entry before ih =>
    have ih := ih fun e he => h e (mem_cons_of_mem _ he)
    rw [front_cons, append_assoc, cons_append, strstr_append_of_not_isInfix hsep (.inr ⟨_, rfl⟩) (h entry mem_cons_self),
      strstr_sep_cons hpat hsep, ih, Option.map_map, Option.map_map]
    congr 1
    funext i
    simp only [Function.comp, length_append, length_cons]
    omega

/-- What is found in a text is found there too if the text goes on. -/
theorem strstr_append_of_some {i : Nat} (h : strstr pat s = some i) (t : List α) : strstr pat (s ++ t) = some i := by
  induction s generalizing i with
  | nil =>
    rw [strstr] at h
    split at h
    next hpat =>
      cases h
      rw [hpat]
      exact strstr_of_isPrefix nil_prefix
    · cases h
  | cons c s ih =>
    have hlen := (isPrefix_of_strstr h).length_le
    rw [length_drop] at hlen
    rw [strstr] at h
    rw [cons_append, strstr]
    split at h
    next hpre =>
      cases h
      exact if_pos (hpre.trans (prefix_append (c :: s) t))
    next hpre =>
      obtain ⟨j, hj, rfl⟩ := Option.map_eq_some_iff.mp h
      have hnot : ¬ pat <+: c :: (s ++ t) := fun hlong =>
        hpre (prefix_of_prefix_length_le hlong (prefix_append (c :: s) t) (by omega))
      rw [if_neg hnot, ih hj]
      rfl

/-- **The pattern is found in the first entry that contains it.** -/
theorem strstr_intercalate {before after : List (List α)} {entry : List α} {i : Nat} (hpat : pat ≠ [])
    (hsep : sep ∉ pat) (hbefore : ∀ e ∈ before, ¬ pat <:+: e) (h : strstr pat entry = some i) :
    strstr pat ([sep].intercalate (before ++ entry :: after)) = some (i + (front sep before).length) := by
  rw [intercalate_split, strstr_front hpat hsep hbefore, strstr_append_of_some h]
  rfl

theorem strstr_intercalate_eq_none {entries : List (List α)} (hpat : pat ≠ []) (hsep : sep ∉ pat)
    (h : ∀ entry ∈ entries, ¬ pat <:+: entry) : strstr pat ([sep].intercalate entries) = none := by
  cases entries with
  | nil => exact strstr_eq_none_of_not_isInfix fun hin => hpat (infix_nil.mp hin)
  | cons entry entries =>
    have hback : ∀ entries : List (List α), (∀ e ∈ entries, ¬ pat <:+: e) → strstr pat (back sep entries) = none := by
      intro entries
      induction entries with
      | nil => exact fun _ => strstr_eq_none_of_not_isInfix fun hin => hpat (infix_nil.mp hin)
      | cons e entries ih =>
        intro h
        rw [back_cons, strstr_sep_cons hpat hsep,
          strstr_append_of_not_isInfix hsep (back_eq_nil_or entries) (h e mem_cons_self),
          ih fun e he => h e (mem_cons_of_mem _ he)]
        rfl
    rw [intercalate_cons, strstr_append_of_not_isInfix hsep (back_eq_nil_or entries) (h entry mem_cons_self),
      hback entries fun e he => h e (mem_cons_of_mem _ he)]
    rfl

end Separated
