/-
# Texts of keyed lines

A line is a key, which ends in a mark such as `=`, and a value.  A value is looked up by a search for its key in the whole
text, so a key that stands in the value of another line is found as well: the value then is the rest of that line.

`valueIn key line` is what a search finds in one line.  When no key is the end of another one, a search does not find a
key in another key (`valueIn_append`), and a search over all the text gives what it finds in the lines
(`tokens_reader`).
-/
import Gct.Lib.Lexer
import Gct.Lib.Separated

namespace Keyed

open Search List Separated Option

variable {α : Type} [DecidableEq α]

/-- What stands behind the first `key` in a line. -/
def valueIn (key line : List α) : Option (List α) := (strstr key line).map fun i => line.drop (i + key.length)

/-- The next value in the text, and the text from the separator behind it. -/
def next (sep : α) (key text : List α) : Option (List α × List α) :=
  (valueIn key text).map fun s => (s.takeWhile (· ≠ sep), s.dropWhile (· ≠ sep))

theorem length_of_next {sep : α} {key text value rest : List α} (hkey : key ≠ [])
    (h : next sep key text = some (value, rest)) : rest.length < text.length := by
  obtain ⟨s, hs, heq⟩ := map_eq_some_iff.mp h
  obtain ⟨i, hi, rfl⟩ := map_eq_some_iff.mp hs
  cases heq
  have hkeylen : 0 < key.length := length_pos_iff.mpr hkey
  have hpre := (isPrefix_of_strstr hi).length_le
  have hsuffix := (dropWhile_suffix (l := text.drop (i + key.length)) (· ≠ sep)).length_le
  rw [length_drop] at hpre hsuffix
  omega

/-- The loop that looks for a key until it is not found any more. -/
def reader (sep : α) (key : List α) (hkey : key ≠ []) : Lexer Unit α (List α) where
  step _ text := (next sep key text).map fun found => (some found.1, (), found.2)
  size _ text := text.length
  size_lt := by
    intro _ text t _ rest h
    obtain ⟨found, hfound, heq⟩ := map_eq_some_iff.mp h
    cases heq
    exact length_of_next hkey hfound

/-! ## 1. One line -/

section Line

variable {sep : α} {key line : List α}

/-- A part of the text in which the search does not end makes no difference. -/
theorem valueIn_of_strstr {passed text : List α}
    (h : strstr key (passed ++ text) = (strstr key text).map (· + passed.length)) :
    valueIn key (passed ++ text) = valueIn key text := by
  rw [valueIn, valueIn, h, Option.map_map]
  refine congrArg (Option.map · (strstr key text)) (funext fun i => ?_)
  change (passed ++ text).drop (i + passed.length + key.length) = text.drop (i + key.length)
  rw [show i + passed.length + key.length = passed.length + (i + key.length) by omega, ← drop_drop, drop_left]

theorem valueIn_eq_none_iff : valueIn key line = none ↔ ¬ key <:+: line := by
  rw [valueIn, map_eq_none_iff]
  constructor
  · intro h hin
    obtain ⟨i, hi⟩ := exists_strstr_of_isInfix hin
    rw [hi] at h
    cases h
  · exact strstr_eq_none_of_not_isInfix

theorem next_sep_cons (hkey : key ≠ []) (hsep : sep ∉ key) (text : List α) :
    next sep key (sep :: text) = next sep key text := by
  have hvalue : valueIn key ([sep] ++ text) = valueIn key text :=
    valueIn_of_strstr (strstr_sep_cons hkey hsep text)
  exact congrArg (Option.map _) hvalue

theorem next_line_of_none (hkey : key ≠ []) (hsep : sep ∉ key) (h : valueIn key line = none) (text : List α) :
    next sep key (line ++ sep :: text) = next sep key text := by
  have hvalue : valueIn key (line ++ sep :: text) = valueIn key (sep :: text) :=
    valueIn_of_strstr (strstr_append_of_not_isInfix hsep (.inr ⟨text, rfl⟩) (valueIn_eq_none_iff.mp h))
  rw [← next_sep_cons hkey hsep text, next, hvalue, next]

theorem next_line_of_some {value : List α} (hkey : key ≠ []) (hline : sep ∉ line) (h : valueIn key line = some value) (text : List α) :
    next sep key (line ++ sep :: text) = some (value, sep :: text) := by
  obtain ⟨i, hi, rfl⟩ := map_eq_some_iff.mp h
  have hlen := (isPrefix_of_strstr hi).length_le
  rw [length_drop] at hlen
  have hpos : 0 < key.length := length_pos_iff.mpr hkey
  have hdrop : (line ++ sep :: text).drop (i + key.length) = line.drop (i + key.length) ++ sep :: text :=
    drop_append_of_le_length (by omega)
  have hvalue : ∀ c ∈ line.drop (i + key.length), decide (c ≠ sep) = true := by
    intro c hc
    refine decide_eq_true ?_
    rintro rfl
    exact hline (mem_of_mem_drop hc)
  rw [next, valueIn, strstr_append_of_some hi, map_some, map_some, hdrop,
    takeWhile_append_of_pos hvalue, dropWhile_append_of_pos hvalue, takeWhile_cons_of_neg (by simp),
    dropWhile_cons_of_neg (by simp), append_nil]

/-- A key that is searched in a line with that key. -/
theorem valueIn_self (key value : List α) : valueIn key (key ++ value) = some value := by
  rw [valueIn, strstr_of_isPrefix (prefix_append key value), map_some, Nat.zero_add, drop_left]

theorem takeWhile_ne_append {mark : α} {name : List α} (hname : mark ∉ name) (rest : List α) :
    (name ++ mark :: rest).takeWhile (· ≠ mark) = name := by
  have hall : ∀ c ∈ name, decide (c ≠ mark) = true := by
    intro c hc
    refine decide_eq_true ?_
    rintro rfl
    exact hname hc
  rw [takeWhile_append_of_pos hall, takeWhile_cons_of_neg (by simp), append_nil]

/-- A key is not found in the key of a line when it is not the end of it. -/
theorem valueIn_append {mark : α} {name name' : List α} (hname : mark ∉ name) (hname' : mark ∉ name')
    (hsuffix : ¬ name ++ [mark] <:+ name' ++ [mark]) (value : List α) :
    valueIn (name ++ [mark]) (name' ++ [mark] ++ value) = valueIn (name ++ [mark]) value := by
  refine valueIn_of_strstr (strstr_append fun j hj hpre => hsuffix ?_)
  -- both texts have their first mark at the same place, so the key is the rest of the other key
  have hj' : j ≤ name'.length := by
    rw [length_append, length_singleton] at hj
    omega
  have hdrop : (name' ++ [mark] ++ value).drop j = name'.drop j ++ mark :: value := by
    rw [append_assoc, singleton_append, drop_append_of_le_length hj']
  obtain ⟨t, ht⟩ := hpre
  rw [hdrop, append_assoc, singleton_append] at ht
  have hsame : name = name'.drop j := by
    rw [← takeWhile_ne_append hname t, ht, takeWhile_ne_append fun h => hname' (mem_of_mem_drop h)]
  rw [hsame, ← drop_append_of_le_length hj']
  exact drop_suffix j _

end Line

/-! ## 2. All lines -/

section Text

variable {sep : α} {key : List α}

/-- **The reader finds in the text what stands behind the key in each of the lines.** -/
theorem tokens_reader (hkey : key ≠ []) (hsep : sep ∉ key) {lines : List (List α)} (hlines : ∀ line ∈ lines, sep ∉ line) :
    (reader sep key hkey).tokens () (front sep lines) = lines.filterMap (valueIn key) := by
  induction lines with
  | nil =>
    have hstop : next sep key (front sep []) = none := by
      have hnone : valueIn key ([] : List α) = none := valueIn_eq_none_iff.mpr fun h => hkey (infix_nil.mp h)
      rw [next, front, flatMap_nil, hnone]
      rfl
    exact Lexer.tokens_of_stop (congrArg (Option.map _) hstop)
  | cons line lines ih =>
    have ih := ih fun l hl => hlines l (mem_cons_of_mem _ hl)
    rw [front_cons]
    cases hvalue : valueIn key line with
    | none =>
      rw [filterMap_cons_none hvalue, ← ih]
      refine Lexer.tokens_congr ?_
      exact congrArg (Option.map _) (next_line_of_none hkey hsep hvalue _)
    | some value =>
      have hstep : (reader sep key hkey).step () (line ++ sep :: front sep lines) =
          some (some value, (), sep :: front sep lines) :=
        congrArg (Option.map _) (next_line_of_some hkey (hlines line mem_cons_self) hvalue _)
      have hskip : (reader sep key hkey).tokens () (sep :: front sep lines) =
          (reader sep key hkey).tokens () (front sep lines) :=
        Lexer.tokens_congr (congrArg (Option.map _) (next_sep_cons hkey hsep _))
      rw [Lexer.tokens_of_step hstep, hskip, ih, filterMap_cons_some hvalue]
      rfl

end Text

end Keyed
