/-
# Formats, as `printf` writes and `scanf` reads them

A format is a list of directives.  `print` writes values by it; `scan` reads a text by it and gives the
values it has read before the first directive that did not match, and the rest of the text if all matched.
White space in a format is read as any amount of white space.

Reading goes through a printed text piece by piece: `scan_lits` passes the fixed text of the format,
`scan_str` and `scan_num` a value.
-/
import Gct.Lib.Text
import Mathlib.Data.List.DropRight

namespace Format

open CText List

/-! ## 1. Directives -/

inductive Directive where
  | lit (c : Char)
  /-- A word without white space, `%s`. -/
  | str
  /-- A number of a type with bounds, `%d` or `%ld`, with a width unless it is 0. -/
  | num (lo hi : Int) (width : Nat)
  /-- A text without the characters `stops`, `%[^...]`. -/
  | notIn (stops : List Char)

inductive Value where
  | text (s : List Char)
  | int (n : Int)
  deriving DecidableEq, Repr

/-- The fixed text of a format. -/
def lits (s : List Char) : List Directive := s.map .lit

/-- The conversions `%d` and `%ld`. -/
def decimal : Directive := .num (-2 ^ 31) (2 ^ 31 - 1) 0

def longDecimal : Directive := .num (-2 ^ 63) (2 ^ 63 - 1) 0

def print : List Directive → List Value → List Char
  | .lit c :: ds, vs => c :: print ds vs
  | .str :: ds, .text s :: vs => s ++ print ds vs
  | .num _ _ width :: ds, .int n :: vs => (printInt n).leftpad width ' ' ++ print ds vs
  | _, _ => []

/-- One number; at most `width` characters are read, unless it is 0. -/
def scanNum (lo hi : Int) (width : Nat) (s : List Char) : Option (Int × List Char) :=
  if width = 0 then scanInt lo hi s
  else
    let s := s.dropWhile isSpace
    (scanInt lo hi (s.take width)).map fun (n, rest) => (n, rest ++ s.drop width)

/-- What is left behind a character of the format. -/
def skip (c : Char) (s : List Char) : Option (List Char) :=
  if isSpace c then some (s.dropWhile isSpace)
  else if s.head? = some c then some s.tail
  else none

def scan : List Directive → List Char → List Value × Option (List Char)
  | [], s => ([], some s)
  | .lit c :: ds, s =>
    match skip c s with
    | none => ([], none)
    | some s => scan ds s
  | .str :: ds, s =>
    let s := s.dropWhile isSpace
    match s.takeWhile (!isSpace ·) with
    | [] => ([], none)
    | word =>
      let result := scan ds (s.dropWhile (!isSpace ·))
      (.text word :: result.1, result.2)
  | .num lo hi width :: ds, s =>
    match scanNum lo hi width s with
    | none => ([], none)
    | some (n, s) =>
      let result := scan ds s
      (.int n :: result.1, result.2)
  | .notIn stops :: ds, s =>
    match s.takeWhile (· ∉ stops) with
    | [] => ([], none)
    | word =>
      let result := scan ds (s.dropWhile (· ∉ stops))
      (.text word :: result.1, result.2)

/-! ## 2. Printing -/

variable (s : List Char) (ds : List Directive) (vs : List Value)

theorem print_lits : print (lits s ++ ds) vs = s ++ print ds vs := by
  induction s with
  | nil => rfl
  | cons c s ih =>
    rw [lits, map_cons, cons_append, print]
    exact congrArg _ ih

theorem print_lits_end : print (lits s) vs = s := by
  have hnil : print [] vs = [] := by cases vs <;> rfl
  have h := print_lits s [] vs
  rwa [append_nil, hnil, append_nil] at h

theorem print_str : print (.str :: ds) (.text s :: vs) = s ++ print ds vs := rfl

theorem print_num (lo hi n : Int) (ds : List Directive) (vs : List Value) :
    print (.num lo hi 0 :: ds) (.int n :: vs) = printInt n ++ print ds vs := by
  rw [print, leftpad, Nat.zero_sub, replicate_zero, nil_append]

/-! ## 3. Reading -/

/-- The text does not begin with white space. -/
def NoSpace (s : List Char) : Prop := ∀ c ∈ s.head?, isSpace c = false

/-- The text is empty or begins with white space. -/
def AtSpace (s : List Char) : Prop := ∀ c ∈ s.head?, isSpace c = true

theorem dropWhile_noSpace {s : List Char} (h : NoSpace s) : s.dropWhile isSpace = s := by
  cases s with
  | nil => rfl
  | cons c s => rw [dropWhile_cons_of_neg (by simp [h c rfl])]

theorem skip_space {c : Char} (h : isSpace c = true) (s : List Char) : skip c s = some (s.dropWhile isSpace) := by
  rw [skip, if_pos h]

theorem skip_self (c : Char) (h : isSpace c = false) (s : List Char) : skip c (c :: s) = some s := by
  rw [skip, if_neg (by simp [h])]
  exact if_pos rfl

variable (ds : List Directive) {t : List Char}

/-- The fixed text of a format is passed, with or without the white space before it. -/
theorem scan_lits_both (h : NoSpace t) (s : List Char) : scan (lits s ++ ds) (s ++ t) = scan ds t ∧
      scan (lits s ++ ds) ((s ++ t).dropWhile isSpace) = scan ds t := by
  induction s with
  | nil => exact ⟨rfl, congrArg (scan ds) (dropWhile_noSpace h)⟩
  | cons c s ih =>
    rw [lits, map_cons, cons_append, cons_append, scan, scan]
    cases hc : isSpace c with
    | true =>
      rw [skip_space hc, skip_space hc, dropWhile_cons_of_pos hc, dropWhile_idempotent]
      exact ⟨ih.2, ih.2⟩
    | false =>
      rw [dropWhile_cons_of_neg (by simp [hc]), skip_self c hc]
      exact ⟨ih.1, ih.1⟩

theorem scan_lits (h : NoSpace t) (s : List Char) : scan (lits s ++ ds) (s ++ t) = scan ds t :=
  (scan_lits_both ds h s).1

/-- A word is read up to the next white space. -/
theorem scan_str {word t : List Char} (hne : word ≠ []) (hword : ∀ c ∈ word, isSpace c = false) (ht : AtSpace t) :
    scan (.str :: ds) (word ++ t) = (.text word :: (scan ds t).1, (scan ds t).2) := by
  obtain ⟨c, word, rfl⟩ := exists_cons_of_ne_nil hne
  have hdrop : (c :: word ++ t).dropWhile isSpace = c :: word ++ t :=
    dropWhile_noSpace fun d hd => hword d (by simp at hd; simp [hd])
  have hall : ∀ d ∈ c :: word, (!isSpace d) = true := fun d hd => by rw [hword d hd]; rfl
  have htake : t.takeWhile (!isSpace ·) = [] := by
    cases t with
    | nil => rfl
    | cons d t => rw [takeWhile_cons_of_neg (by simp [ht d rfl])]
  have hrest : t.dropWhile (!isSpace ·) = t := by
    cases t with
    | nil => rfl
    | cons d t => rw [dropWhile_cons_of_neg (by simp [ht d rfl])]
  rw [scan, hdrop, takeWhile_append_of_pos hall, htake, dropWhile_append_of_pos hall, hrest, append_nil]

/-- A number is read up to the next character that is no digit. -/
theorem scan_num {lo hi n : Int} (hlo : lo ≤ n) (hhi : n ≤ hi) (ht : NoDigit t) :
    scan (.num lo hi 0 :: ds) (printInt n ++ t) = (.int n :: (scan ds t).1, (scan ds t).2) := by
  have hscan : scanNum lo hi 0 (printInt n ++ t) = some (n, t) := by
    rw [scanNum, if_pos rfl]
    exact scanInt_printInt hlo hhi ht
  rw [scan, hscan]

/-- Fixed text at the end of a format adds nothing to what has been read. -/
theorem scan_lits_fst (s t : List Char) : (scan (lits s) t).1 = [] := by
  induction s generalizing t with
  | nil => rfl
  | cons c s ih =>
    rw [lits, map_cons, scan]
    cases skip c t with
    | none => rfl
    | some t => exact ih t

theorem noSpace_of_word {word : List Char} (hne : word ≠ []) (hword : ∀ c ∈ word, isSpace c = false)
    (t : List Char) : NoSpace (word ++ t) := by
  obtain ⟨c, word, rfl⟩ := exists_cons_of_ne_nil hne
  intro d hd
  exact hword d (by simp at hd; simp [hd])

theorem noSpace_printInt (n : Int) (t : List Char) : NoSpace (printInt n ++ t) := by
  intro c hc
  unfold printInt at hc
  split at hc
  · simp at hc
    subst hc
    decide
  · obtain ⟨d, ds, heq, hd⟩ := printUnsigned_eq_cons n.toNat
    rw [heq] at hc
    simp at hc
    subst hc
    exact isSpace_eq_false_of_isDigit hd

end Format
