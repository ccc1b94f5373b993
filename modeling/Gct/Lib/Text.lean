/-
# Decimal text, as `printf` writes it and `scanf` reads it

Texts are lists of characters without their terminator.  `printInt` and `printUnsigned` are the
conversions `%d` and `%u` (with any length modifier); `scanInt` is the conversion `%d` of `scanf`:
it skips white space, takes an optional sign and at least one digit, and clamps what it reads to
the bounds of the type it reads into.  `strchr` is the search of the C library.

What is printed is read back, whatever follows, as long as the next character is no digit
(`scanInt_printInt`).
-/
import Mathlib.Algebra.Order.Ring.Int
import Mathlib.Data.List.TakeWhile

namespace CText

open List

/-! ## 1. Printing and searching -/

/-- The conversion `%u`. -/
def printUnsigned (n : Nat) : List Char := Nat.toDigits 10 n

/-- The conversion `%d`. -/
def printInt (n : Int) : List Char :=
  if n < 0 then '-' :: printUnsigned n.natAbs else printUnsigned n.toNat

/-- `strchr`: the text from the first `c` on. -/
def strchr (c : Char) (s : List Char) : Option (List Char) :=
  match s.dropWhile (· ≠ c) with
  | [] => none
  | t => some t

variable {c : Char} {s : List Char} {n : Nat} {digits : List Char}

theorem strchr_eq_none_iff : strchr c s = none ↔ c ∉ s := by
  have hnil : strchr c s = none ↔ s.dropWhile (· ≠ c) = [] := by
    unfold strchr
    cases s.dropWhile (· ≠ c) with
    | nil | cons => simp
  rw [hnil, dropWhile_eq_nil_iff]
  constructor
  · intro h hc
    simpa using h c hc
  · intro h x hx
    simp only [decide_eq_true_eq]
    rintro rfl
    exact h hx

theorem strchr_append {s t : List Char} (h : c ∉ s) : strchr c (s ++ c :: t) = some (c :: t) := by
  have hs : ∀ x ∈ s, decide (x ≠ c) = true := by
    intro x hx
    simp only [decide_eq_true_eq]
    rintro rfl
    exact h hx
  rw [strchr, dropWhile_append_of_pos hs, dropWhile_cons_of_neg (by simp)]

/-- What is found begins with the character, so it is not longer than the text, and its tail is
shorter. -/
theorem length_of_strchr {s t : List Char} (h : strchr c s = some t) : t.tail.length < s.length := by
  have hlen : (s.dropWhile (· ≠ c)).length ≤ s.length := (dropWhile_suffix _).length_le
  unfold strchr at h
  cases hd : s.dropWhile (· ≠ c) with
  | nil =>
    rw [hd] at h
    exact absurd h (by simp)
  | cons d ds =>
    rw [hd] at h hlen
    rw [Option.some.injEq] at h
    rw [← h, tail_cons]
    exact hlen

/-! ## 2. Scanning -/

/-- `isspace` in the C locale. -/
def isSpace (c : Char) : Bool := c = ' ' || (9 ≤ c.toNat && c.toNat ≤ 13)

/-- At least one digit: its value, and what follows. -/
def scanDigits (s : List Char) : Option (Nat × List Char) :=
  match s.takeWhile Char.isDigit with
  | [] => none
  | ds => some (Nat.ofDigitChars 10 ds 0, s.dropWhile Char.isDigit)

/-- The conversion `%d` into a type with the bounds `lo` and `hi`. -/
def scanInt (lo hi : Int) (s : List Char) : Option (Int × List Char) :=
  match s.dropWhile isSpace with
  | '-' :: t => (scanDigits t).map fun p => (max lo (-p.1), p.2)
  | '+' :: t => (scanDigits t).map fun p => (min hi p.1, p.2)
  | t => (scanDigits t).map fun p => (min hi p.1, p.2)

/-! ## 3. What is printed is read back -/

/-- The text does not go on with a digit. -/
def NoDigit (s : List Char) : Prop := ∀ c ∈ s.head?, c.isDigit = false

@[simp] theorem noDigit_nil : NoDigit [] := by simp [NoDigit]

@[simp] theorem noDigit_cons : NoDigit (c :: s) ↔ c.isDigit = false := by
  simp [NoDigit]

theorem dropWhile_noDigit (h : NoDigit s) : s.dropWhile Char.isDigit = s := by
  cases s with
  | nil => rfl
  | cons c s => simp [noDigit_cons.mp h]

theorem takeWhile_noDigit (h : NoDigit s) : s.takeWhile Char.isDigit = [] := by
  cases s with
  | nil => rfl
  | cons c s => simp [noDigit_cons.mp h]

theorem isDigit_of_mem_printUnsigned (h : c ∈ printUnsigned n) : c.isDigit = true :=
  Nat.isDigit_of_mem_toDigits (by decide) (by decide) h

/-- A number is printed with a digit in front. -/
theorem printUnsigned_eq_cons (n : Nat) : ∃ c cs, printUnsigned n = c :: cs ∧ c.isDigit = true := by
  obtain ⟨c, cs, h⟩ := exists_cons_of_ne_nil (Nat.toDigits_ne_nil (n := n) (b := 10))
  exact ⟨c, cs, h, isDigit_of_mem_printUnsigned (by rw [printUnsigned, h]; simp)⟩

theorem not_mem_printUnsigned (h : c.isDigit = false) : c ∉ printUnsigned n :=
  fun hc => absurd (isDigit_of_mem_printUnsigned hc) (by simp [h])

theorem not_mem_printInt {n : Int} (h : c.isDigit = false) (hm : c ≠ '-') : c ∉ printInt n := by
  unfold printInt
  split
  · rw [mem_cons]
    rintro (hc | hc)
    · exact hm hc
    · exact not_mem_printUnsigned h hc
  · exact not_mem_printUnsigned h

/-- At least one digit, and nothing else. -/
def IsDigits (s : List Char) : Prop := s ≠ [] ∧ ∀ c ∈ s, c.isDigit = true

instance (s : List Char) : Decidable (IsDigits s) :=
  decidable_of_iff (s ≠ [] ∧ s.all Char.isDigit = true) (by rw [IsDigits, all_eq_true])

theorem isDigits_printUnsigned (n : Nat) : IsDigits (printUnsigned n) :=
  ⟨Nat.toDigits_ne_nil, fun _ => isDigit_of_mem_printUnsigned⟩

theorem ofDigitChars_printUnsigned (n : Nat) : Nat.ofDigitChars 10 (printUnsigned n) 0 = n :=
  Nat.ofDigitChars_toDigits (by decide) (by decide)

theorem scanDigits_append (hdigits : IsDigits digits) (h : NoDigit s) :
    scanDigits (digits ++ s) = some (Nat.ofDigitChars 10 digits 0, s) := by
  obtain ⟨hne, hall⟩ := hdigits
  unfold scanDigits
  rw [takeWhile_append_of_pos hall, takeWhile_noDigit h, append_nil, dropWhile_append_of_pos hall, dropWhile_noDigit h]
  obtain ⟨c, cs, rfl⟩ := exists_cons_of_ne_nil hne
  rfl

/-- A digit is neither white space nor a sign. -/
theorem isSpace_eq_false_of_isDigit (h : c.isDigit = true) : isSpace c = false := by
  have h48 : 48 ≤ c.toNat := by
    have := (Char.isDigit_iff_toNat.mp h).1
    simpa using this
  have hsp : c ≠ ' ' := by
    rintro rfl
    exact absurd h48 (by decide)
  simp [isSpace, hsp]
  omega

/-- From a digit on there is no sign. -/
theorem scanInt_of_isDigit {lo hi : Int} (hc : c.isDigit = true) :
    scanInt lo hi (c :: s) = (scanDigits (c :: s)).map fun p => (min hi p.1, p.2) := by
  unfold scanInt
  rw [dropWhile_cons_of_neg (by simp [isSpace_eq_false_of_isDigit hc])]
  split
  next heq =>
    rw [(cons.inj heq).1] at hc
    exact absurd hc (by decide)
  next heq =>
    rw [(cons.inj heq).1] at hc
    exact absurd hc (by decide)
  · rfl

/-- A number without a sign is read up to the bound of the type. -/
theorem scanInt_digits {lo hi : Int} (hdigits : IsDigits digits) (h : NoDigit s) :
    scanInt lo hi (digits ++ s) = some (min hi (Nat.ofDigitChars 10 digits 0), s) := by
  have hscan := scanDigits_append hdigits h
  obtain ⟨hne, hall⟩ := hdigits
  obtain ⟨c, cs, rfl⟩ := exists_cons_of_ne_nil hne
  rw [cons_append] at hscan ⊢
  rw [scanInt_of_isDigit (hall c mem_cons_self), hscan]
  rfl

theorem scanInt_minus {lo hi : Int} (hdigits : IsDigits digits) (h : NoDigit s) :
    scanInt lo hi ('-' :: (digits ++ s)) = some (max lo (-(Nat.ofDigitChars 10 digits 0 : Int)), s) := by
  unfold scanInt
  rw [dropWhile_cons_of_neg (by decide)]
  simp only [scanDigits_append hdigits h, Option.map_some]

/-- **A number that fits its type is read back from what was printed.** -/
theorem scanInt_printInt {lo hi n : Int} (hlo : lo ≤ n) (hhi : n ≤ hi)
    (h : NoDigit s) : scanInt lo hi (printInt n ++ s) = some (n, s) := by
  unfold printInt
  by_cases hn : n < 0
  · rw [if_pos hn, cons_append, scanInt_minus (isDigits_printUnsigned _) h, ofDigitChars_printUnsigned,
      show -((n.natAbs : Nat) : Int) = n by omega, max_eq_right hlo]
  · have hcast : ((n.toNat : Nat) : Int) = n := Int.toNat_of_nonneg (by omega)
    rw [if_neg hn, scanInt_digits (isDigits_printUnsigned _) h, ofDigitChars_printUnsigned, hcast, min_eq_right hhi]

/-- Scanning a number uses up at least one character. -/
theorem length_of_scanDigits {s r : List Char} (h : scanDigits s = some (n, r)) : r.length < s.length := by
  unfold scanDigits at h
  cases hds : s.takeWhile Char.isDigit with
  | nil =>
    rw [hds] at h
    exact absurd h (by simp)
  | cons d ds =>
    rw [hds] at h
    simp only [Option.some.injEq, Prod.mk.injEq] at h
    have hlen := congrArg length (takeWhile_append_dropWhile (p := Char.isDigit) (l := s))
    rw [length_append, h.2, hds, length_cons] at hlen
    omega

theorem length_of_scanInt {lo hi n : Int} {s r : List Char} (h : scanInt lo hi s = some (n, r)) :
    r.length < s.length := by
  have hdrop : (s.dropWhile isSpace).length ≤ s.length := (dropWhile_suffix _).length_le
  have hmap : ∀ {t : List Char} (f : Nat → Int),
      ((scanDigits t).map fun p => (f p.1, p.2)) = some (n, r) → r.length < t.length := by
    intro t f ht
    obtain ⟨⟨m, r'⟩, hm, heq⟩ := Option.map_eq_some_iff.mp ht
    simp only [Prod.mk.injEq] at heq
    rw [← heq.2]
    exact length_of_scanDigits hm
  unfold scanInt at h
  split at h
  next t heq =>
    rw [heq, length_cons] at hdrop
    have := hmap (fun m => max lo (-m)) h
    omega
  next t heq =>
    rw [heq, length_cons] at hdrop
    have := hmap (fun m => min hi m) h
    omega
  · have := hmap (fun m => min hi m) h
    omega

end CText
