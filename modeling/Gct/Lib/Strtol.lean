/-
# Numbers, as `strtol` reads them with the base 0

The base is taken from the text: `0x` in front of a digit is base 16, another `0` in front is base 8, everything else is
base 10.  `strtol` gives the number, kept within the bounds of its type, and the text behind it; without a digit this is
the whole text.

What `%d` prints is read back whole (`strtol_printInt`): a number above 0 is printed without a 0 in front.
-/
import Gct.Lib.Hex

namespace CText

open List

def isDigitOf (base : Nat) (c : Char) : Bool := (hexDigit c).any (· < base)

def valueOf (base : Nat) (digits : List Char) : Nat :=
  digits.foldl (fun value c => base * value + (hexDigit c).getD 0) 0

/-- The base of a number, and its text without the mark of base 16. -/
def takeBase : List Char → Nat × List Char
  | '0' :: x :: c :: s => if (x = 'x' ∨ x = 'X') ∧ isHexDigit c then (16, c :: s) else (8, '0' :: x :: c :: s)
  | '0' :: s => (8, '0' :: s)
  | s => (10, s)

def longMin : Int := -2 ^ 63
def longMax : Int := 2 ^ 63 - 1

/-- `strtol(s, &end, 0)` for a `long` of 64 bits: the value, and the text at `end`. -/
def strtol (s : List Char) : Int × List Char :=
  let sign := takeSign (s.dropWhile isSpace)
  let base := takeBase sign.2
  match base.2.takeWhile (isDigitOf base.1) with
  | [] => (0, s)
  | digits =>
    let value := valueOf base.1 digits
    (max longMin (min longMax (if sign.1 then -value else value)), base.2.dropWhile (isDigitOf base.1))

/-! ## 1. Printed numbers -/

theorem hexDigit_of_isDigit {c : Char} (h : c.isDigit = true) : hexDigit c = some (c.toNat - '0'.toNat) := by
  obtain ⟨hlo, hhi⟩ := Char.isDigit_iff_toNat.mp h
  exact if_pos ⟨hlo, hhi⟩

theorem isDigitOf_ten {c : Char} (h : c.isDigit = true) : isDigitOf 10 c = true := by
  obtain ⟨hlo, hhi⟩ := Char.isDigit_iff_toNat.mp h
  have hlt : c.toNat - '0'.toNat < 10 := by
    have h9 : '9'.toNat = '0'.toNat + 9 := by decide
    omega
  rw [isDigitOf, hexDigit_of_isDigit h]
  simpa using hlt

theorem valueOf_printUnsigned (n : Nat) : valueOf 10 (printUnsigned n) = n := by
  have hfold : ∀ (digits : List Char) (value : Nat), (∀ c ∈ digits, c.isDigit = true) →
      digits.foldl (fun value c => 10 * value + (hexDigit c).getD 0) value = Nat.ofDigitChars 10 digits value := by
    intro digits
    induction digits with
    | nil => exact fun _ _ => rfl
    | cons c digits ih =>
      intro value hall
      rw [foldl_cons, hexDigit_of_isDigit (hall c mem_cons_self), Option.getD_some, Nat.ofDigitChars_cons]
      exact ih _ fun d hd => hall d (mem_cons_of_mem _ hd)
  rw [valueOf, hfold _ _ fun c => isDigit_of_mem_printUnsigned]
  exact Nat.ofDigitChars_toDigits (by decide) (by decide)

/-- Only 0 is printed with a 0 in front. -/
theorem eq_zero_of_head?_printUnsigned {n : Nat} (h : (printUnsigned n).head? = some '0') : n = 0 := by
  induction n using Nat.strong_induction_on with
  | _ n ih =>
    by_cases hlt : n < 10
    · rw [printUnsigned, Nat.toDigits_of_lt_base hlt] at h
      have hdigit : ∀ d < 10, Nat.digitChar d = '0' → d = 0 := by decide
      exact hdigit n hlt (Option.some.inj h)
    · have hle : 10 ≤ n := Nat.le_of_not_lt hlt
      rw [printUnsigned, Nat.toDigits_of_base_le (by decide) hle, head?_append] at h
      obtain ⟨c, hc⟩ := Option.isSome_iff_exists.mp (isSome_head?.mpr (Nat.toDigits_ne_nil (n := n / 10) (b := 10)))
      have hdiv := ih (n / 10) (by omega) (by rw [printUnsigned, hc]; rwa [hc] at h)
      omega

theorem takeBase_printUnsigned {n : Nat} (hn : n ≠ 0) : takeBase (printUnsigned n) = (10, printUnsigned n) := by
  have hhead : (printUnsigned n).head? ≠ some '0' := fun h => hn (eq_zero_of_head?_printUnsigned h)
  unfold takeBase
  split
  next heq => exact absurd (congrArg head? heq) hhead
  next heq => exact absurd (congrArg head? heq) hhead
  next => rfl

theorem takeSign_printUnsigned (n : Nat) : takeSign ((printUnsigned n).dropWhile isSpace) = (false, printUnsigned n) := by
  obtain ⟨c, cs, heq, hc⟩ := printUnsigned_eq_cons n
  have hhex : isHexDigit c = true := by rw [isHexDigit, hexDigit_of_isDigit hc]; rfl
  rw [heq, dropWhile_cons_of_neg (by simp [isSpace_eq_false_of_isDigit hc]), takeSign_of_isHexDigit hhex]

theorem strtol_of_takeSign {s : List Char} {negative : Bool} {n : Nat}
    (h : takeSign (s.dropWhile isSpace) = (negative, printUnsigned n)) :
    strtol s = (max longMin (min longMax (if negative then -n else n)), []) := by
  by_cases hn : n = 0
  · subst hn
    rw [strtol, h]
    cases negative <;> rfl
  · have hall : ∀ c ∈ printUnsigned n, isDigitOf 10 c = true := fun c hc => isDigitOf_ten (isDigit_of_mem_printUnsigned hc)
    have htake : (printUnsigned n).takeWhile (isDigitOf 10) = printUnsigned n := takeWhile_eq_self_iff.mpr hall
    have hdrop : (printUnsigned n).dropWhile (isDigitOf 10) = [] := dropWhile_eq_nil_iff.mpr hall
    simp only [strtol, h, takeBase_printUnsigned hn, htake, hdrop]
    split
    next hnil => exact absurd hnil Nat.toDigits_ne_nil
    next => rw [valueOf_printUnsigned]

theorem strtol_printInt {n : Int} (hlo : longMin ≤ n) (hhi : n ≤ longMax) : strtol (printInt n) = (n, []) := by
  rw [printInt]
  split
  next hneg =>
    have hsign : takeSign (('-' :: printUnsigned n.natAbs).dropWhile isSpace) = (true, printUnsigned n.natAbs) := rfl
    rw [strtol_of_takeSign hsign, if_pos rfl]
    have habs : -(n.natAbs : Int) = n := by omega
    rw [habs, min_eq_right hhi, max_eq_right hlo]
  next hpos =>
    rw [strtol_of_takeSign (takeSign_printUnsigned _), if_neg (by simp)]
    have hnat : (n.toNat : Int) = n := by omega
    rw [hnat, min_eq_right hhi, max_eq_right hlo]

end CText
