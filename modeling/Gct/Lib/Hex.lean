/-
# Hexadecimal text, as `strtoul` reads it

`strtoulHex` is `strtoul` with the base 16 for a type of 64 bits: it skips white space, takes an optional
sign and an optional `0x`, and reads digits up to the first character that is none.  Without a digit the
value is 0, and a value that the type does not hold is an error.

Digits are read to their value, whatever follows, as long as it does not go on with a digit or an `x`
(`strtoulHex_digits`).
-/
import Gct.Lib.Text

namespace CText

open List

/-- The value of a hexadecimal digit of either case. -/
def hexDigit (c : Char) : Option Nat :=
  if '0' ≤ c ∧ c ≤ '9' then some (c.toNat - '0'.toNat)
  else if 'a' ≤ c ∧ c ≤ 'f' then some (c.toNat - 'a'.toNat + 10)
  else if 'A' ≤ c ∧ c ≤ 'F' then some (c.toNat - 'A'.toNat + 10)
  else none

def isHexDigit (c : Char) : Bool := (hexDigit c).isSome

def hexValue (digits : List Char) : Nat :=
  digits.foldl (fun value c => 16 * value + (hexDigit c).getD 0) 0

/-- The sign, and what follows it. -/
def takeSign : List Char → Bool × List Char
  | '-' :: s => (true, s)
  | '+' :: s => (false, s)
  | s => (false, s)

/-- The mark of the base 16 is not part of the number. -/
def dropBase : List Char → List Char
  | '0' :: 'x' :: s => s
  | '0' :: 'X' :: s => s
  | s => s

/-- `strtoul(s, NULL, 16)`; `none` is `ERANGE`. -/
def strtoulHex (s : List Char) : Option Nat :=
  let sign := takeSign (s.dropWhile isSpace)
  let value := hexValue ((dropBase sign.2).takeWhile isHexDigit)
  if value < 2 ^ 64 then
    some (if sign.1 then (2 ^ 64 - value) % 2 ^ 64 else value)
  else none

theorem isSpace_eq_false_of_isHexDigit {c : Char} (h : isHexDigit c = true) : isSpace c = false := by
  have h48 : 48 ≤ c.toNat := by
    unfold isHexDigit hexDigit at h
    split_ifs at h with hdec hlow hup
    · exact hdec.1
    · exact le_trans (by decide) (show 'a'.toNat ≤ c.toNat from hlow.1)
    · exact le_trans (by decide) (show 'A'.toNat ≤ c.toNat from hup.1)
    · exact absurd h (by simp)
  have hspace : c ≠ ' ' := by
    rintro rfl
    exact absurd h48 (by decide)
  have h13 : ¬ c.toNat ≤ 13 := fun h13 => absurd (le_trans h48 h13) (by decide)
  simp [isSpace, hspace, h13]

theorem takeSign_of_isHexDigit {c : Char} {s : List Char} (h : isHexDigit c = true) :
    takeSign (c :: s) = (false, c :: s) := by
  unfold takeSign
  split
  next heq =>
    cases heq
    exact absurd h (by decide)
  next heq =>
    cases heq
    exact absurd h (by decide)
  next => rfl

/-- What follows the digits is neither a digit nor an `x`. -/
def EndsNumber (s : List Char) : Prop := ∀ c ∈ s.head?, isHexDigit c = false ∧ c ≠ 'x' ∧ c ≠ 'X'

instance (s : List Char) : Decidable (EndsNumber s) :=
  inferInstanceAs (Decidable (∀ c ∈ s.head?, isHexDigit c = false ∧ c ≠ 'x' ∧ c ≠ 'X'))

theorem takeWhile_endsNumber {s : List Char} (h : EndsNumber s) : s.takeWhile isHexDigit = [] := by
  cases s with
  | nil => rfl
  | cons c s => simp [(h c rfl).1]

theorem dropBase_digits {digits s : List Char} (hd : ∀ c ∈ digits, isHexDigit c = true) (hs : EndsNumber s) :
    dropBase (digits ++ s) = digits ++ s := by
  have hx : ∀ c ∈ (digits.tail ++ s).head?, c ≠ 'x' ∧ c ≠ 'X' := by
    intro c hc
    cases htail : digits.tail with
    | nil =>
      rw [htail, nil_append] at hc
      exact (hs c hc).2
    | cons d ds =>
      rw [htail] at hc
      have hmem : d ∈ digits := mem_of_mem_tail (by rw [htail]; exact mem_cons_self)
      cases hc
      refine ⟨?_, ?_⟩ <;> rintro rfl <;> exact absurd (hd _ hmem) (by decide)
  cases digits with
  | nil =>
    cases s with
    | nil => rfl
    | cons c s =>
      have hc := (hs c rfl).1
      unfold dropBase
      split
      next heq =>
        cases heq
        exact absurd hc (by decide)
      next heq =>
        cases heq
        exact absurd hc (by decide)
      next => rfl
  | cons d ds =>
    rw [tail_cons] at hx
    rw [cons_append]
    generalize hrest : ds ++ s = rest at hx ⊢
    unfold dropBase
    split
    next heq =>
      cases heq
      exact absurd rfl (hx 'x' rfl).1
    next heq =>
      cases heq
      exact absurd rfl (hx 'X' rfl).2
    next => rfl

theorem strtoulHex_digits {digits s : List Char} (hne : digits ≠ []) (hd : ∀ c ∈ digits, isHexDigit c = true)
    (hs : EndsNumber s) (hval : hexValue digits < 2 ^ 64) : strtoulHex (digits ++ s) = some (hexValue digits) := by
  obtain ⟨d, ds, rfl⟩ := exists_cons_of_ne_nil hne
  have hhex : isHexDigit d = true := hd d mem_cons_self
  have hspace : ((d :: ds) ++ s).dropWhile isSpace = (d :: ds) ++ s :=
    dropWhile_cons_of_neg (by simp [isSpace_eq_false_of_isHexDigit hhex])
  have hsign : takeSign ((d :: ds) ++ s) = (false, (d :: ds) ++ s) := takeSign_of_isHexDigit hhex
  have htake : ((d :: ds) ++ s).takeWhile isHexDigit = d :: ds := by
    rw [takeWhile_append_of_pos hd, takeWhile_endsNumber hs, append_nil]
  simp only [strtoulHex, hspace, hsign, dropBase_digits hd hs, htake, if_pos hval]
  rfl

end CText
