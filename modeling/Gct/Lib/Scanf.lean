/-
# More of `scanf`: literals, sets of characters, and numbers in full

`scanLiteral` is a character of the format that is no conversion, and `scanSet` is the conversion `%n[…]`.  `number?`
reads a text that is a number and nothing else: an optional minus sign and digits, with zeros in front if the writer
puts them there.

`%d` passes white space and reads such a number (`scanInt_of_spaces`, `scanInt_number`).  On a part of one it finds
nothing until a digit is there, and from then on it takes the part for the number (`scanInt_part`).
-/
import Gct.Lib.Text

namespace CText

open List

/-! ## 1. Literals and sets -/

/-- A character of the format that is no conversion. -/
def scanLiteral (c : Char) : List Char → Option (List Char)
  | [] => none
  | d :: s => if d = c then some s else none

@[simp] theorem scanLiteral_nil (c : Char) : scanLiteral c [] = none := rfl

@[simp] theorem scanLiteral_cons (c : Char) (s : List Char) : scanLiteral c (c :: s) = some s := if_pos rfl

variable {s r t : List Char} {n : Int}

theorem length_of_scanLiteral {c : Char} (h : scanLiteral c s = some r) : r.length < s.length := by
  cases s with
  | nil => exact absurd h (by simp)
  | cons d s =>
    rw [scanLiteral] at h
    split at h
    · rw [Option.some.inj h]
      exact Nat.lt_succ_self _
    · exact absurd h (by simp)

/-- The conversion `%n[…]`: at most `n` characters of a set, and at least one. -/
def scanSet (n : Nat) (p : Char → Bool) (s : List Char) : Option (List Char × List Char) :=
  match (s.take n).takeWhile p with
  | [] => none
  | t => some (t, s.drop t.length)

@[simp] theorem scanSet_nil (n : Nat) (p : Char → Bool) : scanSet n p [] = none := by
  rw [scanSet, take_nil, takeWhile_nil]

/-- Characters of the set are taken when another character or the end follows. -/
theorem scanSet_append {n : Nat} {p : Char → Bool} (hne : t ≠ []) (hlen : t.length ≤ n)
    (hall : ∀ c ∈ t, p c = true) (hs : ∀ c ∈ s.head?, p c = false) : scanSet n p (t ++ s) = some (t, s) := by
  have hend : (s.take (n - t.length)).takeWhile p = [] := by
    cases s with
    | nil => simp
    | cons c s =>
      have hc : p c = false := hs c rfl
      cases n - t.length with
      | zero => rfl
      | succ k => rw [take_succ_cons, takeWhile_cons_of_neg (by simp [hc])]
  have htake : ((t ++ s).take n).takeWhile p = t := by
    rw [take_append, take_of_length_le hlen, takeWhile_append_of_pos hall, hend, append_nil]
  obtain ⟨c, cs, rfl⟩ := exists_cons_of_ne_nil hne
  rw [scanSet, htake]
  simp only [drop_left]

theorem length_of_scanSet {n : Nat} {p : Char → Bool} (h : scanSet n p s = some (t, r)) : r.length ≤ s.length := by
  unfold scanSet at h
  split at h
  · exact absurd h (by simp)
  · rw [Option.some.injEq, Prod.mk.injEq] at h
    rw [← h.2, length_drop]
    omega

/-! ## 2. Numbers in full -/

/-- Digits with a minus sign in front, or without one. -/
def signed (negative : Bool) (digits : List Char) : List Char := if negative then '-' :: digits else digits

/-- The value of a text that is a number. -/
def number? : List Char → Option Int
  | '-' :: digits => if IsDigits digits then some (-Nat.ofDigitChars 10 digits 0) else none
  | digits => if IsDigits digits then some (Nat.ofDigitChars 10 digits 0) else none

theorem exists_of_number? (h : number? s = some n) : ∃ negative digits, s = signed negative digits ∧ IsDigits digits ∧
      n = if negative then -(Nat.ofDigitChars 10 digits 0 : Int) else Nat.ofDigitChars 10 digits 0 := by
  unfold number? at h
  split at h
  · next digits =>
    split at h
    · next hdigits => exact ⟨true, digits, rfl, hdigits, (Option.some.inj h).symm⟩
    · exact absurd h (by simp)
  · split at h
    · next hdigits => exact ⟨false, s, rfl, hdigits, (Option.some.inj h).symm⟩
    · exact absurd h (by simp)

variable {lo hi : Int}

/-- White space in front is passed. -/
theorem scanInt_of_spaces {spaces : List Char} (hspaces : ∀ c ∈ spaces, isSpace c = true) :
    scanInt lo hi (spaces ++ s) = scanInt lo hi s := by
  unfold scanInt
  rw [dropWhile_append_of_pos hspaces]

theorem scanInt_signed {negative : Bool} {digits : List Char} (hdigits : IsDigits digits) (h : NoDigit s) :
    scanInt lo hi (signed negative digits ++ s) =
      some (if negative then max lo (-(Nat.ofDigitChars 10 digits 0 : Int)) else min hi (Nat.ofDigitChars 10 digits 0),
        s) := by
  cases negative with
  | true => exact scanInt_minus hdigits h
  | false => exact scanInt_digits hdigits h

/-- **`%d` reads a number that fits its type**, when no digit follows. -/
theorem scanInt_number (hn : number? t = some n) (hlo : lo ≤ n) (hhi : n ≤ hi) (h : NoDigit s) :
    scanInt lo hi (t ++ s) = some (n, s) := by
  obtain ⟨negative, digits, rfl, hdigits, rfl⟩ := exists_of_number? hn
  rw [scanInt_signed hdigits h]
  cases negative with
  | true => exact congrArg (fun v => some (v, s)) (max_eq_right hlo)
  | false => exact congrArg (fun v => some (v, s)) (min_eq_right hhi)

/-- **A part of a number** is no number, or it is taken for one up to the end; then what is left are digits. -/
theorem scanInt_part {p : List Char} (hn : number? (p ++ r) = some n) : scanInt lo hi p = none ∨
      (∃ v, scanInt lo hi p = some (v, [])) ∧ (∃ c ∈ p.getLast?, c.isDigit = true) ∧ ∀ c ∈ r, c.isDigit = true := by
  obtain ⟨negative, digits, heq, ⟨-, hall⟩, -⟩ := exists_of_number? hn
  -- a nonempty part of the digits, with the sign in front of it
  have hpart (part : List Char) (hne : part ≠ []) (hp : p = signed negative part) (hd : part ++ r = digits) :
      (∃ v, scanInt lo hi p = some (v, [])) ∧ (∃ c ∈ p.getLast?, c.isDigit = true) ∧ ∀ c ∈ r, c.isDigit = true := by
    have hpart : IsDigits part := ⟨hne, fun c hc => hall c (hd ▸ mem_append_left _ hc)⟩
    have hscan := @scanInt_signed [] lo hi negative part hpart noDigit_nil
    rw [append_nil, ← hp] at hscan
    refine ⟨⟨_, hscan⟩, ⟨part.getLast hne, ?_, hpart.2 _ (getLast_mem hne)⟩,
      fun c hc => hall c (hd ▸ mem_append_right _ hc)⟩
    obtain ⟨c, cs, rfl⟩ := exists_cons_of_ne_nil hne
    rw [hp]
    cases negative with
    | true | false => simp [signed, getLast?_eq_some_getLast]
  cases p with
  | nil => exact .inl rfl
  | cons c cs =>
    cases negative with
    | false => exact .inr (hpart (c :: cs) (by simp) rfl heq)
    | true =>
      rw [signed, if_pos rfl, cons_append, cons.injEq] at heq
      obtain ⟨rfl, hd⟩ := heq
      cases cs with
      | nil => exact .inl rfl
      | cons d ds => exact .inr (hpart (d :: ds) (by simp) rfl hd)

/-- A number has only digits and a sign. -/
theorem not_mem_number? (h : number? s = some n) {c : Char} (hc : c.isDigit = false) (hm : c ≠ '-') : c ∉ s := by
  obtain ⟨negative, digits, rfl, ⟨-, hall⟩, -⟩ := exists_of_number? h
  have hnot : c ∉ digits := fun hmem => absurd (hall c hmem) (by simp [hc])
  cases negative with
  | true => exact not_mem_cons_of_ne_of_not_mem hm hnot
  | false => exact hnot

end CText
