/-
# A DN in quotes

A DN with blanks stands in double quotes, and a double quote or a backslash of it has a backslash in front (`Spells`).
`parse_globusid` counts the backslashes from the left and gives the DN back, but `parse_line` has looked for the closing
quote before that, and takes each quote with a backslash in front for an escaped one.  A DN that ends in a backslash,
written as two, thus swallows its closing quote (`parseLine_quoted_iff`).
-/
import Gct.Gridmap.File

namespace Gct.Gridmap

open List

/-- The spellings of a DN between double quotes. -/
inductive Spells : List Char → List Char → Prop
  | nil : Spells [] []
  | plain {c : Char} {spelling dn : List Char} (hquote : c ≠ '"') (hescape : c ≠ '\\') :
      Spells spelling dn → Spells (c :: spelling) (c :: dn)
  | escaped {c : Char} {spelling dn : List Char} (hc : c = '"' ∨ c = '\\') :
      Spells spelling dn → Spells ('\\' :: c :: spelling) (c :: dn)
  | hex {a b c : Char} {spelling dn : List Char} (ha : CText.isHexDigit a = true) (hb : CText.isHexDigit b = true)
      (hc : c.toNat = 16 * xdigitToValue a + xdigitToValue b) :
      Spells spelling dn → Spells ('\\' :: 'x' :: a :: b :: spelling) (c :: dn)

/-- The DN in the form that `X509_NAME_oneline` gives it: bytes that are not printable are written in hexadecimal. -/
def oneline (dn : List Char) : List Char := dn.flatMap dnChar

variable {spelling dn : List Char}

/-- The unescaping is right. -/
theorem parseGlobusid_append (h : Spells spelling dn) (text : List Char) :
    parseGlobusid false (spelling ++ text) = oneline dn ++ parseGlobusid false text := by
  induction h with
  | nil => rfl
  | plain hquote hescape _ ih =>
    simp only [cons_append, parseGlobusid, oneline, flatMap_cons, append_assoc] at ih ⊢
    rw [if_neg (by simp [escapingChars, hescape]), ih]
  | escaped hc _ ih =>
    rcases hc with rfl | rfl
    · exact congrArg ('"' :: ·) ih
    · exact congrArg ('\\' :: ·) ih
  | @hex a b c spelling dn ha hb hc _ ih =>
    have hstep : parseGlobusid false ('\\' :: 'x' :: a :: b :: (spelling ++ text)) =
        dnChar (Char.ofNat (16 * xdigitToValue a + xdigitToValue b)) ++ parseGlobusid false (spelling ++ text) := by
      show parseGlobusid true _ = _
      rw [parseGlobusid, if_pos ⟨ha, hb⟩]
    rw [cons_append, cons_append, cons_append, cons_append, hstep, ← hc, Char.ofNat_toNat, ih, oneline, oneline,
      flatMap_cons, append_assoc]

/-- The search for the closing quote passes over a spelling that stands behind the character `before`, and over its closing
quote if there is a backslash in front of it. -/
def Passes (rest : List Char) (before : Char) (spelling : List Char) : Prop :=
  closingQuote before (spelling ++ '"' :: rest) = if spelling.getLast?.getD before = '\\' then
      (closingQuote '"' rest).map fun (dn, rest) => (spelling ++ '"' :: dn, rest)
    else some (spelling, rest)

variable {rest : List Char}

theorem Passes.cons {before c : Char} (h : c = '"' → before = '\\') (hpasses : Passes rest c spelling) :
    Passes rest before (c :: spelling) := by
  have hstep : closingQuote before (c :: (spelling ++ '"' :: rest)) =
      (closingQuote c (spelling ++ '"' :: rest)).map fun (dn, rest) => (c :: dn, rest) :=
    if_neg fun ⟨hquote, hescape⟩ => hescape (mem_singleton.mpr (h (mem_singleton.mp hquote)))
  rw [Passes, cons_append, hstep, hpasses]
  simp only [getLast?_cons, Option.getD_some]
  split_ifs
  · rw [Option.map_map]
    rfl
  · rfl

theorem isHexDigit_ne_quote {c : Char} (h : CText.isHexDigit c = true) : c ≠ '"' := by
  rintro rfl
  cases h

theorem Spells.passes (h : Spells spelling dn) (before : Char) : Passes rest before spelling := by
  induction h generalizing before with
  | nil =>
    unfold Passes
    by_cases hbefore : before = '\\'
    · rw [hbefore]
      rfl
    · rw [nil_append, closingQuote, if_pos (by simp [quotingChars, escapingChars, hbefore])]
      simp [hbefore]
  | plain hquote _ _ ih => exact (ih _).cons (absurd · hquote)
  | escaped _ _ ih => exact ((ih _).cons fun _ => rfl).cons (absurd · (by decide))
  | hex ha hb _ _ ih =>
    refine .cons (absurd · (by decide)) (.cons (absurd · (by decide)) ?_)
    exact .cons (absurd · (isHexDigit_ne_quote ha)) (.cons (absurd · (isHexDigit_ne_quote hb)) (ih _))

end Gct.Gridmap
