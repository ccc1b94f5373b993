/-
# Single RSL values

The job manager parses a value as that of a relation, `x = value` and a newline.  A literal that was printed
comes back (`rslParseValue_literal`).  And there is no newline in a literal if there was none in its text: the
newline at the end is never inside of a literal, because the scanner sees the end of a literal only when
something follows it (`notMem_of_rslParseValue`).
-/
import Gct.Rsl.Eval
import Gct.Rsl.RoundTrip
import Mathlib.Data.List.DropRight

namespace Gct.Rsl

open List Option

/-! ## 1. Parsing and evaluation -/

/-- `globus_gram_job_manager_rsl_parse_value` -/
def rslParseValue (valueString : List Char) : Option Value :=
  match parse ("x = ".toList ++ valueString ++ ['\n']) with
  | some (.relation _ _ (value :: _)) => some value
  | _ => none

/-- `globus_gram_job_manager_rsl_evaluate_value`; a sequence is evaluated, but is no string. -/
def rslEvaluateValue (table : SymbolTable) (value : Value) : Option (Option (List Char)) :=
  match (valueEval false value table).1 with
  | none => none
  | some (.string s) => some (some s)
  | some (.sequence _) => some none

/-! ## 2. A printed literal -/

theorem passes_x {rest : List Char} : Passes .initial [] ['x'] [.string ['x']] .initial [] (' ' :: rest) :=
  passes_token fun s hs => ⟨s, hs, rfl⟩

theorem scan_literal (string : List Char) :
    scan ("x = ".toList ++ unparseStringLiteral string ++ ['\n']) = [.string ['x'], .opEq, .string string] := by
  have hpasses : Passes .initial [] (['x'] ++ ([' '] ++ (['='] ++ ([' '] ++ unparseStringLiteral string))))
      ([.string ['x']] ++ ([] ++ ([.opEq] ++ ([] ++ [.string string])))) .initial [] ['\n'] :=
    passes_x.trans (passes_blank.trans ((passes_relationOp .eq).trans (passes_blank.trans
      (passes_stringLiteral string (by decide)))))
  obtain ⟨s', hs', heq⟩ := hpasses {} ⟨rfl, rfl⟩
  have hstep : scanStep s' ['\n'] = some (none, s', []) := by
    rw [scanStep_calling hs'.start]
    rfl
  have hend : scanner.tokens s' ['\n'] = [] := by
    rw [tokens_of_scanStep hstep]
    exact Lexer.tokens_of_stop rfl
  rw [hend] at heq
  exact heq

/-- **A printed literal comes back.** -/
theorem rslParseValue_literal (string : List Char) :
    rslParseValue (unparseStringLiteral string) = some (.literal string) := by
  have hparse : parse ("x = ".toList ++ unparseStringLiteral string ++ ['\n']) =
      some (.relation .eq ['x'] [.literal string]) := by
    rw [parse, scan_literal]
    rfl
  rw [rslParseValue, hparse]

/-! ## 3. Newlines -/

/-- The input that is left is empty, or there is only the newline at its end and none in the literal that is
being read. -/
def EndsLine (s : ScanState) (input : List Char) : Prop :=
  input = [] ∨ ('\n' ∉ s.quoteText ∧ ∃ text, '\n' ∉ text ∧ input = text ++ ['\n'])

def Token.NoNewline : Token → Prop
  | .string s => '\n' ∉ s
  | _ => True

variable {s s' : ScanState} {input rest : List Char} {c : Char} {t : Option Token}

theorem EndsLine.of_suffix (h : EndsLine s input)
    (hsuffix : rest <:+ input) (htext : rest ≠ [] → '\n' ∉ s.quoteText → '\n' ∉ s'.quoteText) : EndsLine s' rest := by
  rcases h with rfl | ⟨hquote, text, hnot, rfl⟩
  · exact .inl (suffix_nil.mp hsuffix)
  · rcases suffix_concat_iff.mp hsuffix with rfl | ⟨text', rfl, htext'⟩
    · exact .inl rfl
    · refine .inr ⟨htext ?_ hquote, text', fun hmem => hnot (htext'.subset hmem), rfl⟩
      exact append_ne_nil_of_right_ne_nil _ (cons_ne_nil _ _)

/-- A character before the last one is no newline. -/
theorem EndsLine.ne_newline {s : ScanState} {rest : List Char} (h : EndsLine s (c :: rest))
    (hrest : rest ≠ []) : c ≠ '\n' := by
  rcases h with h | ⟨-, text, hnot, h⟩
  · cases h
  · cases text with
    | nil =>
      cases h
      exact absurd rfl hrest
    | cons d text =>
      cases h
      exact fun hc => hnot (hc ▸ mem_cons_self)

theorem ne_newline_of_isLiteralRest (h : isLiteralRest c = true) : c ≠ '\n' := by
  rintro rfl
  exact absurd h (by decide)

/-- An unquoted literal has no newline, and no rule for tokens changes the literal that is being read. -/
theorem noNewline_scanLiteral {calling : CallingState} (hc : isLiteralChar c = true) (h : scanLiteral s calling c input = some (t, s', rest)) :
    (∀ token ∈ t, token.NoNewline) ∧ s'.quoteText = s.quoteText := by
  have htoken : Token.NoNewline (.string (c :: input.takeWhile isLiteralRest)) := by
    intro hmem
    rcases mem_cons.mp hmem with hfirst | hmem
    · exact ne_newline_of_isLiteralRest (Bool.and_eq_true_iff.mp hc).1 hfirst.symm
    · exact ne_newline_of_isLiteralRest (mem_takeWhile_imp hmem) rfl
  unfold scanLiteral at h
  split at h
  · cases h
    exact ⟨fun _ heq => some.inj heq ▸ htoken, rfl⟩
  · cases h
    exact ⟨fun _ heq => some.inj heq ▸ htoken, rfl⟩

theorem noNewline_operatorToken {token : Token}
    (h : operatorToken c = some token ∨ operatorEqToken c = some token) : token.NoNewline := by
  rcases h with h | h
  · unfold operatorToken at h
    split at h <;> cases h <;> trivial
  · unfold operatorEqToken at h
    split at h <;> cases h <;> trivial

theorem noNewline_scanOperator (h : scanOperator s c input = some (t, s', rest)) :
    (∀ token ∈ t, token.NoNewline) ∧ s'.quoteText = s.quoteText := by
  unfold scanOperator at h
  split at h
  · cases h
    exact ⟨fun token htoken => noNewline_operatorToken (.inr htoken), rfl⟩
  · obtain ⟨token, htoken, heq⟩ := map_eq_some_iff.mp h
    cases heq
    exact ⟨fun _ heq => some.inj heq ▸ noNewline_operatorToken (.inl htoken), rfl⟩

theorem quoteText_openParen (s : ScanState) (calling : CallingState) : (s.openParen calling).quoteText = s.quoteText := by
  unfold ScanState.openParen
  split <;> rfl

theorem quoteText_closeParen (s : ScanState) (calling : CallingState) (enjambed : Bool) :
    (s.closeParen calling enjambed).quoteText = s.quoteText := by
  unfold ScanState.closeParen
  repeat' split
  all_goals rfl

theorem noNewline_scanCalling {calling : CallingState} (h : scanCalling s calling c input = some (t, s', rest)) :
    (∀ token ∈ t, token.NoNewline) ∧ (s'.quoteText = s.quoteText ∨ s'.quoteText = []) := by
  unfold scanCalling at h
  by_cases hliteral : isLiteralChar c = true
  · rw [if_pos hliteral] at h
    exact (noNewline_scanLiteral hliteral h).imp_right .inl
  rw [if_neg hliteral] at h
  by_cases hblank : isBlank c = true
  · rw [if_pos hblank] at h
    cases h
    exact ⟨nofun, .inl rfl⟩
  rw [if_neg hblank] at h
  split at h
  · split at h <;> cases h
    · exact ⟨nofun, .inl rfl⟩
    · exact ⟨fun _ heq => some.inj heq ▸ trivial, .inl (quoteText_openParen s calling)⟩
  · cases h
    exact ⟨fun _ heq => some.inj heq ▸ trivial, .inl (quoteText_closeParen s calling _)⟩
  · cases h
    exact ⟨nofun, .inr rfl⟩
  · cases h
    exact ⟨nofun, .inr rfl⟩
  · obtain ⟨delimiter, -, heq⟩ := map_eq_some_iff.mp h
    cases heq
    exact ⟨nofun, .inr rfl⟩
  · cases h
    exact ⟨fun _ heq => some.inj heq ▸ trivial, .inl rfl⟩
  · exact (noNewline_scanOperator h).imp_right .inl

theorem noNewline_scanComment (h : scanComment s c input = some (t, s', rest)) :
    t = none ∧ s'.quoteText = s.quoteText := by
  unfold scanComment at h
  repeat' split at h
  all_goals cases h
  all_goals exact ⟨rfl, rfl⟩

/-- One match of the scanner. -/
theorem EndsLine.step (h : EndsLine s input) (hstep : scanStep s input = some (t, s', rest)) :
    (∀ token ∈ t, token.NoNewline) ∧ EndsLine s' rest := by
  cases input with
  | nil => cases hstep
  | cons c input =>
    have hquote : '\n' ∉ s.quoteText := (h.resolve_left (cons_ne_nil _ _)).1
    have hpass : rest <:+ input → rest <:+ c :: input := fun hs => hs.trans (suffix_cons c input)
    -- a character of a literal is not the newline
    have hmore : input ≠ [] → '\n' ∉ s.quoteText ++ [c] := by
      intro hrest hmem
      rcases mem_append.mp hmem with hmem | hmem
      · exact hquote hmem
      · exact h.ne_newline hrest (mem_singleton.mp hmem).symm
    rw [scanStep] at hstep
    split at hstep
    · obtain ⟨htoken, htext⟩ := noNewline_scanCalling hstep
      refine ⟨htoken, h.of_suffix (hpass (suffix_scanCalling hstep)) fun _ _ => ?_⟩
      rcases htext with htext | htext <;> rw [htext]
      · exact hquote
      · exact not_mem_nil
    · obtain ⟨rfl, htext⟩ := noNewline_scanComment hstep
      exact ⟨by simp, h.of_suffix (hpass (suffix_scanComment hstep)) fun _ _ => htext ▸ hquote⟩
    · split at hstep <;> cases hstep
      · exact ⟨by simp, h.of_suffix (suffix_cons c _) fun _ _ => hquote⟩
      · exact ⟨by simp, h.of_suffix (suffix_cons c _) fun hrest _ => hmore hrest⟩
    · split at hstep <;> cases hstep
      · exact ⟨by simp, h.of_suffix (suffix_cons c _) fun hrest _ => hmore hrest⟩
      · exact ⟨fun _ heq => some.inj heq ▸ hquote, h.of_suffix suffix_rfl fun _ _ => not_mem_nil⟩
    · cases hstep
      exact ⟨fun _ heq => some.inj heq ▸ trivial, h.of_suffix suffix_rfl fun _ _ => hquote⟩

/-- **All tokens of a line.** -/
theorem EndsLine.tokens {fuel : Nat} : ∀ {s : ScanState} {input : List Char}, EndsLine s input →
    ∀ token ∈ scanner.run fuel s input, token.NoNewline := by
  induction fuel with
  | zero => exact fun _ _ h => absurd h not_mem_nil
  | succ fuel ih =>
    intro s input h token htoken
    rw [Lexer.run] at htoken
    split at htoken
    · exact absurd htoken not_mem_nil
    next t s' rest hstep =>
      obtain ⟨ht, hrest⟩ := h.step hstep
      rcases mem_append.mp htoken with hmem | hmem
      · exact ht token (mem_toList.mp hmem)
      · exact ih hrest token hmem

/-- **A literal that was parsed from a line has no newline.** -/
theorem notMem_of_rslParseValue {valueString string : List Char} (hline : '\n' ∉ valueString)
    (h : rslParseValue valueString = some (.literal string)) : '\n' ∉ string := by
  unfold rslParseValue at h
  split at h
  next operator attributeName value values hparse =>
    cases h
    have htokens : scan ("x = ".toList ++ valueString ++ ['\n']) = _ := (parseTokens_iff.mp hparse).eq_tokens
    have hends : EndsLine {} ("x = ".toList ++ valueString ++ ['\n']) := by
      refine .inr ⟨not_mem_nil, _, ?_, rfl⟩
      rw [mem_append, not_or]
      exact ⟨by decide, hline⟩
    have hmem : Token.string string ∈ scan ("x = ".toList ++ valueString ++ ['\n']) := by
      rw [htokens]
      exact .tail _ (.tail _ (.head _))
    exact hends.tokens _ hmem
  · cases h

end Gct.Rsl
