/-
# The RSL scanner

The scanner has six start conditions.  Two of them read tokens, `INITIAL` and, within variable references,
`VARIABLE`; from these it goes to the others and comes back to the one it came from.  In `VARIABLE`
it counts parentheses, with one counter for each variable reference that is open, to find its end.  A
literal or a variable reference that is followed by another one without a blank makes a concatenation
token.

A quoted literal ends at a quote that is not followed by another one, so it is only found when there is a
character behind it.
-/
import Gct.Lib.Lexer

namespace Gct.Rsl

open List

/-- The tokens of `globus_rsl_parser.y`. -/
inductive Token where
  | string (s : List Char)
  | opMultireq
  | opAnd
  | opOr
  | opEq
  | opNeq
  | opLt
  | opLteq
  | opGt
  | opGteq
  | opConcatenate
  | lparen
  | rparen
  | variableStart
  deriving DecidableEq, Repr

/-- The start conditions in which tokens are read. -/
inductive CallingState where
  | initial
  | variableRef
  deriving DecidableEq, Repr

/-- The start conditions. -/
inductive StartState where
  | calling (state : CallingState)
  | comment
  | quote
  | quoteHitDelim
  | implicitConcatenate
  deriving DecidableEq, Repr

/-- The start condition and `globus_parse_state_t`; the counters of the open variable references are
those of the innermost one first. -/
structure ScanState where
  start : StartState := .calling .initial
  callingState : CallingState := .initial
  quoteDelimiter : Char := Char.ofNat 0
  quoteText : List Char := []
  parenCounts : List Int := []
  deriving DecidableEq, Repr

/-! ## 1. Character classes -/

/-- The characters that cannot be in an unquoted literal. -/
def literalStops : List Char :=
  ['\t', ' ', '\n', '=', '!', '<', '>', '(', ')', '"', '\'', '^', '*', '$', '#', '?', '~']

variable (c : Char)

/-- The characters of `UNQUOTED_LITERAL` behind the first one. -/
def isLiteralRest : Bool := c ∉ literalStops

/-- `UNQUOTED_LITERAL_CHAR` -/
def isLiteralChar : Bool := isLiteralRest c && c ∉ ['+', '&', '|']

/-- `WHITESPACE` -/
def isBlank : Bool := c ∈ [' ', '\t', '\n']

/-! ## 2. The rules -/

namespace ScanState

variable (s : ScanState) (calling : CallingState)

/-- The scanner has found the quote `delimiter`. -/
def openQuote (delimiter : Char) : ScanState :=
  { s with start := .quote, callingState := calling, quoteDelimiter := delimiter, quoteText := [] }

/-- A left parenthesis. -/
def openParen : ScanState :=
  match calling, s.parenCounts with
  | .variableRef, n :: counts => { s with parenCounts := (n + 1) :: counts }
  | _, _ => s

/-- A right parenthesis; `enjambed` says that a literal or a variable follows. -/
def closeParen (enjambed : Bool) : ScanState :=
  match calling, s.parenCounts with
  | .variableRef, n :: counts =>
    if n - 1 = 0 then
      let next := if counts = [] then .initial else .variableRef
      if enjambed then
        { s with start := .implicitConcatenate, callingState := next, parenCounts := counts }
      else { s with start := .calling next, parenCounts := counts }
    else { s with parenCounts := (n - 1) :: counts }
  | _, _ => s

/-- A variable reference begins. -/
def openVariable : ScanState :=
  { s with start := .calling .variableRef, parenCounts := 0 :: s.parenCounts }

end ScanState

/-- What a rule does: the token, the next state and the rest of the input. -/
abbrev Match := Option (Option Token × ScanState × List Char)

/-- `UNQUOTED_LITERAL`, with or without a variable behind it. -/
def scanLiteral (s : ScanState) (calling : CallingState) (c : Char) (input : List Char) : Match :=
  if (input.dropWhile isLiteralRest).head? = some '$' then
    some (some (.string (c :: input.takeWhile isLiteralRest)),
      { s with start := .implicitConcatenate, callingState := calling }, input.dropWhile isLiteralRest)
  else some (some (.string (c :: input.takeWhile isLiteralRest)), s, input.dropWhile isLiteralRest)

/-- The operators of one character. -/
def operatorToken : Option Token :=
  match c with
  | '=' => some .opEq
  | '<' => some .opLt
  | '>' => some .opGt
  | '+' => some .opMultireq
  | '&' => some .opAnd
  | '|' => some .opOr
  | '#' => some .opConcatenate
  | _ => none

/-- The operators of two characters, the second of which is an equals sign. -/
def operatorEqToken : Option Token :=
  match c with
  | '!' => some .opNeq
  | '<' => some .opLteq
  | '>' => some .opGteq
  | _ => none

/-- An operator; the longer one is preferred.  No rule but the last one, which terminates, matches
other characters. -/
def scanOperator (s : ScanState) (c : Char) (input : List Char) : Match :=
  if input.head? = some '=' ∧ (operatorEqToken c).isSome then some (operatorEqToken c, s, input.tail)
  else (operatorToken c).map fun token => (some token, s, input)

/-- The rules of `INITIAL` and `VARIABLE` for input that begins with `c`. -/
def scanCalling (s : ScanState) (calling : CallingState) (c : Char) (input : List Char) : Match :=
  if isLiteralChar c then scanLiteral s calling c input
  else if isBlank c then some (none, s, input.dropWhile isBlank)
  else
    match c with
    | '(' =>
      if input.head? = some '*' then
        some (none, { s with start := .comment, callingState := calling }, input.tail)
      else some (some .lparen, s.openParen calling, input)
    | ')' =>
      some (some .rparen,
        s.closeParen calling (input.head?.any fun d => isLiteralChar d || d = '$'), input)
    | '"' => some (none, s.openQuote calling c, input)
    | '\'' => some (none, s.openQuote calling c, input)
    | '^' => input.head?.map fun delimiter => (none, s.openQuote calling delimiter, input.tail)
    | '$' => some (some .variableStart, s.openVariable, input)
    | c => scanOperator s c input

/-- The rules of `COMMENT`. -/
def scanComment (s : ScanState) (c : Char) (input : List Char) : Match :=
  if c = '*' then
    match input with
    | [] => none
    | d :: rest =>
      if d = ')' then some (none, { s with start := .calling s.callingState }, rest)
      else some (none, s, input)
  else some (none, s, input.dropWhile (· ≠ '*'))

/-- One match of `globus_rsllex`; without one, or at the end of the input, it terminates. -/
def scanStep (s : ScanState) (input : List Char) : Match :=
  match input with
  | [] => none
  | c :: rest =>
    match s.start with
    | .calling calling => scanCalling s calling c rest
    | .comment => scanComment s c rest
    | .quote =>
      if c = s.quoteDelimiter then some (none, { s with start := .quoteHitDelim }, rest)
      else some (none, { s with quoteText := s.quoteText ++ [c] }, rest)
    | .quoteHitDelim =>
      if c = s.quoteDelimiter then
        some (none, { s with start := .quote, quoteText := s.quoteText ++ [c] }, rest)
      else
        -- the character behind the quote is pushed back
        some (some (.string s.quoteText), { s with start := .calling s.callingState, quoteText := [] }, input)
    | .implicitConcatenate => some (some .opConcatenate, { s with start := .calling s.callingState }, input)

/-! ## 3. The scanner comes to an end -/

/-- One for each start condition that looks at a character without passing it. -/
def StartState.pending : StartState → Nat
  | .quoteHitDelim => 1
  | .implicitConcatenate => 1
  | _ => 0

def scanSize (s : ScanState) (input : List Char) : Nat := 2 * input.length + s.start.pending

theorem StartState.pending_le (start : StartState) : start.pending ≤ 1 := by
  cases start <;> simp [pending]

variable {s s' : ScanState} {calling : CallingState} {c : Char} {input rest : List Char} {t : Option Token}

theorem suffix_scanLiteral (h : scanLiteral s calling c input = some (t, s', rest)) : rest <:+ input := by
  unfold scanLiteral at h
  split at h
  · cases h
    exact dropWhile_suffix _
  · cases h
    exact dropWhile_suffix _

theorem suffix_scanOperator (h : scanOperator s c input = some (t, s', rest)) : rest <:+ input := by
  unfold scanOperator at h
  split at h
  · cases h
    exact tail_suffix _
  · obtain ⟨token, -, heq⟩ := Option.map_eq_some_iff.mp h
    cases heq
    exact suffix_rfl

theorem suffix_scanCalling (h : scanCalling s calling c input = some (t, s', rest)) : rest <:+ input := by
  unfold scanCalling at h
  by_cases hliteral : isLiteralChar c = true
  · rw [if_pos hliteral] at h
    exact suffix_scanLiteral h
  rw [if_neg hliteral] at h
  by_cases hblank : isBlank c = true
  · rw [if_pos hblank] at h
    cases h
    exact dropWhile_suffix _
  rw [if_neg hblank] at h
  split at h
  · split at h <;> cases h
    · exact tail_suffix _
    · exact suffix_rfl
  · cases h
    exact suffix_rfl
  · cases h
    exact suffix_rfl
  · cases h
    exact suffix_rfl
  · obtain ⟨delimiter, -, heq⟩ := Option.map_eq_some_iff.mp h
    cases heq
    exact tail_suffix _
  · cases h
    exact suffix_rfl
  · exact suffix_scanOperator h

theorem suffix_scanComment (h : scanComment s c input = some (t, s', rest)) : rest <:+ input := by
  unfold scanComment at h
  repeat' split at h
  all_goals cases h
  · exact suffix_cons _ _
  · exact suffix_rfl
  · exact dropWhile_suffix _

theorem size_scanStep (h : scanStep s input = some (t, s', rest)) : scanSize s' rest < scanSize s input := by
  cases input with
  | nil => cases h
  | cons c input =>
    -- a rule that passes a character may leave one to be looked at
    have hpass : rest <:+ input → scanSize s' rest < scanSize s (c :: input) := by
      intro hsuffix
      have hlen := hsuffix.length_le
      have hpending := s'.start.pending_le
      rw [scanSize, scanSize, length_cons]
      omega
    rw [scanStep] at h
    split at h
    · exact hpass (suffix_scanCalling h)
    · exact hpass (suffix_scanComment h)
    · split at h <;> cases h <;> exact hpass suffix_rfl
    next hstart =>
      split at h
      · cases h
        exact hpass suffix_rfl
      · cases h
        rw [scanSize, scanSize, hstart]
        exact Nat.lt_succ_self _
    next hstart =>
      cases h
      rw [scanSize, scanSize, hstart]
      exact Nat.lt_succ_self _

/-- The scanner. -/
def scanner : Lexer ScanState Char Token := ⟨scanStep, scanSize, size_scanStep⟩

/-- The tokens of a text, up to its end or to a character that belongs to none. -/
def scan (input : List Char) : List Token := scanner.tokens {} input

theorem tokens_of_scanStep (h : scanStep s input = some (t, s', rest)) :
    scanner.tokens s input = t.toList ++ scanner.tokens s' rest :=
  Lexer.tokens_of_step h

theorem scanStep_calling {s : ScanState} (h : s.start = .calling calling) (c : Char)
    (input : List Char) : scanStep s (c :: input) = scanCalling s calling c input := by
  rw [scanStep, h]

theorem scanStep_quote {s : ScanState} (h : s.start = .quote) (c : Char) (input : List Char) : scanStep s (c :: input) =
      if c = s.quoteDelimiter then some (none, { s with start := .quoteHitDelim }, input)
      else some (none, { s with quoteText := s.quoteText ++ [c] }, input) := by
  rw [scanStep, h]

theorem scanStep_quoteHitDelim {s : ScanState} (h : s.start = .quoteHitDelim) (c : Char) (input : List Char) :
    scanStep s (c :: input) = if c = s.quoteDelimiter then
        some (none, { s with start := .quote, quoteText := s.quoteText ++ [c] }, input)
      else
        some (some (.string s.quoteText), { s with start := .calling s.callingState, quoteText := [] }, c :: input) := by
  rw [scanStep, h]

end Gct.Rsl
