/-
# What is printed is parsed

A printed text is cut into pieces: the quoted literals, the operators, the parentheses and the blanks.  From
the state in which it begins tokens, the scanner passes each piece with the tokens of that piece and is
again in such a state (`Passes`).  What stands behind a piece matters: a quoted literal must not be
followed by a quote, nor a left parenthesis by a star, nor the end of a variable reference by a literal.

So the tokens of a printed tree are those that the tree was read from, and the parser reads it again.
-/
import Gct.Rsl.Parser

variable {text : List Char}

namespace Gct.Rsl

open List Spec

/-! ## 1. Pieces -/

/-- The scanner begins a token, with the counters `counts`. -/
structure ScanState.At (s : ScanState) (calling : CallingState) (counts : List Int) : Prop where
  start : s.start = .calling calling
  counts : s.parenCounts = counts

/-- The scanner passes the piece `w` before `rest`, with the tokens `ts`. -/
def Passes (calling : CallingState) (counts : List Int) (w : List Char) (ts : List Token)
    (calling' : CallingState) (counts' : List Int) (rest : List Char) : Prop :=
  ∀ s : ScanState, s.At calling counts →
    ∃ s' : ScanState, s'.At calling' counts' ∧ scanner.tokens s (w ++ rest) = ts ++ scanner.tokens s' rest

variable {calling calling' calling'' : CallingState} {counts counts' counts'' : List Int}
  {w w' rest : List Char} {ts ts' : List Token}

theorem Passes.trans (h : Passes calling counts w ts calling' counts' (w' ++ rest))
    (h' : Passes calling' counts' w' ts' calling'' counts'' rest) :
    Passes calling counts (w ++ w') (ts ++ ts') calling'' counts'' rest := by
  intro s hs
  obtain ⟨s', hs', heq⟩ := h s hs
  obtain ⟨s'', hs'', heq'⟩ := h' s' hs'
  exact ⟨s'', hs'', by rw [append_assoc, heq, heq', append_assoc]⟩

theorem Passes.nil : Passes calling counts [] [] calling counts rest :=
  fun s hs => ⟨s, hs, rfl⟩

/-- A rule that makes a token. -/
theorem passes_token {c : Char} {token : Token} (h : ∀ s : ScanState, s.At calling counts →
      ∃ s' : ScanState, s'.At calling' counts' ∧ scanCalling s calling c (w ++ rest) = some (some token, s', rest)) :
    Passes calling counts (c :: w) [token] calling' counts' rest := by
  intro s hs
  obtain ⟨s', hs', hstep⟩ := h s hs
  rw [← scanStep_calling hs.start] at hstep
  exact ⟨s', hs', tokens_of_scanStep hstep⟩

/-- Blanks are passed over, however many. -/
theorem passes_blank : Passes calling counts [' '] [] calling counts rest := by
  intro s hs
  have hdrop : ∀ c input, isBlank c = true →
      scanner.tokens s (c :: input) = scanner.tokens s (input.dropWhile isBlank) := by
    intro c input hc
    have hliteral : isLiteralChar c = false := by
      simp only [isBlank, mem_cons, not_mem_nil, or_false, decide_eq_true_eq] at hc
      rcases hc with rfl | rfl | rfl <;> decide
    have hstep : scanStep s (c :: input) = some (none, s, input.dropWhile isBlank) := by
      rw [scanStep_calling hs.start]
      simp only [scanCalling, hliteral, hc, if_true, Bool.false_eq_true, if_false]
    rw [tokens_of_scanStep hstep]
    rfl
  refine ⟨s, hs, ?_⟩
  rw [singleton_append, hdrop ' ' rest (by decide)]
  cases rest with
  | nil => rfl
  | cons c rest =>
    by_cases hc : isBlank c = true
    · rw [dropWhile_cons_of_pos hc, nil_append, hdrop c rest hc]
    · rw [dropWhile_cons_of_neg hc]
      rfl

/-! ## 2. Quoted literals -/

/-- The scanner is in a literal, of which it has read `text`. -/
structure ScanState.InQuote (s : ScanState) (calling : CallingState) (counts : List Int) (text : List Char) :
    Prop where
  start : s.start = .quote
  callingState : s.callingState = calling
  delimiter : s.quoteDelimiter = '"'
  text : s.quoteText = text
  counts : s.parenCounts = counts

variable {s : ScanState} {d : Char}

/-- The end of a literal. -/
theorem tokens_endQuote (h : s.InQuote calling counts text) (hd : d ≠ '"') (rest : List Char) :
    ∃ s' : ScanState, s'.At calling counts ∧
      scanner.tokens s ('"' :: d :: rest) = .string text :: scanner.tokens s' (d :: rest) := by
  have hquote := scanStep_quote h.start '"' (d :: rest)
  rw [if_pos h.delimiter.symm] at hquote
  have hbehind := @scanStep_quoteHitDelim { s with start := .quoteHitDelim } rfl d rest
  rw [if_neg (h.delimiter ▸ hd)] at hbehind
  refine ⟨{ s with start := .calling s.callingState, quoteText := [] }, ⟨congrArg _ h.callingState, h.counts⟩, ?_⟩
  rw [tokens_of_scanStep hquote, tokens_of_scanStep hbehind, h.text]
  rfl

/-- One character of a literal, which is there twice if it is a quote. -/
theorem tokens_quoteChar (h : s.InQuote calling counts text) (c : Char) (string rest : List Char) :
    ∃ s' : ScanState, s'.InQuote calling counts (text ++ [c]) ∧
      scanner.tokens s (doubleQuotes (c :: string) ++ rest) = scanner.tokens s' (doubleQuotes string ++ rest) := by
  by_cases hc : c = '"'
  · have hfirst := scanStep_quote h.start c (c :: (doubleQuotes string ++ rest))
    rw [if_pos (hc.trans h.delimiter.symm)] at hfirst
    have hsecond := @scanStep_quoteHitDelim { s with start := .quoteHitDelim } rfl c (doubleQuotes string ++ rest)
    rw [if_pos (hc.trans h.delimiter.symm)] at hsecond
    refine ⟨{ s with start := .quote, quoteText := s.quoteText ++ [c] },
      ⟨rfl, h.callingState, h.delimiter, congrArg (· ++ [c]) h.text, h.counts⟩, ?_⟩
    rw [doubleQuotes, if_pos hc, ← hc, cons_append, cons_append, tokens_of_scanStep hfirst, tokens_of_scanStep hsecond]
    rfl
  · have hstep := scanStep_quote h.start c (doubleQuotes string ++ rest)
    rw [if_neg (h.delimiter ▸ hc)] at hstep
    refine ⟨{ s with quoteText := s.quoteText ++ [c] },
      ⟨h.start, h.callingState, h.delimiter, congrArg (· ++ [c]) h.text, h.counts⟩, ?_⟩
    rw [doubleQuotes, if_neg hc, cons_append, tokens_of_scanStep hstep]
    rfl

theorem tokens_inQuote (hd : d ≠ '"') (rest string : List Char) :
    ∀ {s : ScanState} {text : List Char}, s.InQuote calling counts text → ∃ s' : ScanState, s'.At calling counts ∧
        scanner.tokens s (doubleQuotes string ++ '"' :: d :: rest) =
          .string (text ++ string) :: scanner.tokens s' (d :: rest) := by
  induction string with
  | nil =>
    intro s text h
    rw [append_nil]
    exact tokens_endQuote h hd rest
  | cons c string ih =>
    intro s text h
    obtain ⟨s', hs', hfirst⟩ := tokens_quoteChar h c string ('"' :: d :: rest)
    obtain ⟨s'', hs'', hrest⟩ := ih hs'
    refine ⟨s'', hs'', ?_⟩
    rw [hfirst, hrest, append_assoc, singleton_append]

/-- **A quoted literal is one token**, whatever is in it, if there is something behind it that is not a
quote. -/
theorem passes_stringLiteral (string : List Char) (hd : d ≠ '"') :
    Passes calling counts (unparseStringLiteral string) [.string string] calling counts (d :: rest) := by
  intro s hs
  have hopen : scanStep s ('"' :: (doubleQuotes string ++ '"' :: d :: rest)) =
      some (none, s.openQuote calling '"', doubleQuotes string ++ '"' :: d :: rest) := by
    rw [scanStep_calling hs.start]
    rfl
  have hquote : (s.openQuote calling '"').InQuote calling counts [] := ⟨rfl, rfl, rfl, rfl, hs.counts⟩
  obtain ⟨s', hs', heq⟩ := tokens_inQuote hd rest string hquote
  have htext : unparseStringLiteral string ++ d :: rest =
      '"' :: (doubleQuotes string ++ '"' :: d :: rest) := by simp [unparseStringLiteral]
  refine ⟨s', hs', ?_⟩
  rw [htext, tokens_of_scanStep hopen, heq]
  rfl

/-! ## 3. Parentheses and operators -/

theorem passes_lparen (h : rest.head? ≠ some '*') : Passes .initial counts ['('] [.lparen] .initial counts rest := by
  refine passes_token fun s hs => ⟨s, hs, ?_⟩
  exact if_neg h

theorem passes_rparen : Passes .initial counts [')'] [.rparen] .initial counts rest :=
  passes_token fun s hs => ⟨s, hs, rfl⟩

theorem passes_concatenate : Passes calling counts ['#'] [.opConcatenate] calling counts (' ' :: rest) :=
  passes_token fun s hs => ⟨s, hs, rfl⟩

/-- An operator that is not the beginning of another one. -/
theorem scanOperator_of_none {c : Char} {input : List Char} (h : operatorEqToken c = none) :
    scanOperator s c input = (operatorToken c).map fun token => (some token, s, input) := by
  rw [scanOperator, h]
  exact if_neg fun hlong => absurd hlong.2 (by decide)

theorem passes_booleanOp (operator : BooleanOp) :
    Passes calling counts operator.unparse [operator.token] calling counts rest := by
  cases operator <;> exact passes_token fun s hs => ⟨s, hs, scanOperator_of_none rfl⟩

theorem passes_relationOp (operator : RelationOp) :
    Passes calling counts operator.unparse [operator.token] calling counts (' ' :: rest) := by
  cases operator <;> exact passes_token fun s hs => ⟨s, hs, rfl⟩

/-! ## 4. Variable references -/

theorem passes_variableStart : Passes .initial counts ['$'] [.variableStart] .variableRef (0 :: counts) rest :=
  passes_token fun s hs => ⟨s.openVariable, ⟨rfl, congrArg (0 :: ·) hs.counts⟩, rfl⟩

theorem passes_variableLparen {n : Int} (h : rest.head? ≠ some '*') :
    Passes .variableRef (n :: counts) ['('] [.lparen] .variableRef ((n + 1) :: counts) rest := by
  refine passes_token fun s hs => ⟨s.openParen .variableRef, ?_, if_neg h⟩
  have hopen : s.openParen .variableRef = { s with parenCounts := (n + 1) :: counts } := by
    simp only [ScanState.openParen, hs.counts]
  rw [hopen]
  exact ⟨hs.start, rfl⟩

/-- The last parenthesis of a variable reference that is followed by a blank. -/
theorem passes_variableRparen : Passes .variableRef [1] [')'] [.rparen] .initial [] (' ' :: rest) := by
  refine passes_token fun s hs => ⟨s.closeParen .variableRef false, ?_, rfl⟩
  have hclose : s.closeParen .variableRef false = { s with start := .calling .initial, parenCounts := [] } := by
    simp only [ScanState.closeParen, hs.counts]
    rfl
  rw [hclose]
  exact ⟨rfl, rfl⟩

/-- The tokens of a variable reference. -/
def variableTokens (name : List Char) (default : Option (List Char)) : List Token :=
  .variableStart :: .lparen :: .string name :: (default.toList.map .string ++ [.rparen])

theorem passes_variable (name : List Char) (default : Option (List Char)) :
    Passes .initial [] (unparseVariable name default) (variableTokens name default) .initial [] (' ' :: rest) := by
  have hopen : ∀ {rest : List Char}, rest.head? ≠ some '*' →
      Passes .initial [] ['$', '('] [.variableStart, .lparen] .variableRef [1] rest :=
    fun h => passes_variableStart.trans (passes_variableLparen h)
  have hclose : Passes .variableRef [1] [')'] [.rparen] .initial [] (' ' :: rest) := passes_variableRparen
  cases default with
  | none =>
    have h := (hopen (by simp [unparseStringLiteral])).trans ((passes_stringLiteral name (by decide)).trans hclose)
    simpa [unparseVariable, variableTokens] using h
  | some default =>
    have hdefault := passes_blank.trans ((passes_stringLiteral default (by decide)).trans hclose)
    have h := (hopen (by simp [unparseStringLiteral])).trans ((passes_stringLiteral name (by decide)).trans hdefault)
    simpa [unparseVariable, variableTokens] using h

/-! ## 5. Trees -/

mutual

/-- Every variable reference has a literal name, and at most a literal default. -/
def Value.PlainVariables : Value → Prop
  | .literal _ => True
  | .sequence values => Value.AllPlainVariables values
  | .variableRef values =>
    ∃ (name : List Char) (default : Option (List Char)),
      values = .literal name :: default.toList.map .literal
  | .concatenation leftValue rightValue => leftValue.PlainVariables ∧ rightValue.PlainVariables

def Value.AllPlainVariables : List Value → Prop
  | [] => True
  | value :: values => value.PlainVariables ∧ Value.AllPlainVariables values

end

mutual

def Spec.PlainVariables : Spec → Prop
  | .boolean _ operands => Spec.AllPlainVariables operands
  | .relation _ _ values => Value.AllPlainVariables values

def Spec.AllPlainVariables : List Spec → Prop
  | [] => True
  | operand :: operands => operand.PlainVariables ∧ Spec.AllPlainVariables operands

end

/-- A text that makes no comment of a parenthesis before it. -/
def NoStar (text : List Char) : Prop := ∃ c t, text = c :: t ∧ c ≠ '*'

theorem NoStar.append (h : NoStar text) (t : List Char) : NoStar (text ++ t) := by
  obtain ⟨c, text, rfl, hc⟩ := h
  exact ⟨c, _, rfl, hc⟩

theorem NoStar.head (h : NoStar text) : text.head? ≠ some '*' := by
  obtain ⟨c, text, rfl, hc⟩ := h
  simpa using hc

/-- The same for text that may be empty, before the parenthesis that ends it. -/
theorem head_of_empty_or_noStar (h : text = [] ∨ NoStar text) (t : List Char) :
    (text ++ [')'] ++ t).head? ≠ some '*' := by
  rcases h with rfl | h
  · simp
  · rw [append_assoc]
    exact (h.append _).head

/-- The tree is printed as `text`, and the scanner passes it with the tokens of the tree. -/
structure Prints (unparsed : Option (List Char)) (ts : List Token) (rest : List Char) (text : List Char) :
    Prop where
  printed : unparsed = some text
  passes : Passes .initial [] text ts .initial [] rest

theorem prints_variable {name : List Char} {default : Option (List Char)} {values : List Value}
    (h : values = .literal name :: default.toList.map .literal) :
    Prints (Value.variableRef values).unparse (Value.variableRef values).tokens (' ' :: rest)
      (unparseVariable name default) := by
  subst h
  cases default with
  | none => exact ⟨rfl, passes_variable name none⟩
  | some default => exact ⟨rfl, passes_variable name (some default)⟩

mutual

theorem Value.prints (rest : List Char) : ∀ value : Value, value.PlainVariables →
    ∃ text, NoStar text ∧ Prints value.unparse value.tokens (' ' :: rest) text
  | .literal string, _ =>
    ⟨unparseStringLiteral string, ⟨'"', _, rfl, by decide⟩, rfl, passes_stringLiteral string (by decide)⟩
  | .sequence values, h => by
    obtain ⟨text, hhead, hprinted, hpasses⟩ := Value.printsAll (')' :: ' ' :: rest) values h
    refine ⟨'(' :: (text ++ [')']), ⟨'(', _, rfl, by decide⟩, ?_, ?_⟩
    · rw [Value.unparse, hprinted]
      rfl
    · exact (passes_lparen (head_of_empty_or_noStar hhead _)).trans (hpasses.trans passes_rparen)
  | .variableRef values, ⟨name, default, h⟩ =>
    ⟨unparseVariable name default, ⟨'$', _, rfl, by decide⟩, prints_variable h⟩
  | .concatenation leftValue rightValue, h => by
    obtain ⟨rightText, -, hright⟩ := Value.prints rest rightValue h.2
    obtain ⟨leftText, hhead, hleft⟩ := Value.prints ('#' :: ' ' :: rightText ++ ' ' :: rest) leftValue h.1
    refine ⟨leftText ++ ' ' :: '#' :: ' ' :: rightText, hhead.append _, ?_, ?_⟩
    · rw [Value.unparse, hleft.printed, hright.printed]
    · exact hleft.passes.trans (passes_blank.trans (passes_concatenate.trans (passes_blank.trans hright.passes)))

theorem Value.printsAll (rest : List Char) : ∀ values : List Value, Value.AllPlainVariables values →
    ∃ text, (text = [] ∨ NoStar text) ∧ Prints (Value.unparseAll values) (Value.tokensAll values) rest text
  | [], _ => ⟨[], .inl rfl, rfl, Passes.nil⟩
  | value :: values, h => by
    obtain ⟨restText, -, hrest⟩ := Value.printsAll rest values h.2
    obtain ⟨text, hhead, htext⟩ := Value.prints (restText ++ rest) value h.1
    refine ⟨text ++ ' ' :: restText, .inr (hhead.append _), ?_, ?_⟩
    · rw [Value.unparseAll, htext.printed, hrest.printed]
    · exact htext.passes.trans (passes_blank.trans hrest.passes)

end

mutual

theorem Spec.prints (rest : List Char) : ∀ spec : Spec, spec.PlainVariables →
    ∃ text, NoStar text ∧ Prints spec.unparse spec.tokens rest text
  | .boolean operator operands, h => by
    obtain ⟨text, hprinted, hpasses⟩ := Spec.printsAll rest operands h
    refine ⟨operator.unparse ++ text, ?_, ?_, ?_⟩
    · cases operator <;> exact ⟨_, _, rfl, by decide⟩
    · rw [Spec.unparse, hprinted]
      rfl
    · exact (passes_booleanOp operator).trans hpasses
  | .relation operator attributeName values, h => by
    obtain ⟨text, -, hprinted, hpasses⟩ := Value.printsAll rest values h
    refine ⟨unparseStringLiteral attributeName ++ ' ' :: (operator.unparse ++ ' ' :: text),
      ⟨'"', _, rfl, by decide⟩, ?_, ?_⟩
    · rw [unparse, hprinted]
      rfl
    · exact (passes_stringLiteral attributeName (by decide)).trans
        (passes_blank.trans ((passes_relationOp operator).trans (passes_blank.trans hpasses)))

theorem Spec.printsAll (rest : List Char) : ∀ specs : List Spec, Spec.AllPlainVariables specs →
    ∃ text, Prints (unparseAll specs) (tokensAll specs) rest text
  | [], _ => ⟨[], rfl, Passes.nil⟩
  | spec :: specs, h => by
    obtain ⟨restText, hrest⟩ := printsAll rest specs h.2
    obtain ⟨text, hhead, htext⟩ := prints (')' :: (restText ++ rest)) spec h.1
    refine ⟨'(' :: (text ++ ')' :: restText), ?_, ?_⟩
    · rw [unparseAll, htext.printed, hrest.printed]
    · exact (passes_lparen (NoStar.append (hhead.append _) _).head).trans
        (htext.passes.trans (passes_rparen.trans hrest.passes))

end

/-- **The tokens of a printed tree are those of the tree.** -/
theorem scan_unparse {spec : Spec} (h : spec.PlainVariables) :
    ∃ text, spec.unparse = some text ∧ scan text = spec.tokens := by
  obtain ⟨text, -, hprinted, hpasses⟩ := prints [] spec h
  obtain ⟨s', -, heq⟩ := hpasses {} ⟨rfl, rfl⟩
  refine ⟨text, hprinted, ?_⟩
  have hend : scanner.tokens s' [] = [] := Lexer.tokens_of_stop rfl
  rw [append_nil, hend, append_nil] at heq
  exact heq

/-- **Print and parse**: a tree that was parsed is printed as a text that is parsed as the same tree. -/
theorem parse_unparse {buf : List Char} {spec : Spec} (hparse : parse buf = some spec)
    (hvariables : spec.PlainVariables) :
    ∃ text, spec.unparse = some text ∧ parse text = some spec := by
  obtain ⟨text, hprinted, hscan⟩ := scan_unparse hvariables
  have htokens : scan buf = spec.tokens := (parseTokens_iff.mp hparse).eq_tokens
  refine ⟨text, hprinted, ?_⟩
  rw [parse, hscan, ← htokens]
  exact hparse

/-- A literal with a quote in it, and a concatenation without blanks. -/
theorem parse_unparse_concatenation : ∃ text, (boolean .and [.relation .eq ['a']
        [.concatenation (.literal ['x', '"', 'y']) (.variableRef [.literal ['V']])]]).unparse = some text ∧
      parse text = some (Spec.boolean .and [.relation .eq ['a']
        [.concatenation (.literal ['x', '"', 'y']) (.variableRef [.literal ['V']])]]) := by
  have hscan : scan "&(a=^.x\"y.#$(V))".toList =
      [.opAnd, .lparen, .string ['a'], .opEq, .string ['x', '"', 'y'], .opConcatenate, .variableStart,
        .lparen, .string ['V'], .rparen, .rparen] := by
    decide +kernel
  have hparse : parse "&(a=^.x\"y.#$(V))".toList = some (boolean .and [.relation .eq ['a']
      [.concatenation (.literal ['x', '"', 'y']) (.variableRef [.literal ['V']])]]) := by
    rw [parse, hscan]
    rfl
  exact parse_unparse hparse ⟨⟨⟨trivial, ['V'], none, rfl⟩, trivial⟩, trivial⟩

end Gct.Rsl
