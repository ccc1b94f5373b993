/-
# The RSL grammar and its parser

The rules of `globus_rsl_parser.y` are the constructors of four relations between token lists and trees.
The grammar allows a concatenation to be read from the left or from the right.  The generated parser
shifts in that conflict, so the operand on the left is never a concatenation.

The parser reads the same language (`parseTokens_iff`), and reads every token list in one way only: its
tokens are those of the tree (`Specification.eq_tokens`).
-/
import Gct.Rsl.Syntax
import Gct.Rsl.Scanner

namespace Gct.Rsl

open List Spec

/-- The token of `prefix_operator`. -/
def BooleanOp.token : BooleanOp → Token
  | .multireq => .opMultireq
  | .and => .opAnd
  | .or => .opOr

/-- The token of `infix_operator`. -/
def RelationOp.token : RelationOp → Token
  | .eq => .opEq
  | .neq => .opNeq
  | .gt => .opGt
  | .gteq => .opGteq
  | .lt => .opLt
  | .lteq => .opLteq

/-! ## 1. The grammar -/

mutual

/-- A `simple_value` that is not a concatenation. -/
inductive Operand : List Token → Value → Prop
  | literalString (s : List Char) : Operand [.string s] (.literal s)
  | variableRef {ts : List Token} {values : List Value} :
      ValueList ts values → Operand (.variableStart :: .lparen :: (ts ++ [.rparen])) (.variableRef values)

/-- `simple_value` -/
inductive SimpleValue : List Token → Value → Prop
  | operand {ts : List Token} {value : Value} : Operand ts value → SimpleValue ts value
  | concatenate {ts ts' : List Token} {leftValue rightValue : Value} :
      Operand ts leftValue → SimpleValue ts' rightValue →
      SimpleValue (ts ++ .opConcatenate :: ts') (.concatenation leftValue rightValue)

/-- `value` -/
inductive IsValue : List Token → Value → Prop
  | sequence {ts : List Token} {values : List Value} :
      ValueList ts values → IsValue (.lparen :: (ts ++ [.rparen])) (.sequence values)
  | simpleValue {ts : List Token} {value : Value} : SimpleValue ts value → IsValue ts value

/-- `value_list`, which is all of a `sequence` -/
inductive ValueList : List Token → List Value → Prop
  | cons {ts ts' : List Token} {value : Value} {values : List Value} :
      IsValue ts value → ValueList ts' values → ValueList (ts ++ ts') (value :: values)
  | one {ts : List Token} {value : Value} : IsValue ts value → ValueList ts [value]

end

mutual

/-- `specification` -/
inductive Specification : List Token → Spec → Prop
  | boolean {ts : List Token} {specs : List Spec} (operator : BooleanOp) :
      SpecList ts specs → Specification (operator.token :: ts) (.boolean operator specs)
  | request {ts : List Token} {values : List Value} (operator : RelationOp) (attributeName : List Char) :
      ValueList ts values →
      Specification (.string attributeName :: operator.token :: ts) (.relation operator attributeName values)

/-- `spec_list` -/
inductive SpecList : List Token → List Spec → Prop
  | cons {ts ts' : List Token} {spec : Spec} {specs : List Spec} :
      Specification ts spec → SpecList ts' specs →
      SpecList (.lparen :: (ts ++ .rparen :: ts')) (spec :: specs)
  | one {ts : List Token} {spec : Spec} : Specification ts spec → SpecList (.lparen :: (ts ++ [.rparen])) [spec]

end

/-! ## 2. The parser -/

/-- A token with which a value begins. -/
def Token.startsValue : Token → Bool
  | .string _ => true
  | .lparen => true
  | .variableStart => true
  | _ => false

mutual

/-- An operand, and with the next concatenation token another `simple_value`. -/
def parseSimpleValue : Nat → List Token → Option (Value × List Token)
  | fuel + 1, .string s :: ts => parseConcatenation fuel (.literal s) ts
  | fuel + 1, .variableStart :: .lparen :: ts =>
    match parseValueList fuel ts with
    | some (values, .rparen :: ts) => parseConcatenation fuel (.variableRef values) ts
    | _ => none
  | _, _ => none

/-- What is behind an operand. -/
def parseConcatenation : Nat → Value → List Token → Option (Value × List Token)
  | fuel + 1, leftValue, .opConcatenate :: ts =>
    match parseSimpleValue fuel ts with
    | some (rightValue, ts) => some (.concatenation leftValue rightValue, ts)
    | none => none
  | _, leftValue, ts => some (leftValue, ts)

def parseValue : Nat → List Token → Option (Value × List Token)
  | fuel + 1, .lparen :: ts =>
    match parseValueList fuel ts with
    | some (values, .rparen :: ts) => some (.sequence values, ts)
    | _ => none
  | fuel + 1, ts => parseSimpleValue fuel ts
  | _, _ => none

def parseValueList : Nat → List Token → Option (List Value × List Token)
  | fuel + 1, ts =>
    match parseValue fuel ts with
    | some (value, t :: ts) =>
      if t.startsValue then
        match parseValueList fuel (t :: ts) with
        | some (values, ts) => some (value :: values, ts)
        | none => none
      else some ([value], t :: ts)
    | some (value, []) => some ([value], [])
    | none => none
  | _, _ => none

end

def prefixOperator : Token → Option BooleanOp
  | .opMultireq => some .multireq
  | .opAnd => some .and
  | .opOr => some .or
  | _ => none

def infixOperator : Token → Option RelationOp
  | .opEq => some .eq
  | .opNeq => some .neq
  | .opGt => some .gt
  | .opGteq => some .gteq
  | .opLt => some .lt
  | .opLteq => some .lteq
  | _ => none

mutual

def parseSpecification : Nat → List Token → Option (Spec × List Token)
  | fuel + 1, .string attributeName :: t :: ts =>
    match infixOperator t, parseValueList fuel ts with
    | some operator, some (values, ts) => some (.relation operator attributeName values, ts)
    | _, _ => none
  | fuel + 1, t :: ts =>
    match prefixOperator t, parseSpecList fuel ts with
    | some operator, some (specs, ts) => some (.boolean operator specs, ts)
    | _, _ => none
  | _, _ => none

def parseSpecList : Nat → List Token → Option (List Spec × List Token)
  | fuel + 1, .lparen :: ts =>
    match parseSpecification fuel ts with
    | some (spec, .rparen :: .lparen :: ts) =>
      match parseSpecList fuel (.lparen :: ts) with
      | some (specs, ts) => some (spec :: specs, ts)
      | none => none
    | some (spec, .rparen :: ts) => some ([spec], ts)
    | _ => none
  | _, _ => none

end

/-- `yyparse`: the tree, if all tokens have been read. -/
def parseTokens (ts : List Token) : Option Spec :=
  match parseSpecification (4 * ts.length) ts with
  | some (spec, []) => some spec
  | _ => none

/-- `globus_rsl_parse` -/
def parse (buf : List Char) : Option Spec := parseTokens (scan buf)

/-! ## 3. What is read is in the grammar -/

/-- Whatever the parser `p` reads has the shape `P`. -/
def Sound {α : Type} (P : List Token → α → Prop) (p : List Token → Option (α × List Token)) : Prop :=
  ∀ {ts a rest}, p ts = some (a, rest) → ∃ us, P us a ∧ ts = us ++ rest

/-- The parser behind an operand reads the rest of a `simple_value`. -/
def SoundBehind (p : Value → List Token → Option (Value × List Token)) : Prop :=
  ∀ {us leftValue ts value rest}, Operand us leftValue → p leftValue ts = some (value, rest) →
    ∃ vs, SimpleValue (us ++ vs) value ∧ ts = vs ++ rest

variable {fuel : Nat} {t : Token} {ts : List Token}

theorem sound_simpleValue (hbehind : SoundBehind (parseConcatenation fuel))
    (hlist : Sound ValueList (parseValueList fuel)) : Sound SimpleValue (parseSimpleValue (fuel + 1)) := by
  intro ts value rest h
  unfold parseSimpleValue at h
  split at h
  next heq =>
    cases heq
    obtain ⟨vs, hvs, rfl⟩ := hbehind (.literalString _) h
    exact ⟨_, hvs, rfl⟩
  next heq =>
    cases heq
    split at h
    next hvalues =>
      obtain ⟨us, hus, rfl⟩ := hlist hvalues
      obtain ⟨vs, hvs, rfl⟩ := hbehind (.variableRef hus) h
      exact ⟨_, hvs, by simp⟩
    · cases h
  · cases h

theorem sound_concatenation (hsimple : Sound SimpleValue (parseSimpleValue fuel)) :
    SoundBehind (parseConcatenation (fuel + 1)) := by
  intro us leftValue ts value rest hleft h
  unfold parseConcatenation at h
  split at h
  next heq =>
    cases heq
    split at h
    next hright =>
      cases h
      obtain ⟨vs, hvs, rfl⟩ := hsimple hright
      exact ⟨_, .concatenate hleft hvs, rfl⟩
    · cases h
  · cases h
    exact ⟨[], by simpa using SimpleValue.operand hleft, rfl⟩

theorem sound_value (hlist : Sound ValueList (parseValueList fuel))
    (hsimple : Sound SimpleValue (parseSimpleValue fuel)) : Sound IsValue (parseValue (fuel + 1)) := by
  intro ts value rest h
  unfold parseValue at h
  split at h
  next heq =>
    cases heq
    split at h
    next hvalues =>
      cases h
      obtain ⟨us, hus, rfl⟩ := hlist hvalues
      exact ⟨_, .sequence hus, by simp⟩
    · cases h
  next hfuel _ =>
    cases hfuel
    obtain ⟨us, hus, rfl⟩ := hsimple h
    exact ⟨_, .simpleValue hus, rfl⟩
  · cases h

theorem sound_valueList (hvalue : Sound IsValue (parseValue fuel))
    (hlist : Sound ValueList (parseValueList fuel)) : Sound ValueList (parseValueList (fuel + 1)) := by
  intro ts values rest h
  rw [parseValueList] at h
  split at h
  next hfirst =>
    obtain ⟨us, hus, rfl⟩ := hvalue hfirst
    split at h
    · split at h
      next hvalues =>
        cases h
        obtain ⟨vs, hvs, hts⟩ := hlist hvalues
        exact ⟨_, .cons hus hvs, by rw [hts, append_assoc]⟩
      · cases h
    · cases h
      exact ⟨_, .one hus, rfl⟩
  next hfirst =>
    cases h
    obtain ⟨us, hus, rfl⟩ := hvalue hfirst
    exact ⟨_, .one hus, rfl⟩
  · cases h

/-- The four parsers of values, at once. -/
theorem sound_values (fuel : Nat) : Sound SimpleValue (parseSimpleValue fuel) ∧ SoundBehind (parseConcatenation fuel) ∧
      Sound IsValue (parseValue fuel) ∧ Sound ValueList (parseValueList fuel) := by
  induction fuel with
  | zero =>
    refine ⟨nofun, ?_, nofun, nofun⟩
    intro us leftValue ts value rest hleft h
    cases h
    exact ⟨[], by simpa using SimpleValue.operand hleft, rfl⟩
  | succ fuel ih =>
    obtain ⟨hsimple, hbehind, hvalue, hlist⟩ := ih
    exact ⟨sound_simpleValue hbehind hlist, sound_concatenation hsimple, sound_value hlist hsimple,
      sound_valueList hvalue hlist⟩

theorem token_of_prefixOperator {operator : BooleanOp} (h : prefixOperator t = some operator) : t = operator.token := by
  cases t <;> cases h <;> rfl

theorem token_of_infixOperator {operator : RelationOp} (h : infixOperator t = some operator) : t = operator.token := by
  cases t <;> cases h <;> rfl

theorem sound_specification (hlist : Sound SpecList (parseSpecList fuel)) :
    Sound Specification (parseSpecification (fuel + 1)) := by
  intro ts spec rest h
  unfold parseSpecification at h
  split at h
  next heq =>
    cases heq
    split at h
    next hoperator hvalues =>
      cases h
      obtain ⟨us, hus, rfl⟩ := (sound_values fuel).2.2.2 hvalues
      rw [token_of_infixOperator hoperator]
      exact ⟨_, .request _ _ hus, rfl⟩
    · cases h
  next heq =>
    cases heq
    split at h
    next hoperator hspecs =>
      cases h
      obtain ⟨us, hus, rfl⟩ := hlist hspecs
      rw [token_of_prefixOperator hoperator]
      exact ⟨_, .boolean _ hus, rfl⟩
    · cases h
  · cases h

theorem sound_specList (hspec : Sound Specification (parseSpecification fuel))
    (hlist : Sound SpecList (parseSpecList fuel)) : Sound SpecList (parseSpecList (fuel + 1)) := by
  intro ts specs rest h
  unfold parseSpecList at h
  split at h
  next heq =>
    cases heq
    split at h
    next hfirst =>
      obtain ⟨us, hus, rfl⟩ := hspec hfirst
      split at h
      next hspecs =>
        cases h
        obtain ⟨vs, hvs, hts⟩ := hlist hspecs
        exact ⟨_, .cons hus hvs, by rw [hts]; simp⟩
      · cases h
    next hfirst =>
      cases h
      obtain ⟨us, hus, rfl⟩ := hspec hfirst
      exact ⟨_, .one hus, by simp⟩
    · cases h
  · cases h

theorem sound_specs (fuel : Nat) :
    Sound Specification (parseSpecification fuel) ∧ Sound SpecList (parseSpecList fuel) := by
  induction fuel with
  | zero => exact ⟨nofun, nofun⟩
  | succ fuel ih => exact ⟨sound_specification ih.2, sound_specList ih.1 ih.2⟩

/-! ## 4. What is in the grammar is read -/

theorem parseConcatenation_of_ne {rest : List Token} (h : rest.head? ≠ some .opConcatenate) (fuel : Nat)
    (value : Value) : parseConcatenation fuel value rest = some (value, rest) := by
  unfold parseConcatenation
  split
  · exact absurd rfl h
  · rfl

variable {value : Value} {ts : List Token}

theorem Operand.starts (h : Operand ts value) : ∃ t us, ts = t :: us ∧ t.startsValue = true ∧ t ≠ .lparen := by
  cases h with
  | literalString s => exact ⟨_, _, rfl, rfl, by simp⟩
  | variableRef _ => exact ⟨_, _, rfl, rfl, by simp⟩

theorem SimpleValue.starts (h : SimpleValue ts value) : ∃ t us, ts = t :: us ∧ t.startsValue = true ∧ t ≠ .lparen := by
  cases h with
  | operand h => exact h.starts
  | concatenate h _ =>
    obtain ⟨t, us, rfl, ht, hne⟩ := h.starts
    exact ⟨t, _, rfl, ht, hne⟩

theorem IsValue.starts (h : IsValue ts value) : ∃ t us, ts = t :: us ∧ t.startsValue = true := by
  cases h with
  | sequence _ => exact ⟨_, _, rfl, rfl⟩
  | simpleValue h =>
    obtain ⟨t, us, rfl, ht, -⟩ := h.starts
    exact ⟨t, us, rfl, ht⟩

theorem ValueList.starts {values : List Value} (h : ValueList ts values) :
    ∃ t us, ts = t :: us ∧ t.startsValue = true := by
  cases h with
  | cons h _ =>
    obtain ⟨t, us, rfl, ht⟩ := h.starts
    exact ⟨t, _, rfl, ht⟩
  | one h => exact h.starts

/-- Here a list of values or specifications is at its end. -/
def AtEnd (rest : List Token) : Prop := ∀ t ∈ rest.head?, t = .rparen

theorem AtEnd.ne_concatenate {rest : List Token} (h : AtEnd rest) : rest.head? ≠ some .opConcatenate :=
  fun hhead => absurd (h _ hhead) (by simp)

theorem parseValue_simpleValue (h : t ≠ .lparen) (fuel : Nat) (ts : List Token) :
    parseValue (fuel + 1) (t :: ts) = parseSimpleValue fuel (t :: ts) := by
  cases t with
  | lparen => exact absurd rfl h
  | _ => rfl

mutual

theorem Operand.parse {us : List Token} {value : Value} :
    Operand us value → ∀ {fuel : Nat}, 4 * us.length ≤ fuel + 3 → ∀ rest : List Token,
      parseSimpleValue (fuel + 1) (us ++ rest) = parseConcatenation fuel value rest
  | .literalString s, fuel, _, rest => rfl
  | @Operand.variableRef ts values h, fuel, hfuel, rest => by
    have hlen : 4 * ts.length ≤ fuel := by
      simp only [length_cons, length_append, length_nil] at hfuel
      omega
    have hvalues : parseValueList fuel (ts ++ .rparen :: rest) = some (values, .rparen :: rest) :=
      h.parse hlen (by simp [AtEnd])
    rw [cons_append, cons_append, append_assoc, singleton_append, parseSimpleValue, hvalues]

theorem SimpleValue.parse {us : List Token} {value : Value} :
    SimpleValue us value → ∀ {fuel : Nat}, 4 * us.length ≤ fuel + 2 → ∀ {rest : List Token},
      rest.head? ≠ some .opConcatenate → parseSimpleValue fuel (us ++ rest) = some (value, rest)
  | @SimpleValue.operand ts value h, fuel, hfuel, rest, hrest => by
    obtain ⟨t, us, hts, -, -⟩ := h.starts
    obtain _ | f := fuel
    · rw [hts, length_cons] at hfuel
      omega
    rw [h.parse (by omega), parseConcatenation_of_ne hrest]
  | @SimpleValue.concatenate ts ts' leftValue rightValue h h', fuel, hfuel, rest, hrest => by
    rw [length_append, length_cons] at hfuel
    obtain ⟨f, rfl⟩ : ∃ f, fuel = f + 2 := ⟨fuel - 2, by omega⟩
    rw [append_assoc, h.parse (by omega), cons_append, parseConcatenation, h'.parse (by omega) hrest]

theorem IsValue.parse {us : List Token} {value : Value} :
    IsValue us value → ∀ {fuel : Nat}, 4 * us.length ≤ fuel + 1 → ∀ {rest : List Token},
      rest.head? ≠ some .opConcatenate → parseValue fuel (us ++ rest) = some (value, rest)
  | @IsValue.sequence ts values h, fuel, hfuel, rest, _ => by
    simp only [length_cons, length_append, length_nil] at hfuel
    obtain _ | f := fuel
    · omega
    have hvalues : parseValueList f (ts ++ .rparen :: rest) = some (values, .rparen :: rest) :=
      h.parse (by omega) (by simp [AtEnd])
    rw [cons_append, append_assoc, singleton_append, parseValue, hvalues]
  | @IsValue.simpleValue ts value h, fuel, hfuel, rest, hrest => by
    obtain ⟨t, us, rfl, -, hne⟩ := h.starts
    rw [length_cons] at hfuel
    obtain _ | f := fuel
    · omega
    rw [cons_append, parseValue_simpleValue hne, ← cons_append, h.parse (by omega) hrest]

theorem ValueList.parse {us : List Token} {values : List Value} :
    ValueList us values → ∀ {fuel : Nat}, 4 * us.length ≤ fuel → ∀ {rest : List Token},
      AtEnd rest → parseValueList fuel (us ++ rest) = some (values, rest)
  | @ValueList.cons ts ts' value values h h', fuel, hfuel, rest, hrest => by
    rw [length_append] at hfuel
    obtain ⟨t, us, rfl, ht⟩ := h'.starts
    obtain ⟨t', us', hts, -⟩ := h.starts
    have hpos : 1 ≤ ts.length := by rw [hts, length_cons]; omega
    obtain _ | f := fuel
    · omega
    have hne : (t :: us ++ rest).head? ≠ some .opConcatenate := by
      intro hhead
      cases Option.some.inj hhead
      cases ht
    rw [append_assoc, parseValueList, h.parse (by omega) hne, cons_append]
    simp only [ht, if_true]
    rw [← cons_append, h'.parse (by omega) hrest]
  | @ValueList.one ts value h, fuel, hfuel, rest, hrest => by
    obtain ⟨t', us', hts, -⟩ := h.starts
    have hpos : 1 ≤ ts.length := by rw [hts, length_cons]; omega
    obtain _ | f := fuel
    · omega
    rw [parseValueList, h.parse (by omega) hrest.ne_concatenate]
    cases rest with
    | nil => rfl
    | cons t rest =>
      obtain rfl := hrest t rfl
      rfl

end

theorem infixOperator_token (operator : RelationOp) : infixOperator operator.token = some operator := by
  cases operator <;> rfl

theorem parseSpecification_boolean (operator : BooleanOp) (fuel : Nat) (ts : List Token) :
    parseSpecification (fuel + 1) (operator.token :: ts) =
      (parseSpecList fuel ts).map fun p => (.boolean operator p.1, p.2) := by
  cases operator <;> simp only [BooleanOp.token, parseSpecification, prefixOperator] <;>
    cases parseSpecList fuel ts <;> rfl

theorem SpecList.starts {specs : List Spec} (h : SpecList ts specs) : ∃ us, ts = .lparen :: us := by
  cases h with
  | cons | one => exact ⟨_, rfl⟩

mutual

theorem Specification.parse {us : List Token} {spec : Spec} :
    Specification us spec → ∀ {fuel : Nat}, 4 * us.length ≤ fuel → ∀ {rest : List Token},
      AtEnd rest → parseSpecification fuel (us ++ rest) = some (spec, rest)
  | @Specification.boolean ts specs operator h, fuel, hfuel, rest, hrest => by
    rw [length_cons] at hfuel
    obtain _ | f := fuel
    · omega
    rw [cons_append, parseSpecification_boolean, h.parse (by omega) hrest]
    rfl
  | @Specification.request ts values operator attributeName h, fuel, hfuel, rest, hrest => by
    rw [length_cons] at hfuel
    obtain _ | f := fuel
    · omega
    rw [length_cons] at hfuel
    rw [cons_append, cons_append, parseSpecification, infixOperator_token, h.parse (by omega) hrest]

theorem SpecList.parse {us : List Token} {specs : List Spec} :
    SpecList us specs → ∀ {fuel : Nat}, 4 * us.length ≤ fuel → ∀ {rest : List Token},
      AtEnd rest → parseSpecList fuel (us ++ rest) = some (specs, rest)
  | @SpecList.cons ts ts' spec specs h h', fuel, hfuel, rest, hrest => by
    simp only [length_cons, length_append] at hfuel
    obtain _ | f := fuel
    · omega
    have hspec : parseSpecification f (ts ++ .rparen :: (ts' ++ rest)) = some (spec, .rparen :: (ts' ++ rest)) :=
      h.parse (by omega) (by simp [AtEnd])
    obtain ⟨us, rfl⟩ := h'.starts
    rw [cons_append, append_assoc, cons_append, parseSpecList, hspec]
    simp only [cons_append]
    rw [← cons_append, h'.parse (by omega) hrest]
  | @SpecList.one ts spec h, fuel, hfuel, rest, hrest => by
    simp only [length_cons, length_append] at hfuel
    obtain _ | f := fuel
    · omega
    have hspec : parseSpecification f (ts ++ .rparen :: rest) = some (spec, .rparen :: rest) :=
      h.parse (by omega) (by simp [AtEnd])
    rw [cons_append, append_assoc, singleton_append, parseSpecList, hspec]
    cases rest with
    | nil => rfl
    | cons t rest =>
      obtain rfl := hrest t rfl
      rfl

end

/-- **The parser accepts the grammar.** -/
theorem parseTokens_iff {spec : Spec} : parseTokens ts = some spec ↔ Specification ts spec := by
  constructor
  · intro h
    rw [parseTokens] at h
    split at h
    next hspec =>
      cases h
      obtain ⟨us, hus, rfl⟩ := (sound_specs _).1 hspec
      rwa [append_nil]
    · cases h
  · intro h
    have hparse : parseSpecification (4 * ts.length) (ts ++ []) = some (spec, []) :=
      h.parse (Nat.le_refl _) (by simp [AtEnd])
    rw [append_nil] at hparse
    rw [parseTokens, hparse]

/-! ## 5. The tokens of a tree -/

mutual

def Value.tokens : Value → List Token
  | .literal string => [.string string]
  | .sequence values => .lparen :: (Value.tokensAll values ++ [.rparen])
  | .variableRef values => .variableStart :: .lparen :: (Value.tokensAll values ++ [.rparen])
  | .concatenation leftValue rightValue => leftValue.tokens ++ .opConcatenate :: rightValue.tokens

def Value.tokensAll : List Value → List Token
  | [] => []
  | value :: values => value.tokens ++ Value.tokensAll values

end

mutual

def Spec.tokens : Spec → List Token
  | .boolean operator operands => operator.token :: tokensAll operands
  | .relation operator attributeName values =>
    .string attributeName :: operator.token :: Value.tokensAll values

def Spec.tokensAll : List Spec → List Token
  | [] => []
  | operand :: operands => .lparen :: (operand.tokens ++ .rparen :: tokensAll operands)

end

mutual

theorem Operand.eq_tokens {ts : List Token} {value : Value} : Operand ts value → ts = value.tokens
  | .literalString s => rfl
  | .variableRef h => by rw [h.eq_tokens, Value.tokens]

theorem SimpleValue.eq_tokens {ts : List Token} {value : Value} : SimpleValue ts value → ts = value.tokens
  | .operand h => h.eq_tokens
  | .concatenate h h' => by rw [h.eq_tokens, h'.eq_tokens, Value.tokens]

theorem IsValue.eq_tokens {ts : List Token} {value : Value} : IsValue ts value → ts = value.tokens
  | .sequence h => by rw [h.eq_tokens, Value.tokens]
  | .simpleValue h => h.eq_tokens

theorem ValueList.eq_tokens {ts : List Token} {values : List Value} : ValueList ts values → ts = Value.tokensAll values
  | .cons h h' => by rw [h.eq_tokens, h'.eq_tokens, Value.tokensAll]
  | .one h => by rw [h.eq_tokens, Value.tokensAll, Value.tokensAll, append_nil]

end

mutual

/-- **A tree is read from its tokens only.** -/
theorem Specification.eq_tokens {ts : List Token} {spec : Spec} : Specification ts spec → ts = spec.tokens
  | .boolean operator h => by rw [h.eq_tokens, tokens]
  | .request operator attributeName h => by rw [h.eq_tokens, tokens]

theorem SpecList.eq_tokens {ts : List Token} {specs : List Spec} : SpecList ts specs → ts = tokensAll specs
  | .cons h h' => by rw [h.eq_tokens, h'.eq_tokens, tokensAll]
  | .one h => by rw [h.eq_tokens, tokensAll, tokensAll]

end

end Gct.Rsl
