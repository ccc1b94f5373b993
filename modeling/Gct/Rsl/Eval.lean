/-
# RSL evaluation

`globus_rsl_eval` replaces the values of a tree in place.  A function that fails leaves everything as it is
at that point, the symbol table as well, so an evaluation here is a function of the symbol table that always
returns one.

`globus_rsl_value_eval` returns a string for every value but a sequence, whose elements it replaces
itself.  A relation with the attribute `rsl_substitution` has pairs of a symbol and its value, which go into
the innermost scope of the symbol table as soon as they are evaluated.
-/
import Gct.Rsl.Syntax
import Gct.Hashtable

namespace Gct.Rsl

/-! ## 1. Evaluation with a symbol table -/

/-- What an evaluation returns, unless it fails, and the symbol table it leaves. -/
abbrev Evaluation (α : Type) := Option α × SymbolTable

/-- The next evaluation, unless this one has failed. -/
def Evaluation.andThen {α β : Type} (e : Evaluation α) (f : α → SymbolTable → Evaluation β) : Evaluation β :=
  match e with
  | (none, table) => (none, table)
  | (some a, table) => f a table

/-- What `globus_rsl_value_eval` has made of a value. -/
inductive Evaluated where
  | string (s : List Char)
  | sequence (values : List Value)

/-- The value in the list afterwards. -/
def Evaluated.toValue : Evaluated → Value
  | .string s => .literal s
  | .sequence values => .sequence values

/-! ## 2. Values -/

/-- The variable reference with the values `values`. -/
def variableEval (values : List Value) (table : SymbolTable) : Evaluation Evaluated :=
  if values.length ≠ 1 then (none, table)
  else
    match variableGetName values with
    | none => (none, table)
    | some symbolName =>
      match table.lookup symbolName with
      | none => (none, table)
      | some symbolValue => (some (.string symbolValue), table)

/-- Two strings are concatenated. -/
def concatenate (left right : Evaluated) (table : SymbolTable) : Evaluation Evaluated :=
  match left, right with
  | .string left, .string right => (some (.string (left ++ right)), table)
  | _, _ => (none, table)

/-- A symbol and its value are strings. -/
def insertSymbol (symbolName symbolValue : Evaluated) (table : SymbolTable) : Evaluation Evaluated :=
  match symbolName, symbolValue with
  | .string symbolName, .string symbolValue =>
    (some (.sequence [.literal symbolName, .literal symbolValue]), table.insert symbolName symbolValue)
  | _, _ => (none, table)

mutual

/-- `globus_rsl_value_eval` -/
def valueEval (rslSubstitutionFlag : Bool) : Value → SymbolTable → Evaluation Evaluated
  | .literal string, table => (some (.string string), table)
  | .sequence values, table =>
    if rslSubstitutionFlag then pairEval rslSubstitutionFlag values table
    else
      (sequenceEval rslSubstitutionFlag values table).andThen fun values table =>
        (some (.sequence values), table)
  | .variableRef values, table => variableEval values table
  | .concatenation leftValue rightValue, table =>
    (valueEval rslSubstitutionFlag leftValue table).andThen fun left table =>
      (valueEval rslSubstitutionFlag rightValue table).andThen fun right table =>
        concatenate left right table

/-- The sequence of a substitution. -/
def pairEval (rslSubstitutionFlag : Bool) : List Value → SymbolTable → Evaluation Evaluated
  | [symbolName, symbolValue], table =>
    (valueEval rslSubstitutionFlag symbolName table).andThen fun symbolName table =>
      (valueEval rslSubstitutionFlag symbolValue table).andThen fun symbolValue table =>
        insertSymbol symbolName symbolValue table
  | _, table => (none, table)

/-- The loop over the elements of another sequence. -/
def sequenceEval (rslSubstitutionFlag : Bool) : List Value → SymbolTable → Evaluation (List Value)
  | [], table => (some [], table)
  | value :: values, table =>
    (valueEval rslSubstitutionFlag value table).andThen fun value table =>
      (sequenceEval rslSubstitutionFlag values table).andThen fun values table =>
        (some (value.toValue :: values), table)

end

/-! ## 3. Specifications -/

/-- `globus_rsl_is_relation_attribute_equal`, which does not look at the case. -/
def isAttributeEqual (attributeName other : List Char) : Bool :=
  attributeName.map Char.toLower = other.map Char.toLower

def isSubstitution (attributeName : List Char) : Bool :=
  isAttributeEqual attributeName "rsl_substitution".toList ||
    isAttributeEqual attributeName "rslsubstitution".toList

/-- `globus_rsl_value_is_sequence` -/
def Value.isSequence : Value → Bool
  | .sequence _ => true
  | _ => false

/-- The loop over the values of a relation. -/
def relationEval (rslSubstitutionFlag : Bool) : List Value → SymbolTable → Evaluation (List Value)
  | [], table => (some [], table)
  | value :: values, table =>
    if rslSubstitutionFlag && !value.isSequence then (none, table)
    else
      (valueEval rslSubstitutionFlag value table).andThen fun value table =>
        (relationEval rslSubstitutionFlag values table).andThen fun values table =>
          (some (value.toValue :: values), table)

mutual

/-- `globus_rsl_eval` -/
def eval : Spec → SymbolTable → Evaluation Spec
  | .boolean operator operands, table =>
    (evalOperands operands table.createScope).andThen fun operands table =>
      (some (.boolean operator operands), table.removeScope)
  | .relation operator attributeName values, table =>
    (relationEval (isSubstitution attributeName) values table).andThen fun values table =>
      (some (.relation operator attributeName values), table)

/-- The loop over the operands of a boolean. -/
def evalOperands : List Spec → SymbolTable → Evaluation (List Spec)
  | [], table => (some [], table)
  | operand :: operands, table =>
    (eval operand table).andThen fun operand table =>
      (evalOperands operands table).andThen fun operands table => (some (operand :: operands), table)

end

end Gct.Rsl
