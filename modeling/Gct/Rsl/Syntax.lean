/-
# RSL syntax trees and how they are printed

An RSL specification is a relation, `attribute operator values`, or an operator in front of
specifications in parentheses.  A value is a literal, a sequence of values in parentheses, a variable
reference `$(name)` or `$(name default)`, or a concatenation.

`unparse` writes every literal in quotes, with its quotes doubled, and a blank behind every value.  It gives
up where a variable has no literal name.  What stands behind the name and the default of a variable
is not printed.

All strings are C strings, written here without their `NUL`.
-/
import Mathlib.Tactic.Common

namespace Gct.Rsl

/-- The operators of a boolean. -/
inductive BooleanOp where
  | multireq
  | and
  | or
  deriving DecidableEq, Repr

/-- The operators of a relation. -/
inductive RelationOp where
  | eq
  | neq
  | gt
  | gteq
  | lt
  | lteq
  deriving DecidableEq, Repr

/-- `globus_rsl_value_t`; the sequence of a variable is given by its values. -/
inductive Value where
  | literal (string : List Char)
  | sequence (valueList : List Value)
  | variableRef (sequence : List Value)
  | concatenation (leftValue rightValue : Value)
  deriving Repr

/-- `globus_rsl_t`; the value sequence of a relation is given by its values. -/
inductive Spec where
  | boolean (operator : BooleanOp) (operandList : List Spec)
  | relation (operator : RelationOp) (attributeName : List Char) (valueSequence : List Value)
  deriving Repr

/-! ## 1. Accessors -/

/-- `globus_rsl_value_literal_get_string` -/
def Value.literalGetString : Value → Option (List Char)
  | .literal string => some string
  | _ => none

/-- `globus_rsl_value_variable_get_name`, of the values of the variable. -/
def variableGetName (sequence : List Value) : Option (List Char) :=
  sequence.head?.bind Value.literalGetString

/-- `globus_rsl_value_variable_get_default`, of the values of the variable. -/
def variableGetDefault (sequence : List Value) : Option (List Char) :=
  sequence.tail.head?.bind Value.literalGetString

/-! ## 2. Printing -/

/-- The characters of a literal between its quotes. -/
def doubleQuotes : List Char → List Char
  | [] => []
  | c :: s => if c = '"' then '"' :: '"' :: doubleQuotes s else c :: doubleQuotes s

/-- `globus_i_rsl_unparse_string_literal_to_fifo` -/
def unparseStringLiteral (string : List Char) : List Char := '"' :: (doubleQuotes string ++ ['"'])

/-- `globus_i_rsl_unparse_operator_to_fifo`, of a boolean -/
def BooleanOp.unparse : BooleanOp → List Char
  | .multireq => ['+']
  | .and => ['&']
  | .or => ['|']

/-- `globus_i_rsl_unparse_operator_to_fifo`, of a relation -/
def RelationOp.unparse : RelationOp → List Char
  | .eq => ['=']
  | .neq => ['!', '=']
  | .gt => ['>']
  | .gteq => ['>', '=']
  | .lt => ['<']
  | .lteq => ['<', '=']

/-- A variable reference, from its name and default. -/
def unparseVariable (name : List Char) (default : Option (List Char)) : List Char :=
  '$' :: '(' :: (unparseStringLiteral name ++ (match default with
      | some default => ' ' :: unparseStringLiteral default
      | none => []) ++ [')'])

mutual

/-- `globus_i_rsl_value_unparse_to_fifo` -/
def Value.unparse : Value → Option (List Char)
  | .literal string => some (unparseStringLiteral string)
  | .sequence values => (Value.unparseAll values).map fun text => '(' :: (text ++ [')'])
  | .variableRef values =>
    (variableGetName values).map fun name => unparseVariable name (variableGetDefault values)
  | .concatenation leftValue rightValue =>
    match leftValue.unparse, rightValue.unparse with
    | some leftText, some rightText => some (leftText ++ ' ' :: '#' :: ' ' :: rightText)
    | _, _ => none

/-- The values of a list, each with a blank behind it. -/
def Value.unparseAll : List Value → Option (List Char)
  | [] => some []
  | value :: values =>
    match value.unparse, Value.unparseAll values with
    | some text, some rest => some (text ++ ' ' :: rest)
    | _, _ => none

end

mutual

/-- `globus_i_rsl_unparse_to_fifo` -/
def Spec.unparse : Spec → Option (List Char)
  | .relation operator attributeName values =>
    (Value.unparseAll values).map fun text =>
      unparseStringLiteral attributeName ++ ' ' :: (operator.unparse ++ ' ' :: text)
  | .boolean operator operands => (Spec.unparseAll operands).map fun text => operator.unparse ++ text

/-- The operands of a boolean, each in parentheses. -/
def Spec.unparseAll : List Spec → Option (List Char)
  | [] => some []
  | operand :: operands =>
    match operand.unparse, Spec.unparseAll operands with
    | some text, some rest => some ('(' :: (text ++ ')' :: rest))
    | _, _ => none

end

end Gct.Rsl
