import ScriptCore.Source.Span
import ScriptCore.Source.Terminal

set_option autoImplicit false

/-! What can be wrong with the shape of an expression, and the wording of each
report. -/

namespace ScriptCore

/-- Why a run of operands and operators is no expression. -/
inductive SyntaxFault where
  /-- A terminal without a binding level stands where an operator belongs. -/
  | unexpected (found : Terminal)
  /-- An operator has fewer than two operands. -/
  | missingOperand (operator : Terminal)
  /-- There is no operand at all. -/
  | emptyExpression
  /-- Two operands have no operator between them. -/
  | extraOperand
  deriving DecidableEq, Repr

namespace SyntaxFault

def message : SyntaxFault → String
  | .unexpected found => "unexpected token `" ++ found.spelling ++ "`"
  | .missingOperand operator => "operator `" ++ operator.spelling ++ "` is missing an operand"
  | .emptyExpression => "expected an expression"
  | .extraOperand => "expected an operator between operands"

end SyntaxFault

/-- A fault and the place that it is reported for. -/
structure SyntaxError where
  fault : SyntaxFault
  span : Span
  deriving DecidableEq, Repr

namespace SyntaxError

def message (error : SyntaxError) : String :=
  error.fault.message ++ " at " ++ error.span.display

end SyntaxError

namespace Terminal

/-- The binding level of an operator; any other terminal is unexpected. -/
def level (terminal : Terminal) : Except SyntaxFault Nat :=
  match terminal.level? with
  | some level => .ok level
  | none => .error (.unexpected terminal)

end Terminal
end ScriptCore
