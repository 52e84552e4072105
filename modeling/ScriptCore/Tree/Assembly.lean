import ScriptCore.Source.Lexeme
import ScriptCore.Source.SyntaxError
import ScriptCore.Tree.Basic

set_option autoImplicit false

/-! Building an expression from a run of operands and binary operators, one piece at
a time. Operands are finished trees. Whether operands and operators take turns is
not checked as they arrive; it shows when operators are joined to their operands. -/

namespace ScriptCore

/-- An operator that waits for its right operand to be complete. -/
structure WaitingOperator where
  lexeme : Lexeme
  level : Nat
  deriving Repr

/-- Operands and operators not yet joined, the latest of each first. -/
structure Assembler where
  operands : List Node
  operators : List WaitingOperator

namespace Assembler

/-- What a step leaves behind, with an error if one stopped it. -/
abbrev Outcome := EStateM.Result SyntaxError Assembler Unit

def empty : Assembler := ⟨[], []⟩

/-- Operands that wait to be joined. -/
def pending (assembler : Assembler) : Nat := assembler.operands.length

def pushOperand (assembler : Assembler) (operand : Node) : Assembler :=
  { assembler with operands := operand :: assembler.operands }

/-- Joins operators from the latest on, each with the two operands before it, as
long as their level passes the test. An operator that lacks operands ends this: it
is gone, and so is the operand that it had. -/
def join (passes : Nat → Bool) : List Node → List WaitingOperator → Outcome
  | operands, [] => .ok () ⟨operands, []⟩
  | operands, operator :: operators =>
      if passes operator.level then
        match operands with
        | right :: left :: rest =>
            join passes (.binary operator.lexeme.terminal left right :: rest) operators
        | _ =>
            .error ⟨.missingOperand operator.lexeme.terminal, operator.lexeme.span⟩
              ⟨[], operators⟩
      else .ok () ⟨operands, operator :: operators⟩

/-- Takes in an operator. Every waiting operator that binds at least as tightly is
joined first, so operators of one level group to the left. -/
def pushOperator (assembler : Assembler) (lexeme : Lexeme) : Outcome :=
  match lexeme.terminal.level with
  | .error fault => .error ⟨fault, lexeme.span⟩ assembler
  | .ok level =>
      match join (fun waiting => decide (level ≤ waiting)) assembler.operands
          assembler.operators with
      | .ok _ rest =>
          .ok () { rest with operators := ⟨lexeme, level⟩ :: rest.operators }
      | .error error rest => .error error rest

/-- Joins all that waits. One tree has to remain. -/
def finish (assembler : Assembler) : Except SyntaxError Node :=
  match join (fun _ => true) assembler.operands assembler.operators with
  | .error error _ => .error error
  | .ok _ rest =>
      match rest.operands with
      | [] => .error ⟨.emptyExpression, Span.nowhere⟩
      | [tree] => .ok tree
      | _ => .error ⟨.extraOperand, Span.nowhere⟩

end Assembler
end ScriptCore
