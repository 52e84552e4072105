import ScriptCore.Tree.Basic

set_option autoImplicit false

/-! Equality of trees: the same shape throughout, with numbers compared as numbers,
so that the two zeros are equal and a not-a-number differs from itself. -/

namespace ScriptCore

mutual

def Node.equal : Node → Node → Bool
  | .literal value, other => match other with
    | .literal value' => value == value'
    | _ => false
  | .identifier path, other => match other with
    | .identifier path' => path.equal path'
    | _ => false
  | .assignment path value isGlobal, other => match other with
    | .assignment path' value' isGlobal' =>
        path.equal path' && value.equal value' && isGlobal == isGlobal'
    | _ => false
  | .call path arguments, other => match other with
    | .call path' arguments' => path.equal path' && Node.equalAll arguments arguments'
    | _ => false
  | .functionDefinition path parameters body, other => match other with
    | .functionDefinition path' parameters' body' =>
        path.equal path' && Node.equalAll parameters parameters' && Node.equalAll body body'
    | _ => false
  | .structDefinition path properties, other => match other with
    | .structDefinition path' properties' =>
        path.equal path' && Node.equalAll properties properties'
    | _ => false
  | .property name, other => match other with
    | .property name' => name == name'
    | _ => false
  | .indexer position, other => match other with
    | .indexer position' => position.equal position'
    | _ => false
  | .unary operator operand, other => match other with
    | .unary operator' operand' => decide (operator = operator') && operand.equal operand'
    | _ => false
  | .binary operator left right, other => match other with
    | .binary operator' left' right' =>
        decide (operator = operator') && left.equal left' && right.equal right'
    | _ => false
  | .conditional condition body branch, other => match other with
    | .conditional condition' body' branch' =>
        condition.equal condition' && Node.equalAll body body' &&
          branch.equal branch'
    | _ => false
  | .whileLoop condition body, other => match other with
    | .whileLoop condition' body' => condition.equal condition' && Node.equalAll body body'
    | _ => false
  | .forLoop iterable iterator body, other => match other with
    | .forLoop iterable' iterator' body' =>
        iterable.equal iterable' && iterator.equal iterator' && Node.equalAll body body'
    | _ => false
  | .newStruct path, other => match other with
    | .newStruct path' => path.equal path'
    | _ => false
  | .newArray elements, other => match other with
    | .newArray elements' => Node.equalAll elements elements'
    | _ => false
  | .result none, other => match other with
    | .result none => true
    | _ => false
  | .result (some value), other => match other with
    | .result (some value') => value.equal value'
    | _ => false
  | .reference value, other => match other with
    | .reference value' => value.equal value'
    | _ => false
  | .importFile file, other => match other with
    | .importFile file' => file == file'
    | _ => false

def Path.equal : Path → Path → Bool
  | .bare name, other => match other with
    | .bare name' => name == name'
    | _ => false
  | .stepped name steps, other => match other with
    | .stepped name' steps' => name == name' && Node.equalAll steps steps'
    | _ => false

def Branch.equal : Branch → Branch → Bool
  | .absent, other => match other with
    | .absent => true
    | _ => false
  | .elif condition body next, other => match other with
    | .elif condition' body' next' =>
        condition.equal condition' && Node.equalAll body body' && next.equal next'
    | _ => false
  | .otherwise body, other => match other with
    | .otherwise body' => Node.equalAll body body'
    | _ => false

/-- Lists are equal when they have the same length and equal trees in order. -/
def Node.equalAll : List Node → List Node → Bool
  | [], other => other.isEmpty
  | node :: rest, other => match other with
    | node' :: rest' => node.equal node' && Node.equalAll rest rest'
    | [] => false

end

instance : BEq Node := ⟨Node.equal⟩

end ScriptCore
