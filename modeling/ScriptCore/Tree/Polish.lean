import ScriptCore.Number.Numeral
import ScriptCore.Text.Quoted
import ScriptCore.Tree.Basic

set_option autoImplicit false

/-! The Polish form of expressions: every operator stands in front of its operands,
in parentheses. A node that is no expression is written as its kind alone. -/

namespace ScriptCore

/-- A literal the way a program could hold it. -/
def Literal.written : Literal → List Char
  | .null => ['n', 'u', 'l', 'l']
  | .number value => Number.write .plain (.ofFloat value)
  | .character value => Text.quoted '\'' [value]
  | .text value => Text.quoted '"' value.toList

namespace Node

/-- Puts the text of a tree in front of what follows it. -/
def polishBefore : Node → List Char → List Char
  | .literal value, rest => value.written ++ rest
  | .identifier path, rest => path.name.toList ++ rest
  | .property name, rest => '.' :: name.toList ++ rest
  | .indexer position, rest => '[' :: position.polishBefore (']' :: rest)
  | .unary operator operand, rest =>
      '(' :: operator.spelling.toList ++ ' ' :: operand.polishBefore (')' :: rest)
  | .binary operator left right, rest =>
      '(' :: operator.spelling.toList ++
        ' ' :: left.polishBefore (' ' :: right.polishBefore (')' :: rest))
  | .reference value, rest => '(' :: '&' :: ' ' :: value.polishBefore (')' :: rest)
  | node, rest => '<' :: node.shape.label.toList ++ '>' :: rest

/-- The text of a tree in Polish form. -/
def polish (node : Node) : String := String.ofList (node.polishBefore [])

end Node
end ScriptCore
