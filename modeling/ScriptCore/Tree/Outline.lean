import ScriptCore.Tree.Polish

set_option autoImplicit false

/-! The outline of a tree: every node with all of its parts and their names, on one
line. -/

namespace ScriptCore

namespace Outline

/-! ### Pieces of outlines

Each puts its text in front of what follows, so that long outlines are written in
one pass. -/

def word (text : String) (rest : List Char) : List Char := text.toList ++ rest

/-- A single part in brackets behind the name of its case. -/
def wrapped (name : String) (part : List Char → List Char) (rest : List Char) : List Char :=
  word name ('(' :: part (')' :: rest))

/-- Named parts in braces behind the name of their record. -/
def record (name : String) (parts : List (String × (List Char → List Char)))
    (rest : List Char) : List Char :=
  word name (' ' :: '\x7b' :: ' ' :: fields parts (' ' :: '\x7d' :: rest))
where
  fields : List (String × (List Char → List Char)) → List Char → List Char
    | [], rest => rest
    | [(label, part)], rest => word label (':' :: ' ' :: part rest)
    | (label, part) :: more, rest =>
        word label (':' :: ' ' :: part (',' :: ' ' :: fields more rest))

/-- Nothing, or a part marked as present. -/
def optional (part : Option (List Char → List Char)) (rest : List Char) : List Char :=
  match part with
  | none => word "None" rest
  | some part => wrapped "Some" part rest

/-- A text between double marks. -/
def text (value : String) (rest : List Char) : List Char :=
  Text.quoted '"' value.toList ++ rest

def literal : Literal → List Char → List Char
  | .null => word "Null"
  | .number value =>
      wrapped "Numerical" fun rest => Number.write .marked (.ofFloat value) ++ rest
  | .character value => wrapped "Character" fun rest => Text.quoted '\'' [value] ++ rest
  | .text value => wrapped "String" (text value)

end Outline

open Outline

mutual

/-- Puts the outline of a tree in front of what follows it. -/
def Node.outlineBefore : Node → List Char → List Char
  | .literal value => wrapped "Value" (literal value)
  | .identifier path => wrapped "Identifier" path.outlineBefore
  | .assignment path value isGlobal => wrapped "SetVariable" <| record "SetVariable"
      [("identifier", path.outlineBefore), ("value", value.outlineBefore),
        ("global", word (if isGlobal then "true" else "false"))]
  | .call path arguments => wrapped "FunctionCall" <| record "FunctionCall"
      [("identifier", path.outlineBefore), ("arguments", Node.outlinesBefore arguments)]
  | .functionDefinition path parameters body =>
      wrapped "FunctionPrototype" <| record "FunctionPrototype"
        [("identifier", path.outlineBefore), ("params", Node.outlinesBefore parameters),
          ("body", Node.outlinesBefore body)]
  | .structDefinition path properties => wrapped "StructPrototype" <| record "StructPrototype"
      [("identifier", path.outlineBefore), ("properties", Node.outlinesBefore properties)]
  | .property name => wrapped "Property" <| record "Property" [("name", text name)]
  | .indexer position => wrapped "Indexer" <| record "Indexer"
      [("index", position.outlineBefore)]
  | .unary operator operand => wrapped "UnaryOp" <| record "UnaryOp"
      [("op", word operator.name), ("operand", operand.outlineBefore)]
  | .binary operator left right => wrapped "BinaryOp" <| record "BinaryOp"
      [("op", word operator.name), ("left", left.outlineBefore),
        ("right", right.outlineBefore)]
  | .conditional condition body branch => wrapped "If" <| record "IfChain"
      [("condition", condition.outlineBefore), ("body", Node.outlinesBefore body),
        ("next", branch.outlineBefore)]
  | .whileLoop condition body => wrapped "While" <| record "WhileLoop"
      [("condition", condition.outlineBefore), ("body", Node.outlinesBefore body)]
  | .forLoop iterable iterator body => wrapped "For" <| record "ForLoop"
      [("iterable", iterable.outlineBefore), ("iterator", iterator.outlineBefore),
        ("body", Node.outlinesBefore body)]
  | .newStruct path => wrapped "CreateStruct" <| record "CreateStruct"
      [("identifier", path.outlineBefore)]
  | .newArray elements => wrapped "CreateArray" <| record "CreateArray"
      [("elements", Node.outlinesBefore elements)]
  | .result none => wrapped "Return" <| record "Return" [("value", optional none)]
  | .result (some value) => wrapped "Return" <| record "Return"
      [("value", optional (some value.outlineBefore))]
  | .reference value => wrapped "Reference" <| record "Reference"
      [("value", value.outlineBefore)]
  | .importFile file => wrapped "Import" <| record "Import" [("path", text file)]

def Path.outlineBefore : Path → List Char → List Char
  | .bare name => record "Identifier" [("name", text name), ("modifiers", optional none)]
  | .stepped name steps => record "Identifier"
      [("name", text name), ("modifiers", optional (some (Node.outlinesBefore steps)))]

/-- The branch behind a condition, marked as present, or the word for its absence. -/
def Branch.outlineBefore : Branch → List Char → List Char
  | .absent => optional none
  | .elif condition body next => optional <| some <| record "Elif"
      [("condition", condition.outlineBefore), ("body", Node.outlinesBefore body),
        ("next", next.outlineBefore)]
  | .otherwise body => optional <| some <| record "Else"
      [("body", Node.outlinesBefore body)]

/-- The outlines of a list in square brackets. -/
def Node.outlinesBefore : List Node → List Char → List Char
  | [], rest => '[' :: ']' :: rest
  | node :: more, rest => '[' :: node.outlineBefore (Node.outlinesAfter more rest)

/-- The outlines behind the first one of a list, and the closing bracket. -/
def Node.outlinesAfter : List Node → List Char → List Char
  | [], rest => ']' :: rest
  | node :: more, rest =>
      ',' :: ' ' :: node.outlineBefore (Node.outlinesAfter more rest)

end

namespace Node

/-- The outline of a tree. -/
def outline (node : Node) : String := String.ofList (node.outlineBefore [])

/-- The outline of a list of trees. -/
def outlines (nodes : List Node) : String := String.ofList (outlinesBefore nodes [])

end Node
end ScriptCore
