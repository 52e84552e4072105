import ScriptCore.Source.Terminal

set_option autoImplicit false

/-! Syntax trees: their shapes, the kinds they are sorted into, and the trees that
a tree owns directly. Lists inside a tree are plain lists; room kept for growth
belongs to a free-standing forest only. -/

namespace ScriptCore

/-- A value that a program writes down. -/
inductive Literal where
  | null
  | number (value : Float)
  | character (value : Char)
  | text (value : String)
  deriving BEq, Repr

mutual

/-- A syntax tree. -/
inductive Node where
  | literal (value : Literal)
  /-- A name used as an expression. -/
  | identifier (path : Path)
  | assignment (path : Path) (value : Node) (isGlobal : Bool)
  | call (path : Path) (arguments : List Node)
  | functionDefinition (path : Path) (parameters body : List Node)
  | structDefinition (path : Path) (properties : List Node)
  /-- The step `.name` behind a name. -/
  | property (name : String)
  /-- The step `[position]` behind a name. -/
  | indexer (position : Node)
  | unary (operator : Terminal) (operand : Node)
  | binary (operator : Terminal) (left right : Node)
  | conditional (condition : Node) (body : List Node) (branch : Branch)
  | whileLoop (condition : Node) (body : List Node)
  | forLoop (iterable : Node) (iterator : Path) (body : List Node)
  | newStruct (path : Path)
  | newArray (elements : List Node)
  | result (value : Option Node)
  /-- The cell behind an expression rather than a copy of its value. -/
  | reference (value : Node)
  | importFile (file : String)

/-- A name, alone or with the steps that lead on from it. A name with an empty
list of steps is not the same as a name alone. -/
inductive Path where
  | bare (name : String)
  | stepped (name : String) (steps : List Node)

/-- What follows the body of an `if` or `elif`. -/
inductive Branch where
  | absent
  | elif (condition : Node) (body : List Node) (next : Branch)
  | otherwise (body : List Node)

end

/-- The kinds of syntax nodes. The last two are kinds of branches, which occur
inside a conditional only. -/
inductive Shape where
  | literal | identifier | assignment | call | functionDefinition | structDefinition
  | property | indexer | unary | binary | conditional | whileLoop | forLoop | newStruct
  | newArray | result | reference | importFile | elif | otherwise
  deriving DecidableEq, Repr

namespace Shape

def label : Shape → String
  | .literal => "Value"
  | .identifier => "Identifier"
  | .assignment => "SetVariable"
  | .call => "FunctionCall"
  | .functionDefinition => "FunctionPrototype"
  | .structDefinition => "StructPrototype"
  | .property => "Property"
  | .indexer => "Indexer"
  | .unary => "UnaryOp"
  | .binary => "BinaryOp"
  | .conditional => "If"
  | .whileLoop => "While"
  | .forLoop => "For"
  | .newStruct => "CreateStruct"
  | .newArray => "CreateArray"
  | .result => "Return"
  | .reference => "Reference"
  | .importFile => "Import"
  | .elif => "Elif"
  | .otherwise => "Else"

end Shape

namespace Path

def name : Path → String
  | .bare name => name
  | .stepped name _ => name

/-- The trees of the steps, none for a name alone. -/
def steps : Path → List Node
  | .bare _ => []
  | .stepped _ steps => steps

/-- Whether steps were written, be it none of them. -/
def hasSteps : Path → Bool
  | .bare _ => false
  | .stepped _ _ => true

end Path

namespace Branch

/-- The branches from the nearest to the last, each with its kind and its body. -/
def chain : Branch → List (Shape × List Node)
  | .absent => []
  | .elif _ body next => (.elif, body) :: next.chain
  | .otherwise body => [(.otherwise, body)]

/-- The trees that the branches own, each condition before its body. -/
def children : Branch → List Node
  | .absent => []
  | .elif condition body next => condition :: body ++ next.children
  | .otherwise body => body

end Branch

namespace Node

/-- A tree for a number, the most common operand. -/
def number (value : Float) : Node := .literal (.number value)

def null : Node := .literal .null

def shape : Node → Shape
  | .literal _ => .literal
  | .identifier _ => .identifier
  | .assignment _ _ _ => .assignment
  | .call _ _ => .call
  | .functionDefinition _ _ _ => .functionDefinition
  | .structDefinition _ _ => .structDefinition
  | .property _ => .property
  | .indexer _ => .indexer
  | .unary _ _ => .unary
  | .binary _ _ _ => .binary
  | .conditional _ _ _ => .conditional
  | .whileLoop _ _ => .whileLoop
  | .forLoop _ _ _ => .forLoop
  | .newStruct _ => .newStruct
  | .newArray _ => .newArray
  | .result _ => .result
  | .reference _ => .reference
  | .importFile _ => .importFile

/-- The trees that a tree owns directly, also through the steps of its names and
through every branch of a conditional, in the order in which they are let go. -/
def children : Node → List Node
  | .literal _ | .property _ | .importFile _ => []
  | .identifier path | .newStruct path => path.steps
  | .assignment path value _ => path.steps ++ [value]
  | .call path arguments => path.steps ++ arguments
  | .functionDefinition path parameters body => path.steps ++ parameters ++ body
  | .structDefinition path properties => path.steps ++ properties
  | .indexer position => [position]
  | .unary _ operand => [operand]
  | .binary _ left right => [left, right]
  | .conditional condition body branch => condition :: body ++ branch.children
  | .whileLoop condition body => condition :: body
  | .forLoop iterable iterator body => iterable :: iterator.steps ++ body
  | .newArray elements => elements
  | .result value => value.toList
  | .reference value => [value]

/-- How many nodes a tree holds that are no trees of their own: the name of a node
that is more than a name, and the branches of a conditional. -/
def attachments : Node → Nat
  | .assignment _ _ _ | .call _ _ | .functionDefinition _ _ _ | .structDefinition _ _
  | .forLoop _ _ _ | .newStruct _ => 1
  | .conditional _ _ branch => branch.chain.length
  | _ => 0

end Node
end ScriptCore
