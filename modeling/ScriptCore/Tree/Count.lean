import ScriptCore.Tree.Basic

set_option autoImplicit false

/-! Two ways to count the nodes of a tree. The count follows the parts of every
node; the release takes a tree apart through its list of children. -/

namespace ScriptCore

/-! ### Counting by parts -/

mutual

/-- Nodes of a tree, itself included. Names inside a node and branches of a
conditional are nodes as well. -/
def Node.count : Node → Nat
  | .literal _ | .property _ | .importFile _ => 1
  | .identifier path => path.count
  | .assignment path value _ => 1 + path.count + value.count
  | .call path arguments => 1 + path.count + Node.countAll arguments
  | .functionDefinition path parameters body =>
      1 + path.count + Node.countAll parameters + Node.countAll body
  | .structDefinition path properties => 1 + path.count + Node.countAll properties
  | .indexer position => 1 + position.count
  | .unary _ operand => 1 + operand.count
  | .binary _ left right => 1 + left.count + right.count
  | .conditional condition body branch =>
      1 + condition.count + Node.countAll body + branch.count
  | .whileLoop condition body => 1 + condition.count + Node.countAll body
  | .forLoop iterable iterator body =>
      1 + iterable.count + iterator.count + Node.countAll body
  | .newStruct path => 1 + path.count
  | .newArray elements => 1 + Node.countAll elements
  | .result none => 1
  | .result (some value) => 1 + value.count
  | .reference value => 1 + value.count

def Path.count : Path → Nat
  | .bare _ => 1
  | .stepped _ steps => 1 + Node.countAll steps

def Branch.count : Branch → Nat
  | .absent => 0
  | .elif condition body next => 1 + condition.count + Node.countAll body + next.count
  | .otherwise body => 1 + Node.countAll body

/-- Nodes of all trees of a list. -/
def Node.countAll : List Node → Nat
  | [] => 0
  | node :: rest => node.count + Node.countAll rest

end

theorem Node.countAll_append (first second : List Node) :
    Node.countAll (first ++ second) = Node.countAll first + Node.countAll second := by
  induction first with
  | nil => rw [List.nil_append, Node.countAll, Nat.zero_add]
  | cons node first ih => rw [List.cons_append, Node.countAll, Node.countAll, ih, Nat.add_assoc]

/-! ### Release -/

private theorem Path.sizeOf_lt_of_mem_steps (path : Path) (child : Node)
    (owned : child ∈ path.steps) : sizeOf child < sizeOf path := by
  cases path with
  | bare name => simp [Path.steps] at owned
  | stepped name steps =>
      have inside := List.sizeOf_lt_of_mem owned
      simp only [Path.steps] at inside
      simp only [Path.stepped.sizeOf_spec]
      omega

private theorem Branch.sizeOf_lt_of_mem_children (child : Node) :
    (branch : Branch) → child ∈ branch.children →
      sizeOf child < sizeOf branch
  | .absent, owned => by simp [Branch.children] at owned
  | .elif condition body next, owned => by
      simp only [Branch.children, List.cons_append, List.mem_cons, List.mem_append] at owned
      simp only [Branch.elif.sizeOf_spec]
      rcases owned with same | inBody | later
      · subst same
        omega
      · have inside := List.sizeOf_lt_of_mem inBody
        omega
      · have inside := Branch.sizeOf_lt_of_mem_children child next later
        omega
  | .otherwise body, owned => by
      have inside := List.sizeOf_lt_of_mem owned
      simp only [Branch.children] at inside
      simp only [Branch.otherwise.sizeOf_spec]
      omega

/-- A tree is larger than each tree that it owns. -/
theorem Node.sizeOf_lt_of_mem_children (node child : Node) (owned : child ∈ node.children) :
    sizeOf child < sizeOf node := by
  cases node with
  | identifier path | newStruct path =>
      have inside := Path.sizeOf_lt_of_mem_steps path child owned
      simp only [Node.identifier.sizeOf_spec, Node.newStruct.sizeOf_spec]
      omega
  | assignment path value isGlobal =>
      simp only [Node.children, List.mem_append, List.mem_singleton] at owned
      simp only [Node.assignment.sizeOf_spec]
      rcases owned with inPath | same
      · have inside := Path.sizeOf_lt_of_mem_steps path child inPath
        omega
      · subst same
        omega
  | call path arguments | structDefinition path arguments =>
      simp only [Node.children, List.mem_append] at owned
      simp only [Node.call.sizeOf_spec, Node.structDefinition.sizeOf_spec]
      rcases owned with inPath | inList
      · have inside := Path.sizeOf_lt_of_mem_steps path child inPath
        omega
      · have inside := List.sizeOf_lt_of_mem inList
        omega
  | functionDefinition path parameters body =>
      simp only [Node.children, List.mem_append] at owned
      simp only [Node.functionDefinition.sizeOf_spec]
      rcases owned with (inPath | inParameters) | inBody
      · have inside := Path.sizeOf_lt_of_mem_steps path child inPath
        omega
      · have inside := List.sizeOf_lt_of_mem inParameters
        omega
      · have inside := List.sizeOf_lt_of_mem inBody
        omega
  | conditional condition body branch =>
      simp only [Node.children, List.cons_append, List.mem_cons, List.mem_append] at owned
      simp only [Node.conditional.sizeOf_spec]
      rcases owned with same | inBody | later
      · subst same
        omega
      · have inside := List.sizeOf_lt_of_mem inBody
        omega
      · have inside := Branch.sizeOf_lt_of_mem_children child branch later
        omega
  | whileLoop condition body =>
      simp only [Node.children, List.mem_cons] at owned
      simp only [Node.whileLoop.sizeOf_spec]
      rcases owned with same | inBody
      · subst same
        omega
      · have inside := List.sizeOf_lt_of_mem inBody
        omega
  | forLoop iterable iterator body =>
      simp only [Node.children, List.cons_append, List.mem_cons, List.mem_append] at owned
      simp only [Node.forLoop.sizeOf_spec]
      rcases owned with same | inPath | inBody
      · subst same
        omega
      · have inside := Path.sizeOf_lt_of_mem_steps iterator child inPath
        omega
      · have inside := List.sizeOf_lt_of_mem inBody
        omega
  | newArray elements =>
      have inside := List.sizeOf_lt_of_mem owned
      simp only [Node.children] at inside
      simp only [Node.newArray.sizeOf_spec]
      omega
  | binary operator left right =>
      simp only [Node.children, List.mem_cons, List.not_mem_nil, or_false] at owned
      simp only [Node.binary.sizeOf_spec]
      rcases owned with same | same <;> subst same <;> omega
  | indexer value | unary operator value | reference value =>
      simp only [Node.children, List.mem_singleton] at owned
      subst owned
      simp only [Node.indexer.sizeOf_spec, Node.unary.sizeOf_spec, Node.reference.sizeOf_spec]
      omega
  | result value =>
      cases value with
      | none => simp [Node.children] at owned
      | some value =>
          simp only [Node.children, Option.toList_some, List.mem_singleton] at owned
          subst owned
          simp only [Node.result.sizeOf_spec, Option.some.sizeOf_spec]
          omega
  | literal value | property name | importFile file => simp [Node.children] at owned

/-- Takes a tree apart: the node itself with its names and branches is let go, then
each tree that it owned. The answer is the number of nodes let go. -/
def Node.release (node : Node) : Nat :=
  1 + node.attachments +
    node.children.attach.foldr (fun child sofar => child.1.release + sofar) 0
termination_by sizeOf node
decreasing_by exact Node.sizeOf_lt_of_mem_children node child.1 child.2

/-- Takes every tree of a list apart. -/
def Node.releaseAll (nodes : List Node) : Nat :=
  nodes.foldr (fun node sofar => node.release + sofar) 0

theorem Node.release_eq (node : Node) :
    node.release = 1 + node.attachments + Node.releaseAll node.children := by
  rw [Node.release, Node.releaseAll]
  congr 1
  exact List.foldr_attach (f := fun (child : Node) sofar => child.release + sofar)

end ScriptCore
