import ScriptCore.Proofs.Expression.Feeding
import ScriptCore.Proofs.Expression.Grouping
import ScriptCore.Tree.Count

set_option autoImplicit false

/-! What an assembler contains. Operands and operators that were taken in, in whichever order, are
all still there: the operands from left to right as they came, the operators between them or
waiting. An operand may itself be a binary tree, so the trees that wait are looked at as
expressions over the operands and not as trees. -/

namespace ScriptCore

namespace Piece

def operand? : Piece → Option Node
  | .operand tree => some tree
  | .operator _ => none

def terminal? : Piece → Option Terminal
  | .operand _ => none
  | .operator lexeme => some lexeme.terminal

end Piece

namespace Expression

/-- The operands from left to right. -/
def leaves : Expression → List Node
  | .operand tree => [tree]
  | .joined _ left right => left.leaves ++ right.leaves

/-- The operators of the assembled nodes, one for each of them. -/
def operators : Expression → List Terminal
  | .operand _ => []
  | .joined operator left right => left.operators ++ operator :: right.operators

theorem length_leaves (expression : Expression) :
    expression.leaves.length = expression.operators.length + 1 := by
  induction expression with
  | operand tree => rfl
  | joined operator left right ihLeft ihRight =>
      simp only [leaves, operators, List.length_append, List.length_cons, ihLeft, ihRight]
      omega

/-- The operands of expressions that wait, the latest first, in the order in which they came. -/
def fringe (trees : List Expression) : List Node := trees.reverse.flatMap leaves

theorem fringe_cons (tree : Expression) (trees : List Expression) :
    fringe (tree :: trees) = fringe trees ++ tree.leaves := by
  rw [fringe, List.reverse_cons, List.flatMap_append, List.flatMap_singleton, fringe]

theorem length_fringe (trees : List Expression) :
    (fringe trees).length = trees.length + (trees.flatMap operators).length := by
  induction trees with
  | nil => rfl
  | cons tree trees ih =>
      simp only [fringe_cons, List.flatMap_cons, List.length_append, List.length_cons, ih,
        length_leaves]
      omega

theorem count_toNode (expression : Expression) :
    expression.toNode.count =
      Node.countAll expression.leaves + expression.operators.length := by
  induction expression with
  | operand tree =>
      simp only [toNode, leaves, operators, Node.countAll, List.length_nil, Nat.add_zero]
  | joined operator left right ihLeft ihRight =>
      simp only [toNode, Node.count, leaves, operators, Node.countAll_append, List.length_append,
        List.length_cons, ihLeft, ihRight]
      omega

end Expression

namespace Assembler

open Expression

/-- The waiting operands of an assembler are these expressions, the latest first. They read as the
operands that were pushed, and their operators with those that wait are the operators that were
pushed. -/
structure Contains (assembler : Assembler) (trees : List Expression) (operands : List Node)
    (operators : List Terminal) : Prop where
  shown : assembler.operands = trees.map toNode
  leaves : fringe trees = operands
  operators : (trees.flatMap Expression.operators ++
    assembler.operators.map fun waiting => waiting.lexeme.terminal).Perm operators

theorem contains_empty : empty.Contains [] [] [] := ⟨rfl, rfl, List.Perm.refl []⟩

namespace Contains

variable {assembler next : Assembler} {trees : List Expression} {operands : List Node}
  {operators : List Terminal}

/-- Every operand that was pushed waits or was joined by one of the assembled nodes. -/
theorem pending_add (contains : assembler.Contains trees operands operators) :
    assembler.pending + (trees.flatMap Expression.operators).length = operands.length := by
  rw [← contains.leaves, length_fringe, pending, contains.shown, List.length_map]

theorem pushOperand (contains : assembler.Contains trees operands operators) (tree : Node) :
    (assembler.pushOperand tree).Contains (.operand tree :: trees) (operands ++ [tree])
      operators where
  shown := by
    rw [Assembler.pushOperand, contains.shown]
    rfl
  leaves := by
    rw [fringe_cons, contains.leaves]
    rfl
  operators := contains.operators

/-- An operator goes from those that wait into the node that joins its two operands. -/
theorem join_top {left right : Expression} {operator : WaitingOperator}
    {waiting : List WaitingOperator} {below : List Node}
    (contains : Contains ⟨below, operator :: waiting⟩ (right :: left :: trees) operands operators) :
    Contains ⟨(joined operator.lexeme.terminal left right :: trees).map toNode, waiting⟩
      (.joined operator.lexeme.terminal left right :: trees) operands operators where
  shown := rfl
  leaves := by
    rw [← contains.leaves]
    simp only [fringe_cons, Expression.leaves, List.append_assoc]
  operators := by
    refine List.Perm.trans ?_ contains.operators
    -- the same five parts in another order
    rw [List.perm_iff_count]
    intro terminal
    simp only [List.flatMap_cons, Expression.operators, List.map_cons, List.count_append,
      List.count_cons]
    omega

theorem join {passes : Nat → Bool} {waiting : List WaitingOperator}
    (contains : Contains ⟨trees.map toNode, waiting⟩ trees operands operators)
    (reached : Assembler.join passes (trees.map toNode) waiting = .ok () next) :
    ∃ trees', next.Contains trees' operands operators := by
  induction waiting generalizing trees with
  | nil =>
      cases reached
      exact ⟨trees, contains⟩
  | cons operator waiting ih =>
      cases pass : passes operator.level with
      | false =>
          simp only [Assembler.join, pass] at reached
          cases reached
          exact ⟨trees, contains⟩
      | true =>
          cases trees with
          | nil =>
              simp only [List.map_nil, Assembler.join, pass, if_true] at reached
              cases reached
          | cons right trees =>
              cases trees with
              | nil =>
                  simp only [List.map_cons, List.map_nil, Assembler.join, pass, if_true] at reached
                  cases reached
              | cons left below =>
                  simp only [List.map_cons, Assembler.join, pass, if_true] at reached
                  exact ih contains.join_top reached

theorem join_all {passes : Nat → Bool} (contains : assembler.Contains trees operands operators)
    (reached : Assembler.join passes assembler.operands assembler.operators = .ok () next) :
    ∃ trees', next.Contains trees' operands operators := by
  obtain ⟨waiting, operators'⟩ := assembler
  obtain rfl := contains.shown
  exact contains.join reached

theorem pushOperator (contains : assembler.Contains trees operands operators) {lexeme : Lexeme}
    (pushed : assembler.pushOperator lexeme = .ok () next) :
    ∃ trees', next.Contains trees' operands (operators ++ [lexeme.terminal]) := by
  cases found : lexeme.terminal.level? with
  | none =>
      rw [assembler.pushOperator_of_no_level found] at pushed
      cases pushed
  | some level =>
      cases reached : Assembler.join (fun waiting => decide (level ≤ waiting)) assembler.operands
          assembler.operators with
      | error error rest =>
          rw [pushOperator_of_join_error found reached] at pushed
          cases pushed
      | ok _ rest =>
          rw [pushOperator_of_join found reached] at pushed
          cases pushed
          obtain ⟨trees', rest⟩ := contains.join_all reached
          refine ⟨trees', rest.shown, rest.leaves, ?_⟩
          rw [List.map_cons]
          exact List.perm_middle.trans
            ((rest.operators.cons _).trans (List.perm_append_singleton _ _).symm)

theorem takeAll (contains : assembler.Contains trees operands operators) {pieces : List Piece}
    (taken : assembler.takeAll pieces = .ok () next) :
    ∃ trees', next.Contains trees' (operands ++ pieces.filterMap Piece.operand?)
      (operators ++ pieces.filterMap Piece.terminal?) := by
  induction pieces generalizing assembler trees operands operators with
  | nil =>
      cases taken
      refine ⟨trees, ?_⟩
      rw [List.filterMap_nil, List.filterMap_nil, List.append_nil, List.append_nil]
      exact contains
  | cons piece pieces ih =>
      cases piece with
      | operand tree =>
          obtain ⟨trees', contents⟩ := ih (contains.pushOperand tree) taken
          refine ⟨trees', ?_⟩
          rw [List.append_assoc] at contents
          exact contents
      | operator lexeme =>
          cases pushed : assembler.pushOperator lexeme with
          | error error rest =>
              rw [Assembler.takeAll, take, pushed] at taken
              cases taken
          | ok _ middle =>
              rw [takeAll_operator_of_ok pushed] at taken
              obtain ⟨trees', contains'⟩ := contains.pushOperator pushed
              obtain ⟨trees'', contents⟩ := ih contains' taken
              refine ⟨trees'', ?_⟩
              rw [List.append_assoc] at contents
              exact contents

/-- The tree of a finished expression has all operands for its leaves and all operators for its
nodes. -/
theorem finish (contains : assembler.Contains trees operands operators) {tree : Node}
    (finished : assembler.finish = .ok tree) :
    ∃ expression : Expression, tree = expression.toNode ∧ expression.leaves = operands ∧
      expression.operators.Perm operators := by
  rw [Assembler.finish] at finished
  cases reached : Assembler.join (fun _ => true) assembler.operands assembler.operators with
  | error error rest =>
      rw [reached] at finished
      cases finished
  | ok _ rest =>
      have none := operators_of_join_all reached
      obtain ⟨trees', contents⟩ := contains.join_all reached
      simp only [reached, contents.shown] at finished
      match trees' with
      | [] => cases finished
      | [expression] =>
          cases finished
          refine ⟨expression, rfl, ?_, ?_⟩
          · rw [← contents.leaves, fringe_cons]
            rfl
          · have all := contents.operators
            rw [none, List.map_nil, List.append_nil, List.flatMap_singleton] at all
            exact all
      | _ :: _ :: _ => cases finished

end Contains

/-- As long as every call succeeds, in whichever order operands and operators are pushed, the
waiting trees read as the operands in the order of their calls, each operator either waits or is
that of an assembled node, and each operand either waits or was joined. If the expression can be
finished, its tree has all of them. -/
theorem nothing_lost (pieces : List Piece) (assembler : Assembler)
    (taken : empty.takeAll pieces = .ok () assembler) :
    let operands := pieces.filterMap Piece.operand?
    let operators := pieces.filterMap Piece.terminal?
    (∃ trees, assembler.Contains trees operands operators ∧
        assembler.pending + (trees.flatMap Expression.operators).length = operands.length) ∧
      ∀ tree, assembler.finish = .ok tree →
        ∃ expression : Expression, tree = expression.toNode ∧ expression.leaves = operands ∧
          expression.operators.Perm operators ∧
          tree.count = Node.countAll operands + operators.length := by
  intro operands operators
  obtain ⟨trees, contains⟩ := contains_empty.takeAll taken
  refine ⟨⟨trees, contains, contains.pending_add⟩, ?_⟩
  intro tree finished
  obtain ⟨expression, shown, leaves, nodes⟩ := contains.finish finished
  refine ⟨expression, shown, leaves, nodes, ?_⟩
  rw [shown, count_toNode, leaves, nodes.length_eq]
  rfl

/-- `+ a (b || c) - d`, where the first operator comes before its operands and the operand in
parentheses is opaque: three operands and two operators, seven nodes in all. -/
theorem nothing_lost_out_of_order :
    let name (text : String) := Node.identifier (.bare text)
    let inner := Node.binary .or (name "b") (name "c")
    let pieces := [.operator (.unplaced .plus), .operand (name "a"), .operand inner,
      .operator (.unplaced .minus), .operand (name "d")]
    empty.takeAll pieces = .ok () (empty.feed pieces) ∧
      ∃ (tree : Node) (expression : Expression), (empty.feed pieces).finish = .ok tree ∧
        tree = expression.toNode ∧ expression.leaves = [name "a", inner, name "d"] ∧
        expression.operators.Perm [.plus, .minus] ∧ tree.count = 7 := by
  intro name inner pieces
  have taken : empty.takeAll pieces = .ok () (empty.feed pieces) := rfl
  obtain ⟨_, each⟩ := nothing_lost pieces (empty.feed pieces) taken
  obtain ⟨expression, shown, leaves, nodes, count⟩ := each _ rfl
  exact ⟨taken, _, expression, rfl, shown, leaves, nodes, count⟩

end Assembler
end ScriptCore
