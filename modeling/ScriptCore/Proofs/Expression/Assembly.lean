import ScriptCore.Proofs.Expression.Grouping

set_option autoImplicit false

/-! What the assembler makes of a run that is fed to it in order: the operands and
operators that wait stand for expressions that read as the run so far, and in the end
one is left, which is the grouping of the run. -/

namespace ScriptCore

namespace Assembler

/-- Takes in operators, each with the operand behind it, up to the first error. -/
def takeIn (assembler : Assembler) : List (Lexeme × Node) → Outcome
  | [] => .ok () assembler
  | (lexeme, operand) :: rest =>
      match assembler.pushOperator lexeme with
      | .ok _ next => (next.pushOperand operand).takeIn rest
      | .error error next => .error error next

/-- Waiting expressions, the latest first, with the operators between them. Levels rise
towards the latest operator, and each expression binds as tightly as its neighbours ask. -/
inductive Stacked : List Expression → List WaitingOperator → Run → Prop where
  | single (tree : Expression) (nested : tree.WellNested) : Stacked [tree] [] tree.reading
  | push (left right : Expression) (trees : List Expression) (operator : WaitingOperator)
      (operators : List WaitingOperator) (run : Run)
      (below : Stacked (left :: trees) operators run)
      (level : operator.lexeme.terminal.level? = some operator.level)
      (rising : ∀ next, operators.head? = some next → next.level < operator.level)
      (notLooser : ∀ top, left.level? = some top → operator.level ≤ top)
      (tighter : ∀ top, right.level? = some top → operator.level < top)
      (nested : right.WellNested) :
      Stacked (right :: left :: trees) (operator :: operators)
        (run.join operator.lexeme.terminal right.reading)

theorem Stacked.join_top (left right : Expression) (trees : List Expression)
    (operator : WaitingOperator) (operators : List WaitingOperator) (run : Run)
    (stacked : Stacked (right :: left :: trees) (operator :: operators) run) :
    Stacked (.joined operator.lexeme.terminal left right :: trees) operators run := by
  cases stacked with
  | push _ _ _ _ _ before below level rising notLooser tighter nested =>
      cases below with
      | single _ leftNested =>
          exact .single _ ⟨operator.level, level, notLooser, tighter, leftNested, nested⟩
      | push left' _ trees' operator' operators' run' below' level' rising' notLooser'
          tighter' leftNested =>
          rw [Run.join_assoc]
          refine .push left' _ trees' operator' operators' run' below' level' rising'
            notLooser' ?_ ⟨operator.level, level, notLooser, tighter, leftNested, nested⟩
          intro top atTop
          have same : operator.level = top := Option.some.inj (level.symm.trans atTop)
          rw [← same]
          exact rising operator' rfl

/-- Joining ends without an error, changes nothing in what the expressions read as, and
stops in front of the first operator that does not pass. -/
theorem join_of_stacked (passes : Nat → Bool) (top : Expression) (trees : List Expression)
    (operators : List WaitingOperator) (run : Run)
    (stacked : Stacked (top :: trees) operators run) :
    ∃ top' trees' operators',
      join passes ((top :: trees).map Expression.toNode) operators =
          .ok () ⟨(top' :: trees').map Expression.toNode, operators'⟩ ∧
        Stacked (top' :: trees') operators' run ∧
        (∀ next, operators'.head? = some next → passes next.level = false) ∧
        (top' = top ∨ ∀ level, top'.level? = some level → passes level = true) := by
  induction operators generalizing top trees with
  | nil =>
      refine ⟨top, trees, [], rfl, stacked, ?_, Or.inl rfl⟩
      intro next head
      cases head
  | cons operator operators ih =>
      by_cases passing : passes operator.level = true
      · cases stacked with
        | push left _ trees' _ _ before below level rising notLooser tighter nested =>
            have joined := Stacked.join_top left top trees' operator operators _
              (.push left top trees' operator operators before below level rising
                notLooser tighter nested)
            obtain ⟨top', rest, operators', reached, stacked', stopped, grown⟩ :=
              ih _ _ joined
            refine ⟨top', rest, operators', ?_, stacked', stopped, Or.inr ?_⟩
            · simp only [List.map_cons, join, passing, if_true]
              exact reached
            · rcases grown with same | atTop
              · intro level' atTop
                rw [same] at atTop
                have sameLevel : operator.level = level' :=
                  Option.some.inj (level.symm.trans atTop)
                rw [← sameLevel]
                exact passing
              · exact atTop
      · refine ⟨top, trees, operator :: operators, ?_, stacked, ?_, Or.inl rfl⟩
        · simp only [List.map_cons, join, passing]
          rfl
        · intro next head
          cases head
          exact Bool.eq_false_iff.mpr passing

theorem pushOperator_of_stacked (lexeme : Lexeme) (level : Nat)
    (found : lexeme.terminal.level? = some level) (operand : Node) (trees : List Expression)
    (operators : List WaitingOperator) (run : Run)
    (stacked : Stacked (.operand operand :: trees) operators run) :
    ∃ trees' operators',
      pushOperator ⟨(Expression.operand operand :: trees).map Expression.toNode, operators⟩
          lexeme = .ok () ⟨trees'.map Expression.toNode, operators'⟩ ∧
        ∀ next : Node, Stacked (.operand next :: trees') operators'
          ⟨run.first, run.rest ++ [(lexeme.terminal, next)]⟩ := by
  obtain ⟨top, rest, operators', reached, stacked', stopped, grown⟩ :=
    join_of_stacked (fun waiting => decide (level ≤ waiting)) _ _ _ _ stacked
  refine ⟨top :: rest, ⟨lexeme, level⟩ :: operators', ?_, ?_⟩
  · simp only [pushOperator, Terminal.level, found, reached]
  · intro next
    refine .push top (.operand next) rest ⟨lexeme, level⟩ operators' run stacked' found
      ?_ ?_ ?_ trivial
    · intro waiting head
      have looser := stopped waiting head
      simp only [decide_eq_false_iff_not] at looser
      exact Nat.lt_of_not_le looser
    · intro topLevel atTop
      rcases grown with same | tight
      · rw [same] at atTop
        cases atTop
      · exact of_decide_eq_true (tight topLevel atTop)
    · intro topLevel atTop
      cases atTop

theorem takeIn_of_stacked (pieces : List (Lexeme × Node))
    (levelled : ∀ piece, piece ∈ pieces → ∃ level, piece.1.terminal.level? = some level)
    (operand : Node) (trees : List Expression) (operators : List WaitingOperator) (run : Run)
    (stacked : Stacked (.operand operand :: trees) operators run) :
    ∃ top trees' operators',
      takeIn ⟨(Expression.operand operand :: trees).map Expression.toNode, operators⟩ pieces =
          .ok () ⟨(top :: trees').map Expression.toNode, operators'⟩ ∧
        Stacked (top :: trees') operators'
          ⟨run.first, run.rest ++ pieces.map fun piece => (piece.1.terminal, piece.2)⟩ := by
  induction pieces generalizing operand trees operators run with
  | nil =>
      refine ⟨.operand operand, trees, operators, rfl, ?_⟩
      simpa only [List.map_nil, List.append_nil] using stacked
  | cons piece rest ih =>
      obtain ⟨lexeme, next⟩ := piece
      obtain ⟨level, found⟩ := levelled (lexeme, next) (List.mem_cons_self ..)
      obtain ⟨trees', operators', pushed, extended⟩ :=
        pushOperator_of_stacked lexeme level found operand trees operators run stacked
      obtain ⟨top, trees'', operators'', reached, stacked'⟩ :=
        ih (fun other member => levelled other (List.mem_cons_of_mem _ member))
          next trees' operators' _ (extended next)
      refine ⟨top, trees'', operators'', ?_, ?_⟩
      · simp only [takeIn, pushed]
        exact reached
      · simpa only [List.map_cons, List.append_assoc, List.cons_append, List.nil_append]
          using stacked'

theorem finish_of_stacked (top : Expression) (trees : List Expression)
    (operators : List WaitingOperator) (run : Run)
    (stacked : Stacked (top :: trees) operators run) :
    ∃ tree : Expression,
      finish ⟨(top :: trees).map Expression.toNode, operators⟩ = .ok tree.toNode ∧
        tree.reading = run ∧ tree.WellNested := by
  obtain ⟨top', rest, operators', reached, stacked', stopped, _⟩ :=
    join_of_stacked (fun _ => true) _ _ _ _ stacked
  cases stacked' with
  | single _ nested =>
      refine ⟨top', ?_, rfl, nested⟩
      rw [finish, reached]
      rfl
  | push left _ trees' operator operators'' =>
      exact Bool.noConfusion (stopped operator rfl)

/-- A run whose operators all have a level is taken in without an error, and what is made
of it is its grouping: the one well nested expression that reads as the run. -/
theorem finish_takeIn_eq_group (first : Node) (pieces : List (Lexeme × Node))
    (levelled : ∀ piece, piece ∈ pieces → ∃ level, piece.1.terminal.level = .ok level) :
    let rest := pieces.map fun piece => (piece.1.terminal, piece.2)
    ∃ assembler, (empty.pushOperand first).takeIn pieces = .ok () assembler ∧
      assembler.finish = .ok (Run.group first rest).toNode ∧
      (Run.group first rest).reading = ⟨first, rest⟩ ∧
      (Run.group first rest).WellNested ∧
      ∀ expression : Expression, expression.reading = ⟨first, rest⟩ →
        expression.WellNested → expression = Run.group first rest := by
  intro rest
  have found (piece : Lexeme × Node) (member : piece ∈ pieces) :
      ∃ level, piece.1.terminal.level? = some level := by
    obtain ⟨level, ranked⟩ := levelled piece member
    simp only [Terminal.level] at ranked
    cases inTable : piece.1.terminal.level? with
    | none => simp [inTable] at ranked
    | some own => exact ⟨own, rfl⟩
  have restLevelled : Run.AtLeast 0 rest := by
    intro piece member
    obtain ⟨source, inPieces, rfl⟩ := List.mem_map.mp member
    obtain ⟨level, ranked⟩ := found source inPieces
    exact ⟨level, ranked, Nat.zero_le level⟩
  have read := Run.reading_group first rest
  have nested := Run.wellNested_group first rest restLevelled
  have unique (expression : Expression) (same : expression.reading = ⟨first, rest⟩)
      (wellNested : expression.WellNested) : expression = Run.group first rest :=
    Expression.eq_of_reading_eq expression _ wellNested nested (same.trans read.symm)
  obtain ⟨top, trees, operators, reached, stacked⟩ :=
    takeIn_of_stacked pieces found first [] [] _ (.single (.operand first) trivial)
  obtain ⟨tree, finished, treeRead, treeNested⟩ := finish_of_stacked _ _ _ _ stacked
  refine ⟨_, reached, ?_, read, nested, unique⟩
  rw [finished, unique tree treeRead treeNested]

/-- `a + b * (c || d) - e`, where the operand in parentheses is opaque. -/
theorem finish_takeIn_four_operands :
    let name (text : String) := Node.identifier (.bare text)
    let inner := Node.binary .or (name "c") (name "d")
    let pieces := [(Lexeme.unplaced .plus, name "b"), (Lexeme.unplaced .asterisk, inner),
      (Lexeme.unplaced .minus, name "e")]
    (∀ piece, piece ∈ pieces → ∃ level, piece.1.terminal.level = .ok level) ∧
      ∃ assembler, (empty.pushOperand (name "a")).takeIn pieces = .ok () assembler ∧
        assembler.finish = .ok (.binary .minus
          (.binary .plus (name "a") (.binary .asterisk (name "b") inner)) (name "e")) := by
  intro name inner pieces
  have levelled : ∀ piece, piece ∈ pieces → ∃ level, piece.1.terminal.level = .ok level := by
    intro piece member
    simp only [pieces, List.mem_cons, List.not_mem_nil, or_false] at member
    rcases member with rfl | rfl | rfl
    · exact ⟨2, rfl⟩
    · exact ⟨3, rfl⟩
    · exact ⟨2, rfl⟩
  obtain ⟨assembler, reached, finished, _, _, unique⟩ :=
    finish_takeIn_eq_group (name "a") pieces levelled
  let tree := Expression.joined .minus
    (.joined .plus (.operand (name "a"))
      (.joined .asterisk (.operand (name "b")) (.operand inner))) (.operand (name "e"))
  have nested : tree.WellNested := by
    refine ⟨2, rfl, ?_, ?_, ⟨2, rfl, ?_, ?_, trivial, 3, rfl, ?_, ?_, trivial, trivial⟩, trivial⟩
    all_goals
      intro level top
      cases top
    · exact Nat.le_refl 2
    · exact Nat.lt_succ_self 2
  refine ⟨levelled, assembler, reached, ?_⟩
  rw [finished, ← unique tree rfl nested]
  rfl

end Assembler
end ScriptCore
