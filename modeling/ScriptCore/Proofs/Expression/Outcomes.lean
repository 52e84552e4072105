import ScriptCore.Proofs.Expression.Feeding

set_option autoImplicit false

/-! How each step of an assembler ends, told from two numbers: how many operands wait and how many
of the waiting operators are joined. This holds whatever the assembler was fed with before, also
after errors, which use up operands and operators on the way. -/

namespace ScriptCore.Assembler

/-- The operator at which joining ends for want of an operand: from the latest on it comes as late
as there are operands, and it is the latest one if there is no operand. -/
def lacking? (assembler : Assembler) : Option WaitingOperator :=
  assembler.operators[max assembler.pending 1 - 1]?

/-- Each operator needs two operands and leaves one, so together they need one more than they
are. -/
def Suffices (assembler : Assembler) (joined : Nat) : Prop :=
  joined = 0 ∨ joined + 1 ≤ assembler.pending

/-- How taking in an operator ends. -/
structure PushesExactly (assembler : Assembler) (lexeme : Lexeme) : Prop where
  unexpected : lexeme.terminal.level? = none → assembler.pushOperator lexeme =
    .error ⟨.unexpected lexeme.terminal, lexeme.span⟩ assembler
  succeeds : ∀ level, lexeme.terminal.level? = some level →
    ((∃ next, assembler.pushOperator lexeme = .ok () next) ↔
      assembler.Suffices (tighter assembler.operators level))
  taken : ∀ level next, lexeme.terminal.level? = some level →
    assembler.pushOperator lexeme = .ok () next →
      next.pending = assembler.pending - tighter assembler.operators level ∧
      next.operators =
        ⟨lexeme, level⟩ :: assembler.operators.drop (tighter assembler.operators level) ∧
      next.operators.length =
        assembler.operators.length - tighter assembler.operators level + 1
  lacks : ∀ level, lexeme.terminal.level? = some level →
    ¬ assembler.Suffices (tighter assembler.operators level) →
      ∃ operator next, assembler.lacking? = some operator ∧
        assembler.pushOperator lexeme =
          .error ⟨.missingOperand operator.lexeme.terminal, operator.lexeme.span⟩ next ∧
        next.pending = 0 ∧
        next.operators = assembler.operators.drop (max assembler.pending 1) ∧
        next.operators.length = assembler.operators.length - max assembler.pending 1

/-- How the end of an expression ends. -/
structure FinishesExactly (assembler : Assembler) : Prop where
  succeeds : (∃ tree, assembler.finish = .ok tree) ↔
    assembler.pending = assembler.operators.length + 1
  empty : assembler.finish = .error ⟨.emptyExpression, Span.nowhere⟩ ↔
    assembler.pending = 0 ∧ assembler.operators.length = 0
  extra : assembler.finish = .error ⟨.extraOperand, Span.nowhere⟩ ↔
    assembler.operators.length + 1 < assembler.pending
  lacks : 1 ≤ assembler.operators.length → assembler.pending ≤ assembler.operators.length →
    ∃ operator, assembler.lacking? = some operator ∧
      assembler.finish = .error ⟨.missingOperand operator.lexeme.terminal, operator.lexeme.span⟩

variable {assembler : Assembler}

/-! ### Taking in an operator -/

section Push

variable (ordered : Ordered assembler.operators) {lexeme : Lexeme} {level : Nat}
  (found : lexeme.terminal.level? = some level)

include ordered found

theorem pushOperator_of_suffices
    (enough : assembler.Suffices (tighter assembler.operators level)) :
    ∃ joined, assembler.pushOperator lexeme = .ok () ⟨joined,
        ⟨lexeme, level⟩ :: assembler.operators.drop (tighter assembler.operators level)⟩ ∧
      joined.length = assembler.pending - tighter assembler.operators level := by
  obtain ⟨joined, reached, length⟩ :=
    join_of_enough (ordered.passLatest level) assembler.operands enough
  exact ⟨joined, pushOperator_of_join found reached, length⟩

theorem pushOperator_of_not_suffices
    (few : ¬ assembler.Suffices (tighter assembler.operators level)) :
    ∃ operator, assembler.lacking? = some operator ∧ assembler.pushOperator lexeme =
      .error ⟨.missingOperand operator.lexeme.terminal, operator.lexeme.span⟩
        ⟨[], assembler.operators.drop (max assembler.pending 1)⟩ := by
  rw [Suffices, not_or, Nat.not_le] at few
  obtain ⟨operator, lacking, failed⟩ := join_of_few (ordered.passLatest level) assembler.operands
    few.1 (Nat.le_of_lt_succ few.2)
  exact ⟨operator, lacking, pushOperator_of_join_error found failed⟩

end Push

theorem pushesExactly (ordered : Ordered assembler.operators) (lexeme : Lexeme) :
    assembler.PushesExactly lexeme where
  unexpected := assembler.pushOperator_of_no_level
  succeeds := by
    intro level found
    constructor
    · intro succeeded
      obtain ⟨next, pushed⟩ := succeeded
      apply Classical.byContradiction
      intro few
      obtain ⟨_, _, failed⟩ := pushOperator_of_not_suffices ordered found few
      rw [pushed] at failed
      cases failed
    · intro enough
      obtain ⟨joined, pushed, _⟩ := pushOperator_of_suffices ordered found enough
      exact ⟨_, pushed⟩
  taken := by
    intro level next found pushed
    by_cases enough : assembler.Suffices (tighter assembler.operators level)
    · obtain ⟨joined, reached, length⟩ := pushOperator_of_suffices ordered found enough
      rw [pushed] at reached
      cases reached
      refine ⟨length, rfl, ?_⟩
      rw [List.length_cons, List.length_drop]
    · obtain ⟨_, _, failed⟩ := pushOperator_of_not_suffices ordered found enough
      rw [pushed] at failed
      cases failed
  lacks := by
    intro level found few
    obtain ⟨operator, lacking, failed⟩ := pushOperator_of_not_suffices ordered found few
    exact ⟨operator, _, lacking, failed, rfl, rfl, List.length_drop⟩

/-! ### The end of an expression -/

/-- Which of the four ends it is depends on the two numbers alone. -/
theorem finish_cases (assembler : Assembler) :
    (assembler.pending = assembler.operators.length + 1 ∧
        ∃ tree, assembler.finish = .ok tree) ∨
      (assembler.pending = 0 ∧ assembler.operators.length = 0 ∧
        assembler.finish = .error ⟨.emptyExpression, Span.nowhere⟩) ∨
      (assembler.operators.length + 1 < assembler.pending ∧
        assembler.finish = .error ⟨.extraOperand, Span.nowhere⟩) ∨
      (1 ≤ assembler.operators.length ∧ assembler.pending ≤ assembler.operators.length ∧
        ∃ operator, assembler.lacking? = some operator ∧ assembler.finish =
          .error ⟨.missingOperand operator.lexeme.terminal, operator.lexeme.span⟩) := by
  have all := passing_all assembler.operators
  by_cases enough : assembler.Suffices assembler.operators.length
  · rw [Suffices, ← all] at enough
    obtain ⟨joined, reached, length⟩ :=
      join_of_enough (passLatest_all assembler.operators) assembler.operands enough
    rw [all] at enough length
    change joined.length = assembler.pending - assembler.operators.length at length
    rw [finish, reached]
    match joined with
    | [] =>
        rw [List.length_nil] at length
        exact Or.inr (Or.inl ⟨by omega, by omega, rfl⟩)
    | [tree] =>
        rw [List.length_singleton] at length
        exact Or.inl ⟨by omega, tree, rfl⟩
    | _ :: _ :: rest =>
        rw [List.length_cons, List.length_cons] at length
        exact Or.inr (Or.inr (Or.inl ⟨by omega, rfl⟩))
  · rw [Suffices, not_or, Nat.not_le] at enough
    obtain ⟨several, few⟩ := enough
    have few : assembler.pending ≤ assembler.operators.length := Nat.le_of_lt_succ few
    have several' : passing (fun _ => true) assembler.operators ≠ 0 := by
      rw [all]
      exact several
    have few' : assembler.operands.length ≤ passing (fun _ => true) assembler.operators := by
      rw [all]
      exact few
    obtain ⟨operator, lacking, failed⟩ :=
      join_of_few (passLatest_all assembler.operators) assembler.operands several' few'
    refine Or.inr (Or.inr (Or.inr ⟨Nat.pos_of_ne_zero several, few, operator, lacking, ?_⟩))
    rw [finish, failed]

theorem finishesExactly (assembler : Assembler) : assembler.FinishesExactly where
  succeeds := by
    rcases assembler.finish_cases with
      ⟨count, tree, done⟩ | ⟨none, bare, done⟩ | ⟨many, done⟩ | ⟨waits, few, operator, _, done⟩
    · exact ⟨fun _ => count, fun _ => ⟨tree, done⟩⟩
    all_goals
      simp only [done, reduceCtorEq, exists_false, false_iff]
      omega
  empty := by
    rcases assembler.finish_cases with
      ⟨count, tree, done⟩ | ⟨none, bare, done⟩ | ⟨many, done⟩ | ⟨waits, few, operator, _, done⟩
    · simp only [done, reduceCtorEq, false_iff]
      omega
    · exact ⟨fun _ => ⟨none, bare⟩, fun _ => done⟩
    all_goals
      simp only [done, Except.error.injEq, SyntaxError.mk.injEq, reduceCtorEq, false_and, false_iff]
      omega
  extra := by
    rcases assembler.finish_cases with
      ⟨count, tree, done⟩ | ⟨none, bare, done⟩ | ⟨many, done⟩ | ⟨waits, few, operator, _, done⟩
    · simp only [done, reduceCtorEq, false_iff]
      omega
    · simp only [done, Except.error.injEq, SyntaxError.mk.injEq, reduceCtorEq, false_and, false_iff]
      omega
    · exact ⟨fun _ => many, fun _ => done⟩
    · simp only [done, Except.error.injEq, SyntaxError.mk.injEq, reduceCtorEq, false_and, false_iff]
      omega
  lacks := by
    intro waits few
    rcases assembler.finish_cases with
      ⟨count, _⟩ | ⟨_, bare, _⟩ | ⟨many, _⟩ | ⟨_, _, operator, lacking, done⟩
    · omega
    · omega
    · omega
    · exact ⟨operator, lacking, done⟩

/-- Whatever was pushed before, in whichever order and with whichever errors, the numbers of
operands and operators that wait decide how each call ends, what it reports and how many of them
it leaves. -/
theorem calls_exact (pieces : List Piece) :
    (∀ lexeme, (empty.feed pieces).PushesExactly lexeme) ∧ (empty.feed pieces).FinishesExactly :=
  ⟨pushesExactly (ordered_feed ordered_empty pieces), finishesExactly (empty.feed pieces)⟩

/-- After `1 + ^`, neither operator has its operands. The error at `==` uses up `^` and the only
operand, so the end of the expression is left to report `+`. -/
theorem calls_exact_damaged :
    let pieces := [.operand Node.null, .operator ⟨.plus, ⟨2, 3⟩⟩, .operator ⟨.caret, ⟨4, 5⟩⟩]
    let assembler := empty.feed pieces
    let damaged := empty.feed (pieces ++ [.operator ⟨.equal, ⟨6, 8⟩⟩])
    assembler.pushOperator ⟨.equal, ⟨6, 8⟩⟩ =
        .error ⟨.missingOperand .caret, ⟨4, 5⟩⟩ damaged ∧
      damaged.pending = 0 ∧ damaged.operators.length = 1 ∧
      damaged.finish = .error ⟨.missingOperand .plus, ⟨2, 3⟩⟩ := by
  intro pieces assembler damaged
  have few : ¬ assembler.Suffices (tighter assembler.operators 1) := by
    rw [Suffices]
    decide
  obtain ⟨operator, next, lacking, failed, none, _, count⟩ :=
    ((calls_exact pieces).1 ⟨.equal, ⟨6, 8⟩⟩).lacks 1 rfl few
  have waits : 1 ≤ damaged.operators.length := by decide
  have bare : damaged.pending ≤ damaged.operators.length := by decide
  obtain ⟨operator', lacking', failed'⟩ := (calls_exact _).2.lacks waits bare
  have same : next = damaged := (afterPiece_of_error failed).symm
  cases lacking
  cases lacking'
  rw [same] at failed none count
  exact ⟨failed, none, count, failed'⟩

end ScriptCore.Assembler
