import ScriptCore.Tree.Assembly

set_option autoImplicit false

/-! Assemblers that are fed with operands and operators in any order and go on after errors. The
levels of the waiting operators rise towards the latest one, so those that a new operator joins
are the latest, and only their number and that of the operands decide how joining ends. -/

namespace ScriptCore

/-- What an assembler is fed with. -/
inductive Piece where
  | operand (tree : Node)
  | operator (lexeme : Lexeme)

namespace Assembler

def take (assembler : Assembler) : Piece → Outcome
  | .operand tree => .ok () (assembler.pushOperand tree)
  | .operator lexeme => assembler.pushOperator lexeme

/-- What a piece leaves behind, taken in or not. -/
def afterPiece (assembler : Assembler) (piece : Piece) : Assembler :=
  match assembler.take piece with
  | .ok _ next => next
  | .error _ next => next

/-- What all pieces leave behind, whichever of them were taken in. -/
def feed (assembler : Assembler) (pieces : List Piece) : Assembler :=
  pieces.foldl afterPiece assembler

/-- Takes in pieces up to the first error. -/
def takeAll (assembler : Assembler) : List Piece → Outcome
  | [] => .ok () assembler
  | piece :: rest =>
      match assembler.take piece with
      | .ok _ next => next.takeAll rest
      | .error error next => .error error next

variable {assembler next : Assembler}

theorem afterPiece_operand (assembler : Assembler) (tree : Node) :
    assembler.afterPiece (.operand tree) = assembler.pushOperand tree := rfl

theorem afterPiece_of_ok {lexeme : Lexeme} (pushed : assembler.pushOperator lexeme = .ok () next) :
    assembler.afterPiece (.operator lexeme) = next := by
  rw [afterPiece, take, pushed]

theorem afterPiece_of_error {lexeme : Lexeme} {error : SyntaxError}
    (failed : assembler.pushOperator lexeme = .error error next) :
    assembler.afterPiece (.operator lexeme) = next := by
  rw [afterPiece, take, failed]

theorem takeAll_operator_of_ok {lexeme : Lexeme}
    (pushed : assembler.pushOperator lexeme = .ok () next) (rest : List Piece) :
    assembler.takeAll (.operator lexeme :: rest) = next.takeAll rest := by
  rw [takeAll, take, pushed]

theorem feed_of_takeAll {pieces : List Piece} (taken : assembler.takeAll pieces = .ok () next) :
    assembler.feed pieces = next := by
  induction pieces generalizing assembler with
  | nil =>
      cases taken
      rfl
  | cons piece pieces ih =>
      cases taken' : assembler.take piece with
      | ok _ middle =>
          rw [takeAll, taken'] at taken
          rw [feed, List.foldl_cons, afterPiece, taken']
          exact ih taken
      | error error middle =>
          rw [takeAll, taken'] at taken
          cases taken

/-! ### Joining in numbers -/

section Joining

variable {passes : Nat → Bool} {operators : List WaitingOperator}

/-- No operator passes that waits below one that does not. -/
def PassLatest (passes : Nat → Bool) (operators : List WaitingOperator) : Prop :=
  operators.Pairwise fun later earlier => passes earlier.level = true → passes later.level = true

/-- How many of the waiting operators pass. -/
def passing (passes : Nat → Bool) (operators : List WaitingOperator) : Nat :=
  operators.countP fun operator => passes operator.level

theorem passing_cons_of_pos {operator : WaitingOperator} (pass : passes operator.level = true) :
    passing passes (operator :: operators) = passing passes operators + 1 := by
  exact List.countP_cons_of_pos pass

theorem passing_eq_zero {operator : WaitingOperator}
    (latest : PassLatest passes (operator :: operators)) (stop : passes operator.level = false) :
    passing passes (operator :: operators) = 0 := by
  rw [passing, List.countP_eq_zero]
  intro other member pass
  rcases List.mem_cons.mp member with same | earlier
  · rw [same, stop] at pass
    cases pass
  · have also := (List.pairwise_cons.mp latest).1 other earlier pass
    rw [stop] at also
    cases also

/-- Operators that pass need one operand more than they are; each of them uses up one. -/
theorem join_of_enough (latest : PassLatest passes operators) (operands : List Node)
    (enough : passing passes operators = 0 ∨ passing passes operators + 1 ≤ operands.length) :
    ∃ joined, join passes operands operators =
        .ok () ⟨joined, operators.drop (passing passes operators)⟩ ∧
      joined.length = operands.length - passing passes operators := by
  induction operators generalizing operands with
  | nil => exact ⟨operands, rfl, rfl⟩
  | cons operator operators ih =>
      cases pass : passes operator.level with
      | false =>
          rw [passing_eq_zero latest pass]
          refine ⟨operands, ?_, rfl⟩
          simp only [join, pass]
          rfl
      | true =>
          rw [passing_cons_of_pos pass] at enough ⊢
          have several : passing passes operators + 1 + 1 ≤ operands.length :=
            enough.resolve_left (Nat.succ_ne_zero _)
          match operands with
          | [] => exact absurd several (Nat.not_succ_le_zero _)
          | [_] => exact absurd (Nat.le_of_succ_le_succ several) (Nat.not_succ_le_zero _)
          | right :: left :: rest =>
              have fewer := Nat.le_of_succ_le_succ several
              obtain ⟨joined, reached, length⟩ := ih (List.pairwise_cons.mp latest).2
                (.binary operator.lexeme.terminal left right :: rest) (Or.inr fewer)
              refine ⟨joined, ?_, ?_⟩
              · simp only [join, pass, if_true]
                exact reached
              · rw [length]
                simp only [List.length_cons]
                omega

/-- With too few operands joining ends at an operator that lacks one. Before it, each operand but
the first was used up by one operator. -/
theorem join_of_few (latest : PassLatest passes operators) (operands : List Node)
    (passed : passing passes operators ≠ 0) (few : operands.length ≤ passing passes operators) :
    ∃ operator, operators[max operands.length 1 - 1]? = some operator ∧
      join passes operands operators =
        .error ⟨.missingOperand operator.lexeme.terminal, operator.lexeme.span⟩
          ⟨[], operators.drop (max operands.length 1)⟩ := by
  induction operators generalizing operands with
  | nil => exact absurd rfl passed
  | cons operator operators ih =>
      cases pass : passes operator.level with
      | false => exact absurd (passing_eq_zero latest pass) passed
      | true =>
          rw [passing_cons_of_pos pass] at few
          match operands with
          | [] =>
              refine ⟨operator, rfl, ?_⟩
              simp only [join, pass, if_true]
              rfl
          | [_] =>
              refine ⟨operator, rfl, ?_⟩
              simp only [join, pass, if_true]
              rfl
          | right :: left :: rest =>
              have fewer : rest.length + 1 ≤ passing passes operators := Nat.le_of_succ_le_succ few
              obtain ⟨lacking, found, reached⟩ := ih (List.pairwise_cons.mp latest).2
                (.binary operator.lexeme.terminal left right :: rest)
                (Nat.ne_of_gt (Nat.lt_of_lt_of_le (Nat.succ_pos _) fewer)) fewer
              have one : max (rest.length + 1) 1 = rest.length + 1 :=
                Nat.max_eq_left (Nat.succ_le_succ (Nat.zero_le _))
              have two : max (rest.length + 1 + 1) 1 = rest.length + 1 + 1 :=
                Nat.max_eq_left (Nat.succ_le_succ (Nat.zero_le _))
              simp only [List.length_cons, one, two, Nat.add_sub_cancel, List.drop_succ_cons]
                at found reached ⊢
              refine ⟨lacking, found, ?_⟩
              simp only [join, pass, if_true]
              exact reached

/-- However joining ends, the operators that still wait are the earliest ones. -/
theorem exists_drop_of_join (latest : PassLatest passes operators) (operands : List Node) :
    (∃ joined, join passes operands operators =
        .ok () ⟨joined, operators.drop (passing passes operators)⟩) ∨
      ∃ error count, join passes operands operators = .error error ⟨[], operators.drop count⟩ := by
  by_cases enough : passing passes operators = 0 ∨
      passing passes operators + 1 ≤ operands.length
  · obtain ⟨joined, reached, _⟩ := join_of_enough latest operands enough
    exact Or.inl ⟨joined, reached⟩
  · have few : passing passes operators ≠ 0 ∧ operands.length ≤ passing passes operators := by
      omega
    obtain ⟨_, _, reached⟩ := join_of_few latest operands few.1 few.2
    exact Or.inr ⟨_, _, reached⟩

theorem passing_all (operators : List WaitingOperator) :
    passing (fun _ => true) operators = operators.length :=
  congrFun List.countP_true operators

theorem passLatest_all (operators : List WaitingOperator) :
    PassLatest (fun _ => true) operators :=
  List.pairwise_of_forall fun _ _ pass => pass

/-- If every operator passes and joining succeeds, none still waits. -/
theorem operators_of_join_all {operands : List Node} {rest : Assembler}
    (reached : join (fun _ => true) operands operators = .ok () rest) : rest.operators = [] := by
  rcases exists_drop_of_join (passLatest_all operators) operands with
    ⟨joined, done⟩ | ⟨error, count, failed⟩
  · rw [reached, passing_all, List.drop_length] at done
    cases done
    rfl
  · rw [reached] at failed
    cases failed

end Joining

/-! ### The order of the waiting operators -/

/-- Each waiting operator has its own level, and the levels rise towards the latest one. -/
structure Ordered (operators : List WaitingOperator) : Prop where
  level : ∀ operator, operator ∈ operators →
    operator.lexeme.terminal.level? = some operator.level
  rising : operators.Pairwise fun later earlier => earlier.level < later.level

/-- How many waiting operators bind at least as tightly as the level. -/
def tighter (operators : List WaitingOperator) (level : Nat) : Nat :=
  passing (fun waiting => decide (level ≤ waiting)) operators

namespace Ordered

variable {operators : List WaitingOperator} (ordered : Ordered operators)

include ordered

theorem drop (count : Nat) : Ordered (operators.drop count) where
  level := fun operator member => ordered.level operator (List.mem_of_mem_drop member)
  rising := ordered.rising.drop

theorem passLatest (level : Nat) :
    PassLatest (fun waiting => decide (level ≤ waiting)) operators := by
  apply ordered.rising.imp
  intro later earlier less pass
  rw [decide_eq_true_eq] at pass ⊢
  exact Nat.le_trans pass (Nat.le_of_lt less)

/-- What a new operator leaves waiting binds more loosely. -/
theorem lt_of_mem_drop {level : Nat} {operator : WaitingOperator}
    (member : operator ∈ operators.drop (tighter operators level)) : operator.level < level := by
  induction operators with
  | nil => exact absurd member List.not_mem_nil
  | cons latest operators ih =>
      -- the first operator that is not joined bounds all those below it
      have earlier : Ordered operators := ordered.drop 1
      cases pass : decide (level ≤ latest.level) with
      | true =>
          rw [tighter, passing_cons_of_pos pass, List.drop_succ_cons] at member
          exact ih earlier member
      | false =>
          rw [tighter, passing_eq_zero (ordered.passLatest level) pass, List.drop_zero] at member
          have looser : latest.level < level := Nat.lt_of_not_le (of_decide_eq_false pass)
          rcases List.mem_cons.mp member with same | later
          · rw [same]
            exact looser
          · exact Nat.lt_trans ((List.pairwise_cons.mp ordered.rising).1 operator later) looser

theorem push {lexeme : Lexeme} {level : Nat} (found : lexeme.terminal.level? = some level) :
    Ordered (⟨lexeme, level⟩ :: operators.drop (tighter operators level)) where
  level := by
    intro operator member
    rcases List.mem_cons.mp member with same | earlier
    · rw [same]
      exact found
    · exact (ordered.drop _).level operator earlier
  rising := List.pairwise_cons.mpr
    ⟨fun _ member => ordered.lt_of_mem_drop member, (ordered.drop _).rising⟩

end Ordered

theorem pushOperator_of_no_level (assembler : Assembler) {lexeme : Lexeme}
    (missing : lexeme.terminal.level? = none) :
    assembler.pushOperator lexeme =
      .error ⟨.unexpected lexeme.terminal, lexeme.span⟩ assembler := by
  simp only [pushOperator, Terminal.level, missing]

section PushOperator

variable {lexeme : Lexeme} {level : Nat}

theorem pushOperator_of_join (found : lexeme.terminal.level? = some level) {joined : List Node}
    {waiting : List WaitingOperator}
    (reached : join (fun waiting => decide (level ≤ waiting)) assembler.operands
      assembler.operators = .ok () ⟨joined, waiting⟩) :
    assembler.pushOperator lexeme = .ok () ⟨joined, ⟨lexeme, level⟩ :: waiting⟩ := by
  simp only [pushOperator, Terminal.level, found, reached]

theorem pushOperator_of_join_error (found : lexeme.terminal.level? = some level)
    {error : SyntaxError} {rest : Assembler}
    (failed : join (fun waiting => decide (level ≤ waiting)) assembler.operands
      assembler.operators = .error error rest) :
    assembler.pushOperator lexeme = .error error rest := by
  simp only [pushOperator, Terminal.level, found, failed]

end PushOperator

theorem ordered_afterPiece (ordered : Ordered assembler.operators) (piece : Piece) :
    Ordered (assembler.afterPiece piece).operators := by
  cases piece with
  | operand tree =>
      rw [afterPiece_operand]
      exact ordered
  | operator lexeme =>
      cases found : lexeme.terminal.level? with
      | none =>
          rw [afterPiece_of_error (assembler.pushOperator_of_no_level found)]
          exact ordered
      | some level =>
          rcases exists_drop_of_join (ordered.passLatest level) assembler.operands with
            ⟨joined, reached⟩ | ⟨error, count, failed⟩
          · rw [afterPiece_of_ok (pushOperator_of_join found reached)]
            exact ordered.push found
          · rw [afterPiece_of_error (pushOperator_of_join_error found failed)]
            exact ordered.drop count

/-- Whatever an assembler was fed with, taken in or not, its waiting operators are in order. -/
theorem ordered_feed (ordered : Ordered assembler.operators) (pieces : List Piece) :
    Ordered (assembler.feed pieces).operators := by
  unfold feed
  induction pieces generalizing assembler with
  | nil => exact ordered
  | cons piece pieces ih => exact ih (ordered_afterPiece ordered piece)

theorem ordered_empty : Ordered empty.operators where
  level := fun _ member => absurd member List.not_mem_nil
  rising := List.Pairwise.nil

end Assembler
end ScriptCore
