import ScriptCore.Proofs.Expression.Outcomes

set_option autoImplicit false

/-! How much an assembler keeps waiting. There are five levels, and the levels of the waiting
operators rise, so there are at most five of them; if operands and operators take turns, one
operand more can wait, however long the expression is. -/

namespace ScriptCore

theorem Terminal.level_lt {terminal : Terminal} {level : Nat}
    (found : terminal.level? = some level) : level < 5 := by
  unfold level? at found
  split at found
  all_goals
    cases found
  all_goals
    decide

namespace Assembler

/-- Rising levels below a bound are no more than the bound. -/
theorem Ordered.length_le {operators : List WaitingOperator} (ordered : Ordered operators)
    {bound : Nat} (below : ∀ operator, operator ∈ operators → operator.level < bound) :
    operators.length ≤ bound := by
  induction operators generalizing bound with
  | nil => exact Nat.zero_le bound
  | cons latest operators ih =>
      have fewer : operators.length ≤ latest.level :=
        ih (ordered.drop 1) (List.pairwise_cons.mp ordered.rising).1
      have top : latest.level < bound := below latest (List.mem_cons_self ..)
      exact Nat.lt_of_le_of_lt fewer top

theorem Ordered.length_le_five {operators : List WaitingOperator} (ordered : Ordered operators) :
    operators.length ≤ 5 :=
  ordered.length_le fun operator member => Terminal.level_lt (ordered.level operator member)

/-! ### Taking turns -/

/-- Operands and operators with a level take turns. The flag tells whether an operand is next. -/
def TakeTurns : Bool → List Piece → Prop
  | _, [] => True
  | true, .operand _ :: rest => TakeTurns false rest
  | false, .operator lexeme :: rest =>
      (∃ level, lexeme.terminal.level? = some level) ∧ TakeTurns true rest
  | _, _ :: _ => False

theorem TakeTurns.of_append {operandNext : Bool} {earlier later : List Piece}
    (turns : TakeTurns operandNext (earlier ++ later)) : TakeTurns operandNext earlier := by
  induction earlier generalizing operandNext with
  | nil => exact trivial
  | cons piece earlier ih =>
      cases operandNext with
      | true =>
          cases piece with
          | operand tree => exact ih turns
          | operator lexeme => exact turns
      | false =>
          cases piece with
          | operand tree => exact turns
          | operator lexeme => exact ⟨turns.1, ih turns.2⟩

/-- The waiting operators are in order and have all their operands, but for the last one if an
operand is next. -/
structure InTurn (assembler : Assembler) (operandNext : Bool) : Prop where
  ordered : Ordered assembler.operators
  waits : assembler.pending + operandNext.toNat = assembler.operators.length + 1

namespace InTurn

variable {assembler : Assembler}

theorem pushOperand (turn : assembler.InTurn true) (tree : Node) :
    (assembler.pushOperand tree).InTurn false where
  ordered := turn.ordered
  waits := turn.waits

theorem pushOperator (turn : assembler.InTurn false) {lexeme : Lexeme} {level : Nat}
    (found : lexeme.terminal.level? = some level) :
    ∃ next, assembler.pushOperator lexeme = .ok () next ∧ next.InTurn true := by
  have waits : assembler.pending = assembler.operators.length + 1 := turn.waits
  have few : tighter assembler.operators level ≤ assembler.operators.length :=
    List.countP_le_length
  have enough : assembler.Suffices (tighter assembler.operators level) := by
    rw [Suffices, waits]
    exact Or.inr (Nat.succ_le_succ few)
  obtain ⟨joined, pushed, length⟩ := pushOperator_of_suffices turn.ordered found enough
  refine ⟨_, pushed, turn.ordered.push found, ?_⟩
  rw [pending, length, List.length_cons, List.length_drop, waits, Bool.toNat_true]
  omega

theorem takeAll {operandNext : Bool} (turn : assembler.InTurn operandNext) {pieces : List Piece}
    (turns : TakeTurns operandNext pieces) :
    ∃ next last, assembler.takeAll pieces = .ok () next ∧ next.InTurn last := by
  induction pieces generalizing assembler operandNext with
  | nil => exact ⟨assembler, operandNext, rfl, turn⟩
  | cons piece pieces ih =>
      cases operandNext with
      | true =>
          cases piece with
          | operand tree => exact ih (turn.pushOperand tree) turns
          | operator lexeme => exact turns.elim
      | false =>
          cases piece with
          | operand tree => exact turns.elim
          | operator lexeme =>
              obtain ⟨level, found⟩ := turns.1
              obtain ⟨next, pushed, turn'⟩ := turn.pushOperator found
              rw [takeAll_operator_of_ok pushed]
              exact ih turn' turns.2

theorem pending_le {operandNext : Bool} (turn : assembler.InTurn operandNext) :
    assembler.pending ≤ 6 := by
  have bounded := turn.ordered.length_le_five
  have waits := turn.waits
  omega

end InTurn

/-- Whatever was pushed before, taken in or not, the levels of the waiting operators rise towards
the latest one, and no more than five operators wait. If operands and operators took turns, no
call failed, and after none of them did more than six operands wait. -/
theorem waiting_bounded (pieces : List Piece) :
    Ordered (empty.feed pieces).operators ∧ (empty.feed pieces).operators.length ≤ 5 ∧
      (TakeTurns true pieces → ∀ earlier, earlier <+: pieces →
        empty.takeAll earlier = .ok () (empty.feed earlier) ∧
          (empty.feed earlier).pending ≤ 6) := by
  have ordered := ordered_feed ordered_empty pieces
  refine ⟨ordered, ordered.length_le_five, ?_⟩
  intro turns earlier shorter
  obtain ⟨later, rfl⟩ := shorter
  have start : empty.InTurn true := ⟨ordered_empty, rfl⟩
  obtain ⟨next, operandNext, taken, turn⟩ := start.takeAll turns.of_append
  have same : empty.feed earlier = next := feed_of_takeAll taken
  rw [same]
  exact ⟨taken, turn.pending_le⟩

/-- Each operator of `a || b == c + d * e ^ f` binds tighter than the one before it, so that all
five wait, and all six operands. -/
theorem waiting_bounded_rising :
    let name (text : String) := Piece.operand (.identifier (.bare text))
    let symbol (terminal : Terminal) := Piece.operator (.unplaced terminal)
    let pieces := [name "a", symbol .or, name "b", symbol .equal, name "c", symbol .plus, name "d",
      symbol .asterisk, name "e", symbol .caret, name "f"]
    TakeTurns true pieces ∧ (empty.feed pieces).operators.length = 5 ∧
      (empty.feed pieces).pending = 6 := by
  intro name symbol pieces
  have turns : TakeTurns true pieces :=
    ⟨⟨0, rfl⟩, ⟨1, rfl⟩, ⟨2, rfl⟩, ⟨3, rfl⟩, ⟨4, rfl⟩, trivial⟩
  obtain ⟨_, few, bounded⟩ := waiting_bounded pieces
  obtain ⟨_, most⟩ := bounded turns pieces (List.prefix_refl pieces)
  exact ⟨turns, Nat.le_antisymm few (by decide), Nat.le_antisymm most (by decide)⟩

end Assembler
end ScriptCore
