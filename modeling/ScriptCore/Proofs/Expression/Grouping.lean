import ScriptCore.Tree.Assembly

set_option autoImplicit false

/-! Runs of operands and binary operators, the expressions that read as a run, and the
one among them whose operators group by level. An operand is any tree, also one that is
binary itself; how an expression is built up piece by piece is not said here. -/

namespace ScriptCore

/-- An operand, and then operators with the operand behind each. -/
@[ext]
structure Run where
  first : Node
  rest : List (Terminal × Node)

namespace Run

def join (left : Run) (operator : Terminal) (right : Run) : Run :=
  ⟨left.first, left.rest ++ (operator, right.first) :: right.rest⟩

theorem join_assoc (left middle right : Run) (first second : Terminal) :
    (left.join first middle).join second right =
      left.join first (middle.join second right) := by
  simp only [join, List.append_assoc, List.cons_append]

/-- Every operator has a level, and none binds more loosely than the bound. -/
def AtLeast (bound : Nat) (pieces : List (Terminal × Node)) : Prop :=
  ∀ piece, piece ∈ pieces → ∃ level, piece.1.level? = some level ∧ bound ≤ level

theorem atLeast_append (bound : Nat) (before after : List (Terminal × Node)) :
    AtLeast bound (before ++ after) ↔ AtLeast bound before ∧ AtLeast bound after := by
  constructor
  · intro all
    exact ⟨fun piece member => all piece (List.mem_append.mpr (Or.inl member)),
      fun piece member => all piece (List.mem_append.mpr (Or.inr member))⟩
  · rintro ⟨inBefore, inAfter⟩ piece member
    rcases List.mem_append.mp member with early | late
    · exact inBefore piece early
    · exact inAfter piece late

theorem AtLeast.mono {bound lower : Nat} {pieces : List (Terminal × Node)}
    (all : AtLeast bound pieces) (below : lower ≤ bound) : AtLeast lower pieces := by
  intro piece member
  obtain ⟨level, found, bounded⟩ := all piece member
  exact ⟨level, found, Nat.le_trans below bounded⟩

/-- The place of a piece that binds at least as loosely as those before it, and more
loosely than those behind it. -/
structure Loosest (before : List (Terminal × Node)) (piece : Terminal × Node)
    (after : List (Terminal × Node)) (own : Nat) : Prop where
  level : piece.1.level? = some own
  before_atLeast : AtLeast own before
  after_atLeast : AtLeast (own + 1) after

private theorem Loosest.no_later {before after before' after' middle : List (Terminal × Node)}
    {piece piece' : Terminal × Node} {own own' : Nat}
    (left : Loosest before piece after own) (right : Loosest before' piece' after' own')
    (longer : before' = before ++ piece :: middle)
    (shorter : after = middle ++ piece' :: after') : False := by
  have inBefore : piece ∈ before' := by
    rw [longer]
    exact List.mem_append.mpr (Or.inr (List.mem_cons_self ..))
  have inAfter : piece' ∈ after := by
    rw [shorter]
    exact List.mem_append.mpr (Or.inr (List.mem_cons_self ..))
  obtain ⟨level, found, notAbove⟩ := right.before_atLeast piece inBefore
  obtain ⟨level', found', above⟩ := left.after_atLeast piece' inAfter
  have same : own = level := Option.some.inj (left.level.symm.trans found)
  have same' : own' = level' := Option.some.inj (right.level.symm.trans found')
  omega

theorem Loosest.unique {before after before' after' : List (Terminal × Node)}
    {piece piece' : Terminal × Node} {own own' : Nat}
    (left : Loosest before piece after own) (right : Loosest before' piece' after' own')
    (same : before ++ piece :: after = before' ++ piece' :: after') :
    before = before' ∧ piece = piece' ∧ after = after' := by
  rcases List.append_eq_append_iff.mp same with
    ⟨middle, longer, shorter⟩ | ⟨middle, longer, shorter⟩
  · cases middle with
    | nil =>
        simp only [List.append_nil] at longer
        simp only [List.nil_append, List.cons.injEq] at shorter
        exact ⟨longer.symm, shorter⟩
    | cons next middle =>
        simp only [List.cons_append, List.cons.injEq] at shorter
        obtain ⟨rfl, shorter⟩ := shorter
        exact (left.no_later right longer shorter).elim
  · cases middle with
    | nil =>
        simp only [List.append_nil] at longer
        simp only [List.nil_append, List.cons.injEq] at shorter
        exact ⟨longer, shorter.1.symm, shorter.2.symm⟩
    | cons next middle =>
        simp only [List.cons_append, List.cons.injEq] at shorter
        obtain ⟨rfl, shorter⟩ := shorter
        exact (right.no_later left longer shorter).elim

end Run

/-! ### Expressions over opaque operands -/

inductive Expression where
  | operand (tree : Node)
  | joined (operator : Terminal) (left right : Expression)

namespace Expression

def toNode : Expression → Node
  | .operand tree => tree
  | .joined operator left right => .binary operator left.toNode right.toNode

/-- The operands and the assembled operators from left to right. -/
def reading : Expression → Run
  | .operand tree => ⟨tree, []⟩
  | .joined operator left right => left.reading.join operator right.reading

/-- The level of the operator at the top, if the expression was assembled. -/
def level? : Expression → Option Nat
  | .operand _ => none
  | .joined operator _ _ => operator.level?

/-- Every assembled operator has a level; on its left stands nothing assembled that
binds more loosely, on its right nothing that does not bind tighter. -/
def WellNested : Expression → Prop
  | .operand _ => True
  | .joined operator left right =>
      ∃ own, operator.level? = some own ∧
        (∀ level, left.level? = some level → own ≤ level) ∧
        (∀ level, right.level? = some level → own < level) ∧
        left.WellNested ∧ right.WellNested

theorem WellNested.atLeast (expression : Expression) (nested : expression.WellNested)
    (bound : Nat) (root : ∀ level, expression.level? = some level → bound ≤ level) :
    Run.AtLeast bound expression.reading.rest := by
  induction expression generalizing bound with
  | operand tree =>
      intro piece member
      exact absurd member List.not_mem_nil
  | joined operator left right ihLeft ihRight =>
      obtain ⟨own, found, notLooser, tighter, leftNested, rightNested⟩ := nested
      have bounded : bound ≤ own := root own found
      refine (Run.atLeast_append ..).mpr ⟨?_, ?_⟩
      · apply ihLeft leftNested
        intro level top
        exact Nat.le_trans bounded (notLooser level top)
      · intro piece member
        rcases List.mem_cons.mp member with rfl | later
        · exact ⟨own, found, bounded⟩
        · refine ihRight rightNested bound ?_ piece later
          intro level top
          exact Nat.le_of_lt (Nat.lt_of_le_of_lt bounded (tighter level top))

/-- The top of a well nested expression is the last of its loosest operators. -/
theorem WellNested.loosest (operator : Terminal) (left right : Expression)
    (nested : (joined operator left right).WellNested) :
    ∃ own, Run.Loosest left.reading.rest (operator, right.reading.first)
      right.reading.rest own := by
  obtain ⟨own, found, notLooser, tighter, leftNested, rightNested⟩ := nested
  exact ⟨own, found, leftNested.atLeast left own notLooser,
    rightNested.atLeast right (own + 1) tighter⟩

theorem eq_of_reading_eq (first second : Expression) (firstNested : first.WellNested)
    (secondNested : second.WellNested) (same : first.reading = second.reading) :
    first = second := by
  induction first generalizing second with
  | operand tree =>
      cases second with
      | operand other =>
          have sameTree : tree = other := congrArg Run.first same
          rw [sameTree]
      | joined operator left right =>
          have sameRest := congrArg Run.rest same
          simp [reading, Run.join] at sameRest
  | joined operator left right ihLeft ihRight =>
      cases second with
      | operand other =>
          have sameRest := congrArg Run.rest same
          simp [reading, Run.join] at sameRest
      | joined operator' left' right' =>
          have sameFirst : left.reading.first = left'.reading.first := by
            simpa only [reading, Run.join] using congrArg Run.first same
          obtain ⟨own, place⟩ := firstNested.loosest
          obtain ⟨own', place'⟩ := secondNested.loosest
          obtain ⟨sameBefore, samePiece, sameAfter⟩ :=
            place.unique place' (congrArg Run.rest same)
          obtain ⟨sameOperator, sameOperand⟩ := Prod.mk.inj samePiece
          obtain ⟨_, _, _, _, leftNested, rightNested⟩ := firstNested
          obtain ⟨_, _, _, _, leftNested', rightNested'⟩ := secondNested
          have sameLeft : left = left' :=
            ihLeft left' leftNested leftNested' (Run.ext sameFirst sameBefore)
          have sameRight : right = right' :=
            ihRight right' rightNested rightNested' (Run.ext sameOperand sameAfter)
          rw [sameOperator, sameLeft, sameRight]

end Expression

/-! ### The grouping of a run -/

namespace Run

/-- The level of an operator; a terminal without one counts as loosest. -/
def rank (terminal : Terminal) : Nat := terminal.level?.getD 0

/-- The pieces before the last of the loosest operators, its own, and those behind it. -/
def divide : List (Terminal × Node) →
    Option (List (Terminal × Node) × (Terminal × Node) × List (Terminal × Node))
  | [] => none
  | piece :: rest =>
      match divide rest with
      | none => some ([], piece, [])
      | some (before, loosest, after) =>
          if rank loosest.1 ≤ rank piece.1 then some (piece :: before, loosest, after)
          else some ([], piece, rest)

theorem divide_eq_none_iff (pieces : List (Terminal × Node)) :
    divide pieces = none ↔ pieces = [] := by
  cases pieces with
  | nil => simp [divide]
  | cons piece rest =>
      simp only [divide, reduceCtorEq, iff_false]
      cases divide rest with
      | none => simp
      | some found =>
          obtain ⟨before, loosest, after⟩ := found
          by_cases earlier : rank loosest.1 ≤ rank piece.1
          · simp [earlier]
          · simp [earlier]

theorem eq_append_of_divide (pieces before after : List (Terminal × Node))
    (loosest : Terminal × Node) (found : divide pieces = some (before, loosest, after)) :
    pieces = before ++ loosest :: after := by
  induction pieces generalizing before loosest after with
  | nil => simp [divide] at found
  | cons piece rest ih =>
      simp only [divide] at found
      cases inRest : divide rest with
      | none =>
          have empty : rest = [] := (divide_eq_none_iff rest).mp inRest
          simp only [inRest, Option.some.injEq, Prod.mk.injEq] at found
          obtain ⟨rfl, rfl, rfl⟩ := found
          rw [empty]
          rfl
      | some division =>
          obtain ⟨before', loosest', after'⟩ := division
          rw [inRest] at found
          by_cases earlier : rank loosest'.1 ≤ rank piece.1
          · simp only [if_pos earlier, Option.some.injEq, Prod.mk.injEq] at found
            obtain ⟨rfl, rfl, rfl⟩ := found
            rw [ih before' after' loosest' inRest]
            rfl
          · simp only [if_neg earlier, Option.some.injEq, Prod.mk.injEq] at found
            obtain ⟨rfl, rfl, rfl⟩ := found
            rfl

/-- The grouping of a run: one operand as it is, a longer run parted at the last of its
loosest operators, each part grouped in the same way. -/
def group (first : Node) (pieces : List (Terminal × Node)) : Expression :=
  match _found : divide pieces with
  | none => .operand first
  | some (before, (operator, operand), after) =>
      .joined operator (group first before) (group operand after)
termination_by pieces.length
decreasing_by
  · rw [eq_append_of_divide pieces before after (operator, operand) _found,
      List.length_append, List.length_cons]
    omega
  · rw [eq_append_of_divide pieces before after (operator, operand) _found,
      List.length_append, List.length_cons]
    omega

theorem reading_group (first : Node) (pieces : List (Terminal × Node)) :
    (group first pieces).reading = ⟨first, pieces⟩ := by
  induction first, pieces using group.induct with
  | case1 first pieces found =>
      have empty : pieces = [] := (divide_eq_none_iff pieces).mp found
      subst empty
      rw [group]
      rfl
  | case2 first pieces before operator operand after found ihBefore ihAfter =>
      have parted := eq_append_of_divide pieces before after (operator, operand) found
      rw [group, found]
      simp only [Expression.reading, ihBefore, ihAfter, join, parted]

private theorem rank_eq (terminal : Terminal) (level : Nat)
    (found : terminal.level? = some level) : rank terminal = level := by
  rw [rank, found, Option.getD_some]

theorem loosest_of_divide (pieces before after : List (Terminal × Node))
    (loosest : Terminal × Node) (levelled : AtLeast 0 pieces)
    (found : divide pieces = some (before, loosest, after)) :
    ∃ own, Loosest before loosest after own := by
  induction pieces generalizing before loosest after with
  | nil => simp [divide] at found
  | cons piece rest ih =>
      obtain ⟨own, ownLevel, _⟩ := levelled piece (List.mem_cons_self ..)
      have restLevelled : AtLeast 0 rest :=
        fun other member => levelled other (List.mem_cons_of_mem piece member)
      have none (bound : Nat) : AtLeast bound [] :=
        fun _ member => absurd member List.not_mem_nil
      simp only [divide] at found
      cases inRest : divide rest with
      | none =>
          simp only [inRest, Option.some.injEq, Prod.mk.injEq] at found
          obtain ⟨rfl, rfl, rfl⟩ := found
          exact ⟨own, ownLevel, none own, none (own + 1)⟩
      | some division =>
          obtain ⟨before', loosest', after'⟩ := division
          obtain ⟨own', place⟩ := ih before' after' loosest' restLevelled inRest
          rw [inRest] at found
          simp only [rank_eq piece.1 own ownLevel, rank_eq loosest'.1 own' place.level] at found
          by_cases earlier : own' ≤ own
          · simp only [if_pos earlier, Option.some.injEq, Prod.mk.injEq] at found
            obtain ⟨rfl, rfl, rfl⟩ := found
            refine ⟨own', place.level, ?_, place.after_atLeast⟩
            intro other member
            rcases List.mem_cons.mp member with rfl | later
            · exact ⟨own, ownLevel, earlier⟩
            · exact place.before_atLeast other later
          · simp only [if_neg earlier, Option.some.injEq, Prod.mk.injEq] at found
            obtain ⟨rfl, rfl, rfl⟩ := found
            have above : own + 1 ≤ own' := Nat.lt_of_not_le earlier
            refine ⟨own, ownLevel, none own, ?_⟩
            rw [eq_append_of_divide rest before' after' loosest' inRest]
            refine (atLeast_append ..).mpr ⟨place.before_atLeast.mono above, ?_⟩
            intro other member
            rcases List.mem_cons.mp member with rfl | later
            · exact ⟨own', place.level, above⟩
            · exact place.after_atLeast.mono (Nat.le_succ_of_le above) other later

private theorem level_of_group (first : Node) (pieces : List (Terminal × Node)) (bound level : Nat)
    (bounded : AtLeast bound pieces) (top : (group first pieces).level? = some level) :
    bound ≤ level := by
  have read := reading_group first pieces
  cases grouped : group first pieces with
  | operand tree =>
      rw [grouped] at top
      cases top
  | joined operator left right =>
      rw [grouped] at top read
      have member : (operator, right.reading.first) ∈ pieces := by
        have readRest : (Expression.joined operator left right).reading.rest = pieces :=
          congrArg Run.rest read
        rw [← readRest]
        exact List.mem_append.mpr (Or.inr (List.mem_cons_self ..))
      obtain ⟨own, found, atLeast⟩ := bounded _ member
      have same : level = own := Option.some.inj (top.symm.trans found)
      rw [same]
      exact atLeast

theorem wellNested_group (first : Node) (pieces : List (Terminal × Node))
    (levelled : AtLeast 0 pieces) : (group first pieces).WellNested := by
  induction first, pieces using group.induct with
  | case1 first pieces found =>
      rw [group, found]
      exact trivial
  | case2 first pieces before operator operand after found ihBefore ihAfter =>
      obtain ⟨own, place⟩ :=
        loosest_of_divide pieces before after (operator, operand) levelled found
      rw [group, found]
      refine ⟨own, place.level, ?_, ?_, ?_, ?_⟩
      · intro level
        exact level_of_group first before own level place.before_atLeast
      · intro level
        exact level_of_group operand after (own + 1) level place.after_atLeast
      · exact ihBefore (place.before_atLeast.mono (Nat.zero_le own))
      · exact ihAfter (place.after_atLeast.mono (Nat.zero_le (own + 1)))

end Run
end ScriptCore
