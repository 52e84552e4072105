import Mathlib
import ScriptCore.Proofs.Number.Shortest
import ScriptCore.Proofs.Text.Quoted
import ScriptCore.Tree.Polish

set_option autoImplicit false

/-! The Polish form of a formula can be read in one way only. The text of a formula ends where the
formula ends, whatever follows behind a space or a closing parenthesis, so that two formulas with
one text are the same tree. -/

namespace ScriptCore

open Number (Stops)

/-! ### Where a word ends -/

/-- A character that does not end a word. -/
def isBare (char : Char) : Bool := char != ' ' && char != ')'

theorem word_append_inj {word word' rest rest' : List Char}
    (bare : ∀ char, char ∈ word → isBare char = true)
    (bare' : ∀ char, char ∈ word' → isBare char = true) (ends : Stops isBare rest)
    (ends' : Stops isBare rest') (same : word ++ rest = word' ++ rest') :
    word = word' ∧ rest = rest' := by
  have split := Number.span_append_of_stops bare ends
  rw [same, Number.span_append_of_stops bare' ends', Prod.mk.injEq] at split
  exact ⟨split.1.symm, split.2.symm⟩

theorem isBare_of_isPart {char : Char} (part : Number.isPart char = true) :
    isBare char = true := by
  rw [isBare, Bool.and_eq_true, bne_iff_ne, bne_iff_ne]
  constructor
  · rintro rfl
    exact absurd part (by decide)
  · rintro rfl
    exact absurd part (by decide)

/-! ### Operators -/

namespace Terminal

/-- The terminals that stand in front of operands. -/
def IsOperator (terminal : Terminal) : Prop :=
  terminal = .not ∨ terminal.isBinaryOperator = true

theorem mem_all (terminal : Terminal) : terminal ∈ all := by
  cases terminal
  all_goals decide

/-- No two terminals are spelled alike. -/
theorem spelling_injective : Function.Injective spelling := by
  intro first second same
  have distinct : (all.map spelling).Nodup := by decide
  exact List.inj_on_of_nodup_map distinct (mem_all first) (mem_all second) same

theorem IsOperator.bare {terminal : Terminal} (operator : terminal.IsOperator) :
    ∀ char, char ∈ terminal.spelling.toList → isBare char = true := by
  apply List.all_eq_true.mp
  rcases operator with rfl | binary
  · decide
  · revert binary
    cases terminal
    all_goals decide

theorem IsOperator.spelling_append_inj {first second : Terminal} (operator : first.IsOperator)
    (operator' : second.IsOperator) {rest rest' : List Char}
    (same : first.spelling.toList ++ ' ' :: rest = second.spelling.toList ++ ' ' :: rest') :
    first = second ∧ rest = rest' := by
  have space (text : List Char) : Stops isBare (' ' :: text) := Number.stops_cons rfl
  obtain ⟨words, rests⟩ := word_append_inj operator.bare operator'.bare (space rest) (space rest')
    same
  exact ⟨spelling_injective (String.toList_inj.mp words), (List.cons.inj rests).2⟩

end Terminal

/-! ### Literals -/

/-- What the first character of a text tells. -/
inductive Opening where
  | word | number | character | text | parenthesis
  deriving DecidableEq

def opening (first : Char) : Opening :=
  if first = 'n' then .word
  else if first = '\'' then .character
  else if first = '"' then .text
  else if first = '(' then .parenthesis
  else .number

theorem opening_of_isPart {first : Char} (part : Number.isPart first = true)
    (apart : first ≠ 'n') : opening first = .number := by
  have other {char : Char} (strange : Number.isPart char = false) : first ≠ char := by
    rintro rfl
    rw [part] at strange
    cases strange
  rw [opening, if_neg apart, if_neg (other rfl), if_neg (other rfl), if_neg (other rfl)]

namespace Literal

def opening : Literal → Opening
  | .null => .word
  | .number _ => .number
  | .character _ => .character
  | .text _ => .text

theorem exists_opening (value : Literal) : ∃ first rest,
    value.written = first :: rest ∧ ScriptCore.opening first = value.opening := by
  cases value with
  | null => exact ⟨'n', _, rfl, rfl⟩
  | number value =>
      obtain ⟨first, rest, text, part, apart⟩ := Number.head_write_plain (.ofFloat value)
      exact ⟨first, rest, text, opening_of_isPart part apart⟩
  | character value => exact ⟨'\'', _, rfl, rfl⟩
  | text value => exact ⟨'"', _, rfl, rfl⟩

theorem opening_eq {first second : Literal} {rest rest' : List Char}
    (same : first.written ++ rest = second.written ++ rest') : first.opening = second.opening := by
  obtain ⟨char, _, text, opens⟩ := first.exists_opening
  obtain ⟨char', _, text', opens'⟩ := second.exists_opening
  rw [text, text'] at same
  rw [← opens, ← opens', (List.cons.inj same).1]

/-- Numbers end at what follows, and everything else ends by itself. -/
theorem written_append_inj {first second : Literal} {rest rest' : List Char}
    (ends : Stops isBare rest) (ends' : Stops isBare rest')
    (same : first.written ++ rest = second.written ++ rest') : first = second ∧ rest = rest' := by
  have kinds := opening_eq same
  cases first with
  | null =>
      cases second with
      | null => exact ⟨rfl, List.append_cancel_left same⟩
      | number | character | text => cases kinds
  | number value =>
      cases second with
      | number value' =>
          have bare (number : Float) (char : Char)
              (member : char ∈ (Literal.number number).written) : isBare char = true :=
            isBare_of_isPart (Number.isPart_of_mem_write _ char member)
          obtain ⟨words, rests⟩ := word_append_inj (bare value) (bare value') ends ends' same
          exact ⟨congrArg Literal.number (Number.write_plain_injective words), rests⟩
      | null | character | text => cases kinds
  | character value =>
      cases second with
      | character value' =>
          obtain ⟨chars, rests⟩ := Text.quoted_append_inj (Or.inl rfl) same
          exact ⟨congrArg Literal.character (List.cons.inj chars).1, rests⟩
      | null | number | text => cases kinds
  | text value =>
      cases second with
      | text value' =>
          obtain ⟨chars, rests⟩ := Text.quoted_append_inj (Or.inr rfl) same
          exact ⟨congrArg Literal.text (String.toList_inj.mp chars), rests⟩
      | null | number | character => cases kinds

end Literal

/-! ### Formulas -/

namespace Node

/-- Literals joined by operators, in which every number is one. -/
inductive IsFormula : Node → Prop where
  | literal {value : Literal} (defined : ∀ number, value = .number number → number.isNaN = false) :
      IsFormula (.literal value)
  | unary {operator : Terminal} {operand : Node} (known : operator.IsOperator)
      (inner : operand.IsFormula) : IsFormula (.unary operator operand)
  | binary {operator : Terminal} {left right : Node} (known : operator.IsOperator)
      (first : left.IsFormula) (last : right.IsFormula) : IsFormula (.binary operator left right)

theorem polishBefore_literal_ne (value : Literal) (rest rest' : List Char) :
    (literal value).polishBefore rest ≠ '(' :: rest' := by
  intro same
  obtain ⟨first, _, text, opens⟩ := value.exists_opening
  rw [polishBefore, text] at same
  rw [(List.cons.inj same).1] at opens
  cases value with
  | null | number | character | text => cases opens

/-- The text of a formula determines the formula and what stands behind it. -/
theorem IsFormula.polishBefore_inj {first second : Node} (formula : first.IsFormula)
    (formula' : second.IsFormula) {rest rest' : List Char} (ends : Stops isBare rest)
    (ends' : Stops isBare rest') (same : first.polishBefore rest = second.polishBefore rest') :
    first = second ∧ rest = rest' := by
  have space (text : List Char) : Stops isBare (' ' :: text) := Number.stops_cons rfl
  have closing (text : List Char) : Stops isBare (')' :: text) := Number.stops_cons rfl
  induction formula generalizing second rest rest' with
  | literal =>
      cases formula' with
      | literal =>
          obtain ⟨values, rests⟩ := Literal.written_append_inj ends ends' same
          exact ⟨congrArg Node.literal values, rests⟩
      | unary | binary => exact absurd same (polishBefore_literal_ne _ _ _)
  | unary known inner ih =>
      cases formula' with
      | literal => exact absurd same.symm (polishBefore_literal_ne _ _ _)
      | unary known' inner' =>
          obtain ⟨rfl, operands⟩ := known.spelling_append_inj known' (List.cons.inj same).2
          obtain ⟨rfl, rests⟩ := ih inner' (closing _) (closing _) operands
          exact ⟨rfl, (List.cons.inj rests).2⟩
      | binary known' first' last' =>
          -- the first operand would end at a parenthesis and at a space
          obtain ⟨_, operands⟩ := known.spelling_append_inj known' (List.cons.inj same).2
          obtain ⟨_, rests⟩ := ih first' (closing _) (space _) operands
          exact absurd (List.cons.inj rests).1 (by decide)
  | binary known first last ihFirst ihLast =>
      cases formula' with
      | literal => exact absurd same.symm (polishBefore_literal_ne _ _ _)
      | unary known' inner' =>
          obtain ⟨_, operands⟩ := known.spelling_append_inj known' (List.cons.inj same).2
          obtain ⟨_, rests⟩ := ihFirst inner' (space _) (closing _) operands
          exact absurd (List.cons.inj rests).1 (by decide)
      | binary known' first' last' =>
          obtain ⟨rfl, operands⟩ := known.spelling_append_inj known' (List.cons.inj same).2
          obtain ⟨rfl, later⟩ := ihFirst first' (space _) (space _) operands
          obtain ⟨rfl, rests⟩ := ihLast last' (closing _) (closing _) (List.cons.inj later).2
          exact ⟨rfl, (List.cons.inj rests).2⟩

/-- Two formulas have the same text exactly when they are the same tree. -/
theorem polish_eq_iff {first second : Node} (formula : first.IsFormula)
    (formula' : second.IsFormula) : first.polish = second.polish ↔ first = second := by
  constructor
  · intro same
    have texts := String.ofList_injective same
    have nothing := Number.stops_nil isBare
    exact (formula.polishBefore_inj formula' nothing nothing texts).1
  · intro same
    rw [same]

/-- The two zeros compare equal, but a formula with the one has another text than the same formula
with the other. The parenthesis and the space in its first operand end nothing. -/
theorem polish_eq_iff_zeros :
    let formula (number : Float) : Node := .binary .minus (.literal (.text "1) 2"))
      (.unary .not (.literal (.number number)))
    (formula 0.0).IsFormula ∧ (formula (-0.0)).IsFormula ∧
      (formula 0.0).polish ≠ (formula (-0.0)).polish := by
  intro formula
  have known (number : Float) (defined : number.isNaN = false) : (formula number).IsFormula := by
    refine .binary (Or.inr rfl) (.literal ?_) (.unary (Or.inl rfl) (.literal ?_))
    · intro _ impossible
      cases impossible
    · intro _ same
      cases same
      exact defined
  have first := known 0.0 (by decide)
  have second := known (-0.0) (by decide)
  refine ⟨first, second, ?_⟩
  rw [Ne, polish_eq_iff first second]
  intro same
  injection same with _ _ operand
  injection operand with _ literal
  injection literal with value
  injection value with zeros
  exact absurd (congrArg Float.toBits zeros) (by decide)

end Node
end ScriptCore
