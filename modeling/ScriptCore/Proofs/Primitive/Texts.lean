import ScriptCore.Proofs.Heap.Works

set_option autoImplicit false

/-! Texts on the heap: the characters that a collection begins with, and the cells of a new
collection. -/

namespace ScriptCore.Heap

/-! ### The characters in front -/

/-- The characters that the elements begin with, up to the first element that holds something
else. -/
inductive Spells (heap : Heap) : List Address → List Char → Prop where
  | done : Spells heap [] []
  | stop {element : Address} {rest : List Address} {cell : Cell}
      (found : heap.cell? element = some cell) (other : ∀ char, cell.value ≠ .character char) :
      Spells heap (element :: rest) []
  | step {element : Address} {rest : List Address} {cell : Cell} {char : Char} {chars : List Char}
      (found : heap.cell? element = some cell) (holds : cell.value = .character char)
      (later : Spells heap rest chars) : Spells heap (element :: rest) (char :: chars)

theorem leadingText_eq {heap : Heap} {elements : List Address} {text : List Char}
    (spells : Spells heap elements text) : Primitive.leadingText heap elements = text := by
  induction spells with
  | done => rfl
  | @stop element rest cell found other =>
      have nothing : (heap.cell? element).bind (·.value.character?) = none := by
        rw [found, Option.bind_some]
        cases holds : cell.value with
        | character char => exact absurd holds (other char)
        | null | number | collection | record => rfl
      rw [Primitive.leadingText, List.map_cons, nothing, List.takeWhile_cons_of_neg (by simp)]
      rfl
  | @step element rest cell char chars found holds later ih =>
      have read : (heap.cell? element).bind (·.value.character?) = some char := by
        rw [found, Option.bind_some, holds]
        rfl
      rw [Primitive.leadingText, List.map_cons, read, List.takeWhile_cons_of_pos rfl,
        ← ih]
      rfl

theorem exists_spells {heap : Heap} {first : Option Address} {elements : List Address}
    (chain : Chain heap first elements) : ∃ text, Spells heap elements text := by
  induction chain with
  | nil => exact ⟨[], .done⟩
  | cons address cell elements found _ ih =>
      obtain ⟨text, spells⟩ := ih
      cases holds : cell.value with
      | character char => exact ⟨char :: text, .step found holds spells⟩
      | null | number | collection | record =>
          exact ⟨[], .stop found fun char impossible => by rw [holds] at impossible; cases impossible⟩

/-! ### A new collection -/

/-- Each cell holds one of the values, and nothing holds the cell. -/
inductive Hold (heap : Heap) : List Address → List Value → Prop where
  | nil : Hold heap [] []
  | cons {address : Address} {next : Option Address} {value : Value} {addresses : List Address}
      {values : List Value} (found : heap.cell? address = some ⟨value, next, 0⟩)
      (rest : Hold heap addresses values) : Hold heap (address :: addresses) (value :: values)

theorem Hold.grows {before after : Heap} {addresses : List Address} {values : List Value}
    (hold : Hold before addresses values) (grows : Grows before after) :
    Hold after addresses values := by
  induction hold with
  | nil => exact .nil
  | cons found _ ih => exact .cons (grows _ _ found) ih

theorem Hold.spells {heap : Heap} {addresses : List Address} {chars : List Char}
    (hold : Hold heap addresses (chars.map Value.character)) : Spells heap addresses chars := by
  induction chars generalizing addresses with
  | nil =>
      cases hold
      exact .done
  | cons char chars ih =>
      cases hold with
      | cons found rest => exact .step found rfl (ih rest)

section Building

variable {heap : Heap} (listed : heap.FreeListed)

include listed

private theorem hold_of_chain (values : List Value) {elements : List Address}
    (chain : Chain (heap.allocateChain values).2 (heap.allocateChain values).1 elements) :
    Hold (heap.allocateChain values).2 elements values := by
  induction values generalizing elements with
  | nil =>
      cases chain
      exact .nil
  | cons value rest ih =>
      obtain ⟨later, adds, before, _⟩ := adds_allocateChain listed rest
      have listed' := adds.works.freeListed listed
      have grows := listed'.grows_allocate value (heap.allocateChain rest).1
      let start := (heap.allocateChain rest).2
      let next := (heap.allocateChain rest).1
      have fresh : (start.allocate value next).2.cell? (start.allocate value next).1 =
          some ⟨value, next, 0⟩ := cell?_fresh listed'
      have whole := Chain.cons _ _ _ fresh (before.grows grows)
      rw [chain.unique whole]
      exact .cons fresh ((ih before).grows grows)

/-- The elements of a new collection hold its values in order, and nothing holds any of its
cells. -/
theorem newCollection_holds (values : List Value) : ∃ first elements,
    Adds heap (elements.reverse ++ [(heap.newCollection values).1]) (heap.newCollection values).2 ∧
      (heap.newCollection values).2.cell? (heap.newCollection values).1 =
        some ⟨.collection first, none, 0⟩ ∧
      Chain (heap.newCollection values).2 first elements ∧
        Hold (heap.newCollection values).2 elements values := by
  obtain ⟨elements, adds, chain, _⟩ := adds_allocateChain listed values
  have listed' := adds.works.freeListed listed
  have hold := hold_of_chain listed _ chain
  have grows := listed'.grows_allocate (.collection (heap.allocateChain values).1) none
  exact ⟨_, elements, adds.trans (.cell _ _), cell?_fresh listed', chain.grows grows,
    hold.grows grows⟩

/-- A new text is a collection that spells it, and nothing holds any of its cells. -/
theorem newText_spells (chars : List Char) : ∃ first elements,
    Adds heap (elements.reverse ++ [(heap.newText chars).1]) (heap.newText chars).2 ∧
      (heap.newText chars).2.cell? (heap.newText chars).1 = some ⟨.collection first, none, 0⟩ ∧
        Chain (heap.newText chars).2 first elements ∧
          Spells (heap.newText chars).2 elements chars := by
  obtain ⟨first, elements, adds, found, chain, hold⟩ :=
    newCollection_holds listed (chars.map Value.character)
  exact ⟨first, elements, adds, found, chain, hold.spells⟩

end Building

end ScriptCore.Heap
