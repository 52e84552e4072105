import ScriptCore.Heap.Collection
import ScriptCore.Proofs.Heap.Work
import ScriptCore.Proofs.Ownership.Basic

set_option autoImplicit false

/-! The elements of a collection as a chain of live cells. A chain that comes to an end is the
only one, passes no cell twice, and is what a walk finds. -/

namespace ScriptCore.Heap

open Links

/-- The elements that start with the given one, if there is one, each followed by the next. -/
inductive Chain (heap : Heap) : Option Address → List Address → Prop where
  | nil : Chain heap none []
  | cons (address : Address) (cell : Cell) (elements : List Address)
      (found : heap.cell? address = some cell) (rest : Chain heap cell.next elements) :
      Chain heap (some address) (address :: elements)

variable {heap : Heap} {first : Option Address} {elements : List Address}

theorem chain_of_follow (length : Nat) (followed : heap.follow length first = .ok elements) :
    Chain heap first elements := by
  induction length generalizing first elements with
  | zero =>
      cases first with
      | none =>
          cases followed
          exact .nil
      | some address => cases followed
  | succ length ih =>
      cases first with
      | none =>
          cases followed
          exact .nil
      | some address =>
          rw [follow] at followed
          cases found : heap.cell? address with
          | none =>
              rw [Heap.cell, found] at followed
              cases followed
          | some cell =>
              rw [Heap.cell, found] at followed
              change (do
                let rest ← heap.follow length cell.next
                Except.ok (address :: rest)) = _ at followed
              cases later : heap.follow length cell.next with
              | error fault =>
                  rw [later] at followed
                  cases followed
              | ok rest =>
                  rw [later] at followed
                  cases followed
                  exact .cons address cell rest found (ih later)

namespace Chain

theorem first_eq_none (chain : Chain heap first []) : first = none := by
  cases chain
  rfl

theorem unique {others : List Address} (chain : Chain heap first elements)
    (other : Chain heap first others) : elements = others := by
  induction chain generalizing others with
  | nil =>
      cases other
      rfl
  | cons address cell elements found _ ih =>
      cases other with
      | cons _ cell' others found' rest' =>
          rw [found] at found'
          cases found'
          rw [ih rest']

theorem exists_suffix (chain : Chain heap first elements) (address : Address)
    (member : address ∈ elements) :
    ∃ later, Chain heap (some address) later ∧ later.length ≤ elements.length := by
  induction chain with
  | nil => exact absurd member List.not_mem_nil
  | cons head cell elements found rest ih =>
      rcases List.mem_cons.mp member with rfl | behind
      · exact ⟨_, .cons address cell elements found rest, Nat.le_refl _⟩
      · obtain ⟨later, fromHere, shorter⟩ := ih behind
        exact ⟨later, fromHere, Nat.le_succ_of_le shorter⟩

/-- A chain that comes to an end passes no cell twice: what follows a cell is the same each
time. -/
theorem nodup (chain : Chain heap first elements) : elements.Nodup := by
  induction chain with
  | nil => exact List.nodup_nil
  | cons address cell elements found rest ih =>
      refine List.nodup_cons.mpr ⟨?_, ih⟩
      intro again
      obtain ⟨later, fromHere, shorter⟩ := rest.exists_suffix address again
      have whole := fromHere.unique (.cons address cell elements found rest)
      rw [whole, List.length_cons] at shorter
      omega

theorem cell?_of_mem (chain : Chain heap first elements) (address : Address)
    (member : address ∈ elements) : ∃ cell, heap.cell? address = some cell := by
  obtain ⟨_, fromHere, _⟩ := chain.exists_suffix address member
  cases fromHere with
  | cons _ cell _ found _ => exact ⟨cell, found⟩

theorem follow (chain : Chain heap first elements) (length : Nat)
    (enough : elements.length ≤ length) : heap.follow length first = .ok elements := by
  induction chain generalizing length with
  | nil =>
      cases length with
      | zero => rfl
      | succ length => rfl
  | cons address cell elements found rest ih =>
      cases length with
      | zero => exact absurd enough (Nat.not_succ_le_zero _)
      | succ length =>
          have later := ih length (Nat.le_of_succ_le_succ enough)
          simp only [Heap.follow, Heap.cell, found, bind, Except.bind, later]

theorem below_of_mem (chain : Chain heap first elements) (address : Address)
    (member : address ∈ elements) :
    ∃ head, first = some head ∧ Below heap.links head address := by
  induction chain with
  | nil => exact absurd member List.not_mem_nil
  | cons head cell elements found _ ih =>
      refine ⟨head, rfl, ?_⟩
      rcases List.mem_cons.mp member with rfl | later
      · exact Relation.ReflTransGen.refl
      · obtain ⟨next, follows, below⟩ := ih later
        refine Below.trans (Below.of_owns ?_) below
        rw [Owns, children_eq (heap.links_of_cell? head cell found)]
        exact List.mem_append_left _ (Option.mem_toList.mpr follows)

theorem next_of_getLast? (chain : Chain heap first elements) (last : Address)
    (isLast : elements.getLast? = some last) :
    ∃ cell, heap.cell? last = some cell ∧ cell.next = none := by
  induction chain with
  | nil => cases isLast
  | cons head cell elements found rest ih =>
      cases elements with
      | nil =>
          cases isLast
          exact ⟨cell, found, rest.first_eq_none⟩
      | cons next others =>
          rw [List.getLast?_cons_cons] at isLast
          exact ih isLast

end Chain

/-- A chain is no longer than the number of slots, so its walk is never cut off. -/
theorem chain_eq_ok_iff : heap.chain first = .ok elements ↔ Chain heap first elements := by
  constructor
  · exact chain_of_follow _
  · intro chain
    have bounded := length_le_of_nodup elements heap.slots.size chain.nodup (by
      intro address member
      obtain ⟨cell, found⟩ := chain.cell?_of_mem address member
      exact heap.index_lt_size_of_cell? address cell found)
    exact chain.follow _ (Nat.le_succ_of_le bounded)

/-! ### Collections -/

theorem elements_eq {head : Address} {cell : Cell} (found : heap.cell? head = some cell)
    (holds : cell.value = .collection first) : heap.elements head = heap.chain first := by
  simp only [Heap.elements, Heap.cell, found, bind, Except.bind, holds]

theorem chain_of_elements {head : Address} (listed : heap.elements head = .ok elements) :
    ∃ cell first, heap.cell? head = some cell ∧ cell.value = .collection first ∧
      Chain heap first elements := by
  cases found : heap.cell? head with
  | none =>
      rw [Heap.elements, Heap.cell, found] at listed
      cases listed
  | some cell =>
      cases holds : cell.value with
      | collection first =>
          rw [elements_eq found holds] at listed
          exact ⟨cell, first, rfl, holds, chain_of_follow _ listed⟩
      | null | number | character | record =>
          simp only [Heap.elements, Heap.cell, found, bind, Except.bind, holds] at listed
          cases listed

/-! ### Why a collection has no answer -/

section Avoids

variable {reason : Fault → Prop} (heap) (head : Address)

theorem avoids_elements (dangling : ∀ dead, ¬ reason (.dangling dead))
    (kind : ∀ found, ¬ reason (.notACollection found))
    (walks : ∀ first, Avoids reason (heap.chain first)) :
    Avoids reason (heap.elements head) := by
  refine avoids_bind (heap.avoids_cell head dangling) fun cell => ?_
  cases cell.value with
  | collection first => exact walks first
  | null | number | character | record => exact avoids_error (kind _)

theorem avoids_elementAt (elements : Avoids reason (heap.elements head))
    (bounds : ∀ index length, ¬ reason (.outOfBounds index length)) (index : Nat) :
    Avoids reason (heap.elementAt head index) := by
  refine avoids_bind elements fun elements => ?_
  cases elements[index]? with
  | some element => exact avoids_ok element
  | none => exact avoids_error (bounds index _)

theorem avoids_characterIn (dangling : ∀ dead, ¬ reason (.dangling dead))
    (kind : ∀ name expected given, ¬ reason (.wrongKind name expected given)) :
    Avoids reason (heap.characterIn head) := by
  refine avoids_bind (heap.avoids_cell head dangling) fun cell => ?_
  cases cell.value with
  | character char => exact avoids_ok char
  | null | number | collection | record => exact avoids_error (kind _ _ _)

end Avoids

end ScriptCore.Heap
