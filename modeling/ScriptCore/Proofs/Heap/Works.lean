import ScriptCore.Heap.Primitive
import ScriptCore.Proofs.Heap.Edits
import ScriptCore.Proofs.Heap.Records
import ScriptCore.Proofs.Updates.Appending

set_option autoImplicit false

/-! What work on a heap consists of. Besides edits there are two parts only: a new cell whose
successors come to an end, and a link to a cell without a successor. What builds a value does
the first only. Nothing is asked of the values, of the counts or of who holds what. -/

namespace ScriptCore.Heap

open HeapM

/-- Work leads from one heap to another and takes these addresses for new cells, one after
the other. -/
inductive Works : Heap → List Address → Heap → Prop where
  | done (heap : Heap) : Works heap [] heap
  | edit {heap middle after : Heap} {taken : List Address} (edited : Edited heap middle)
      (rest : Works middle taken after) : Works heap taken after
  | allocate {heap after : Heap} {taken : List Address} (value : Value) {next : Option Address}
      {elements : List Address} (chain : Chain heap next elements)
      (rest : Works (heap.allocate value next).2 taken after) :
      Works heap ((heap.allocate value next).1 :: taken) after
  | link {heap after : Heap} {taken : List Address} (owner : Address) {element : Address}
      {cell : Cell} (found : heap.cell? element = some cell) (last : cell.next = none)
      (apart : element ≠ owner)
      (rest : Works (heap.modifyCell owner fun cell => { cell with next := some element })
        taken after) : Works heap taken after

namespace Works

variable {heap middle after : Heap} {taken taken' : List Address}

theorem trans (first : Works heap taken middle) (later : Works middle taken' after) :
    Works heap (taken ++ taken') after := by
  induction first with
  | done heap => exact later
  | edit edited _ ih => exact .edit edited (ih later)
  | allocate value chain _ ih => exact .allocate value chain (ih later)
  | link owner found last apart _ ih => exact .link owner found last apart (ih later)

theorem of_edited (edited : Edited heap after) : Works heap [] after := .edit edited (.done after)

theorem cell (heap : Heap) (value : Value) :
    Works heap [(heap.allocate value none).1] (heap.allocate value none).2 :=
  .allocate value .nil (.done _)

theorem freeListed (works : Works heap taken after) (listed : heap.FreeListed) :
    after.FreeListed := by
  induction works with
  | done heap => exact listed
  | edit edited _ ih => exact ih (listed.of_sameFrame edited.frame edited.cell?_eq_none_iff)
  | allocate value _ _ ih => exact ih (listed.allocate value _)
  | link owner _ _ _ _ ih => exact ih (listed.modifyCell owner _)

end Works

/-! ### New cells alone -/

/-- Work that does nothing but take these addresses for new cells. -/
inductive Adds : Heap → List Address → Heap → Prop where
  | done (heap : Heap) : Adds heap [] heap
  | allocate {heap after : Heap} {taken : List Address} (value : Value) {next : Option Address}
      {elements : List Address} (chain : Chain heap next elements)
      (rest : Adds (heap.allocate value next).2 taken after) :
      Adds heap ((heap.allocate value next).1 :: taken) after

namespace Adds

variable {heap middle after : Heap} {taken taken' : List Address}

theorem trans (first : Adds heap taken middle) (later : Adds middle taken' after) :
    Adds heap (taken ++ taken') after := by
  induction first with
  | done heap => exact later
  | allocate value chain _ ih => exact .allocate value chain (ih later)

theorem cell (heap : Heap) (value : Value) :
    Adds heap [(heap.allocate value none).1] (heap.allocate value none).2 :=
  .allocate value .nil (.done _)

theorem works (adds : Adds heap taken after) : Works heap taken after := by
  induction adds with
  | done heap => exact .done heap
  | allocate value chain _ ih => exact .allocate value chain ih

theorem grows (adds : Adds heap taken after) (listed : heap.FreeListed) : Grows heap after := by
  induction adds with
  | done heap => exact .refl heap
  | @allocate heap _ _ value next _ _ _ ih =>
      exact (listed.grows_allocate value next).trans (ih (listed.allocate value next))

end Adds

/-! ### Values that take several cells -/

theorem Chain.grows {before after : Heap} {first : Option Address} {elements : List Address}
    (chain : Chain before first elements) (grows : Grows before after) :
    Chain after first elements := by
  induction chain with
  | nil => exact .nil
  | cons address cell elements found _ ih =>
      exact .cons address cell elements (grows address cell found) ih

section Building

variable {heap : Heap} (listed : heap.FreeListed)

include listed

theorem adds_allocateChain (values : List Value) :
    ∃ elements, Adds heap elements.reverse (heap.allocateChain values).2 ∧
      Chain (heap.allocateChain values).2 (heap.allocateChain values).1 elements ∧
      elements.length = values.length := by
  induction values with
  | nil => exact ⟨[], .done heap, .nil, rfl⟩
  | cons value rest ih =>
      obtain ⟨elements, adds, chain, sameLength⟩ := ih
      have listed' := adds.works.freeListed listed
      let start := (heap.allocateChain rest).2
      let next := (heap.allocateChain rest).1
      have added : Adds start [(start.allocate value next).1] (start.allocate value next).2 :=
        .allocate value chain (.done _)
      refine ⟨(start.allocate value next).1 :: elements, ?_, ?_, congrArg Nat.succ sameLength⟩
      · rw [List.reverse_cons]
        exact adds.trans added
      · exact .cons _ _ _ (cell?_fresh listed') (chain.grows (listed'.grows_allocate value _))

/-- The elements of a new collection are taken from the last one to the first, then its head. -/
theorem adds_newCollection (values : List Value) :
    ∃ elements, Adds heap (elements.reverse ++ [(heap.newCollection values).1])
        (heap.newCollection values).2 ∧
      (heap.newCollection values).2.elements (heap.newCollection values).1 = .ok elements ∧
      elements.length = values.length := by
  obtain ⟨elements, adds, chain, sameLength⟩ := adds_allocateChain listed values
  have listed' := adds.works.freeListed listed
  refine ⟨elements, adds.trans (.cell _ _), ?_, sameLength⟩
  exact (elements_eq (cell?_fresh listed') rfl).trans
    (chain_eq_ok_iff.mpr (chain.grows (listed'.grows_allocate _ none)))

omit listed in
theorem adds_allocateFields (heap : Heap) (names : List String) :
    Adds heap ((heap.allocateFields names).1.map Field.address) (heap.allocateFields names).2 ∧
      (heap.allocateFields names).1.map Field.name = names := by
  induction names generalizing heap with
  | nil => exact ⟨.done heap, rfl⟩
  | cons name rest ih =>
      obtain ⟨adds, named⟩ := ih (heap.allocate .null none).2
      exact ⟨.allocate .null .nil adds, congrArg (name :: ·) named⟩

/-- The fields of a new record are taken in order, then the record. -/
theorem adds_newRecord (typeName : String) (names : List String) :
    ∃ record, Adds heap
        (record.fields.map Field.address ++ [(heap.newRecord typeName names).1])
        (heap.newRecord typeName names).2 ∧
      (heap.newRecord typeName names).2.record (heap.newRecord typeName names).1 = .ok record ∧
      record.typeName = typeName ∧ record.fields.map Field.name = names := by
  obtain ⟨adds, named⟩ := adds_allocateFields heap names
  have listed' := adds.works.freeListed listed
  exact ⟨⟨typeName, (heap.allocateFields names).1⟩, adds.trans (.cell _ _),
    record_eq (cell?_fresh listed') rfl, rfl, named⟩

theorem adds_newText (chars : List Char) :
    ∃ elements, Adds heap (elements ++ [(heap.newText chars).1]) (heap.newText chars).2 := by
  obtain ⟨elements, adds, _⟩ := adds_newCollection listed (chars.map Value.character)
  exact ⟨elements.reverse, adds⟩

theorem adds_newLiteral (literal : Literal) :
    ∃ elements, Adds heap (elements ++ [(heap.newLiteral literal).1])
      (heap.newLiteral literal).2 := by
  cases literal with
  | text value => exact adds_newText listed value.toList
  | null | number value | character value => exact ⟨[], .cell heap _⟩

/-! ### Primitives -/

/-- Work that fails changes nothing; if it succeeds, its answer is the last cell it took. -/
def TakesAnswer (heap : Heap) : EStateM.Result Fault Heap Address → Prop
  | .ok address after => ∃ elements, Adds heap (elements ++ [address]) after
  | .error _ after => after = heap

omit listed in
theorem takesAnswer_ask_always {Answer : Type} (question : Heap → Except Fault Answer)
    {build : Answer → Heap → Address × Heap}
    (built : ∀ answer, ∃ elements,
      Adds heap (elements ++ [(build answer heap).1]) (build answer heap).2) :
    TakesAnswer heap ((ask question >>= fun answer => always (build answer)) heap) := by
  rcases ask_cases question heap with ⟨answer, _, asked⟩ | ⟨fault, _, asked⟩
  · rw [bind_of_ok asked]
    exact built answer
  · rw [bind_of_error asked]
    rfl

theorem takesAnswer_call (name : String) (arguments : List Value) :
    TakesAnswer heap (Catalogue.standard.call name arguments heap) := by
  unfold Catalogue.call
  cases found : Catalogue.standard.lookup name with
  | none => rfl
  | some primitive =>
      rcases Balanced.of_lookup_standard name primitive found with rfl | rfl | rfl
      · exact takesAnswer_ask_always _ fun _ => ⟨[], .cell heap _⟩
      · exact takesAnswer_ask_always _ fun _ => adds_newText listed _
      · exact takesAnswer_ask_always _ fun _ => ⟨[], .cell heap _⟩

/-! ### A new element -/

section Element

variable {head : Address} {elements : List Address} (value : Value)
  (answered : heap.elements head = .ok elements)

include answered

/-- A new element is a new cell without a successor, and what is linked to it comes to an end
there. -/
private theorem works_withElement :
    Works (heap.allocate value none).2 [] (heap.linked head elements value) := by
  obtain ⟨cell, found, _⟩ := cell?_tail answered
  have apart : tail head elements ≠ (heap.allocate value none).1 :=
    ne_fresh_of_live listed ((heap.live_links_iff _).mpr ⟨cell, found⟩)
  unfold linked withElement
  cases elements.getLast? with
  | some last => exact .link _ (cell?_fresh listed) rfl apart.symm (.done _)
  | none => exact .of_edited (edited_modifyCell _ _ fun _ => rfl)

private theorem works_append_of_elements :
    Works heap [(heap.allocate value none).1] (stateLeft (append head value heap)) := by
  rw [append_eq value answered, stateLeft_bind_pure]
  refine (Works.cell heap value).trans ?_
  rcases exchangeChildren_entry (heap.allocate value none).2 (tail head elements)
      (withElement elements (heap.allocate value none).1) (beforeElement elements)
      [(heap.allocate value none).1] with
    ⟨cell, _, _, same⟩ | ⟨_, failed⟩ | ⟨_, _, _, _, _, _, _, failed⟩
  · rw [same]
    exact (works_withElement listed value answered).trans
      (.of_edited (edits_moveReferences _ _ _ _))
  · rw [failed]
    exact .done _
  · rw [failed]
    exact .done _

omit listed in
private theorem eq_fresh_of_append {element : Address} {after : Heap}
    (appended : append head value heap = .ok element after) :
    element = (heap.allocate value none).1 := by
  rw [append_eq value answered] at appended
  cases worked : exchangeChildren (tail head elements)
      (withElement elements (heap.allocate value none).1) (beforeElement elements)
      [(heap.allocate value none).1] (heap.allocate value none).2 with
  | ok _ left =>
      rw [bind_of_ok worked] at appended
      cases appended
      rfl
  | error fault left =>
      rw [bind_of_error worked] at appended
      cases appended

end Element

theorem works_append (head : Address) (value : Value) :
    ∃ taken, Works heap taken (stateLeft (append head value heap)) ∧
      ∀ element after, append head value heap = .ok element after → taken = [element] := by
  cases answered : heap.elements head with
  | error fault =>
      rw [append_of_elements_error value answered]
      refine ⟨[], .done heap, ?_⟩
      intro element after impossible
      cases impossible
  | ok elements =>
      refine ⟨_, works_append_of_elements listed value answered, ?_⟩
      intro element after appended
      rw [eq_fresh_of_append value answered appended]

end Building
end ScriptCore.Heap
