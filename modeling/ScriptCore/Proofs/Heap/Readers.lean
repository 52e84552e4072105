import ScriptCore.Proofs.Heap.Edits

set_option autoImplicit false

/-! What a reader of the heap sees: values, the elements of a collection and the fields of a
record. Counts are not read. An edit keeps all successors, so a collection or a record whose own
value stays reads as before, whatever became of the values of its elements. -/

namespace ScriptCore.Heap

def value? (heap : Heap) (address : Address) : Option Value :=
  (heap.cell? address).map Cell.value

theorem value?_eq {heap : Heap} {address : Address} {cell : Cell}
    (found : heap.cell? address = some cell) : heap.value? address = some cell.value := by
  rw [value?, found, Option.map_some]

variable {before after : Heap}

theorem Moved.value?_eq {change : Address → Int} (moved : Moved change before after)
    (address : Address) : after.value? address = before.value? address := by
  unfold value?
  cases found : before.cell? address with
  | none => rw [moved.dead address found]
  | some cell =>
      obtain ⟨count, foundAfter, _⟩ := moved.live address cell found
      rw [foundAfter]
      rfl

theorem Moved.edited {change : Address → Int} (moved : Moved change before after) :
    Edited before after where
  frame := moved.frame
  nexts := by
    intro address
    cases found : before.cell? address with
    | none => rw [moved.dead address found]
    | some cell =>
        obtain ⟨count, foundAfter, _⟩ := moved.live address cell found
        rw [foundAfter]
        rfl

/-! ### A head that keeps its value -/

section SameValue

variable {address : Address} (same : after.value? address = before.value? address)

include same

/-- A question that only the value of a cell answers has the same answer. -/
theorem bind_cell_congr {Answer : Type} {next next' : Cell → Except Fault Answer}
    (agree : ∀ first second : Cell, first.value = second.value → next' first = next second) :
    (after.cell address >>= next') = (before.cell address >>= next) := by
  unfold value? at same
  unfold Heap.cell
  cases found : before.cell? address with
  | none =>
      rw [found, Option.map_none] at same
      rw [Option.map_eq_none_iff.mp same]
      rfl
  | some cell =>
      rw [found, Option.map_some] at same
      obtain ⟨cell', found', sameValue⟩ := Option.map_eq_some_iff.mp same
      rw [found']
      exact agree cell' cell sameValue

theorem record_congr : after.record address = before.record address := by
  apply bind_cell_congr same
  intro first second sameValue
  rw [sameValue]

theorem field_congr (name : String) : after.field address name = before.field address name := by
  unfold field
  rw [record_congr same]

end SameValue

/-! ### Elements -/

namespace Edited

variable (edited : Edited before after)

include edited

theorem follow_eq (length : Nat) (first : Option Address) :
    after.follow length first = before.follow length first := by
  induction length generalizing first with
  | zero =>
      cases first with
      | none => rfl
      | some address => rfl
  | succ length ih =>
      cases first with
      | none => rfl
      | some address =>
          have sameNext := edited.nexts address
          simp only [follow, Heap.cell]
          cases found : before.cell? address with
          | none =>
              rw [(edited.cell?_eq_none_iff address).mpr found]
              rfl
          | some cell =>
              rw [found, Option.map_some] at sameNext
              obtain ⟨cell', found', follows⟩ := Option.map_eq_some_iff.mp sameNext
              rw [found']
              simp only [bind, Except.bind]
              rw [follows, ih cell.next]

theorem chain_eq (first : Option Address) : after.chain first = before.chain first := by
  unfold chain
  rw [edited.frame.size]
  exact edited.follow_eq _ first

variable {head : Address} (same : after.value? head = before.value? head)

include same

theorem elements_eq : after.elements head = before.elements head := by
  apply bind_cell_congr same
  intro first second sameValue
  rw [sameValue]
  cases second.value with
  | collection leading => exact edited.chain_eq leading
  | null | number | character | record => rfl

theorem elementAt_eq (index : Nat) : after.elementAt head index = before.elementAt head index := by
  unfold elementAt
  rw [edited.elements_eq same]

end Edited

end ScriptCore.Heap
