import ScriptCore.Heap.Record
import ScriptCore.Proofs.Heap.Work

set_option autoImplicit false

/-! Records read and rebound: what a record names once one of its fields refers to another
cell. -/

namespace ScriptCore

namespace Record

variable {record : Record} {name : String} {previous : Address} (target : Address)
  (known : record.field? name = some previous)

include known

theorem target_mem_rebind : target ∈ (Value.record (record.rebind name target)).children := by
  obtain ⟨earlier, field, later, _, _, _, _, rebound⟩ :=
    record.rebind_split name target previous known
  rw [Value.children, rebound, List.map_append]
  exact List.mem_append_right _ (List.mem_cons_self ..)

theorem eq_or_mem_of_mem_rebind {child : Address}
    (member : child ∈ (Value.record (record.rebind name target)).children) :
    child = target ∨ child ∈ (Value.record record).children := by
  obtain ⟨earlier, field, later, split, _, _, _, rebound⟩ :=
    record.rebind_split name target previous known
  rw [Value.children, rebound, List.map_append, List.map_cons, List.mem_append,
    List.mem_cons] at member
  rw [Value.children, split, List.map_append, List.map_cons, List.mem_append, List.mem_cons]
  rcases member with before | same | behind
  · exact Or.inr (Or.inl before)
  · exact Or.inl same
  · exact Or.inr (Or.inr (Or.inr behind))

/-- Only the first field of the name is another one in the rebound record. -/
theorem rebind_eq : ∃ earlier field later, record.fields = earlier ++ field :: later ∧
    field.name = name ∧ field.address = previous ∧
    (∀ other, other ∈ earlier → other.name ≠ name) ∧
    record.rebind name target =
      { record with fields := earlier ++ { field with address := target } :: later } := by
  obtain ⟨earlier, field, later, split, named, held, others, rebound⟩ :=
    record.rebind_split name target previous known
  refine ⟨earlier, field, later, split, named, held, others, ?_⟩
  rw [← rebound]
  rfl

theorem field?_rebind : (record.rebind name target).field? name = some target := by
  obtain ⟨earlier, field, later, _, named, _, others, rebound⟩ :=
    record.rebind_eq target known
  have passed : (earlier.find? fun other => other.name == name) = none := by
    apply List.find?_eq_none.mpr
    intro other member
    simpa using others other member
  rw [rebound, field?, List.find?_append, passed, Option.none_or,
    List.find?_cons_of_pos (by simpa using named), Option.map_some]

end Record

namespace Heap

open HeapM

variable {heap : Heap} {owner : Address} {cell : Cell} {record : Record} {name : String}
  {previous : Address} (found : heap.cell? owner = some cell)
  (holds : cell.value = .record record)

include found holds

theorem record_eq : heap.record owner = .ok record := by
  simp only [Heap.record, Heap.cell, found, bind, Except.bind, holds]

theorem field_eq (known : record.field? name = some previous) :
    heap.field owner name = .ok previous := by
  simp only [Heap.field, record_eq found holds, bind, Except.bind, known]

theorem field?_of_field_eq_ok (answered : heap.field owner name = .ok previous) :
    record.field? name = some previous := by
  simp only [Heap.field, record_eq found holds, bind, Except.bind] at answered
  cases known : record.field? name with
  | none =>
      rw [known] at answered
      cases answered
  | some named =>
      rw [known] at answered
      cases answered
      rfl

theorem bindField_eq (target : Address) (known : record.field? name = some previous) :
    bindField owner name target heap =
      replaceValue owner (.record (record.rebind name target)) heap := by
  unfold bindField
  rw [bind_of_ok (ask_of_ok (record_eq found holds)),
    bind_of_ok (ask_of_ok (field_eq found holds known))]

end Heap
end ScriptCore
