import ScriptCore.Heap.Collection
import ScriptCore.Heap.Record
import ScriptCore.Proofs.Accounts.Building
import ScriptCore.Proofs.Heap.Work
import ScriptCore.Proofs.Ownership.Cycles

set_option autoImplicit false

/-! Values and successors that are replaced. A replacement is refused before anything is
changed, or the references move along and the heap is in order again, or they cannot all
be counted: then the fault is an overflow, and the counts are no longer in order. -/

namespace ScriptCore

open Links

namespace Heap

open HeapM

/-- Work leaves the heap in order, unless it fails with an overflow. -/
def KeptBy {Answer : Type} (roots : List Address) : EStateM.Result Fault Heap Answer → Prop
  | .ok _ after => Balanced after roots
  | .error fault after => fault.Overflows ∨ Balanced after roots

/-! ### One exchange -/

/-- What replacing a value and replacing a successor have in common. -/
def exchangeChildren (owner : Address) (change : Cell → Cell) (old : Cell → List Address)
    (new : List Address) : HeapM Unit := do
  let cell ← ask (·.cell owner)
  new.forM fun child => ask (·.refuseCycle owner child)
  HeapM.change fun heap => do
    let _ ← heap.cell owner
    .ok (heap.modifyCell owner change)
  moveReferences cell.references (old cell) new

theorem replaceValue_eq (owner : Address) (value : Value) :
    replaceValue owner value = exchangeChildren owner (fun cell => { cell with value })
      (fun cell => cell.value.children) value.children := rfl

theorem relink_eq (owner : Address) (next : Option Address) :
    relink owner next = exchangeChildren owner (fun cell => { cell with next })
      (fun cell => cell.next.toList) next.toList := rfl

/-- A cell with another value keeps its successor. -/
theorem children_withValue (value : Value) (cell : Cell) :
    ∃ rest, cell.children.Perm (rest ++ cell.value.children) ∧
      ({ cell with value } : Cell).children.Perm (rest ++ value.children) :=
  ⟨cell.next.toList, List.Perm.refl _, List.Perm.refl _⟩

theorem references_withValue (value : Value) (cell : Cell) :
    ({ cell with value } : Cell).references = cell.references := rfl

/-- A cell with another successor keeps its value. -/
theorem children_withNext (next : Option Address) (cell : Cell) :
    ∃ rest, cell.children.Perm (rest ++ cell.next.toList) ∧
      ({ cell with next } : Cell).children.Perm (rest ++ next.toList) :=
  ⟨cell.value.children, List.perm_append_comm, List.perm_append_comm⟩

/-- An exchange is refused as a whole, or the change is made and the references move. -/
theorem exchangeChildren_entry (heap : Heap) (owner : Address) (change : Cell → Cell)
    (old : Cell → List Address) (new : List Address) :
    (∃ cell, heap.cell? owner = some cell ∧
        (∀ child, child ∈ new → heap.refuseCycle owner child = .ok ()) ∧
        exchangeChildren owner change old new heap =
          moveReferences cell.references (old cell) new (heap.modifyCell owner change)) ∨
      (heap.cell? owner = none ∧
        exchangeChildren owner change old new heap = .error (.dangling owner) heap) ∨
      ∃ earlier child later fault, new = earlier ++ child :: later ∧
        (∀ other, other ∈ earlier → heap.refuseCycle owner other = .ok ()) ∧
        heap.refuseCycle owner child = .error fault ∧
        exchangeChildren owner change old new heap = .error fault heap := by
  unfold exchangeChildren
  cases found : heap.cell? owner with
  | none =>
      have failed : heap.cell owner = .error (.dangling owner) := by rw [Heap.cell, found]
      exact Or.inr (Or.inl ⟨rfl, bind_of_error (ask_of_error failed)⟩)
  | some cell =>
      have answered : heap.cell owner = .ok cell := by rw [Heap.cell, found]
      rw [bind_of_ok (ask_of_ok answered)]
      rcases forM_ask_cases (fun child heap => heap.refuseCycle owner child) new heap with
        ⟨accepted, each⟩ | ⟨earlier, child, later, fault, split, passed, refused, failed⟩
      · have changed : (do
            let _ ← heap.cell owner
            Except.ok (heap.modifyCell owner change)) = .ok (heap.modifyCell owner change) := by
          rw [answered]
          rfl
        rw [bind_of_ok accepted, bind_of_ok (change_of_ok changed)]
        exact Or.inl ⟨cell, rfl, each, rfl⟩
      · rw [bind_of_error failed]
        exact Or.inr (Or.inr ⟨earlier, child, later, fault, split, passed, refused, rfl⟩)

/-- Why an exchange is refused: the owner is dead, or a new child contains it or is dead. -/
inductive Refused (heap : Heap) (owner : Address) (new : List Address) : Fault → Prop where
  | dead (notLive : heap.cell? owner = none) : Refused heap owner new (.dangling owner)
  | cycle (child : Address) (member : child ∈ new) (below : Below heap.links child owner) :
      Refused heap owner new (.cycle owner child)
  | dangling (child : Address) (member : child ∈ new) (notLive : ¬ Live heap.links child) :
      Refused heap owner new (.dangling child)

theorem Refused.not_overflows {heap : Heap} {owner : Address} {new : List Address}
    {fault : Fault} (refused : Refused heap owner new fault) : ¬ fault.Overflows := by
  rintro ⟨_, _, _, rfl⟩
  cases refused

section Exchange

variable {heap : Heap} {roots : List Address} (accounted : Accounted heap roots)
  (owner : Address) {change : Cell → Cell} {old : Cell → List Address} {new : List Address}
  (references : ∀ cell, (change cell).references = cell.references)
  (children : ∀ cell : Cell, ∃ rest, cell.children.Perm (rest ++ old cell) ∧
    (change cell).children.Perm (rest ++ new))

include accounted references children

theorem exchangeChildren_cases :
    (∃ cell, Exchange heap owner cell change (old cell) new ∧
        ((∃ after, exchangeChildren owner change old new heap = .ok () after ∧
            Moved (fun address => heap.share cell.references new address -
              heap.share cell.references (old cell) address) (heap.modifyCell owner change) after) ∨
          ∃ fault after, exchangeChildren owner change old new heap = .error fault after ∧
            Overflowed heap cell.references (old cell) new (heap.modifyCell owner change)
              after fault)) ∨
      ∃ fault, exchangeChildren owner change old new heap = .error fault heap ∧
        Refused heap owner new fault := by
  rcases exchangeChildren_entry heap owner change old new with
    ⟨cell, found, each, same⟩ | ⟨notLive, failed⟩ |
      ⟨earlier, child, later, fault, split, _, refused, failed⟩
  · have spec (child : Address) (member : child ∈ new) :=
      heap.refuseCycle_ok owner child (each child member)
    have exchange : Exchange heap owner cell change (old cell) new :=
      ⟨found, references cell, children cell, fun child member => (spec child member).1,
        fun child member => (spec child member).2 child Relation.ReflTransGen.refl⟩
    rw [same]
    exact Or.inl ⟨cell, exchange, exchange.moveReferences_cases accounted⟩
  · exact Or.inr ⟨_, failed, .dead notLive⟩
  · have member : child ∈ new := by
      rw [split]
      exact List.mem_append_right earlier (List.mem_cons_self ..)
    refine Or.inr ⟨fault, failed, ?_⟩
    rcases heap.refuseCycle_cases accounted.closed owner child with
      ⟨below, answer⟩ | ⟨notLive, answer⟩ | ⟨_, _, answer⟩
    · rw [answer] at refused
      cases refused
      exact .cycle child member below
    · rw [answer] at refused
      cases refused
      exact .dangling child member notLive
    · rw [answer] at refused
      cases refused

omit accounted in
theorem keptBy_exchangeChildren (balanced : Balanced heap roots) :
    KeptBy roots (exchangeChildren owner change old new heap) := by
  rcases exchangeChildren_cases balanced.toAccounted owner references children with
    ⟨_, exchange, ⟨after, done, moved⟩ | ⟨_, _, failed, overflowed⟩⟩ | ⟨_, failed, _⟩
  · rw [done]
    exact balanced.of_exchange exchange moved
  · rw [failed]
    exact Or.inl overflowed.reported
  · rw [failed]
    exact Or.inr balanced

end Exchange

end Heap
end ScriptCore
