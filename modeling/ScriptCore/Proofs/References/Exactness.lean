import ScriptCore.Proofs.Ownership.Search
import ScriptCore.Proofs.References.Adjustment

set_option autoImplicit false

/-! The four changes of references that can be asked for from outside. Each moves every
count by an exact number of paths or leaves the heap as it was, and it fails for two
reasons only. -/

namespace ScriptCore

open Links Heap

/-- To hold a cell or to let it go, once or as often as a parent is held. -/
inductive CountChange where
  | hold (target : Address)
  | letGo (target : Address)
  | holdUnder (target parent : Address)
  | letGoUnder (target parent : Address)

namespace CountChange

def work : CountChange → HeapM Unit
  | .hold target => HeapM.change (·.addReference target)
  | .letGo target => HeapM.change (·.removeReference target)
  | .holdUnder target parent => HeapM.change (·.addReferenceFrom target parent)
  | .letGoUnder target parent => HeapM.change (·.removeReferenceFrom target parent)

def target : CountChange → Address
  | .hold target | .letGo target | .holdUnder target _ | .letGoUnder target _ => target

def adjustment : CountChange → Adjustment
  | .hold _ | .holdUnder _ _ => .retain
  | .letGo _ | .letGoUnder _ _ => .release

/-- How often the target is held or let go; a dead parent gives no number. -/
def amount (heap : Heap) : CountChange → Option UInt32
  | .hold _ | .letGo _ => some 1
  | .holdUnder _ parent | .letGoUnder _ parent => (heap.cell? parent).map Cell.references

/-- The count of a cell after the change, as an integer. -/
noncomputable def exactCount (change : CountChange) (heap : Heap) (amount : UInt32)
    (address : Address) (cell : Cell) : Int :=
  cell.references.toNat + heap.movement change.adjustment change.target amount address

/-- How a change of references by a known amount may end. -/
def Ends (change : CountChange) (heap : Heap) (amount : UInt32) :
    EStateM.Result Fault Heap Unit → Prop
  | .ok _ after => Moved (heap.movement change.adjustment change.target amount) heap after ∧
      (amount ≠ 0 → ∀ address, Below heap.links change.target address → Live heap.links address)
  | .error fault after => after = heap ∧
      ((∃ dead, Below heap.links change.target dead ∧ ¬ Live heap.links dead ∧
          fault = .dangling dead) ∨
        (∀ address, Below heap.links change.target address → Live heap.links address) ∧
          ∃ address cell, heap.cell? address = some cell ∧
            ¬ InRange (change.exactCount heap amount address cell) ∧
            fault = change.adjustment.fault address cell.references
              (paths heap.links change.target address * amount.toNat))

end CountChange
end ScriptCore
