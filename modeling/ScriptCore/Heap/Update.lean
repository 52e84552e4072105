import ScriptCore.Heap.References

set_option autoImplicit false

/-! Changing what a cell owns. A change has several parts, each of which happens as a
whole or not at all; a fault ends it and leaves the parts that were done. -/

namespace ScriptCore

/-- Work on a heap. A fault comes with the heap as it was left. -/
abbrev HeapM := EStateM Fault Heap

namespace HeapM

/-- A question to the heap. -/
def ask {α : Type} (question : Heap → Except Fault α) : HeapM α := fun heap =>
  match question heap with
  | .ok answer => .ok answer heap
  | .error fault => .error fault heap

/-- A change that is made as a whole or, with a fault, not at all. -/
def change (update : Heap → Except Fault Heap) : HeapM Unit := fun heap =>
  match update heap with
  | .ok changed => .ok () changed
  | .error fault => .error fault heap

/-- A change that cannot fail. -/
def always {α : Type} (update : Heap → α × Heap) : HeapM α := fun heap =>
  let (answer, changed) := update heap
  .ok answer changed

end HeapM

namespace Heap

open HeapM

/-- Overwrites a value without a look at references. -/
def setValue (heap : Heap) (address : Address) (value : Value) : Except Fault Heap := do
  let _ ← heap.cell address
  .ok (heap.modifyCell address fun cell => { cell with value })

def setNext (heap : Heap) (address : Address) (next : Option Address) :
    Except Fault Heap := do
  let _ ← heap.cell address
  .ok (heap.modifyCell address fun cell => { cell with next })

/-- Moves the references of an owner from what it owned to what it owns now. -/
def moveReferences (held : UInt32) (before after : List Address) : HeapM Unit := do
  before.forM fun child => change (·.release child held)
  after.forM fun child => change (·.retain child held)

/-- Gives a cell another value. Values that contain the cell are refused; then the
value is put in place, and the references of the cell go from the children of the old
value to those of the new one. -/
def replaceValue (address : Address) (value : Value) : HeapM Unit := do
  let cell ← ask (·.cell address)
  value.children.forM fun child => ask (·.refuseCycle address child)
  change (·.setValue address value)
  moveReferences cell.references cell.value.children value.children

/-- Gives a cell another successor, in the same way. -/
def relink (address : Address) (next : Option Address) : HeapM Unit := do
  let cell ← ask (·.cell address)
  next.toList.forM fun child => ask (·.refuseCycle address child)
  change (·.setNext address next)
  moveReferences cell.references cell.next.toList next.toList

end Heap
end ScriptCore
