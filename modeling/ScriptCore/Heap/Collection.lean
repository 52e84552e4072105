import ScriptCore.Heap.Update
import ScriptCore.Tree.Basic

set_option autoImplicit false

/-! Collections: a head cell that names the first element, each of which names the
next. Collections may share elements, from any element on. -/

namespace ScriptCore.Heap

open HeapM

/-! ### Building -/

/-- Cells for values in order, linked to each other; the last one is allocated first. -/
def allocateChain (heap : Heap) : List Value → Option Address × Heap
  | [] => (none, heap)
  | value :: rest =>
      let (next, heap) := heap.allocateChain rest
      let (address, heap) := heap.allocate value next
      (some address, heap)

/-- A collection of the given values that nothing holds. -/
def newCollection (heap : Heap) (values : List Value) : Address × Heap :=
  let (first, heap) := heap.allocateChain values
  heap.allocate (.collection first) none

/-- A collection of characters. -/
def newText (heap : Heap) (chars : List Char) : Address × Heap :=
  heap.newCollection (chars.map Value.character)

/-- The value of a literal; a text becomes a collection of its characters. -/
def newLiteral (heap : Heap) : Literal → Address × Heap
  | .null => heap.allocate .null none
  | .number value => heap.allocate (.number value) none
  | .character value => heap.allocate (.character value) none
  | .text value => heap.newText value.toList

/-! ### Reading -/

/-- The cells of the elements in order. -/
def elements (heap : Heap) (address : Address) : Except Fault (List Address) := do
  match (← heap.cell address).value with
  | .collection first => heap.chain first
  | other => .error (.notACollection other.kind)

def elementAt (heap : Heap) (address : Address) (index : Nat) : Except Fault Address := do
  let elements ← heap.elements address
  match elements[index]? with
  | some element => .ok element
  | none => .error (.outOfBounds index elements.length)

/-- The character in a cell. -/
def characterIn (heap : Heap) (address : Address) : Except Fault Char := do
  match (← heap.cell address).value with
  | .character char => .ok char
  | other => .error (.wrongKind "collection_to_string" .character other.kind)

/-- The text that a collection of characters spells. -/
def spelled (heap : Heap) (address : Address) : Except Fault (List Char) := do
  (← heap.elements address).mapM heap.characterIn

/-! ### Changing -/

/-- Gives an element another value, in place. -/
def setElement (address : Address) (index : Nat) (value : Value) : HeapM Unit := do
  let element ← ask (·.elementAt address index)
  replaceValue element value

/-- Puts a new element behind the last one. Its cell is allocated before it is linked,
also if linking fails. -/
def append (address : Address) (value : Value) : HeapM Address := do
  let elements ← ask (·.elements address)
  let element ← always (·.allocate value none)
  match elements.getLast? with
  | some last => relink last (some element)
  | none => replaceValue address (.collection (some element))
  return element

end ScriptCore.Heap
