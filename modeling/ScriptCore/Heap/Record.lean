import ScriptCore.Heap.Update

set_option autoImplicit false

/-! Records: a cell that names one cell for each field. -/

namespace ScriptCore.Heap

open HeapM

/-- A null cell for each field, in order. -/
def allocateFields (heap : Heap) : List String → List Field × Heap
  | [] => ([], heap)
  | name :: rest =>
      let (address, heap) := heap.allocate .null none
      let (fields, heap) := heap.allocateFields rest
      (⟨name, address⟩ :: fields, heap)

/-- A record of the given type that nothing holds, all fields null. -/
def newRecord (heap : Heap) (typeName : String) (names : List String) : Address × Heap :=
  let (fields, heap) := heap.allocateFields names
  heap.allocate (.record ⟨typeName, fields⟩) none

def record (heap : Heap) (address : Address) : Except Fault Record := do
  match (← heap.cell address).value with
  | .record value => .ok value
  | other => .error (.notARecord other.kind)

/-- The cell behind a field. -/
def field (heap : Heap) (address : Address) (name : String) : Except Fault Address := do
  match (← heap.record address).field? name with
  | some cell => .ok cell
  | none => .error (.undefinedField name)

/-- Gives a field another value, in place. -/
def setField (address : Address) (name : String) (value : Value) : HeapM Unit := do
  let cell ← ask (·.field address name)
  replaceValue cell value

/-- Lets a field share a cell that exists. -/
def bindField (address : Address) (name : String) (target : Address) : HeapM Unit := do
  let record ← ask (·.record address)
  let _ ← ask (·.field address name)
  replaceValue address (.record (record.rebind name target))

end ScriptCore.Heap
