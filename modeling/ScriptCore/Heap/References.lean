import ScriptCore.Heap.Walk

set_option autoImplicit false

/-! References. The count of a cell is the number of ways in which it is held: once for
each path of ownership that leads to it from something outside the heap. Holding a cell
once more therefore adds to every cell below it the number of paths to that cell. -/

namespace ScriptCore.Heap

/-- Paths from the first cell of an ownership order to each cell: a cell passes its own
number on to each child, which comes later in the order. -/
def spreadPaths (links : Address → Option (List Address)) :
    List Address → Array Nat → Array Nat
  | [], paths => paths
  | address :: order, paths =>
      let here := paths.getD address.index 0
      spreadPaths links order <|
        ((links address).getD []).foldl
          (fun paths child => paths.modify child.index (· + here)) paths

/-- Every cell at or below the root, with the number of paths that lead to it. -/
def pathCounts (heap : Heap) (root : Address) : Except Fault (List (Address × Nat)) := do
  let order ← heap.ownershipOrder root
  let start := (Array.replicate heap.slots.size 0).modify root.index (· + 1)
  let paths := spreadPaths heap.links order start
  .ok (order.map fun address => (address, paths.getD address.index 0))

/-- The two ways to move a count. -/
inductive Adjustment where
  | retain | release
  deriving DecidableEq, Repr

/-- The largest change that a report names. -/
def largestChange : Nat := UInt64.size - 1

/-- The count after a change, if it can be counted and is not below zero. -/
def Adjustment.apply (adjustment : Adjustment) (cell : Address) (held : UInt32)
    (change : Nat) : Except Fault UInt32 :=
  match adjustment with
  | .retain =>
      if held.toNat + change < UInt32.size then .ok (UInt32.ofNat (held.toNat + change))
      else .error (.overflow cell held (min change largestChange))
  | .release =>
      if change ≤ held.toNat then .ok (UInt32.ofNat (held.toNat - change))
      else .error (.underflow cell held (min change largestChange))

def setReferences (heap : Heap) (address : Address) (count : UInt32) : Heap :=
  heap.modifyCell address fun cell => { cell with references := count }

theorem cell?_setReferences (heap : Heap) (address other : Address) (count : UInt32) :
    (heap.setReferences address count).cell? other =
      if other = address then
        (heap.cell? other).map fun cell => { cell with references := count }
      else heap.cell? other :=
  heap.cell?_modifyCell address other _

/-- Counts do not take part in ownership. -/
theorem links_setReferences (heap : Heap) (address : Address) (count : UInt32) :
    (heap.setReferences address count).links = heap.links := by
  funext other
  simp only [links, cell?_setReferences]
  by_cases same : other = address
  · rw [if_pos same]
    cases heap.cell? other with
    | none => rfl
    | some cell => rfl
  · rw [if_neg same]

/-- Holds the root and all below it `amount` times more or fewer. All counts are worked
out before the first is written, so a fault leaves the heap as it was. -/
def adjust (heap : Heap) (adjustment : Adjustment) (root : Address) (amount : UInt32) :
    Except Fault Heap :=
  if amount = 0 then .ok heap
  else do
    let paths ← heap.pathCounts root
    let counts ← paths.mapM fun (address, ways) => do
      let cell ← heap.cell address
      let count ← adjustment.apply address cell.references (ways * amount.toNat)
      .ok (address, count)
    .ok (counts.foldl (fun heap (address, count) => heap.setReferences address count) heap)

def retain (heap : Heap) (root : Address) (amount : UInt32) : Except Fault Heap :=
  heap.adjust .retain root amount

def release (heap : Heap) (root : Address) (amount : UInt32) : Except Fault Heap :=
  heap.adjust .release root amount

/-- Something outside the heap holds the cell. -/
def addReference (heap : Heap) (address : Address) : Except Fault Heap :=
  heap.retain address 1

/-- Something outside the heap lets the cell go. -/
def removeReference (heap : Heap) (address : Address) : Except Fault Heap :=
  heap.release address 1

/-- The cell was put under a parent, and is held as often again as the parent is. -/
def addReferenceFrom (heap : Heap) (address parent : Address) : Except Fault Heap := do
  heap.refuseCycle parent address
  let owner ← heap.cell parent
  heap.retain address owner.references

/-- The cell was taken from under a parent. -/
def removeReferenceFrom (heap : Heap) (address parent : Address) : Except Fault Heap := do
  let owner ← heap.cell parent
  heap.release address owner.references

end ScriptCore.Heap
