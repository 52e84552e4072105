import ScriptCore.Heap.AddressSet
import ScriptCore.Heap.Fault

set_option autoImplicit false

/-! The heap: slots for cells, the slots that are free again, and how much was
allocated and reclaimed. The heap is observed through the cell at an address. What
holds a cell is counted elsewhere. -/

namespace ScriptCore

/-- How large a heap is expected to grow, and after how many allocations a sweep is
due. -/
structure Limits where
  initialCapacity : Nat := 64
  sweepThreshold : Nat := 256
  deriving DecidableEq, Repr

/-- What a heap did over its whole life. -/
structure Tally where
  allocated : Nat := 0
  reclaimed : Nat := 0
  sweeps : Nat := 0
  deriving DecidableEq, Repr

structure Heap where
  slots : Array (Option Cell)
  /-- Free slots, the one that was freed last first. -/
  free : List Address
  limits : Limits
  /-- Allocations since the last sweep. -/
  sinceSweep : Nat
  tally : Tally

namespace Heap

def empty (limits : Limits) : Heap := ⟨#[], [], limits, 0, {}⟩

/-! ### Cells -/

def cell? (heap : Heap) (address : Address) : Option Cell :=
  heap.slots[address.index]?.join

def isLive (heap : Heap) (address : Address) : Bool := (heap.cell? address).isSome

def cell (heap : Heap) (address : Address) : Except Fault Cell :=
  match heap.cell? address with
  | some cell => .ok cell
  | none => .error (.dangling address)

/-- The cells that a live cell owns. -/
def links (heap : Heap) (address : Address) : Option (List Address) :=
  (heap.cell? address).map Cell.children

/-- Every slot, live or free, in ascending order. -/
def addresses (heap : Heap) : List Address :=
  (List.range heap.slots.size).map Address.mk

/-- The live addresses in ascending order. -/
def live (heap : Heap) : List Address := heap.addresses.filter heap.isLive

/-- The live addresses as a set. -/
def liveSet (heap : Heap) : AddressSet := ⟨heap.slots.map Option.isSome⟩

def liveCount (heap : Heap) : Nat := heap.slots.countP Option.isSome

/-- Changes a live cell; an address without one changes nothing. -/
def modifyCell (heap : Heap) (address : Address) (change : Cell → Cell) : Heap :=
  { heap with slots := heap.slots.modify address.index (Option.map change) }

/-! ### Allocation -/

/-- A new cell that nothing holds, in the slot that was freed last or else in a new
slot. -/
def allocate (heap : Heap) (value : Value) (next : Option Address) : Address × Heap :=
  let cell : Cell := ⟨value, next, 0⟩
  let tally := { heap.tally with allocated := heap.tally.allocated + 1 }
  let sinceSweep := heap.sinceSweep + 1
  match heap.free with
  | address :: free =>
      (address, { heap with
        slots := heap.slots.setIfInBounds address.index (some cell), free, sinceSweep, tally })
  | [] =>
      (⟨heap.slots.size⟩, { heap with
        slots := heap.slots.push (some cell), sinceSweep, tally })

/-! ### Reclaiming -/

/-- The live cells that nothing holds, in ascending order. -/
def unheld (heap : Heap) : List Address :=
  heap.addresses.filter fun address => (heap.cell? address).any Cell.isUnheld

/-- Frees every cell that nothing holds and tells how many there were. The freed slots
are used again before older ones, the highest first. -/
def sweep (heap : Heap) : Nat × Heap :=
  let freed := heap.unheld
  (freed.length,
    { heap with
      slots := heap.slots.map fun slot => slot.filter fun cell => !cell.isUnheld
      free := freed.reverse ++ heap.free
      sinceSweep := 0
      tally := { heap.tally with
        reclaimed := heap.tally.reclaimed + freed.length
        sweeps := heap.tally.sweeps + 1 } })

/-- Sweeps once enough was allocated since the last sweep. -/
def sweepIfDue (heap : Heap) : Option Nat × Heap :=
  if heap.limits.sweepThreshold ≤ heap.sinceSweep then
    let (freed, swept) := heap.sweep
    (some freed, swept)
  else (none, heap)

/-! ### The cells after each operation -/

@[simp] theorem cell?_empty (limits : Limits) (address : Address) :
    (empty limits).cell? address = none := by
  simp [cell?, empty]

theorem isLive_iff (heap : Heap) (address : Address) :
    heap.isLive address = true ↔ ∃ cell, heap.cell? address = some cell := by
  simp [isLive, Option.isSome_iff_exists]

theorem index_lt_size_of_cell? (heap : Heap) (address : Address) (cell : Cell)
    (found : heap.cell? address = some cell) : address.index < heap.slots.size := by
  by_cases inside : address.index < heap.slots.size
  · exact inside
  · rw [cell?, Array.getElem?_eq_none (Nat.le_of_not_lt inside)] at found
    simp at found

theorem mem_addresses_iff (heap : Heap) (address : Address) :
    address ∈ heap.addresses ↔ address.index < heap.slots.size := by
  constructor
  · intro member
    obtain ⟨index, inRange, rfl⟩ := List.mem_map.mp member
    exact List.mem_range.mp inRange
  · intro inside
    exact List.mem_map.mpr ⟨address.index, List.mem_range.mpr inside, rfl⟩

theorem mem_live_iff (heap : Heap) (address : Address) :
    address ∈ heap.live ↔ ∃ cell, heap.cell? address = some cell := by
  rw [live, List.mem_filter, mem_addresses_iff, isLive_iff]
  constructor
  · exact And.right
  · rintro ⟨cell, found⟩
    exact ⟨heap.index_lt_size_of_cell? address cell found, cell, found⟩

theorem contains_liveSet (heap : Heap) (address : Address) :
    heap.liveSet.contains address = heap.isLive address := by
  simp only [liveSet, AddressSet.contains, isLive, cell?, Array.getElem?_map]
  cases heap.slots[address.index]? with
  | none => rfl
  | some slot => rfl

theorem mem_unheld_iff (heap : Heap) (address : Address) :
    address ∈ heap.unheld ↔
      ∃ cell, heap.cell? address = some cell ∧ cell.references = 0 := by
  rw [unheld, List.mem_filter, mem_addresses_iff]
  constructor
  · rintro ⟨_, unheld⟩
    cases found : heap.cell? address with
    | none => simp [found] at unheld
    | some cell => exact ⟨cell, rfl, by simpa [found, Cell.isUnheld] using unheld⟩
  · rintro ⟨cell, found, none⟩
    exact ⟨heap.index_lt_size_of_cell? address cell found,
      by simp [found, Cell.isUnheld, none]⟩

theorem cell?_modifyCell (heap : Heap) (address other : Address) (change : Cell → Cell) :
    (heap.modifyCell address change).cell? other =
      if other = address then (heap.cell? other).map change else heap.cell? other := by
  by_cases same : other = address
  · subst same
    rw [if_pos rfl]
    simp only [cell?, modifyCell, Array.getElem?_modify, if_true]
    cases heap.slots[other.index]? with
    | none => rfl
    | some slot => rfl
  · have apart : address.index ≠ other.index := fun equal =>
      same (by cases other; cases address; simp_all)
    simp only [if_neg same, cell?, modifyCell, Array.getElem?_modify, if_neg apart]

/-- A sweep keeps the cells that are held, as they are. -/
theorem cell?_sweep (heap : Heap) (address : Address) :
    heap.sweep.2.cell? address =
      (heap.cell? address).filter fun cell => !cell.isUnheld := by
  simp only [cell?, sweep, Array.getElem?_map]
  cases heap.slots[address.index]? with
  | none => rfl
  | some slot => rfl

/-- A new cell in a new slot. -/
theorem cell?_allocate_of_free_eq_nil (heap : Heap) (value : Value)
    (next : Option Address) (address : Address) (full : heap.free = []) :
    (heap.allocate value next).2.cell? address =
      if address = (heap.allocate value next).1 then some ⟨value, next, 0⟩
      else heap.cell? address := by
  simp only [allocate, full, cell?, Array.getElem?_push]
  by_cases same : address.index = heap.slots.size
  · have equal : address = ⟨heap.slots.size⟩ := by cases address; simp_all
    simp [equal]
  · have apart : address ≠ ⟨heap.slots.size⟩ := fun equal => same (by simp [equal])
    simp [same, apart]

/-- A new cell in a slot that was free. -/
theorem cell?_allocate_of_free_eq_cons (heap : Heap) (value : Value)
    (next : Option Address) (address slot : Address) (free : List Address)
    (reuse : heap.free = slot :: free) (inside : slot.index < heap.slots.size) :
    (heap.allocate value next).2.cell? address =
      if address = slot then some ⟨value, next, 0⟩ else heap.cell? address := by
  simp only [allocate, reuse, cell?]
  by_cases same : address = slot
  · subst same
    simp [inside]
  · have apart : slot.index ≠ address.index := fun equal =>
      same (by cases address; cases slot; simp_all)
    simp [same, apart]

end Heap
end ScriptCore
