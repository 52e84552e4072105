import Mathlib.Algebra.Order.Ring.Int
import ScriptCore.Heap.References
import ScriptCore.Proofs.Ownership.Basic

set_option autoImplicit false

/-! Heaps that differ in counts only, and by how much each count moved. Moves add up, and
ownership does not see them. -/

namespace ScriptCore.Heap

/-- What a heap holds besides its cells is the same. -/
structure SameFrame (before after : Heap) : Prop where
  size : after.slots.size = before.slots.size
  free : after.free = before.free
  limits : after.limits = before.limits
  sinceSweep : after.sinceSweep = before.sinceSweep
  tally : after.tally = before.tally

theorem SameFrame.refl (heap : Heap) : SameFrame heap heap := ⟨rfl, rfl, rfl, rfl, rfl⟩

theorem SameFrame.trans {before middle after : Heap} (first : SameFrame before middle)
    (second : SameFrame middle after) : SameFrame before after where
  size := second.size.trans first.size
  free := second.free.trans first.free
  limits := second.limits.trans first.limits
  sinceSweep := second.sinceSweep.trans first.sinceSweep
  tally := second.tally.trans first.tally

theorem SameFrame.symm {before after : Heap} (frame : SameFrame before after) :
    SameFrame after before :=
  ⟨frame.size.symm, frame.free.symm, frame.limits.symm, frame.sinceSweep.symm, frame.tally.symm⟩

/-- A heap is its frame and its cells. -/
theorem SameFrame.heap_eq {before after : Heap} (frame : SameFrame before after)
    (cells : ∀ address, after.cell? address = before.cell? address) : after = before := by
  obtain ⟨size, free, limits, sinceSweep, tally⟩ := frame
  have slots : after.slots = before.slots := by
    apply Array.ext size
    intro index inside inside'
    have here := cells ⟨index⟩
    rw [cell?, cell?, Array.getElem?_eq_getElem inside, Array.getElem?_eq_getElem inside'] at here
    exact here
  cases before
  cases after
  cases slots
  cases free
  cases limits
  cases sinceSweep
  cases tally
  rfl

theorem sameFrame_modifyCell (heap : Heap) (address : Address) (change : Cell → Cell) :
    SameFrame heap (heap.modifyCell address change) :=
  ⟨Array.size_modify, rfl, rfl, rfl, rfl⟩

/-- The later heap is the earlier one, but for the counts: the exact count of each cell,
taken as an integer, moved by the given change. -/
structure Moved (change : Address → Int) (before after : Heap) : Prop where
  frame : SameFrame before after
  dead : ∀ address, before.cell? address = none → after.cell? address = none
  live : ∀ address cell, before.cell? address = some cell → ∃ count : UInt32,
    after.cell? address = some { cell with references := count } ∧
      (count.toNat : Int) = cell.references.toNat + change address

namespace Moved

variable {change change' : Address → Int} {before middle after : Heap}

theorem links_eq (moved : Moved change before after) : after.links = before.links := by
  funext address
  unfold links
  cases found : before.cell? address with
  | none => rw [moved.dead address found]
  | some cell =>
      obtain ⟨count, found', _⟩ := moved.live address cell found
      rw [found']
      rfl

theorem of_after (moved : Moved change before after) (address : Address) (cell' : Cell)
    (found' : after.cell? address = some cell') : ∃ cell, before.cell? address = some cell ∧
      cell' = { cell with references := cell'.references } ∧
      (cell'.references.toNat : Int) = cell.references.toNat + change address := by
  cases found : before.cell? address with
  | none =>
      rw [moved.dead address found] at found'
      cases found'
  | some cell =>
      obtain ⟨count, foundAfter, counted⟩ := moved.live address cell found
      rw [foundAfter] at found'
      cases found'
      exact ⟨cell, rfl, rfl, counted⟩

theorem refl (heap : Heap) : Moved (fun _ => 0) heap heap where
  frame := .refl heap
  dead := fun _ found => found
  live := fun _ cell found => ⟨cell.references, found, (Int.add_zero _).symm⟩

theorem trans (first : Moved change before middle) (second : Moved change' middle after) :
    Moved (fun address => change address + change' address) before after where
  frame := first.frame.trans second.frame
  dead := fun address found => second.dead address (first.dead address found)
  live := by
    intro address cell found
    obtain ⟨count, foundMiddle, counted⟩ := first.live address cell found
    obtain ⟨count', foundAfter, counted'⟩ := second.live address _ foundMiddle
    refine ⟨count', foundAfter, ?_⟩
    change (count'.toNat : Int) = count.toNat + change' address at counted'
    omega

/-- How the counts moved says all about the later heap. -/
theorem unique {after' : Heap} (moved : Moved change before after)
    (moved' : Moved change before after') : after = after' := by
  apply (moved'.frame.symm.trans moved.frame).heap_eq
  intro address
  cases found : before.cell? address with
  | none => rw [moved.dead address found, moved'.dead address found]
  | some cell =>
      obtain ⟨count, foundAfter, counted⟩ := moved.live address cell found
      obtain ⟨count', foundAfter', counted'⟩ := moved'.live address cell found
      have same : count = count' := UInt32.toNat_inj.mp (by omega)
      rw [foundAfter, foundAfter', same]

theorem congr (moved : Moved change before after)
    (same : ∀ address, change address = change' address) : Moved change' before after := by
  have equal : change = change' := funext same
  rw [← equal]
  exact moved

end Moved

/-! ### Writing counts -/

def writeCounts (heap : Heap) (counts : List (Address × UInt32)) : Heap :=
  counts.foldl (fun heap entry => heap.setReferences entry.1 entry.2) heap

theorem cell?_writeCounts (counts : List (Address × UInt32)) (heap : Heap)
    (distinct : (counts.map Prod.fst).Nodup) :
    SameFrame heap (heap.writeCounts counts) ∧
      (∀ address, address ∉ counts.map Prod.fst →
        (heap.writeCounts counts).cell? address = heap.cell? address) ∧
      ∀ address count, (address, count) ∈ counts →
        (heap.writeCounts counts).cell? address =
          (heap.cell? address).map fun cell => { cell with references := count } := by
  unfold writeCounts
  induction counts generalizing heap with
  | nil =>
      exact ⟨.refl heap, fun _ _ => rfl, fun _ _ member => absurd member List.not_mem_nil⟩
  | cons entry rest ih =>
      obtain ⟨first, written⟩ := entry
      rw [List.map_cons] at distinct
      obtain ⟨fresh, restDistinct⟩ := List.nodup_cons.mp distinct
      obtain ⟨frame, kept, set⟩ := ih (heap.setReferences first written) restDistinct
      refine ⟨(sameFrame_modifyCell heap first _).trans frame, ?_, ?_⟩
      · intro address absent
        rw [List.map_cons, List.mem_cons, not_or] at absent
        rw [List.foldl_cons, kept address absent.2, cell?_setReferences, if_neg absent.1]
      · intro address count member
        rw [List.foldl_cons]
        rcases List.mem_cons.mp member with same | later
        · obtain ⟨rfl, rfl⟩ := Prod.mk.inj same
          rw [kept address fresh, cell?_setReferences, if_pos rfl]
        · have inRest : address ∈ rest.map Prod.fst :=
            List.mem_map.mpr ⟨(address, count), later, rfl⟩
          have apart : address ≠ first := by
            intro same
            subst same
            exact fresh inRest
          rw [set address count later, cell?_setReferences, if_neg apart]

end ScriptCore.Heap
