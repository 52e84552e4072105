import Mathlib.Data.List.Nodup
import ScriptCore.Heap.Basic
import ScriptCore.Proofs.References.Moved

set_option autoImplicit false

/-! The list of free slots and the dead slots are the same, so an allocation takes a dead
address and touches no other cell. -/

namespace ScriptCore.Heap

/-- Every dead slot is listed as free, once, and no other address is. -/
structure FreeListed (heap : Heap) : Prop where
  distinct : heap.free.Nodup
  mem_iff : ∀ address, address ∈ heap.free ↔
    address.index < heap.slots.size ∧ heap.cell? address = none

theorem nodup_addresses (heap : Heap) : heap.addresses.Nodup := by
  refine List.Nodup.map ?_ List.nodup_range
  intro first second same
  exact congrArg Address.index same

theorem nodup_live (heap : Heap) : heap.live.Nodup := heap.nodup_addresses.filter _

theorem nodup_unheld (heap : Heap) : heap.unheld.Nodup := heap.nodup_addresses.filter _

theorem cell?_modifyCell_eq_none_iff (heap : Heap) (address : Address) (change : Cell → Cell)
    (other : Address) :
    (heap.modifyCell address change).cell? other = none ↔ heap.cell? other = none := by
  rw [cell?_modifyCell]
  by_cases same : other = address
  · rw [if_pos same, Option.map_eq_none_iff]
  · rw [if_neg same]

/-- Every cell of the earlier heap is still there, as it was. -/
def Grows (before after : Heap) : Prop :=
  ∀ address cell, before.cell? address = some cell → after.cell? address = some cell

theorem Grows.refl (heap : Heap) : Grows heap heap := fun _ _ found => found

theorem Grows.trans {before middle after : Heap} (first : Grows before middle)
    (second : Grows middle after) : Grows before after := fun address cell found =>
  second address cell (first address cell found)

theorem Grows.live {before after : Heap} (grows : Grows before after) {address : Address}
    (live : Links.Live before.links address) : Links.Live after.links address := by
  obtain ⟨cell, found⟩ := (before.live_links_iff address).mp live
  exact (after.live_links_iff address).mpr ⟨cell, grows address cell found⟩

theorem freeListed_empty (limits : Limits) : (empty limits).FreeListed where
  distinct := List.nodup_nil
  mem_iff := by
    intro address
    constructor
    · intro member
      exact absurd member List.not_mem_nil
    · rintro ⟨inside, _⟩
      exact absurd inside (Nat.not_lt_zero _)

namespace FreeListed

variable {heap : Heap} (listed : heap.FreeListed)

include listed

theorem of_sameFrame {after : Heap} (frame : SameFrame heap after)
    (same : ∀ address, after.cell? address = none ↔ heap.cell? address = none) :
    after.FreeListed where
  distinct := by
    rw [frame.free]
    exact listed.distinct
  mem_iff := by
    intro address
    rw [frame.free, frame.size, same]
    exact listed.mem_iff address

theorem of_moved {change : Address → Int} {after : Heap} (moved : Moved change heap after) :
    after.FreeListed := by
  apply listed.of_sameFrame moved.frame
  intro address
  constructor
  · intro dead
    cases found : heap.cell? address with
    | none => rfl
    | some cell =>
        obtain ⟨_, found', _⟩ := moved.live address cell found
        rw [dead] at found'
        cases found'
  · exact moved.dead address

theorem modifyCell (address : Address) (change : Cell → Cell) :
    (heap.modifyCell address change).FreeListed :=
  listed.of_sameFrame (sameFrame_modifyCell heap address change)
    (cell?_modifyCell_eq_none_iff heap address change)

/-! ### Allocation -/

theorem dead_allocate (value : Value) (next : Option Address) :
    heap.cell? (heap.allocate value next).1 = none := by
  unfold allocate
  cases reuse : heap.free with
  | nil =>
      change heap.cell? ⟨heap.slots.size⟩ = none
      unfold cell?
      rw [Array.getElem?_eq_none (Nat.le_refl _)]
      rfl
  | cons slot free =>
      exact ((listed.mem_iff slot).mp (reuse ▸ List.mem_cons_self ..)).2

theorem cell?_allocate (value : Value) (next : Option Address) (address : Address) :
    (heap.allocate value next).2.cell? address =
      if address = (heap.allocate value next).1 then some ⟨value, next, 0⟩
      else heap.cell? address := by
  cases reuse : heap.free with
  | nil => exact heap.cell?_allocate_of_free_eq_nil value next address reuse
  | cons slot free =>
      have inside := ((listed.mem_iff slot).mp (reuse ▸ List.mem_cons_self ..)).1
      have taken : (heap.allocate value next).1 = slot := by
        simp only [allocate, reuse]
      rw [taken]
      exact heap.cell?_allocate_of_free_eq_cons value next address slot free reuse inside

theorem grows_allocate (value : Value) (next : Option Address) :
    Grows heap (heap.allocate value next).2 := by
  intro address cell found
  rw [listed.cell?_allocate, if_neg]
  · exact found
  · intro same
    subst same
    rw [listed.dead_allocate] at found
    cases found

theorem allocate (value : Value) (next : Option Address) :
    (heap.allocate value next).2.FreeListed := by
  have cells := listed.cell?_allocate value next
  cases reuse : heap.free with
  | nil =>
      have free : (heap.allocate value next).2.free = [] := by simp only [Heap.allocate, reuse]
      have size : (heap.allocate value next).2.slots.size = heap.slots.size + 1 := by
        simp only [Heap.allocate, reuse, Array.size_push]
      have fresh : (heap.allocate value next).1 = ⟨heap.slots.size⟩ := by
        simp only [Heap.allocate, reuse]
      refine ⟨free ▸ List.nodup_nil, ?_⟩
      intro address
      rw [free, size, cells address, fresh]
      constructor
      · intro member
        exact absurd member List.not_mem_nil
      · rintro ⟨inside, dead⟩
        by_cases same : address = ⟨heap.slots.size⟩
        · rw [if_pos same] at dead
          cases dead
        · rw [if_neg same] at dead
          have apart : address.index ≠ heap.slots.size := by
            intro equal
            cases address
            exact same (congrArg Address.mk equal)
          rw [← reuse]
          exact (listed.mem_iff address).mpr ⟨by omega, dead⟩
  | cons slot rest =>
      have free : (heap.allocate value next).2.free = rest := by simp only [Heap.allocate, reuse]
      have size : (heap.allocate value next).2.slots.size = heap.slots.size := by
        simp only [Heap.allocate, reuse, Array.size_setIfInBounds]
      have fresh : (heap.allocate value next).1 = slot := by simp only [Heap.allocate, reuse]
      have distinct := listed.distinct
      rw [reuse] at distinct
      obtain ⟨notLater, restDistinct⟩ := List.nodup_cons.mp distinct
      refine ⟨free ▸ restDistinct, ?_⟩
      intro address
      have before := listed.mem_iff address
      rw [reuse, List.mem_cons] at before
      rw [free, size, cells address, fresh]
      by_cases same : address = slot
      · rw [if_pos same, same]
        exact ⟨fun member => absurd member notLater, fun inside => by cases inside.2⟩
      · rw [if_neg same, ← before]
        exact ⟨Or.inr, fun member => member.resolve_left same⟩

/-! ### Reclaiming -/

theorem sweep : heap.sweep.2.FreeListed := by
  have inFreed (address : Address) : address ∈ heap.unheld ↔
      ∃ cell, heap.cell? address = some cell ∧ cell.references = 0 := heap.mem_unheld_iff address
  constructor
  · refine List.nodup_append'.mpr ⟨List.nodup_reverse.mpr heap.nodup_unheld,
      listed.distinct, ?_⟩
    intro address freed free
    obtain ⟨cell, found, _⟩ := (inFreed address).mp (List.mem_reverse.mp freed)
    rw [((listed.mem_iff address).mp free).2] at found
    cases found
  · intro address
    have size : heap.sweep.2.slots.size = heap.slots.size := Array.size_map
    rw [size, cell?_sweep]
    change address ∈ heap.unheld.reverse ++ heap.free ↔ _
    rw [List.mem_append, List.mem_reverse, inFreed, listed.mem_iff]
    cases found : heap.cell? address with
    | none => simp
    | some cell =>
        have inside := heap.index_lt_size_of_cell? address cell found
        simp [inside, Cell.isUnheld]

end FreeListed

end ScriptCore.Heap
