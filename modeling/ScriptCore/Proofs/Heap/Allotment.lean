import Mathlib.Data.Set.Card
import ScriptCore.Proofs.Heap.Works

set_option autoImplicit false

/-! Slots handed out. Every slot is live or listed as free, so the number of live cells follows
from the length of the free list, and each part of some work changes the two together. -/

namespace ScriptCore.Heap

open Links

/-! ### Live and dead slots -/

theorem length_live (heap : Heap) : heap.live.length = heap.liveCount := by
  have slots : heap.slots.toList =
      (List.range heap.slots.size).map fun index => heap.cell? ⟨index⟩ := by
    apply List.ext_getElem
    · rw [List.length_map, List.length_range, Array.length_toList]
    · intro index inside _
      rw [Array.length_toList] at inside
      rw [List.getElem_map, List.getElem_range, Array.getElem_toList, cell?,
        Array.getElem?_eq_getElem inside]
      rfl
  rw [live, addresses, ← List.countP_eq_length_filter, List.countP_map, liveCount,
    ← Array.countP_toList, slots, List.countP_map]
  rfl

private theorem setOf_live_eq (heap : Heap) :
    {address | Live heap.links address} = (heap.live.toFinset : Set Address) := by
  ext address
  rw [Set.mem_ofPred_eq, Finset.mem_coe, List.mem_toFinset, mem_live_iff, live_links_iff]

theorem finite_live (heap : Heap) : {address | Live heap.links address}.Finite := by
  rw [setOf_live_eq]
  exact Finset.finite_toSet _

theorem liveCount_eq_ncard (heap : Heap) :
    heap.liveCount = {address | Live heap.links address}.ncard := by
  rw [setOf_live_eq, Set.ncard_coe_finset, List.toFinset_card_of_nodup heap.nodup_live,
    length_live]

theorem FreeListed.liveCount_add_length_free {heap : Heap} (listed : heap.FreeListed) :
    heap.liveCount + heap.free.length = heap.slots.size := by
  have dead : heap.free.Perm (heap.addresses.filter fun address => ¬ heap.isLive address) := by
    refine (List.perm_ext_iff_of_nodup listed.distinct (heap.nodup_addresses.filter _)).mpr ?_
    intro address
    rw [listed.mem_iff, List.mem_filter, mem_addresses_iff]
    simp [isLive]
  have split := List.length_eq_countP_add_countP heap.isLive (l := heap.addresses)
  rw [List.countP_eq_length_filter, List.countP_eq_length_filter] at split
  rw [dead.length_eq, ← length_live, live, ← split, addresses, List.length_map,
    List.length_range]

/-! ### What work takes -/

/-- So many cells were allocated, each in a free slot or in a new one. -/
structure Took (count : Nat) (before after : Heap) : Prop where
  limits : after.limits = before.limits
  sinceSweep : after.sinceSweep = before.sinceSweep + count
  tally : after.tally = { before.tally with allocated := before.tally.allocated + count }
  slots : after.slots.size + before.free.length =
    before.slots.size + after.free.length + count

namespace Took

variable {before middle after : Heap} {count count' : Nat}

theorem of_sameFrame (frame : SameFrame before after) : Took 0 before after where
  limits := frame.limits
  sinceSweep := frame.sinceSweep
  tally := frame.tally
  slots := by rw [frame.size, frame.free]; rfl

theorem allocate (heap : Heap) (value : Value) (next : Option Address) :
    Took 1 heap (heap.allocate value next).2 := by
  unfold Heap.allocate
  cases reuse : heap.free with
  | nil => exact ⟨rfl, rfl, rfl, by simp only [Array.size_push, reuse]; rfl⟩
  | cons slot free =>
      refine ⟨rfl, rfl, rfl, ?_⟩
      simp only [Array.size_setIfInBounds, reuse, List.length_cons]
      omega

theorem trans (first : Took count before middle) (later : Took count' middle after) :
    Took (count + count') before after where
  limits := later.limits.trans first.limits
  sinceSweep := by rw [later.sinceSweep, first.sinceSweep, Nat.add_assoc]
  tally := by rw [later.tally, first.tally]; simp only [Nat.add_assoc]
  slots := by
    have early := first.slots
    have late := later.slots
    omega

end Took

theorem Works.took {heap after : Heap} {taken : List Address} (works : Works heap taken after) :
    Took taken.length heap after := by
  induction works with
  | done heap => exact .of_sameFrame (.refl heap)
  | edit edited _ ih =>
      have both := (Took.of_sameFrame edited.frame).trans ih
      rw [Nat.zero_add] at both
      exact both
  | allocate value _ _ ih =>
      have both := (Took.allocate _ value _).trans ih
      rw [Nat.add_comm] at both
      exact both
  | link owner _ _ _ _ ih =>
      have both := (Took.of_sameFrame (sameFrame_modifyCell _ owner _)).trans ih
      rw [Nat.zero_add] at both
      exact both

/-! ### Slots handed out one by one -/

/-- The addresses are handed out in this order. Until then each is dead, no other cell changes
when it is handed out, and the slot is a new one only if every slot is live. In between no
cell comes or goes. -/
inductive Allots : Heap → List Address → Heap → Prop where
  | done (heap : Heap) : Allots heap [] heap
  | keep {heap middle after : Heap} {taken : List Address}
      (size : middle.slots.size = heap.slots.size)
      (live : ∀ address, Live middle.links address ↔ Live heap.links address)
      (rest : Allots middle taken after) : Allots heap taken after
  | take {heap middle after : Heap} {taken : List Address} {address : Address}
      (dead : ¬ Live heap.links address) (live : Live middle.links address)
      (others : ∀ other, other ≠ address → middle.cell? other = heap.cell? other)
      (room : middle.slots.size = heap.slots.size ∨
        middle.slots.size = heap.slots.size + 1 ∧
          ∀ other, other ∈ heap.addresses → Live heap.links other)
      (rest : Allots middle taken after) : Allots heap (address :: taken) after

private theorem room_allocate {heap : Heap} (listed : heap.FreeListed) (value : Value)
    (next : Option Address) :
    (heap.allocate value next).2.slots.size = heap.slots.size ∨
      (heap.allocate value next).2.slots.size = heap.slots.size + 1 ∧
        ∀ other, other ∈ heap.addresses → Live heap.links other := by
  cases reuse : heap.free with
  | cons slot free =>
      left
      simp only [Heap.allocate, reuse, Array.size_setIfInBounds]
  | nil =>
      right
      refine ⟨by simp only [Heap.allocate, reuse, Array.size_push], ?_⟩
      intro other inside
      rw [live_links_iff, ← Option.ne_none_iff_exists']
      intro dead
      have free := (listed.mem_iff other).mpr ⟨(heap.mem_addresses_iff other).mp inside, dead⟩
      rw [reuse] at free
      exact absurd free List.not_mem_nil

theorem live_iff_of_cell?_eq_none_iff {before after : Heap}
    (same : ∀ address, after.cell? address = none ↔ before.cell? address = none)
    (address : Address) : Live after.links address ↔ Live before.links address := by
  rw [live_links_iff, live_links_iff, ← Option.ne_none_iff_exists', ← Option.ne_none_iff_exists',
    not_iff_not, same]

theorem Works.allots {heap after : Heap} {taken : List Address} (works : Works heap taken after)
    (listed : heap.FreeListed) : Allots heap taken after := by
  induction works with
  | done heap => exact .done heap
  | edit edited _ ih =>
      exact .keep edited.frame.size (live_iff_of_cell?_eq_none_iff edited.cell?_eq_none_iff)
        (ih (listed.of_sameFrame edited.frame edited.cell?_eq_none_iff))
  | @allocate heap _ _ value next _ _ _ ih =>
      refine .take ?_ ((live_links_iff _ _).mpr ⟨_, cell?_fresh listed⟩) ?_
        (room_allocate listed value next) (ih (listed.allocate value next))
      · intro live
        exact ne_fresh_of_live listed live rfl
      · intro other apart
        rw [listed.cell?_allocate, if_neg apart]
  | link owner _ _ _ _ ih =>
      exact .keep Array.size_modify
        (live_iff_of_cell?_eq_none_iff (cell?_modifyCell_eq_none_iff _ owner _))
        (ih (listed.modifyCell owner _))

namespace Allots

variable {heap after : Heap} {taken : List Address}

theorem live (allots : Allots heap taken after) {address : Address}
    (live : Live heap.links address) : Live after.links address := by
  induction allots with
  | done heap => exact live
  | keep _ same _ ih => exact ih ((same address).mpr live)
  | take dead _ others _ _ ih =>
      apply ih
      rw [live_links_iff, others]
      · exact (live_links_iff _ address).mp live
      · intro same
        rw [same] at live
        exact dead live

end Allots

/-- The addresses are handed out in this order, and every cell that there was stays as it is. -/
structure OnlyAllots (before : Heap) (taken : List Address) (after : Heap) : Prop where
  allots : Allots before taken after
  grows : Grows before after

theorem Adds.onlyAllots {heap after : Heap} {taken : List Address}
    (adds : Adds heap taken after) (listed : heap.FreeListed) : OnlyAllots heap taken after :=
  ⟨adds.works.allots listed, adds.grows listed⟩

end ScriptCore.Heap
