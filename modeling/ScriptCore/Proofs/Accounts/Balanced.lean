import ScriptCore.Proofs.Accounts.Exchange
import ScriptCore.Proofs.Heap.Fresh

set_option autoImplicit false

/-! Heaps in order: the counts are accounted for, the roots are live and the free slots are
listed. Roots come and go, cells are allocated and exchange children, and a sweep frees
what no root reaches; the heap stays in order throughout. -/

namespace ScriptCore.Heap

open Links

structure Balanced (heap : Heap) (roots : List Address) : Prop
    extends Accounted heap roots where
  listed : heap.FreeListed
  rooted : ∀ root, root ∈ roots → Live heap.links root

/-- Some root is the address or leads to it. -/
def Reached (heap : Heap) (roots : List Address) (address : Address) : Prop :=
  ∃ root, root ∈ roots ∧ Below heap.links root address

theorem Reached.below {heap : Heap} {roots : List Address} {upper lower : Address}
    (reached : heap.Reached roots upper) (below : Below heap.links upper lower) :
    heap.Reached roots lower := by
  obtain ⟨root, member, above⟩ := reached
  exact ⟨root, member, above.trans below⟩

theorem links_empty (limits : Limits) (address : Address) :
    (empty limits).links address = none := by
  rw [links, cell?_empty, Option.map_none]

theorem not_owns_empty (limits : Limits) (parent child : Address) :
    ¬ Owns (empty limits).links parent child := by
  intro owns
  obtain ⟨_, found⟩ := live_of_owns owns
  rw [links_empty] at found
  cases found

theorem balanced_empty (limits : Limits) : (empty limits).Balanced [] where
  closed := fun parent child owns => absurd owns (not_owns_empty limits parent child)
  founded := fun address => Acc.intro address fun child owns =>
    absurd owns (not_owns_empty limits address child)
  counted := by
    intro address cell found
    rw [cell?_empty] at found
    cases found
  listed := freeListed_empty limits
  rooted := fun _ member => absurd member List.not_mem_nil

namespace Balanced

variable {heap after : Heap} {roots : List Address} (balanced : Balanced heap roots)

include balanced

theorem perm {roots' : List Address} (same : roots.Perm roots') : Balanced heap roots' where
  toAccounted := balanced.toAccounted.perm same
  listed := balanced.listed
  rooted := fun root member => balanced.rooted root (same.mem_iff.mpr member)

theorem live_of_reached {address : Address} (reached : heap.Reached roots address) :
    Live heap.links address := by
  obtain ⟨root, member, below⟩ := reached
  exact live_of_closed balanced.closed (balanced.rooted root member) below

/-- The counts tell exactly which cells the roots reach. -/
theorem reached_iff {address : Address} {cell : Cell} (found : heap.cell? address = some cell) :
    heap.Reached roots address ↔ cell.references ≠ 0 := by
  have counted := balanced.counted address cell found
  have positive : 0 < pathsFrom heap.links roots address ↔ heap.Reached roots address :=
    pathsFrom_pos_iff (fun root _ => balanced.founded root) address
  rw [← positive, ← counted, Nat.pos_iff_ne_zero, ne_eq, ne_eq, ← UInt32.toNat_inj,
    UInt32.toNat_zero]

/-! ### Roots -/

theorem addReference_cases (root : Address) :
    (∃ after, heap.addReference root = .ok after ∧ Balanced after (root :: roots)) ∨
      ∃ fault, heap.addReference root = .error fault := by
  rcases balanced.toAccounted.addReference_cases root with
    ⟨after, added, live, moved, accounted⟩ | failed
  · refine Or.inl ⟨after, added, accounted, balanced.listed.of_moved moved, ?_⟩
    intro other member
    rw [moved.links_eq]
    rcases List.mem_cons.mp member with rfl | earlier
    · exact live
    · exact balanced.rooted other earlier
  · exact Or.inr failed

theorem addReference {root : Address} (added : heap.addReference root = .ok after) :
    Balanced after (root :: roots) := by
  rcases balanced.addReference_cases root with ⟨other, added', more⟩ | ⟨fault, failed⟩
  · rw [added] at added'
    cases added'
    exact more
  · rw [added] at failed
    cases failed

omit balanced in
theorem removeReference {root : Address} (balanced : Balanced heap (root :: roots)) :
    ∃ after, heap.removeReference root = .ok after ∧
      Moved (heap.movement .release root 1) heap after ∧ Balanced after roots := by
  obtain ⟨after, removed, moved, accounted⟩ := balanced.toAccounted.removeReference
    (balanced.rooted root (List.mem_cons_self ..))
  refine ⟨after, removed, moved, accounted, balanced.listed.of_moved moved, ?_⟩
  intro other member
  rw [moved.links_eq]
  exact balanced.rooted other (List.mem_cons_of_mem root member)

/-! ### Exchanged children -/

theorem of_exchange {owner : Address} {cell : Cell} {change : Cell → Cell}
    {old new : List Address} (exchange : Exchange heap owner cell change old new)
    (moved : Moved (fun address => heap.share cell.references new address -
      heap.share cell.references old address) (heap.modifyCell owner change) after) :
    Balanced after roots where
  toAccounted := exchange.accounted_after balanced.toAccounted moved
  listed := (balanced.listed.modifyCell owner change).of_moved moved
  rooted := by
    intro root member
    rw [moved.links_eq, Exchange.live_iff]
    exact balanced.rooted root member

/-! ### Allocation -/

section Allocate

variable {value : Value} {next : Option Address}

theorem live_fresh : Live (heap.allocate value next).2.links (heap.allocate value next).1 :=
  (live_links_iff _ _).mpr ⟨_, cell?_fresh balanced.listed⟩

theorem allocate (named : ∀ child, child ∈ next.toList ++ value.children → Live heap.links child) :
    Balanced (heap.allocate value next).2 roots := by
  have grows := balanced.listed.grows_allocate value next
  have unreached : pathsFrom heap.links roots (heap.allocate value next).1 = 0 := by
    apply Nat.eq_zero_of_not_pos
    rw [pathsFrom_pos_iff fun root _ => balanced.founded root]
    rintro ⟨root, member, below⟩
    exact not_below_fresh balanced.listed balanced.closed (balanced.rooted root member) below
  refine ⟨balanced.toAccounted.relink (heap.allocate value next).1
    (children_allocate_elsewhere balanced.listed) (fun _ live => grows.live live) ?_ ?_,
    balanced.listed.allocate value next, ?_⟩
  · intro child owns
    exact ⟨closed_allocate balanced.listed balanced.closed named _ child owns,
      apart_fresh balanced.listed balanced.closed named child owns⟩
  · intro address cell found
    rw [unreached, Nat.zero_mul, Nat.zero_mul]
    rw [balanced.listed.cell?_allocate] at found
    by_cases same : address = (heap.allocate value next).1
    · rw [if_pos same] at found
      cases found
      rw [same, unreached]
      rfl
    · rw [if_neg same] at found
      rw [balanced.counted address cell found]
  · intro root member
    exact grows.live (balanced.rooted root member)

end Allocate

/-! ### Sweeps -/

/-- A sweep keeps what the roots reach. -/
theorem cell?_sweep_of_reached {address : Address} (reached : heap.Reached roots address) :
    heap.sweep.2.cell? address = heap.cell? address := by
  obtain ⟨cell, found⟩ := (heap.live_links_iff address).mp (balanced.live_of_reached reached)
  have held := (balanced.reached_iff found).mp reached
  rw [cell?_sweep, found, Option.filter_some_pos]
  simpa [Cell.isUnheld] using held

theorem live_sweep_iff (address : Address) :
    Live heap.sweep.2.links address ↔ heap.Reached roots address := by
  rw [live_links_iff]
  constructor
  · rintro ⟨cell, found⟩
    rw [cell?_sweep, Option.filter_eq_some_iff] at found
    apply (balanced.reached_iff found.1).mpr
    simpa [Cell.isUnheld] using found.2
  · intro reached
    rw [balanced.cell?_sweep_of_reached reached]
    exact (heap.live_links_iff address).mp (balanced.live_of_reached reached)

theorem mem_unheld_iff (address : Address) :
    address ∈ heap.unheld ↔ Live heap.links address ∧ ¬ heap.Reached roots address := by
  rw [Heap.mem_unheld_iff, live_links_iff]
  constructor
  · rintro ⟨cell, found, none⟩
    refine ⟨⟨cell, found⟩, ?_⟩
    rw [balanced.reached_iff found]
    exact fun held => held none
  · rintro ⟨⟨cell, found⟩, unreached⟩
    rw [balanced.reached_iff found, not_not] at unreached
    exact ⟨cell, found, unreached⟩

theorem children_sweep {address : Address} (reached : heap.Reached roots address) :
    Links.children heap.sweep.2.links address = Links.children heap.links address := by
  unfold Links.children links
  rw [balanced.cell?_sweep_of_reached reached]

theorem reached_of_owns_sweep {parent child : Address}
    (owns : Owns heap.sweep.2.links parent child) :
    Owns heap.links parent child ∧ heap.Reached roots parent ∧ heap.Reached roots child := by
  have reached := (balanced.live_sweep_iff parent).mp (live_of_owns owns)
  rw [Owns, balanced.children_sweep reached] at owns
  exact ⟨owns, reached, reached.below (Below.of_owns owns)⟩

theorem sweep : Balanced heap.sweep.2 roots := by
  refine ⟨⟨?_, ?_, ?_⟩, balanced.listed.sweep, ?_⟩
  · intro parent child owns
    exact (balanced.live_sweep_iff child).mpr (balanced.reached_of_owns_sweep owns).2.2
  · intro address
    induction balanced.founded address with
    | intro address _ ih =>
        exact Acc.intro address fun child owns => ih child (balanced.reached_of_owns_sweep owns).1
  · intro address cell found
    have live := (live_links_iff _ address).mpr ⟨cell, found⟩
    have reached := (balanced.live_sweep_iff address).mp live
    rw [balanced.cell?_sweep_of_reached reached] at found
    rw [balanced.counted address cell found]
    refine (pathsFrom_congr roots address ?_).symm
    intro root member
    refine paths_congr (balanced.founded root) ?_ address
    intro lower below
    exact balanced.children_sweep ⟨root, member, below⟩
  · intro root member
    exact (balanced.live_sweep_iff root).mpr ⟨root, member, Relation.ReflTransGen.refl⟩

theorem sweepIfDue : Balanced heap.sweepIfDue.2 roots := by
  unfold Heap.sweepIfDue
  by_cases due : heap.limits.sweepThreshold ≤ heap.sinceSweep
  · rw [if_pos due]
    exact balanced.sweep
  · rw [if_neg due]
    exact balanced

end Balanced
end ScriptCore.Heap
