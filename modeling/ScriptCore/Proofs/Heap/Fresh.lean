import ScriptCore.Proofs.Heap.FreeSlots
import ScriptCore.Proofs.Ownership.Paths

set_option autoImplicit false

/-! A new cell in the graph of ownership. Nothing that was there can reach it, and what was
there reaches the same cells as before. -/

namespace ScriptCore.Heap

open Links

variable {heap : Heap} (listed : heap.FreeListed) (closed : Closed heap.links) {value : Value}
  {next : Option Address}

include listed

theorem children_allocate_elsewhere (address : Address)
    (apart : address ≠ (heap.allocate value next).1) :
    Links.children (heap.allocate value next).2.links address =
      Links.children heap.links address := by
  unfold Links.children links
  rw [listed.cell?_allocate, if_neg apart]

theorem cell?_fresh :
    (heap.allocate value next).2.cell? (heap.allocate value next).1 =
      some ⟨value, next, 0⟩ := by
  rw [listed.cell?_allocate, if_pos rfl]

theorem children_fresh :
    Links.children (heap.allocate value next).2.links (heap.allocate value next).1 =
      next.toList ++ value.children :=
  children_eq (links_of_cell? _ _ _ (cell?_fresh listed))

theorem ne_fresh_of_live {address : Address} (live : Live heap.links address) :
    address ≠ (heap.allocate value next).1 := by
  intro same
  obtain ⟨cell, found⟩ := (heap.live_links_iff address).mp live
  rw [same, listed.dead_allocate] at found
  cases found

include closed

theorem not_below_fresh {source : Address} (live : Live heap.links source) :
    ¬ Below heap.links source (heap.allocate value next).1 := fun below =>
  ne_fresh_of_live listed (live_of_closed closed live below) rfl

variable (named : ∀ child, child ∈ next.toList ++ value.children → Live heap.links child)

include named

theorem apart_fresh (child : Address)
    (owns : Owns (heap.allocate value next).2.links (heap.allocate value next).1 child) :
    ¬ Below heap.links child (heap.allocate value next).1 := by
  rw [Owns, children_fresh listed] at owns
  exact not_below_fresh listed closed (named child owns)

theorem closed_allocate : Closed (heap.allocate value next).2.links := by
  have grows := listed.grows_allocate value next
  intro parent child owns
  by_cases same : parent = (heap.allocate value next).1
  · rw [Owns, same, children_fresh listed] at owns
    exact grows.live (named child owns)
  · rw [Owns, children_allocate_elsewhere listed parent same] at owns
    exact grows.live (closed parent child owns)

theorem founded_allocate (founded : ∀ address, Founded heap.links address) (address : Address) :
    Founded (heap.allocate value next).2.links address :=
  founded_relink (children_allocate_elsewhere listed) founded
    (apart_fresh listed closed named) address

theorem acyclic_allocate (acyclic : Acyclic heap.links) :
    Acyclic (heap.allocate value next).2.links :=
  acyclic_of_founded (founded_allocate listed closed named (heap.founded_of_acyclic acyclic))

omit named in
theorem below_allocate_iff {source : Address} (live : Live heap.links source)
    (target : Address) :
    Below (heap.allocate value next).2.links source target ↔
      Below heap.links source target :=
  below_congr_iff (children_eq_of_apart (children_allocate_elsewhere listed)
    (not_below_fresh listed closed live)) target

theorem below_fresh_iff {target : Address} (live : Live heap.links target) :
    Below (heap.allocate value next).2.links (heap.allocate value next).1 target ↔
      ∃ child, child ∈ next.toList ++ value.children ∧ Below heap.links child target := by
  constructor
  · intro below
    rcases Relation.ReflTransGen.cases_head below with same | ⟨child, owns, lower⟩
    · exact absurd same.symm (ne_fresh_of_live listed live)
    · rw [Owns, children_fresh listed] at owns
      exact ⟨child, owns, (below_allocate_iff listed closed (named child owns) target).mp lower⟩
  · rintro ⟨child, member, below⟩
    refine Below.trans (Below.of_owns ?_)
      ((below_allocate_iff listed closed (named child member) target).mpr below)
    rw [Owns, children_fresh listed]
    exact member

end ScriptCore.Heap
