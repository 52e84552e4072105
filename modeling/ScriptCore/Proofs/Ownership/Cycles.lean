import ScriptCore.Proofs.Ownership.Paths
import ScriptCore.Proofs.Ownership.Search

set_option autoImplicit false

/-! New children of one cell close a cycle exactly when one of them already contains the
cell. So a search in the graph as it was decides about the graph as it will be. -/

namespace ScriptCore

namespace Links

section Relink

variable {links links' : Links} {owner : Address}
  (elsewhere : ∀ address, address ≠ owner → children links' address = children links address)

include elsewhere

/-- A way to the owner need not pass the owner before its end. -/
theorem below_owner_relink {source : Address} (below : Below links source owner) :
    Below links' source owner := by
  induction below using Relation.ReflTransGen.head_induction_on with
  | refl => exact Relation.ReflTransGen.refl
  | @head parent child owns _ ih =>
      -- a way that passes the owner earlier is cut there
      by_cases same : parent = owner
      · rw [same]
        exact Relation.ReflTransGen.refl
      · rw [Owns, ← elsewhere parent same] at owns
        exact Relation.ReflTransGen.head owns ih

theorem acyclic_relink_iff (founded : ∀ address, Founded links address) :
    Acyclic links' ↔ ∀ child, Owns links' owner child → ¬ Below links child owner := by
  constructor
  · intro acyclic child owns below
    exact acyclic owner (StrictlyBelow.of_owns_below owns (below_owner_relink elsewhere below))
  · intro apart
    exact acyclic_of_founded (founded_relink elsewhere founded apart)

end Relink

theorem eq_of_below_of_not_live {links : Links} {source address : Address}
    (dead : ¬ Live links source) (below : Below links source address) : address = source := by
  rcases Relation.ReflTransGen.cases_head below with same | ⟨child, owns, _⟩
  · exact same.symm
  · exact absurd (live_of_owns owns) dead

end Links

namespace Heap

open Links

/-- Where nothing dead is owned, a child is refused exactly when it contains the parent or is
dead itself. -/
theorem refuseCycle_cases (heap : Heap) (closed : Closed heap.links) (parent child : Address) :
    (Below heap.links child parent ∧
        heap.refuseCycle parent child = .error (.cycle parent child)) ∨
      (¬ Live heap.links child ∧ heap.refuseCycle parent child = .error (.dangling child)) ∨
      (Live heap.links child ∧ ¬ Below heap.links child parent ∧
        heap.refuseCycle parent child = .ok ()) := by
  cases answer : heap.refuseCycle parent child with
  | ok accepted =>
      obtain ⟨apart, allLive⟩ := heap.refuseCycle_ok parent child answer
      exact Or.inr (Or.inr ⟨allLive child Relation.ReflTransGen.refl, apart, rfl⟩)
  | error fault =>
      rcases heap.refuseCycle_error parent child fault answer with
        ⟨rfl, below⟩ | ⟨dead, rfl, below, notLive, _⟩
      · exact Or.inl ⟨below, rfl⟩
      · have childDead : ¬ Live heap.links child := fun childLive =>
          notLive (live_of_closed closed childLive below)
        rw [eq_of_below_of_not_live childDead below]
        exact Or.inr (Or.inl ⟨childDead, rfl⟩)

end Heap
end ScriptCore
