import ScriptCore.Proofs.Heap.Work
import ScriptCore.Proofs.References.Adjustment

set_option autoImplicit false

/-! Heaps whose counts are accounted for: each cell is held once for every path that leads
to it from a root. Holding one more root, letting one go, and giving a cell other children
keep the account, as long as the counts move along. -/

namespace ScriptCore.Heap

open Links

/-- Nothing dead is owned, nothing owns itself, and the count of each cell is the number
of paths to it from the roots. -/
structure Accounted (heap : Heap) (roots : List Address) : Prop where
  closed : Closed heap.links
  founded : ∀ address, Founded heap.links address
  counted : ∀ address cell, heap.cell? address = some cell →
    cell.references.toNat = pathsFrom heap.links roots address

namespace Accounted

variable {heap after : Heap} {roots : List Address}

theorem perm {roots' : List Address} (accounted : Accounted heap roots)
    (same : roots.Perm roots') : Accounted heap roots' where
  closed := accounted.closed
  founded := accounted.founded
  counted := by
    intro address cell found
    rw [accounted.counted address cell found, pathsFrom_perm same]

theorem of_moved {roots' : List Address} {change : Address → Int}
    (accounted : Accounted heap roots) (moved : Moved change heap after)
    (balanced : ∀ address, (pathsFrom heap.links roots' address : Int) =
      pathsFrom heap.links roots address + change address) : Accounted after roots' where
  closed := by
    rw [moved.links_eq]
    exact accounted.closed
  founded := by
    rw [moved.links_eq]
    exact accounted.founded
  counted := by
    intro address cell' found'
    obtain ⟨cell, found, _, counted⟩ := moved.of_after address cell' found'
    have before := accounted.counted address cell found
    have balance := balanced address
    rw [moved.links_eq]
    omega

/-- One cell owns other children, and the counts are those that its new paths ask for. -/
theorem relink (owner : Address) (accounted : Accounted heap roots)
    (elsewhere : ∀ address, address ≠ owner →
      children after.links address = children heap.links address)
    (live : ∀ address, Live heap.links address → Live after.links address)
    (apart : ∀ child, Owns after.links owner child →
      Live after.links child ∧ ¬ Below heap.links child owner)
    (counted : ∀ address cell, after.cell? address = some cell →
      cell.references.toNat +
          pathsFrom heap.links roots owner *
            pathsFrom heap.links (children heap.links owner) address =
        pathsFrom heap.links roots address +
          pathsFrom heap.links roots owner *
            pathsFrom heap.links (children after.links owner) address) :
    Accounted after roots where
  closed := by
    intro parent child owns
    by_cases same : parent = owner
    · subst same
      exact (apart child owns).1
    · rw [Owns, elsewhere parent same] at owns
      exact live child (accounted.closed parent child owns)
  founded := founded_relink elsewhere accounted.founded fun child owns => (apart child owns).2
  counted := by
    intro address cell found
    have exchanged := pathsFrom_relink elsewhere accounted.founded
      (fun child owns => (apart child owns).2) roots address
    have here := counted address cell found
    omega

theorem live_below (accounted : Accounted heap roots) {root address : Address}
    (live : Live heap.links root) (below : Below heap.links root address) :
    Live heap.links address := live_of_closed accounted.closed live below

/-! ### Roots -/

theorem addReference_cases (accounted : Accounted heap roots) (root : Address) :
    (∃ after, heap.addReference root = .ok after ∧ Live heap.links root ∧
        Moved (heap.movement .retain root 1) heap after ∧ Accounted after (root :: roots)) ∨
      ∃ fault, heap.addReference root = .error fault := by
  by_cases live : Live heap.links root
  · rcases heap.retain_cases root 1 (accounted.founded root)
      (fun address below => accounted.live_below live below) with
      ⟨after, done, moved⟩ | ⟨_, _, _, _, _, failed⟩
    · refine Or.inl ⟨after, done, live, moved, accounted.of_moved moved ?_⟩
      intro address
      rw [pathsFrom_cons, movement, Adjustment.sign]
      change ((_ + _ : Nat) : Int) = _ + 1 * ((_ * 1 : Nat) : Int)
      omega
    · exact Or.inr ⟨_, failed⟩
  · rcases heap.adjust_cases .retain root 1 (by decide) (accounted.founded root).cycleFree with
      ⟨_, _, _, failed⟩ | ⟨allLive, _⟩
    · exact Or.inr ⟨_, failed⟩
    · exact absurd (allLive root Relation.ReflTransGen.refl) live

theorem addReference (accounted : Accounted heap roots) {root : Address}
    (added : heap.addReference root = .ok after) :
    Moved (heap.movement .retain root 1) heap after ∧ Accounted after (root :: roots) := by
  rcases accounted.addReference_cases root with ⟨other, added', _, moved, more⟩ | ⟨fault, failed⟩
  · rw [added] at added'
    cases added'
    exact ⟨moved, more⟩
  · rw [added] at failed
    cases failed

theorem removeReference {root : Address} (accounted : Accounted heap (root :: roots))
    (live : Live heap.links root) :
    ∃ after, heap.removeReference root = .ok after ∧
      Moved (heap.movement .release root 1) heap after ∧ Accounted after roots := by
  obtain ⟨after, done, moved⟩ := heap.release_of_le root 1 (accounted.founded root)
    (fun address below => accounted.live_below live below) (by
      intro address cell found
      rw [accounted.counted address cell found, pathsFrom_cons]
      change _ * 1 ≤ _
      omega)
  refine ⟨after, done, moved, accounted.of_moved moved ?_⟩
  intro address
  rw [pathsFrom_cons, movement, Adjustment.sign]
  change _ = ((_ + _ : Nat) : Int) + -1 * ((_ * 1 : Nat) : Int)
  omega

end Accounted
end ScriptCore.Heap
