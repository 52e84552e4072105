import Mathlib.Data.Set.Card
import ScriptCore.Proofs.Session.Balance

set_option autoImplicit false

/-! A sweep never looks at what is reachable, only at counts. Under a disciplined caller it
still frees exactly the cells that no binding and no hold can reach, and nothing is left
once all bindings and holds are gone. -/

namespace ScriptCore

open Links

namespace Heap

theorem liveCount_eq_zero {heap : Heap} (dead : ∀ address, ¬ Live heap.links address) :
    heap.liveCount = 0 := by
  apply Array.countP_eq_zero.mpr
  intro slot member present
  obtain ⟨cell, rfl⟩ := Option.isSome_iff_exists.mp present
  obtain ⟨index, inside, found⟩ := Array.mem_iff_getElem.mp member
  refine dead ⟨index⟩ ((heap.live_links_iff ⟨index⟩).mpr ⟨cell, ?_⟩)
  rw [cell?, Array.getElem?_eq_getElem inside, found]
  rfl

namespace Balanced

variable {heap : Heap} {roots : List Address} (balanced : Balanced heap roots)

include balanced

/-- A sweep tells how many cells no root reaches. -/
theorem sweep_fst : heap.sweep.1 =
    {address | Live heap.links address ∧ ¬ heap.Reached roots address}.ncard := by
  have same : {address | Live heap.links address ∧ ¬ heap.Reached roots address} =
      (heap.unheld.toFinset : Set Address) := by
    ext address
    rw [Set.mem_ofPred_eq, Finset.mem_coe, List.mem_toFinset, balanced.mem_unheld_iff]
  rw [same, Set.ncard_coe_finset, List.toFinset_card_of_nodup heap.nodup_unheld]
  rfl

omit balanced in
/-- Without roots a sweep leaves nothing. -/
theorem liveCount_sweep (balanced : Balanced heap []) : heap.sweep.2.liveCount = 0 := by
  apply liveCount_eq_zero
  intro address live
  obtain ⟨_, member, _⟩ := (balanced.live_sweep_iff address).mp live
  exact absurd member List.not_mem_nil

end Balanced
end Heap

namespace Session

variable {session : Session}

/-- In every state that a disciplined caller can arrive at, a sweep frees exactly the live
cells that no binding and no hold can reach, tells how many there were, and leaves the
others as they are, without a link to a freed one. After the bindings are cleared with
nothing held, it leaves no cell at all. -/
theorem Disciplined.sweep_exact {limits : Limits} (disciplined : Disciplined limits session) :
    let heap := session.store.heap
    let swept := heap.sweep
    (∀ address, Live swept.2.links address ↔
        Live heap.links address ∧ heap.Reached session.roots address) ∧
      swept.1 =
        {address | Live heap.links address ∧ ¬ heap.Reached session.roots address}.ncard ∧
      (∀ address, heap.Reached session.roots address →
        swept.2.cell? address = heap.cell? address) ∧
      Closed swept.2.links ∧
      (session.holds = [] → ∃ cleared, Store.clear session.store = .ok () cleared ∧
        cleared.heap.sweep.2.liveCount = 0) := by
  intro heap swept
  have balanced := disciplined.balanced
  refine ⟨?_, Heap.Balanced.sweep_fst balanced, ?_, (Heap.Balanced.sweep balanced).closed, ?_⟩
  · intro address
    rw [Heap.Balanced.live_sweep_iff balanced address]
    exact ⟨fun reached => ⟨balanced.live_of_reached reached, reached⟩, And.right⟩
  · intro address reached
    exact balanced.cell?_sweep_of_reached reached
  · intro nothing
    obtain ⟨cleared, done, balanced'⟩ := Store.clear_balanced balanced
    rw [nothing] at balanced'
    exact ⟨_, done, Heap.Balanced.liveCount_sweep balanced'⟩

/-- Of two cells one is bound: a sweep frees the other, and both are gone after a clear. -/
theorem sweep_exact_bound :
    let session := (((Session.start {}).after (.newCell .null)).after
      (.newCell (.character 'x'))).after (.bind "kept" ⟨0⟩ true)
    let heap := session.store.heap
    Disciplined {} session ∧
      {address | Live heap.links address ∧ ¬ heap.Reached session.roots address}.ncard = 1 ∧
      ∃ cleared, Store.clear session.store = .ok () cleared ∧
        cleared.heap.sweep.2.liveCount = 0 := by
  intro session heap
  have first : Disciplined {} ((Session.start {}).after (.newCell .null)) :=
    .call _ .start (allows_newCell _ .null fun _ named => absurd named List.not_mem_nil)
  have second := first.call (.newCell (.character 'x'))
    (allows_newCell _ _ fun _ named => absurd named List.not_mem_nil)
  have third : Disciplined {} session := second.call _ (allows_bind _ "kept" ⟨0⟩ true)
  have freed : heap.sweep.1 = 1 := by decide +kernel
  have unheld : session.holds = [] := by decide +kernel
  obtain ⟨_, counted, _, _, cleared⟩ := third.sweep_exact
  exact ⟨third, counted.symm.trans freed, cleared unheld⟩

end Session
end ScriptCore
