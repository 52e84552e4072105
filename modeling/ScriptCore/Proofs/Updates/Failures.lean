import ScriptCore.Proofs.Updates.Exchanges

set_option autoImplicit false

/-! What a failed update leaves behind. A refused update has changed nothing. Only when counts
are too large does the fault come after the new children are in place: the old ones have been
let go by then and some of the new ones are not held. -/

namespace ScriptCore

open Links

namespace Heap

open HeapM

/-- The change of an owner has been made and its old children have been let go, but holding
the new ones stopped before all were held. -/
def CutShort (before after : Heap) (owner : Address) (fault : Fault) : Prop :=
  ∃ cell change old new, Exchange before owner cell change old new ∧
    Overflowed before cell.references old new (before.modifyCell owner change) after fault

namespace CutShort

variable {before after : Heap} {owner : Address} {fault : Fault}
  (cutShort : CutShort before after owner fault)

include cutShort

theorem overflows : fault.Overflows := by
  obtain ⟨_, _, _, _, _, overflowed⟩ := cutShort
  exact overflowed.reported

/-- Only an owner that is held passes any count on. -/
theorem held : ∃ cell, before.cell? owner = some cell ∧ cell.references ≠ 0 := by
  obtain ⟨cell, change, old, new, exchange, overflowed⟩ := cutShort
  refine ⟨cell, exchange.found, ?_⟩
  intro unheld
  obtain ⟨address, changed, _, large⟩ := overflowed.large
  have bounded := changed.references.toNat_lt_size
  rw [share, share, unheld, UInt32.toNat_zero, Nat.mul_zero, Nat.mul_zero] at large
  omega

/-- The owner is not as it was: its new children take more than the old ones gave back. -/
theorem cell?_ne : after.cell? owner ≠ before.cell? owner := by
  obtain ⟨cell, change, old, new, exchange, overflowed⟩ := cutShort
  obtain ⟨earlier, child, later, _, moved⟩ := overflowed.stopped
  obtain ⟨count, found, _⟩ := moved.live owner (change cell) exchange.cell?_owner
  intro same
  rw [found, exchange.found] at same
  have sameChildren := congrArg Cell.children (Option.some.inj same)
  change (change cell).children = cell.children at sameChildren
  obtain ⟨rest, ofOld, ofNew⟩ := exchange.children
  rw [sameChildren] at ofNew
  -- so both shares are equal, and no count that was one can be too large
  have sameOwned : old.Perm new := (List.perm_append_left_iff rest).mp (ofOld.symm.trans ofNew)
  obtain ⟨address, changed, _, large⟩ := overflowed.large
  have bounded := changed.references.toNat_lt_size
  rw [share, share, pathsFrom_perm sameOwned] at large
  omega

end CutShort

/-- An update has stopped with a fault, either before its first change, or because counts
overflowed and with an exchange cut short. -/
def Stopped (start after : Heap) (fault : Fault) : Prop :=
  ¬ fault.Overflows ∧ after = start ∨ ∃ owner, CutShort start after owner fault

/-- What was there before the update is still there as it was, unless counts overflowed. -/
theorem Stopped.grows_iff {heap start after : Heap} {fault : Fault} (grows : Grows heap start)
    (held : ∀ address cell, start.cell? address = some cell → cell.references ≠ 0 →
      heap.cell? address = some cell)
    (stopped : Stopped start after fault) : Grows heap after ↔ ¬ fault.Overflows := by
  rcases stopped with ⟨other, rfl⟩ | ⟨owner, cutShort⟩
  · exact iff_of_true grows other
  · apply iff_of_false
    · intro still
      obtain ⟨cell, found, positive⟩ := cutShort.held
      apply cutShort.cell?_ne
      rw [found]
      exact still owner cell (held owner cell found positive)
    · exact fun other => other cutShort.overflows

theorem AtMostExchange.stopped {Answer : Type} {start after : Heap} {roots : List Address}
    {result : EStateM.Result Fault Heap Answer} {fault : Fault}
    (exchange : AtMostExchange start result) (accounted : Accounted start roots)
    (failed : result = .error fault after) : Stopped start after fault := by
  cases exchange with
  | refused fault' other =>
      cases failed
      exact Or.inl ⟨other, rfl⟩
  | exchanged owner change old new references children answer =>
      rw [bind_pure_eq_error_iff] at failed
      rcases exchangeChildren_cases accounted owner references children with
        ⟨cell, exchange, ⟨_, done, _⟩ | ⟨_, _, failed', overflowed⟩⟩ | ⟨_, failed', refused⟩
      · rw [done] at failed
        cases failed
      · rw [failed'] at failed
        cases failed
        exact Or.inr ⟨owner, cell, _, _, _, exchange, overflowed⟩
      · rw [failed'] at failed
        cases failed
        exact Or.inl ⟨refused.not_overflows, rfl⟩

end Heap
end ScriptCore
