import ScriptCore.Proofs.Heap.Allotment
import ScriptCore.Proofs.History.Basic

set_option autoImplicit false

/-! The books on slots at every point of a history: which slots are free, how many are live,
and how many were handed out since the last sweep. So whatever the caller does, an allocation
takes a dead slot, and a new one only if there is no dead one. -/

namespace ScriptCore

open Heap Links

/-! ### The books -/

/-- The dead slots are listed as free, once each, and what is counted agrees with what is
live now, and with what the last sweep left. -/
structure SlotsInOrder (limits : Limits) (swept now : Heap) : Prop where
  limits_eq : now.limits = limits
  listed : now.FreeListed
  sized : now.liveCount + now.free.length = now.slots.size
  tallied : now.liveCount + now.tally.reclaimed = now.tally.allocated
  kept : ∀ address, Live swept.links address → Live now.links address
  sinceSweep : now.sinceSweep =
    {address | Live now.links address ∧ ¬ Live swept.links address}.ncard

/-- The slots that are live now and were not before, if none was freed in between. -/
theorem ncard_handed_out {swept now : Heap}
    (kept : ∀ address, Live swept.links address → Live now.links address) :
    {address | Live now.links address ∧ ¬ Live swept.links address}.ncard + swept.liveCount =
      now.liveCount := by
  rw [liveCount_eq_ncard, liveCount_eq_ncard]
  exact Set.ncard_sdiff_add_ncard_of_subset kept now.finite_live

namespace SlotsInOrder

variable {limits : Limits} {swept heap after : Heap}

theorem start (limits : Limits) : SlotsInOrder limits (.empty limits) (.empty limits) where
  limits_eq := rfl
  listed := freeListed_empty limits
  sized := rfl
  tallied := rfl
  kept := fun _ live => live
  sinceSweep := by
    have none : {address | Live (empty limits).links address ∧
        ¬ Live (empty limits).links address} = ∅ :=
      Set.eq_empty_of_forall_notMem fun _ both => both.2 both.1
    rw [none, Set.ncard_empty]
    rfl

theorem work (inOrder : SlotsInOrder limits swept heap) {taken : List Address}
    (works : Works heap taken after) : SlotsInOrder limits swept after := by
  have took := works.took
  have listed := works.freeListed inOrder.listed
  have kept (address : Address) (live : Live swept.links address) : Live after.links address :=
    (works.allots inOrder.listed).live (inOrder.kept address live)
  have sized := listed.liveCount_add_length_free
  have grown : after.liveCount = heap.liveCount + taken.length := by
    have before := inOrder.sized
    have slots := took.slots
    omega
  refine ⟨took.limits.trans inOrder.limits_eq, listed, sized, ?_, kept, ?_⟩
  · have tallied := inOrder.tallied
    rw [took.tally, grown]
    change heap.liveCount + taken.length + heap.tally.reclaimed =
      heap.tally.allocated + taken.length
    omega
  · have handedOut := ncard_handed_out inOrder.kept
    have handedOut' := ncard_handed_out kept
    rw [took.sinceSweep, inOrder.sinceSweep]
    omega

theorem sweep (inOrder : SlotsInOrder limits swept heap) :
    SlotsInOrder limits heap.sweep.2 heap.sweep.2 := by
  have listed := inOrder.listed.sweep
  have sized := listed.liveCount_add_length_free
  have freed : heap.sweep.2.liveCount + heap.unheld.length = heap.liveCount := by
    have before := inOrder.sized
    have size : heap.sweep.2.slots.size = heap.slots.size := Array.size_map
    have free : heap.sweep.2.free.length = heap.unheld.length + heap.free.length := by
      change (heap.unheld.reverse ++ heap.free).length = _
      rw [List.length_append, List.length_reverse]
    omega
  refine ⟨inOrder.limits_eq, listed, sized, ?_, fun _ live => live, ?_⟩
  · have tallied := inOrder.tallied
    change heap.sweep.2.liveCount + (heap.tally.reclaimed + heap.unheld.length) =
      heap.tally.allocated
    omega
  · have none : {address | Live heap.sweep.2.links address ∧
        ¬ Live heap.sweep.2.links address} = ∅ :=
      Set.eq_empty_of_forall_notMem fun _ both => both.2 both.1
    rw [none, Set.ncard_empty]
    rfl

theorem sweepIfDue_eq (inOrder : SlotsInOrder limits swept heap) :
    heap.sweepIfDue =
      if limits.sweepThreshold ≤
          {address | Live heap.links address ∧ ¬ Live swept.links address}.ncard then
        (some heap.sweep.1, heap.sweep.2)
      else (none, heap) := by
  rw [← inOrder.sinceSweep, ← inOrder.limits_eq]
  rfl

end SlotsInOrder

/-! ### What is handed out -/

/-- Every way to allocate takes dead slots only, and takes the addresses that it is expected
to give to the new cells. -/
structure AllotsDeadSlots (now : Heap) : Prop where
  cell : ∀ value, OnlyAllots now [(now.allocate value none).1] (now.allocate value none).2
  literal : ∀ literal, ∃ elements,
    OnlyAllots now (elements ++ [(now.newLiteral literal).1]) (now.newLiteral literal).2
  collection : ∀ values, ∃ elements,
    OnlyAllots now (elements.reverse ++ [(now.newCollection values).1])
        (now.newCollection values).2 ∧
      (now.newCollection values).2.elements (now.newCollection values).1 = .ok elements ∧
      elements.length = values.length
  record : ∀ typeName names, ∃ record,
    OnlyAllots now (record.fields.map Field.address ++ [(now.newRecord typeName names).1])
        (now.newRecord typeName names).2 ∧
      (now.newRecord typeName names).2.record (now.newRecord typeName names).1 = .ok record ∧
      record.typeName = typeName ∧ record.fields.map Field.name = names
  element : ∀ head value element after, append head value now = .ok element after →
    Allots now [element] after
  primitive : ∀ name arguments answer after,
    Catalogue.standard.call name arguments now = .ok answer after →
      ∃ elements, OnlyAllots now (elements ++ [answer]) after
  call : ∀ call : Call, call.sweeps now = false →
    ∀ scopes, ∃ taken, Allots now taken (call.leaves now scopes)

theorem allotsDeadSlots {now : Heap} (listed : now.FreeListed) : AllotsDeadSlots now where
  cell := fun value => (Adds.cell now value).onlyAllots listed
  literal := by
    intro literal
    obtain ⟨elements, adds⟩ := adds_newLiteral listed literal
    exact ⟨elements, adds.onlyAllots listed⟩
  collection := by
    intro values
    obtain ⟨elements, adds, chained⟩ := adds_newCollection listed values
    exact ⟨elements, adds.onlyAllots listed, chained⟩
  record := by
    intro typeName names
    obtain ⟨record, adds, named⟩ := adds_newRecord listed typeName names
    exact ⟨record, adds.onlyAllots listed, named⟩
  element := by
    intro head value element after appended
    obtain ⟨taken, works, answer⟩ := works_append listed head value
    rw [answer element after appended, appended] at works
    exact works.allots listed
  primitive := by
    intro name arguments answer after called
    have takes := takesAnswer_call listed name arguments
    rw [called] at takes
    obtain ⟨elements, adds⟩ := takes
    exact ⟨elements, adds.onlyAllots listed⟩
  call := by
    intro call quiet scopes
    obtain ⟨taken, works⟩ := call.exists_works_leaves listed quiet scopes
    exact ⟨taken, works.allots listed⟩

/-! ### Every point of a history -/

namespace History

variable {limits : Limits} {swept now : Heap}

theorem slotsInOrder (history : History limits swept now) : SlotsInOrder limits swept now :=
  history.invariant (.start limits) (fun _ works inOrder => inOrder.work works)
    fun _ inOrder => inOrder.sweep

/-- Whatever was called before, also with faults and against the rules, the books on slots
agree with the slots, a sweep is due once enough slots were handed out since the last one,
and every allocation takes dead slots and, as long as there is one, no new slot. -/
theorem slots_exact (history : History limits swept now) :
    SlotsInOrder limits swept now ∧
      (now.sweepIfDue =
        if limits.sweepThreshold ≤
            {address | Live now.links address ∧ ¬ Live swept.links address}.ncard then
          (some now.sweep.1, now.sweep.2)
        else (none, now)) ∧
      AllotsDeadSlots now :=
  ⟨history.slotsInOrder, history.slotsInOrder.sweepIfDue_eq, allotsDeadSlots history.freeListed⟩

/-- A sweep frees the three cells of a collection. A new cell then takes the slot that was
freed last, and a record of two fields takes the other two and a new one. -/
theorem slots_exact_reused :
    let swept := Call.sweep.leaves
      ((Call.newCollection [.null, .null]).leaves (.empty {}) .empty) .empty
    let now := (Call.newCell (.character 'x')).leaves swept .empty
    History {} swept now ∧ now.free = [⟨1⟩, ⟨0⟩] ∧
      {address | Live now.links address ∧ ¬ Live swept.links address}.ncard = 1 ∧
      OnlyAllots now [⟨1⟩, ⟨0⟩, ⟨3⟩] (now.newRecord "Pair" ["left", "right"]).2 := by
  intro swept now
  have history : History {} swept now :=
    .call _ _ (.sweep _ _ (.call _ _ .start rfl) rfl) rfl
  have free : now.free = [⟨1⟩, ⟨0⟩] := by decide +kernel
  have counted : now.sinceSweep = 1 := by decide +kernel
  obtain ⟨inOrder, _, allots⟩ := history.slots_exact
  obtain ⟨record, only, found, _⟩ := allots.record "Pair" ["left", "right"]
  have made : ((now.newRecord "Pair" ["left", "right"]).2.record
      (now.newRecord "Pair" ["left", "right"]).1).toOption =
        some ⟨"Pair", [⟨"left", ⟨1⟩⟩, ⟨"right", ⟨0⟩⟩]⟩ := by decide +kernel
  have last : (now.newRecord "Pair" ["left", "right"]).1 = ⟨3⟩ := by decide +kernel
  rw [found] at made
  cases made
  rw [last] at only
  exact ⟨history, free, inOrder.sinceSweep.symm.trans counted, only⟩

end History
end ScriptCore
