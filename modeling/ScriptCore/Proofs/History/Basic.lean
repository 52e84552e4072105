import ScriptCore.Proofs.Heap.Works
import ScriptCore.Proofs.Session.Basic

set_option autoImplicit false

/-! Histories: any calls, one after the other, also raw calls, calls with dead addresses and
calls that fail. Whatever a call does, it either sweeps or consists of the parts that work
consists of, so what these keep holds at every point of a history. -/

namespace ScriptCore

open Heap

namespace Call

/-! ### One call -/

/-- The heap that a call leaves, after success and after a fault alike. -/
def leaves (call : Call) (heap : Heap) (scopes : Scopes) : Heap :=
  (stateLeft (call.perform ⟨heap, scopes⟩)).heap

/-- Whether a call sweeps. -/
def sweeps (heap : Heap) : Call → Bool
  | .sweep => true
  | .sweepIfDue => decide (heap.limits.sweepThreshold ≤ heap.sinceSweep)
  | _ => false

variable {heap : Heap} {call : Call}

theorem leaves_quietly {Answer : Type} (work : HeapM Answer) (heap : Heap) (scopes : Scopes) :
    (stateLeft (quietly work ⟨heap, scopes⟩)).heap = stateLeft (work heap) := by
  rw [quietly, stateLeft_bind_pure]
  cases worked : work heap with
  | ok answer after =>
      rw [StoreM.onHeap_of_ok worked]
      rfl
  | error fault after =>
      rw [StoreM.onHeap_of_error worked]
      rfl

theorem leaves_of_sweeps (sweeps : call.sweeps heap = true) (scopes : Scopes) :
    call.leaves heap scopes = heap.sweep.2 := by
  cases call with
  | sweep => exact leaves_quietly _ heap scopes
  | sweepIfDue =>
      have due : heap.limits.sweepThreshold ≤ heap.sinceSweep := of_decide_eq_true sweeps
      refine (leaves_quietly _ heap scopes).trans ?_
      change heap.sweepIfDue.2 = heap.sweep.2
      rw [Heap.sweepIfDue, if_pos due]
  | _ => cases sweeps

private theorem exists_works_quietly {Answer : Type} {work : HeapM Answer} (scopes : Scopes)
    (works : ∃ taken, Works heap taken (stateLeft (work heap))) :
    ∃ taken, Works heap taken (stateLeft (quietly work ⟨heap, scopes⟩)).heap := by
  rw [leaves_quietly]
  exact works

private theorem exists_works_edits {Answer : Type} {work : HeapM Answer} (scopes : Scopes)
    (edits : Edits work) :
    ∃ taken, Works heap taken (stateLeft (quietly work ⟨heap, scopes⟩)).heap :=
  exists_works_quietly scopes ⟨[], .of_edited (edits heap)⟩

private theorem exists_works_editsHeap {work : StoreM Unit} (scopes : Scopes)
    (edits : Store.EditsHeap work) :
    ∃ taken, Works heap taken (stateLeft (work ⟨heap, scopes⟩)).heap :=
  ⟨[], .of_edited (edits ⟨heap, scopes⟩)⟩

/-- A call that does not sweep edits, allocates and links, and does nothing else. -/
theorem exists_works_leaves (listed : heap.FreeListed) (call : Call)
    (quiet : call.sweeps heap = false) (scopes : Scopes) :
    ∃ taken, Works heap taken (call.leaves heap scopes) := by
  unfold leaves
  cases call with
  | newCell value => exact exists_works_quietly scopes ⟨_, .cell heap value⟩
  | newLiteral literal =>
      obtain ⟨_, adds⟩ := adds_newLiteral listed literal
      exact exists_works_quietly scopes ⟨_, adds.works⟩
  | newCollection values =>
      obtain ⟨_, adds, _⟩ := adds_newCollection listed values
      exact exists_works_quietly scopes ⟨_, adds.works⟩
  | newRecord typeName names =>
      obtain ⟨_, adds, _⟩ := adds_newRecord listed typeName names
      exact exists_works_quietly scopes ⟨_, adds.works⟩
  | primitive name arguments =>
      apply exists_works_quietly
      have answer := takesAnswer_call listed name arguments
      cases called : Catalogue.standard.call name arguments heap with
      | ok address after =>
          rw [called] at answer
          obtain ⟨_, adds⟩ := answer
          exact ⟨_, adds.works⟩
      | error fault after =>
          rw [called] at answer
          cases answer
          exact ⟨[], .done heap⟩
  | replaceValue address value => exact exists_works_edits scopes (edits_replaceValue address value)
  | setElement address index value =>
      exact exists_works_edits scopes (edits_setElement address index value)
  | append address value =>
      obtain ⟨taken, works, _⟩ := works_append listed address value
      exact exists_works_quietly scopes ⟨taken, works⟩
  | setField address name value =>
      exact exists_works_edits scopes (edits_setField address name value)
  | bindField address name target =>
      exact exists_works_edits scopes (edits_bindField address name target)
  | addReference address => exact exists_works_edits scopes (edits_adjust .retain address 1)
  | removeReference address => exact exists_works_edits scopes (edits_adjust .release address 1)
  | bind name address isGlobal =>
      exact exists_works_editsHeap scopes (Store.editsHeap_bind name address isGlobal)
  | pushScope =>
      exact exists_works_editsHeap scopes (Store.editsHeap_onScopes fun scopes => ((), scopes.push))
  | popScope => exact exists_works_editsHeap scopes Store.editsHeap_popScope
  | clear => exact exists_works_editsHeap scopes Store.editsHeap_clear
  | sweep => cases quiet
  | sweepIfDue =>
      apply exists_works_quietly
      refine ⟨[], ?_⟩
      change Works heap [] heap.sweepIfDue.2
      rw [Heap.sweepIfDue, if_neg (of_decide_eq_false quiet)]
      exact .done heap
  | setValue address value =>
      exact exists_works_edits scopes
        (edits_change fun heap after => heap.edited_setValue after address value)
  | addReferenceFrom address parent =>
      exact exists_works_edits scopes
        (edits_change fun heap after => heap.edited_addReferenceFrom after address parent)
  | removeReferenceFrom address parent =>
      exact exists_works_edits scopes
        (edits_change fun heap after => heap.edited_removeReferenceFrom after address parent)

end Call

/-! ### Histories -/

/-- The heap as the last sweep left it, or else the empty one at the start, and the heap now,
after any calls. Each call comes with the names that it finds, so a history may use several
tables of names, and these may list what they hold in any order. -/
inductive History (limits : Limits) : Heap → Heap → Prop where
  | start : History limits (.empty limits) (.empty limits)
  | call {swept heap : Heap} (call : Call) (scopes : Scopes)
      (history : History limits swept heap) (quiet : call.sweeps heap = false) :
      History limits swept (call.leaves heap scopes)
  | sweep {swept heap : Heap} (call : Call) (scopes : Scopes)
      (history : History limits swept heap) (sweeps : call.sweeps heap = true) :
      History limits (call.leaves heap scopes) (call.leaves heap scopes)

namespace History

variable {limits : Limits} {swept now : Heap}

theorem freeListed (history : History limits swept now) : now.FreeListed := by
  induction history with
  | start => exact freeListed_empty limits
  | call call scopes _ quiet listed =>
      obtain ⟨_, works⟩ := Call.exists_works_leaves listed call quiet scopes
      exact works.freeListed listed
  | sweep call scopes _ sweeps listed =>
      rw [Call.leaves_of_sweeps sweeps scopes]
      exact listed.sweep

/-- What holds at the start, and is kept by work and by sweeps, holds at every point. -/
theorem invariant {motive : Heap → Heap → Prop} (history : History limits swept now)
    (start : motive (.empty limits) (.empty limits))
    (work : ∀ {swept heap after taken}, heap.FreeListed → Works heap taken after →
      motive swept heap → motive swept after)
    (sweep : ∀ {swept heap}, heap.FreeListed → motive swept heap →
      motive heap.sweep.2 heap.sweep.2) : motive swept now := by
  induction history with
  | start => exact start
  | call call scopes history quiet before =>
      obtain ⟨_, works⟩ := Call.exists_works_leaves history.freeListed call quiet scopes
      exact work history.freeListed works before
  | sweep call scopes history sweeps before =>
      rw [Call.leaves_of_sweeps sweeps scopes]
      exact sweep history.freeListed before

end History
end ScriptCore
