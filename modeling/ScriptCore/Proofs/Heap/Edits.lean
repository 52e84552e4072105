import ScriptCore.Heap.Collection
import ScriptCore.Heap.Record
import ScriptCore.Proofs.Heap.Work
import ScriptCore.Proofs.References.Moved

set_option autoImplicit false

/-! Edits: values and counts may change, but no cell comes or goes, and each keeps the cell
that follows it. All work on a heap or on a store is an edit, however it ends, unless it
allocates, sweeps or links a new element. -/

namespace ScriptCore

/-! ### What work leaves -/

section Keeps

variable {State Answer Next : Type} {related : State → State → Prop}

/-- The state that the work leaves, after success and after a fault alike, is related to the
state before. -/
def Keeps (related : State → State → Prop) (work : EStateM Fault State Answer) : Prop :=
  ∀ before, related before (stateLeft (work before))

theorem keeps_bind {work : EStateM Fault State Answer} {next : Answer → EStateM Fault State Next}
    (trans : ∀ {first second third}, related first second → related second third →
      related first third)
    (now : Keeps related work) (later : ∀ answer, Keeps related (next answer)) :
    Keeps related (work >>= next) := by
  intro before
  have first := now before
  cases worked : work before with
  | ok answer middle =>
      rw [worked] at first
      rw [bind_of_ok worked]
      exact trans first (later answer middle)
  | error fault middle =>
      rw [worked] at first
      rw [bind_of_error worked]
      exact first

theorem keeps_forM {Item : Type} {step : Item → EStateM Fault State PUnit}
    (refl : ∀ state, related state state)
    (trans : ∀ {first second third}, related first second → related second third →
      related first third)
    (each : ∀ item, Keeps related (step item)) (items : List Item) :
    Keeps related (items.forM step) := by
  induction items with
  | nil => exact refl
  | cons item items ih =>
      rw [forM_cons]
      exact keeps_bind trans (each item) fun _ => ih

end Keeps

namespace Heap

open HeapM

/-! ### Edits of a heap -/

structure Edited (before after : Heap) : Prop where
  frame : SameFrame before after
  nexts : ∀ address, (after.cell? address).map Cell.next = (before.cell? address).map Cell.next

theorem Edited.refl (heap : Heap) : Edited heap heap := ⟨.refl heap, fun _ => rfl⟩

theorem Edited.trans {before middle after : Heap} (first : Edited before middle)
    (second : Edited middle after) : Edited before after where
  frame := first.frame.trans second.frame
  nexts := fun address => (second.nexts address).trans (first.nexts address)

theorem Edited.cell?_eq_none_iff {before after : Heap} (edited : Edited before after)
    (address : Address) : after.cell? address = none ↔ before.cell? address = none := by
  have same := edited.nexts address
  constructor
  · intro dead
    rw [dead, Option.map_none] at same
    exact Option.map_eq_none_iff.mp same.symm
  · intro dead
    rw [dead, Option.map_none] at same
    exact Option.map_eq_none_iff.mp same

theorem edited_modifyCell (heap : Heap) (address : Address) {change : Cell → Cell}
    (keeps : ∀ cell, (change cell).next = cell.next) :
    Edited heap (heap.modifyCell address change) where
  frame := sameFrame_modifyCell heap address change
  nexts := by
    intro other
    rw [cell?_modifyCell]
    by_cases same : other = address
    · rw [if_pos same]
      cases heap.cell? other with
      | none => rfl
      | some cell => exact congrArg some (keeps cell)
    · rw [if_neg same]

theorem edited_writeCounts (heap : Heap) (counts : List (Address × UInt32)) :
    Edited heap (heap.writeCounts counts) := by
  unfold writeCounts
  induction counts generalizing heap with
  | nil => exact .refl heap
  | cons entry rest ih =>
      have first : Edited heap (heap.setReferences entry.1 entry.2) :=
        heap.edited_modifyCell entry.1 fun _ => rfl
      exact first.trans (ih _)

theorem exists_of_bind_eq_ok {First Second : Type} {question : Except Fault First}
    {next : First → Except Fault Second} {answer : Second}
    (answered : question >>= next = .ok answer) :
    ∃ found, question = .ok found ∧ next found = .ok answer := by
  cases question with
  | ok found => exact ⟨found, rfl, answered⟩
  | error fault => cases answered

/-- Counts are all that an adjustment changes, also where cells own themselves. -/
theorem edited_adjust (heap after : Heap) (adjustment : Adjustment) (root : Address)
    (amount : UInt32) (adjusted : heap.adjust adjustment root amount = .ok after) :
    Edited heap after := by
  unfold adjust at adjusted
  by_cases zero : amount = 0
  · rw [if_pos zero] at adjusted
    cases adjusted
    exact .refl heap
  · rw [if_neg zero] at adjusted
    obtain ⟨paths, _, counting⟩ := exists_of_bind_eq_ok adjusted
    obtain ⟨counts, _, written⟩ := exists_of_bind_eq_ok counting
    cases written
    exact heap.edited_writeCounts counts

theorem edited_setValue (heap after : Heap) (address : Address) (value : Value)
    (set : heap.setValue address value = .ok after) : Edited heap after := by
  obtain ⟨cell, _, written⟩ := exists_of_bind_eq_ok set
  cases written
  exact heap.edited_modifyCell address fun _ => rfl

theorem edited_addReferenceFrom (heap after : Heap) (address parent : Address)
    (added : heap.addReferenceFrom address parent = .ok after) : Edited heap after := by
  obtain ⟨_, _, checked⟩ := exists_of_bind_eq_ok added
  obtain ⟨owner, _, retained⟩ := exists_of_bind_eq_ok checked
  exact heap.edited_adjust after .retain address owner.references retained

theorem edited_removeReferenceFrom (heap after : Heap) (address parent : Address)
    (removed : heap.removeReferenceFrom address parent = .ok after) : Edited heap after := by
  obtain ⟨owner, _, released⟩ := exists_of_bind_eq_ok removed
  exact heap.edited_adjust after .release address owner.references released

/-! ### Work that edits -/

section Work

variable {Answer Next : Type}

/-- Work that is an edit of the heap, however it ends. -/
abbrev Edits (work : HeapM Answer) : Prop := Keeps Edited work

theorem Edits.bind {work : HeapM Answer} {next : Answer → HeapM Next} (now : Edits work)
    (later : ∀ answer, Edits (next answer)) : Edits (work >>= next) :=
  keeps_bind Edited.trans now later

theorem edits_forM {Item : Type} {step : Item → HeapM PUnit} (items : List Item)
    (each : ∀ item, Edits (step item)) : Edits (items.forM step) :=
  keeps_forM Edited.refl Edited.trans each items

theorem edits_ask (question : Heap → Except Fault Answer) : Edits (ask question) := by
  intro heap
  rcases ask_cases question heap with ⟨answer, _, asked⟩ | ⟨fault, _, asked⟩
  · rw [asked]
    exact .refl heap
  · rw [asked]
    exact .refl heap

theorem edits_change {update : Heap → Except Fault Heap}
    (edited : ∀ heap after, update heap = .ok after → Edited heap after) :
    Edits (change update) := by
  intro heap
  cases updated : update heap with
  | ok after =>
      rw [change_of_ok updated]
      exact edited heap after updated
  | error fault =>
      rw [change_of_error updated]
      exact .refl heap

theorem edits_adjust (adjustment : Adjustment) (root : Address) (amount : UInt32) :
    Edits (change (·.adjust adjustment root amount)) :=
  edits_change fun heap after => heap.edited_adjust after adjustment root amount

theorem edits_moveReferences (held : UInt32) (before after : List Address) :
    Edits (moveReferences held before after) :=
  Edits.bind (edits_forM before fun child => edits_adjust .release child held)
    fun _ => edits_forM after fun child => edits_adjust .retain child held

theorem edits_replaceValue (address : Address) (value : Value) :
    Edits (replaceValue address value) := by
  refine (edits_ask _).bind fun cell => ?_
  refine Edits.bind (edits_forM _ fun child => edits_ask _) fun _ => ?_
  refine Edits.bind (edits_change fun heap after => heap.edited_setValue after address value)
    fun _ => ?_
  exact edits_moveReferences _ _ _

theorem edits_setElement (address : Address) (index : Nat) (value : Value) :
    Edits (setElement address index value) :=
  (edits_ask _).bind fun element => edits_replaceValue element value

theorem edits_setField (address : Address) (name : String) (value : Value) :
    Edits (setField address name value) :=
  (edits_ask _).bind fun cell => edits_replaceValue cell value

theorem edits_bindField (address : Address) (name : String) (target : Address) :
    Edits (bindField address name target) :=
  (edits_ask _).bind fun record => (edits_ask _).bind fun _ =>
    edits_replaceValue address (.record (record.rebind name target))

end Work
end Heap

namespace Store

open Heap StoreM

variable {Answer Next : Type}

/-- Work on a store that is an edit of its heap, however it ends. -/
abbrev EditsHeap (work : StoreM Answer) : Prop :=
  Keeps (fun before after : Store => Edited before.heap after.heap) work

theorem EditsHeap.bind {work : StoreM Answer} {next : Answer → StoreM Next}
    (now : EditsHeap work) (later : ∀ answer, EditsHeap (next answer)) :
    EditsHeap (work >>= next) :=
  keeps_bind Edited.trans now later

theorem editsHeap_forM {Item : Type} {step : Item → StoreM PUnit} (items : List Item)
    (each : ∀ item, EditsHeap (step item)) : EditsHeap (items.forM step) :=
  keeps_forM (fun store => Edited.refl store.heap) (fun first later => first.trans later) each
    items

theorem editsHeap_onHeap {work : HeapM Answer} (edits : Edits work) : EditsHeap (onHeap work) := by
  intro store
  have edited := edits store.heap
  cases worked : work store.heap with
  | ok answer heap =>
      rw [worked] at edited
      rw [onHeap_of_ok worked]
      exact edited
  | error fault heap =>
      rw [worked] at edited
      rw [onHeap_of_error worked]
      exact edited

theorem editsHeap_onScopes (change : Scopes → Answer × Scopes) : EditsHeap (onScopes change) :=
  fun store => .refl store.heap

theorem editsHeap_releaseAll (held : List Address) : EditsHeap (releaseAll held) :=
  editsHeap_forM held fun address => editsHeap_onHeap (edits_adjust .release address 1)

theorem editsHeap_bind (name : String) (address : Address) (isGlobal : Bool) :
    EditsHeap (Store.bind name address isGlobal) :=
  (editsHeap_onHeap (edits_adjust .retain address 1)).bind fun _ =>
    (editsHeap_onScopes _).bind fun previous => editsHeap_releaseAll previous.toList

theorem editsHeap_popScope : EditsHeap popScope :=
  (editsHeap_onScopes _).bind fun held => editsHeap_releaseAll held

theorem editsHeap_clear : EditsHeap clear := by
  have depth : EditsHeap (get : StoreM Store) := fun store => .refl store.heap
  refine depth.bind fun store => ?_
  refine EditsHeap.bind (editsHeap_forM _ fun _ => editsHeap_popScope) fun _ => ?_
  exact (editsHeap_onScopes _).bind fun held => editsHeap_releaseAll held

end Store
end ScriptCore
