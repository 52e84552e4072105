import ScriptCore.Proofs.Updates.Appending

set_option autoImplicit false

/-! Every update asks some questions first and then exchanges the children of one cell. What
holds of an exchange and of questions therefore holds of every update. -/

namespace ScriptCore.Heap

open Links HeapM

/-! ### Questions -/

section Questions

/-- A question may have no answer, but never because of counts. -/
def Fitting {Answer : Type} (answer : Except Fault Answer) : Prop :=
  ∀ fault, answer = .error fault → ¬ fault.Overflows

variable (heap : Heap) (address : Address)

theorem fitting_cell : Fitting (heap.cell address) :=
  heap.avoids_cell address fun _ ⟨_, _, _, same⟩ => by cases same

theorem fitting_follow (length : Nat) (first : Option Address) :
    Fitting (heap.follow length first) := by
  induction length generalizing first with
  | zero =>
      cases first with
      | none => exact avoids_ok []
      | some address => exact avoids_error fun ⟨_, _, _, same⟩ => by cases same
  | succ length ih =>
      cases first with
      | none => exact avoids_ok []
      | some address =>
          exact avoids_bind (heap.fitting_cell address) fun cell =>
            avoids_bind (ih cell.next) fun rest => avoids_ok (address :: rest)

theorem fitting_elements : Fitting (heap.elements address) := by
  apply heap.avoids_elements
  · rintro _ ⟨_, _, _, same⟩
    cases same
  · rintro _ ⟨_, _, _, same⟩
    cases same
  · exact heap.fitting_follow _

theorem fitting_elementAt (index : Nat) : Fitting (heap.elementAt address index) := by
  apply heap.avoids_elementAt address (heap.fitting_elements address)
  rintro _ _ ⟨_, _, _, same⟩
  cases same

theorem fitting_record : Fitting (heap.record address) := by
  refine avoids_bind (heap.fitting_cell address) fun cell => ?_
  cases cell.value with
  | record record => exact avoids_ok record
  | null | number | character | collection =>
      exact avoids_error fun ⟨_, _, _, same⟩ => by cases same

theorem fitting_field (name : String) : Fitting (heap.field address name) := by
  refine avoids_bind (heap.fitting_record address) fun record => ?_
  cases record.field? name with
  | some cell => exact avoids_ok cell
  | none => exact avoids_error fun ⟨_, _, _, same⟩ => by cases same

end Questions

/-! ### Updates -/

/-- The update was refused with the heap as it was, but not because of counts, or all it did
was one exchange of children. -/
inductive AtMostExchange {Answer : Type} (start : Heap) :
    EStateM.Result Fault Heap Answer → Prop where
  | refused (fault : Fault) (other : ¬ fault.Overflows) :
      AtMostExchange start (.error fault start)
  | exchanged (owner : Address) (change : Cell → Cell) (old : Cell → List Address)
      (new : List Address) (references : ∀ cell, (change cell).references = cell.references)
      (children : ∀ cell : Cell, ∃ rest, cell.children.Perm (rest ++ old cell) ∧
        (change cell).children.Perm (rest ++ new)) (answer : Answer) :
      AtMostExchange start
        ((exchangeChildren owner change old new >>= fun _ => pure answer) start)

section Updates

variable {Answer Next : Type} (heap : Heap)

theorem atMostExchange_ask {heap : Heap} {question : Heap → Except Fault Answer}
    {next : Answer → HeapM Next} (fitting : Fitting (question heap))
    (later : ∀ answer, AtMostExchange heap (next answer heap)) :
    AtMostExchange heap ((ask question >>= next) heap) := by
  rcases ask_cases question heap with ⟨answer, _, asked⟩ | ⟨fault, failed, asked⟩
  · rw [bind_of_ok asked]
    exact later answer
  · rw [bind_of_error asked]
    exact .refused fault (fitting fault failed)

theorem atMostExchange_replaceValue (owner : Address) (value : Value) :
    AtMostExchange heap (replaceValue owner value heap) := by
  have exchanged : AtMostExchange heap ((exchangeChildren owner (fun cell => { cell with value })
      (fun cell => cell.value.children) value.children >>= fun _ => pure ()) heap) :=
    .exchanged owner _ _ _ (references_withValue value) (children_withValue value) ()
  rw [bind_pure_unit] at exchanged
  exact exchanged

theorem atMostExchange_setElement (address : Address) (index : Nat) (value : Value) :
    AtMostExchange heap (setElement address index value heap) :=
  atMostExchange_ask (heap.fitting_elementAt address index) fun element =>
    heap.atMostExchange_replaceValue element value

theorem atMostExchange_setField (address : Address) (name : String) (value : Value) :
    AtMostExchange heap (setField address name value heap) :=
  atMostExchange_ask (heap.fitting_field address name) fun cell =>
    heap.atMostExchange_replaceValue cell value

theorem atMostExchange_bindField (address : Address) (name : String) (target : Address) :
    AtMostExchange heap (bindField address name target heap) :=
  atMostExchange_ask (heap.fitting_record address) fun record =>
    atMostExchange_ask (heap.fitting_field address name) fun _ =>
      heap.atMostExchange_replaceValue address (.record (record.rebind name target))

/-- A new element stays allocated when it cannot be linked. -/
theorem atMostExchange_append (head : Address) (value : Value) :
    AtMostExchange heap (append head value heap) ∨
      AtMostExchange (heap.allocate value none).2 (append head value heap) := by
  cases answered : heap.elements head with
  | error fault =>
      left
      rw [append_of_elements_error value answered]
      exact .refused fault (heap.fitting_elements head fault answered)
  | ok elements =>
      right
      rw [append_eq value answered]
      exact .exchanged _ _ _ _ (references_withElement elements _)
        (children_withElement elements _) _

end Updates

theorem AtMostExchange.keptBy {Answer : Type} {start : Heap} {roots : List Address}
    {result : EStateM.Result Fault Heap Answer} (exchange : AtMostExchange start result)
    (balanced : Balanced start roots) : KeptBy roots result := by
  cases exchange with
  | refused fault _ => exact Or.inr balanced
  | exchanged owner change old new references children answer =>
      have kept := keptBy_exchangeChildren owner references children balanced
      cases worked : exchangeChildren owner change old new start with
      | ok _ after =>
          rw [worked] at kept
          rw [bind_of_ok worked]
          exact kept
      | error fault after =>
          rw [worked] at kept
          rw [bind_of_error worked]
          exact kept

end ScriptCore.Heap
