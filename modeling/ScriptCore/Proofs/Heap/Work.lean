import Mathlib.Data.List.Forall2
import ScriptCore.Heap.Scopes

set_option autoImplicit false

/-! How work with a fault goes on: after success with what follows, after a fault not at
all. The heap stays as it was after a question, and after a change that failed. -/

namespace ScriptCore

/-! ### How work ends -/

def Fault.Overflows (fault : Fault) : Prop :=
  ∃ cell held added, fault = .overflow cell held added

def Fault.ReportsCycle (fault : Fault) : Prop :=
  ∃ parent child, fault = .cycle parent child

def Fault.IsEndless (fault : Fault) : Prop := ∃ cell, fault = .endless cell

theorem Fault.not_overflows_of_reportsCycle {fault : Fault} (reports : fault.ReportsCycle) :
    ¬ fault.Overflows := by
  obtain ⟨parent, child, rfl⟩ := reports
  rintro ⟨_, _, _, impossible⟩
  cases impossible

section Ends

variable {State Answer : Type}

def FailsWith (reason : Fault → Prop) (result : EStateM.Result Fault State Answer) : Prop :=
  ∃ fault after, result = .error fault after ∧ reason fault

theorem failsWith_error_iff {reason : Fault → Prop} {fault : Fault} {after : State} :
    FailsWith reason (.error fault after : EStateM.Result Fault State Answer) ↔ reason fault := by
  constructor
  · rintro ⟨_, _, same, holds⟩
    cases same
    exact holds
  · intro holds
    exact ⟨fault, after, rfl, holds⟩

theorem not_failsWith_ok {reason : Fault → Prop} {answer : Answer} {after : State} :
    ¬ FailsWith reason (.ok answer after) := by
  rintro ⟨_, _, impossible, _⟩
  cases impossible

/-- The state that is left, after success and after a fault alike. -/
def stateLeft : EStateM.Result Fault State Answer → State
  | .ok _ after => after
  | .error _ after => after

/-- Work that has an answer ends with it, in the state that is left. -/
theorem eq_ok_of_run' {work : EStateM Fault State Answer} {before : State} {answer : Answer}
    (answers : work.run' before = some answer) :
    work before = .ok answer (stateLeft (work before)) := by
  unfold EStateM.run' EStateM.run at answers
  cases worked : work before with
  | ok found after =>
      rw [worked] at answers
      cases answers
      rfl
  | error fault after =>
      rw [worked] at answers
      cases answers

theorem exists_of_isOk {asked : Except Fault Answer} (answers : asked.isOk = true) :
    ∃ answer, asked = .ok answer := by
  cases asked with
  | ok answer => exact ⟨answer, rfl⟩
  | error fault => cases answers

end Ends

/-! ### Item by item -/

section ItemByItem

variable {Item Result Reason : Type} {step : Item → Except Reason Result} {items : List Item}

theorem mapM_cons_eq_ok_iff {item : Item} {results : List Result} :
    (item :: items).mapM step = .ok results ↔ ∃ result rest,
      step item = .ok result ∧ items.mapM step = .ok rest ∧ results = result :: rest := by
  rw [List.mapM_cons]
  cases step item with
  | error reason => simp [bind, Except.bind]
  | ok result =>
      cases items.mapM step with
      | error reason => simp [bind, Except.bind]
      | ok rest => simp [bind, Except.bind, pure, Except.pure, eq_comm]

theorem mapM_cons_eq_error_iff {item : Item} {reason : Reason} :
    (item :: items).mapM step = .error reason ↔ step item = .error reason ∨
      ∃ result, step item = .ok result ∧ items.mapM step = .error reason := by
  rw [List.mapM_cons]
  cases step item with
  | error reason' => simp [bind, Except.bind]
  | ok result =>
      cases items.mapM step with
      | error reason' => simp [bind, Except.bind]
      | ok rest => simp [bind, Except.bind, pure, Except.pure]

theorem mapM_eq_ok_iff {results : List Result} : items.mapM step = .ok results ↔
    List.Forall₂ (fun item result => step item = .ok result) items results := by
  induction items generalizing results with
  | nil =>
      rw [List.mapM_nil, List.forall₂_nil_left_iff]
      exact ⟨fun same => by cases same; rfl, fun same => by rw [same]; rfl⟩
  | cons item items ih =>
      rw [mapM_cons_eq_ok_iff, List.forall₂_cons_left_iff]
      simp only [ih]

theorem exists_of_mapM_eq_ok {results : List Result} (done : items.mapM step = .ok results)
    {item : Item} (member : item ∈ items) : ∃ result, step item = .ok result := by
  induction items generalizing results with
  | nil => exact absurd member List.not_mem_nil
  | cons head items ih =>
      obtain ⟨result, rest, accepted, others, _⟩ := mapM_cons_eq_ok_iff.mp done
      rcases List.mem_cons.mp member with rfl | later
      · exact ⟨result, accepted⟩
      · exact ih others later

/-- Items are refused because of the first that is. -/
theorem mapM_eq_error_iff {reason : Reason} : items.mapM step = .error reason ↔
    ∃ earlier item later, items = earlier ++ item :: later ∧
      (∀ other ∈ earlier, ∃ result, step other = .ok result) ∧
        step item = .error reason := by
  induction items with
  | nil =>
      refine iff_of_false (fun impossible => by cases impossible) ?_
      rintro ⟨earlier, item, later, impossible, _⟩
      cases earlier <;> cases impossible
  | cons item items ih =>
      rw [mapM_cons_eq_error_iff, ih]
      constructor
      · rintro (failed | ⟨result, accepted, earlier, other, later, rfl, before, failed⟩)
        · exact ⟨[], item, items, rfl, List.forall_mem_nil _, failed⟩
        · refine ⟨item :: earlier, other, later, rfl, ?_, failed⟩
          exact List.forall_mem_cons.mpr ⟨⟨result, accepted⟩, before⟩
      · rintro ⟨earlier, other, later, split, before, failed⟩
        cases earlier with
        | nil =>
            cases split
            exact .inl failed
        | cons _ earlier =>
            cases split
            obtain ⟨⟨result, accepted⟩, before⟩ := List.forall_mem_cons.mp before
            exact .inr ⟨result, accepted, earlier, other, later, rfl, before, failed⟩

end ItemByItem

/-! ### Questions -/

section Avoids

variable {Answer Next : Type} {reason : Fault → Prop}

/-- A question may have no answer, but never for this reason. -/
def Avoids (reason : Fault → Prop) (asked : Except Fault Answer) : Prop :=
  ∀ fault, asked = .error fault → ¬ reason fault

theorem avoids_ok (answer : Answer) : Avoids reason (.ok answer) := by
  intro fault impossible
  cases impossible

theorem avoids_error {fault : Fault} (other : ¬ reason fault) :
    Avoids reason (.error fault : Except Fault Answer) := by
  intro _ same
  cases same
  exact other

theorem avoids_bind {asked : Except Fault Answer} {next : Answer → Except Fault Next}
    (first : Avoids reason asked) (later : ∀ answer, Avoids reason (next answer)) :
    Avoids reason (asked >>= next) := by
  cases asked with
  | ok answer => exact later answer
  | error fault =>
      intro _ same
      cases same
      exact first fault rfl

theorem avoids_mapM {Item : Type} {question : Item → Except Fault Answer}
    (each : ∀ item, Avoids reason (question item)) (items : List Item) :
    Avoids reason (items.mapM question) := by
  intro fault failed
  obtain ⟨_, item, _, _, _, refused⟩ := mapM_eq_error_iff.mp failed
  exact each item fault refused

theorem Heap.avoids_cell (heap : Heap) (address : Address)
    (dangling : ∀ dead, ¬ reason (.dangling dead)) : Avoids reason (heap.cell address) := by
  unfold Heap.cell
  cases heap.cell? address with
  | some cell => exact avoids_ok cell
  | none => exact avoids_error (dangling address)

end Avoids

/-! ### What follows -/

section Bind

variable {State Answer Next : Type} {work : EStateM Fault State Answer}
  {next : Answer → EStateM Fault State Next} {before after : State}

theorem bind_of_ok {answer : Answer} (done : work before = .ok answer after) :
    (work >>= next) before = next answer after := by
  change EStateM.bind work next before = next answer after
  unfold EStateM.bind
  rw [done]

theorem bind_of_error {fault : Fault} (failed : work before = .error fault after) :
    (work >>= next) before = .error fault after := by
  change EStateM.bind work next before = .error fault after
  unfold EStateM.bind
  rw [failed]

theorem bind_eq_ok_iff {answer : Next} :
    (work >>= next) before = .ok answer after ↔
      ∃ found middle, work before = .ok found middle ∧ next found middle = .ok answer after := by
  cases worked : work before with
  | ok found middle =>
      rw [bind_of_ok worked]
      constructor
      · intro done
        exact ⟨found, middle, rfl, done⟩
      · rintro ⟨_, _, same, done⟩
        cases same
        exact done
  | error fault left =>
      rw [bind_of_error worked]
      constructor
      · intro impossible
        cases impossible
      · rintro ⟨_, _, impossible, _⟩
        cases impossible

theorem bind_pure_eq_error_iff {work : EStateM Fault State Answer} {answer : Next}
    {fault : Fault} : (work >>= fun _ => pure answer) before = .error fault after ↔
      work before = .error fault after := by
  cases worked : work before with
  | ok done left =>
      rw [bind_of_ok worked]
      constructor
      · intro impossible
        cases impossible
      · intro impossible
        cases impossible
  | error reason left =>
      rw [bind_of_error worked]
      constructor
      · intro same
        cases same
        rfl
      · intro same
        cases same
        rfl

theorem failsWith_bind_pure_iff {reason : Fault → Prop} {work : EStateM Fault State Answer}
    {answer : Next} :
    FailsWith reason ((work >>= fun _ => pure answer) before) ↔ FailsWith reason (work before) := by
  simp only [FailsWith, bind_pure_eq_error_iff]

theorem stateLeft_bind_pure {work : EStateM Fault State Answer} {answer : Next} :
    stateLeft ((work >>= fun _ => pure answer) before) = stateLeft (work before) := by
  cases worked : work before with
  | ok done left =>
      rw [bind_of_ok worked]
      rfl
  | error reason left =>
      rw [bind_of_error worked]
      rfl

theorem forM_cons {Item : Type} (each : Item → EStateM Fault State PUnit) (item : Item)
    (items : List Item) : (item :: items).forM each = each item >>= fun _ => items.forM each :=
  rfl

end Bind

namespace HeapM

variable {Answer : Type} {heap : Heap}

theorem ask_of_ok {question : Heap → Except Fault Answer} {answer : Answer}
    (answered : question heap = .ok answer) : ask question heap = .ok answer heap := by
  unfold ask
  rw [answered]

theorem ask_of_error {question : Heap → Except Fault Answer} {fault : Fault}
    (failed : question heap = .error fault) : ask question heap = .error fault heap := by
  unfold ask
  rw [failed]

theorem ask_cases (question : Heap → Except Fault Answer) (heap : Heap) :
    (∃ answer, question heap = .ok answer ∧ ask question heap = .ok answer heap) ∨
      ∃ fault, question heap = .error fault ∧ ask question heap = .error fault heap := by
  cases asked : question heap with
  | ok answer => exact Or.inl ⟨answer, rfl, ask_of_ok asked⟩
  | error fault => exact Or.inr ⟨fault, rfl, ask_of_error asked⟩

/-- Work that begins with a question and succeeds has got an answer. -/
theorem exists_of_ask_bind_ok {Next : Type} {after : Heap}
    {question : Heap → Except Fault Answer} {next : Answer → HeapM Next} {result : Next}
    (done : (ask question >>= next) heap = .ok result after) :
    ∃ answer, question heap = .ok answer := by
  rcases ask_cases question heap with ⟨answer, answered, _⟩ | ⟨fault, _, asked⟩
  · exact ⟨answer, answered⟩
  · rw [bind_of_error asked] at done
    cases done

theorem change_of_ok {update : Heap → Except Fault Heap} {after : Heap}
    (updated : update heap = .ok after) : change update heap = .ok () after := by
  unfold change
  rw [updated]

theorem change_of_error {update : Heap → Except Fault Heap} {fault : Fault}
    (failed : update heap = .error fault) : change update heap = .error fault heap := by
  unfold change
  rw [failed]

theorem change_eq_ok_iff {update : Heap → Except Fault Heap} {after : Heap} :
    change update heap = .ok () after ↔ update heap = .ok after := by
  cases updated : update heap with
  | ok changed =>
      rw [change_of_ok updated]
      constructor
      · intro same
        cases same
        rfl
      · intro same
        cases same
        rfl
  | error fault =>
      rw [change_of_error updated]
      constructor
      · intro impossible
        cases impossible
      · intro impossible
        cases impossible

theorem bind_change_eq_ok_iff {update : Heap → Except Fault Heap} {next : Unit → HeapM Answer}
    {answer : Answer} {after : Heap} :
    (change update >>= next) heap = .ok answer after ↔
      ∃ middle, update heap = .ok middle ∧ next () middle = .ok answer after := by
  rw [bind_eq_ok_iff]
  constructor
  · rintro ⟨_, middle, changed, done⟩
    exact ⟨middle, change_eq_ok_iff.mp changed, done⟩
  · rintro ⟨middle, updated, done⟩
    exact ⟨(), middle, change_of_ok updated, done⟩

theorem forM_change_keeps {Item : Type} {update : Item → Heap → Except Fault Heap}
    {motive : Heap → Prop} (items : List Item)
    (keeps : ∀ item, item ∈ items → ∀ heap middle, motive heap →
      update item heap = .ok middle → motive middle)
    (holds : motive heap) {after : Heap}
    (done : (items.forM fun item => change (update item)) heap = .ok () after) :
    motive after := by
  induction items generalizing heap with
  | nil =>
      cases done
      exact holds
  | cons item items ih =>
      rw [forM_cons, bind_change_eq_ok_iff] at done
      obtain ⟨middle, changed, rest⟩ := done
      exact ih (fun other member => keeps other (List.mem_cons_of_mem item member))
        (keeps item (List.mem_cons_self ..) heap middle holds changed) rest

/-- If each change of one kind is seen as a change of another kind, so is a list of them. The
view need only be right for heaps that satisfy what the changes keep. -/
theorem forM_change_eq_ok_iff {Item : Type} {first second : Item → Heap → Except Fault Heap}
    {motive : Heap → Prop} (view : Heap → Heap) (items : List Item)
    (keeps : ∀ item, item ∈ items → ∀ heap middle, motive heap →
      first item heap = .ok middle → motive middle)
    (each : ∀ item, item ∈ items → ∀ heap after, motive heap →
      (second item (view heap) = .ok after ↔
        ∃ middle, first item heap = .ok middle ∧ after = view middle))
    (holds : motive heap) (after : Heap) :
    (items.forM fun item => change (second item)) (view heap) = .ok () after ↔
      ∃ middle, (items.forM fun item => change (first item)) heap = .ok () middle ∧
        after = view middle := by
  induction items generalizing heap with
  | nil =>
      constructor
      · intro same
        cases same
        exact ⟨heap, rfl, rfl⟩
      · rintro ⟨_, same, rfl⟩
        cases same
        rfl
  | cons item items ih =>
      have here := each item (List.mem_cons_self ..) heap
      have rest {middle : Heap} (changed : first item heap = .ok middle) :=
        ih (fun other member => keeps other (List.mem_cons_of_mem item member))
          (fun other member => each other (List.mem_cons_of_mem item member))
          (keeps item (List.mem_cons_self ..) heap middle holds changed)
      simp only [forM_cons, bind_change_eq_ok_iff]
      constructor
      · rintro ⟨_, changed, onwards⟩
        obtain ⟨middle, changed', rfl⟩ := (here _ holds).mp changed
        obtain ⟨last, onwards', same⟩ := (rest changed').mp onwards
        exact ⟨last, ⟨middle, changed', onwards'⟩, same⟩
      · rintro ⟨last, ⟨middle, changed, onwards⟩, same⟩
        exact ⟨view middle, (here _ holds).mpr ⟨middle, changed, rfl⟩,
          (rest changed).mpr ⟨last, onwards, same⟩⟩

theorem always_eq (update : Heap → Answer × Heap) (heap : Heap) :
    always update heap = .ok (update heap).1 (update heap).2 := rfl

/-- Questions about each of a list end with the first fault and change nothing. -/
theorem forM_ask_cases {Item : Type} (question : Item → Heap → Except Fault Unit)
    (items : List Item) (heap : Heap) :
    ((items.forM fun item => ask (question item)) heap = .ok () heap ∧
        ∀ item, item ∈ items → question item heap = .ok ()) ∨
      ∃ earlier item later fault, items = earlier ++ item :: later ∧
        (∀ other, other ∈ earlier → question other heap = .ok ()) ∧
        question item heap = .error fault ∧
        (items.forM fun item => ask (question item)) heap = .error fault heap := by
  induction items with
  | nil => exact Or.inl ⟨rfl, fun _ member => absurd member List.not_mem_nil⟩
  | cons item items ih =>
      rw [forM_cons]
      rcases ask_cases (question item) heap with
        ⟨answer, answered, asked⟩ | ⟨fault, failed, asked⟩
      · rw [bind_of_ok asked]
        rcases ih with ⟨done, each⟩ | ⟨earlier, other, later, fault, split, passed, failed, stopped⟩
        · refine Or.inl ⟨done, ?_⟩
          intro other member
          rcases List.mem_cons.mp member with rfl | later
          · exact answered
          · exact each other later
        · refine Or.inr ⟨item :: earlier, other, later, fault, ?_, ?_, failed, stopped⟩
          · rw [split, List.cons_append]
          · intro first member
            rcases List.mem_cons.mp member with rfl | among
            · exact answered
            · exact passed first among
      · rw [bind_of_error asked]
        exact Or.inr ⟨[], item, items, fault, rfl,
          fun _ member => absurd member List.not_mem_nil, failed, rfl⟩

end HeapM

namespace StoreM

variable {Answer : Type} {store : Store}

theorem onHeap_of_ok {work : HeapM Answer} {answer : Answer} {heap : Heap}
    (worked : work store.heap = .ok answer heap) :
    onHeap work store = .ok answer { store with heap } := by
  unfold onHeap
  rw [worked]

theorem onHeap_of_error {work : HeapM Answer} {fault : Fault} {heap : Heap}
    (failed : work store.heap = .error fault heap) :
    onHeap work store = .error fault { store with heap } := by
  unfold onHeap
  rw [failed]

end StoreM
end ScriptCore
