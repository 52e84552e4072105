import ScriptCore.Proofs.Primitive.Texts

set_option autoImplicit false

/-! What a primitive does to the heap. An answer is a new cell, with new cells below it at most,
and every cell that was there stays as it was; a call that is refused leaves the heap alone. -/

namespace ScriptCore

open Links

namespace Heap

/-! ### New cells -/

namespace Adds

variable {heap after : Heap} {taken : List Address}

/-- A cell is either as it was or one of those that were taken, dead until then and not held by
anything since. -/
theorem cell?_cases (adds : Adds heap taken after) (listed : heap.FreeListed)
    (address : Address) :
    (address ∉ taken ∧ after.cell? address = heap.cell? address) ∨
      (address ∈ taken ∧ heap.cell? address = none ∧
        ∃ value next, after.cell? address = some ⟨value, next, 0⟩) := by
  induction adds with
  | done heap => exact Or.inl ⟨List.not_mem_nil, rfl⟩
  | @allocate heap after taken value next elements chain rest ih =>
      have cells := listed.cell?_allocate value next address
      rcases ih (listed.allocate value next) with ⟨apart, same⟩ | ⟨member, dead, unheld⟩
      · rw [same, cells]
        by_cases fresh : address = (heap.allocate value next).1
        · rw [if_pos fresh, fresh]
          exact Or.inr ⟨List.mem_cons_self .., listed.dead_allocate value next, value, next, rfl⟩
        · rw [if_neg fresh]
          exact Or.inl ⟨List.not_mem_cons_of_ne_of_not_mem fresh apart, rfl⟩
      · have fresh : address ≠ (heap.allocate value next).1 := by
          intro same
          rw [dead, if_pos same] at cells
          cases cells
        rw [dead, if_neg fresh] at cells
        exact Or.inr ⟨List.mem_cons_of_mem _ member, cells.symm, unheld⟩

theorem fresh (adds : Adds heap taken after) (listed : heap.FreeListed) {address : Address}
    (member : address ∈ taken) : heap.cell? address = none ∧
      ∃ cell, after.cell? address = some cell ∧ cell.references = 0 := by
  rcases adds.cell?_cases listed address with ⟨apart, _⟩ | ⟨_, dead, value, next, found⟩
  · exact absurd member apart
  · exact ⟨dead, _, found, rfl⟩

theorem nodup (adds : Adds heap taken after) (listed : heap.FreeListed) : taken.Nodup := by
  induction adds with
  | done heap => exact List.nodup_nil
  | @allocate heap after taken value next elements chain rest ih =>
      refine List.nodup_cons.mpr ⟨?_, ih (listed.allocate value next)⟩
      intro again
      rcases rest.cell?_cases (listed.allocate value next) (heap.allocate value next).1 with
        ⟨apart, _⟩ | ⟨_, dead, _⟩
      · exact apart again
      · rw [cell?_fresh listed] at dead
        cases dead

end Adds

theorem chain_of_dead {heap : Heap} {address : Address} (dead : heap.cell? address = none) :
    heap.chain (some address) = .error (.dangling address) := by
  rw [chain, follow, Heap.cell, dead]
  rfl

/-! ### Heaps counted by their roots -/

/-- Nothing dead is owned, nothing owns itself, the roots are live, and the count of each cell is
the number of paths to it from the roots. -/
structure CountedByRoots (heap : Heap) (roots : List Address) : Prop where
  closed : Closed heap.links
  acyclic : Acyclic heap.links
  rooted : ∀ root, root ∈ roots → Live heap.links root
  counted : ∀ address cell, heap.cell? address = some cell →
    cell.references.toNat = pathsFrom heap.links roots address

theorem balanced_iff {heap : Heap} {roots : List Address} (listed : heap.FreeListed) :
    Balanced heap roots ↔ CountedByRoots heap roots := by
  constructor
  · intro balanced
    exact ⟨balanced.closed, acyclic_of_founded balanced.founded, balanced.rooted,
      balanced.counted⟩
  · intro counted
    exact ⟨⟨counted.closed, heap.founded_of_acyclic counted.acyclic, counted.counted⟩, listed,
      counted.rooted⟩

end Heap

/-! ### Calls without an answer -/

namespace Primitive

/-- The calls that are declined, and the fault of each. -/
inductive Declined (heap : Heap) : String → List Value → Fault → Prop where
  | unknown {name : String} (arguments : List Value)
      (other : name ≠ "get_type" ∧ name ≠ "to_string" ∧ name ≠ "to_numerical") :
      Declined heap name arguments (.undefinedFunction name)
  | count {name : String} {arguments : List Value}
      (known : name = "get_type" ∨ name = "to_string" ∨ name = "to_numerical")
      (several : arguments.length ≠ 1) :
      Declined heap name arguments (.wrongCount name 1 arguments.length)
  | noNumber {argument : Value} (other : argument.kind ≠ .number) :
      Declined heap "to_string" [argument] (.wrongKind "to_string" .number argument.kind)
  | noCollection {argument : Value} (other : argument.kind ≠ .collection) :
      Declined heap "to_numerical" [argument] (.wrongKind "to_numerical" .collection argument.kind)
  /-- A chain that leads to a dead address or has no end. -/
  | chain {first : Option Address} {fault : Fault} (failed : heap.chain first = .error fault) :
      Declined heap "to_numerical" [.collection first] fault

variable {heap : Heap} {name : String} {arguments : List Value}

private theorem lookup_eq_none
    (other : name ≠ "get_type" ∧ name ≠ "to_string" ∧ name ≠ "to_numerical") :
    Catalogue.standard.lookup name = none := by
  rw [List.lookup_eq_none_iff]
  simpa [Catalogue.standard] using other

theorem call_eq_error {fault : Fault} (declined : Declined heap name arguments fault) :
    Catalogue.standard.call name arguments heap = .error fault heap := by
  cases declined with
  | unknown arguments other =>
      rw [Catalogue.call, lookup_eq_none other]
      rfl
  | count known several =>
      cases arguments with
      | nil =>
          rcases known with rfl | rfl | rfl
          · rfl
          · rfl
          · rfl
      | cons argument rest =>
          cases rest with
          | nil => exact absurd rfl several
          | cons second rest =>
              rcases known with rfl | rfl | rfl
              · rfl
              · rfl
              · rfl
  | @noNumber argument other =>
      cases argument with
      | number value => exact absurd rfl other
      | null | character value | collection first | record value => rfl
  | @noCollection argument other =>
      cases argument with
      | collection first => exact absurd rfl other
      | null | number value | character value | record value => rfl
  | chain failed => exact numberOfText_of_chain_error failed

theorem call_get_type (heap : Heap) (argument : Value) :
    Catalogue.standard.call "get_type" [argument] heap =
      let code : Value := .character (Char.ofNat argument.kind.code)
      .ok (heap.allocate code none).1 (heap.allocate code none).2 := rfl

theorem call_to_string (heap : Heap) (number : Float) :
    Catalogue.standard.call "to_string" [.number number] heap =
      let text := Number.writeFixed 6 (.ofFloat number)
      .ok (heap.newText text).1 (heap.newText text).2 := rfl

/-- A call has an answer unless it is declined. -/
theorem call_eq_ok_or_declined (heap : Heap) (name : String) (arguments : List Value) :
    (∃ address after, Catalogue.standard.call name arguments heap = .ok address after) ∨
      ∃ fault, Declined heap name arguments fault := by
  by_cases other : name ≠ "get_type" ∧ name ≠ "to_string" ∧ name ≠ "to_numerical"
  · exact Or.inr ⟨_, .unknown arguments other⟩
  · have known : name = "get_type" ∨ name = "to_string" ∨ name = "to_numerical" := by tauto
    by_cases several : arguments.length ≠ 1
    · exact Or.inr ⟨_, .count known several⟩
    · obtain ⟨argument, rfl⟩ := List.length_eq_one_iff.mp (not_not.mp several)
      rcases known with rfl | rfl | rfl
      · exact Or.inl ⟨_, _, call_get_type heap argument⟩
      · cases argument with
        | number value => exact Or.inl ⟨_, _, call_to_string heap value⟩
        | null | character value | collection first | record value =>
            exact Or.inr ⟨_, .noNumber fun impossible => by cases impossible⟩
      · cases argument with
        | collection first =>
            cases walked : heap.chain first with
            | ok elements => exact Or.inl ⟨_, _, numberOfText_of_chain_ok walked⟩
            | error fault => exact Or.inr ⟨fault, .chain walked⟩
        | null | number value | character value | record value =>
            exact Or.inr ⟨_, .noCollection fun impossible => by cases impossible⟩

theorem call_eq_error_iff {fault : Fault} {after : Heap} :
    Catalogue.standard.call name arguments heap = .error fault after ↔
      Declined heap name arguments fault ∧ after = heap := by
  constructor
  · intro failed
    rcases call_eq_ok_or_declined heap name arguments with ⟨_, _, answered⟩ | ⟨other, declined⟩
    · rw [answered] at failed
      cases failed
    · rw [call_eq_error declined] at failed
      cases failed
      exact ⟨declined, rfl⟩
  · rintro ⟨declined, rfl⟩
    exact call_eq_error declined

/-! ### Calls with an answer -/

/-- The answer is a cell that was dead, and what is new is held by nothing; all else is as it
was, and a heap that is counted by its roots still is. -/
structure AddsAnswer (heap : Heap) (address : Address) (after : Heap) : Prop where
  dead : heap.cell? address = none
  unheld : ∃ cell, after.cell? address = some cell ∧ cell.references = 0
  kept : ∀ other cell, heap.cell? other = some cell → after.cell? other = some cell
  new : ∀ other cell, after.cell? other = some cell → heap.cell? other = none →
    cell.references = 0
  listed : after.FreeListed
  counted : ∀ roots, heap.CountedByRoots roots → after.CountedByRoots roots

/-- The answer is a collection, and its elements are distinct cells that were dead and are held by
nothing. -/
def AddsChain (heap : Heap) (address : Address) (after : Heap) : Prop :=
  ∃ first elements, after.cell? address = some ⟨.collection first, none, 0⟩ ∧
    Heap.Chain after first elements ∧ (address :: elements).Nodup ∧
      ∀ element, element ∈ elements → heap.cell? element = none ∧
        ∃ cell, after.cell? element = some cell ∧ cell.references = 0

section Answers

variable {address : Address} {after : Heap} (listed : heap.FreeListed)

include listed

theorem addsAnswer_of_call
    (called : Catalogue.standard.call name arguments heap = .ok address after) :
    AddsAnswer heap address after := by
  have takes := Heap.takesAnswer_call listed name arguments
  rw [called] at takes
  obtain ⟨below, adds⟩ := takes
  have answer : address ∈ below ++ [address] := List.mem_append_right _ (List.mem_cons_self ..)
  obtain ⟨dead, unheld⟩ := adds.fresh listed answer
  refine ⟨dead, unheld, adds.grows listed, ?_, adds.works.freeListed listed, ?_⟩
  · intro other cell found dead
    rcases adds.cell?_cases listed other with ⟨_, same⟩ | ⟨_, _, value, next, found'⟩
    · rw [same, dead] at found
      cases found
    · rw [found'] at found
      cases found
      rfl
  · intro roots counted
    have built := ((Heap.balanced_iff listed).mpr counted).call_standard name arguments
    rw [called] at built
    exact (Heap.balanced_iff (adds.works.freeListed listed)).mp built.balanced

omit listed in
private theorem exists_number_of_to_string
    (called : Catalogue.standard.call "to_string" arguments heap = .ok address after) :
    ∃ number, arguments = [.number number] := by
  have accepted (fault : Fault) : ¬ Declined heap "to_string" arguments fault := by
    intro declined
    rw [call_eq_error declined] at called
    cases called
  by_cases several : arguments.length ≠ 1
  · exact absurd (.count (Or.inr (Or.inl rfl)) several) (accepted _)
  · obtain ⟨argument, rfl⟩ := List.length_eq_one_iff.mp (not_not.mp several)
    cases argument with
    | number value => exact ⟨value, rfl⟩
    | null | character value | collection first | record value =>
        exact absurd (.noNumber fun impossible => by cases impossible) (accepted _)

theorem addsChain_of_to_string
    (called : Catalogue.standard.call "to_string" arguments heap = .ok address after) :
    AddsChain heap address after := by
  obtain ⟨number, rfl⟩ := exists_number_of_to_string called
  rw [call_to_string] at called
  obtain ⟨first, elements, adds, found, chain, _⟩ :=
    Heap.newText_spells listed (Number.writeFixed 6 (.ofFloat number))
  cases called
  have distinct := adds.nodup listed
  rw [← List.reverse_cons, List.nodup_reverse] at distinct
  refine ⟨first, elements, found, chain, distinct, ?_⟩
  intro element member
  exact adds.fresh listed (List.mem_append_left _ (List.mem_reverse.mpr member))

/-- A call of a primitive only adds to the heap: what it answers with is new, and so is the whole
chain of a new text. A call that is declined leaves the heap as it was, and a call is declined
for its name, its arguments or a chain that cannot be walked, and for nothing else. -/
theorem call_only_adds (name : String) (arguments : List Value) :
    (∀ address after, Catalogue.standard.call name arguments heap = .ok address after →
      AddsAnswer heap address after ∧ (name = "to_string" → AddsChain heap address after)) ∧
    (∀ fault after, Catalogue.standard.call name arguments heap = .error fault after ↔
      Declined heap name arguments fault ∧ after = heap) := by
  constructor
  · intro address after called
    refine ⟨addsAnswer_of_call listed called, ?_⟩
    rintro rfl
    exact addsChain_of_to_string listed called
  · intro fault after
    exact call_eq_error_iff

end Answers

/-- A text takes a free slot between live ones before it takes new ones, and a chain that leads to
the free slot cannot be walked. -/
theorem call_only_adds_reused :
    let heap := (((Heap.empty {}).newCollection [.null]).2.modifyCell ⟨0⟩
      fun cell => { cell with references := 1 }).sweep.2
    let number := Float.ofBits 0x3ff8000000000000
    heap.FreeListed ∧ heap.free = [⟨1⟩] ∧
      (∃ after, Catalogue.standard.call "to_string" [.number number] heap = .ok ⟨9⟩ after ∧
        AddsAnswer heap ⟨9⟩ after ∧ AddsChain heap ⟨9⟩ after) ∧
      Catalogue.standard.call "to_numerical" [.collection (some ⟨1⟩)] heap =
        .error (.dangling ⟨1⟩) heap := by
  intro heap number
  obtain ⟨_, adds, _⟩ := Heap.adds_newCollection (Heap.freeListed_empty {}) [.null]
  have listed : heap.FreeListed :=
    ((adds.works.freeListed (Heap.freeListed_empty {})).modifyCell ⟨0⟩ _).sweep
  have called := eq_ok_of_run' (by decide +kernel :
    (Catalogue.standard.call "to_string" [.number number]).run' heap = some ⟨9⟩)
  obtain ⟨added, chain⟩ := (call_only_adds listed "to_string" _).1 _ _ called
  have dead : heap.cell? ⟨1⟩ = none := Option.isNone_iff_eq_none.mp (by decide +kernel)
  exact ⟨listed, by decide +kernel, ⟨_, called, added, chain rfl⟩,
    ((call_only_adds listed "to_numerical" _).2 _ _).mpr ⟨.chain (Heap.chain_of_dead dead), rfl⟩⟩

end Primitive
end ScriptCore
