import ScriptCore.Proofs.Heap.Readers
import ScriptCore.Proofs.Heap.Records
import ScriptCore.Proofs.Updates.ByHand
import ScriptCore.Proofs.Updates.Cycles
import ScriptCore.Proofs.Updates.Outcomes

set_option autoImplicit false

/-! Values replaced in place. A cell keeps its address, its successor and its count when it gets
another value, so whoever names it finds the new value there, and whoever does not sees no
difference. Counts move only below the old and the new value. -/

namespace ScriptCore.Heap

open Links HeapM

/-! ### One cell with another value -/

/-- One cell holds another value. All slots and successors are as before, and so are all other
values; the exact count of each cell moved by the given change. -/
structure Replaced (before after : Heap) (owner : Address) (cell : Cell) (value : Value)
    (change : Address → Int) : Prop where
  edited : Edited before after
  placed : after.cell? owner = some { cell with value }
  elsewhere : ∀ address, address ≠ owner → after.value? address = before.value? address
  counts : ∀ address first, before.cell? address = some first → ∃ changed,
    after.cell? address = some changed ∧
      (changed.references.toNat : Int) = first.references.toNat + change address

theorem edited_of_replaceValue {before after : Heap} {owner : Address} {value : Value}
    (done : replaceValue owner value before = .ok () after) : Edited before after := by
  have edited := edits_replaceValue owner value before
  rw [done] at edited
  exact edited

theorem replaced_of_moved {before after : Heap} {owner : Address} {cell : Cell} {value : Value}
    {change : Address → Int} (found : before.cell? owner = some cell) (still : change owner = 0)
    (done : replaceValue owner value before = .ok () after)
    (moved : Moved change (before.withValue owner value) after) :
    Replaced before after owner cell value change where
  edited := edited_of_replaceValue done
  placed := by
    obtain ⟨count, foundAfter, counted⟩ := moved.live owner _ (cell?_withValue found value)
    have same : count = cell.references := UInt32.toNat_inj.mp (by
      rw [still] at counted
      change (count.toNat : Int) = cell.references.toNat + 0 at counted
      omega)
    rw [foundAfter, same]
  elsewhere := by
    intro address apart
    rw [moved.value?_eq, value?, cell?_withValue_elsewhere value apart, value?]
  counts := by
    intro address first foundFirst
    obtain ⟨changed, foundChanged, sameCount⟩ :=
      cell?_changed owner (references_withValue value) foundFirst
    obtain ⟨count, foundAfter, counted⟩ := moved.live address changed foundChanged
    rw [sameCount] at counted
    exact ⟨_, foundAfter, counted⟩

/-- A count that is known before is known afterwards. -/
theorem Replaced.references_eq {before after : Heap} {owner : Address} {cell : Cell}
    {value : Value} {change : Address → Int}
    (replaced : Replaced before after owner cell value change) {address : Address}
    {first : Cell} (found : before.cell? address = some first) {wanted : UInt32}
    (total : (first.references.toNat : Int) + change address = wanted.toNat) :
    (after.cell? address).map Cell.references = some wanted := by
  obtain ⟨changed, foundAfter, counted⟩ := replaced.counts address first found
  have same : changed.references = wanted := UInt32.toNat_inj.mp (by omega)
  rw [foundAfter, Option.map_some, same]

/-! ### Readers -/

/-- Every other collection and every other record leads to the same cells as before, and the
target reads as its new value wherever it is met. -/
structure SeenEverywhere (before after : Heap) (target : Address) (value : Value) : Prop where
  elements : ∀ head, head ≠ target → after.elements head = before.elements head
  element : ∀ head index element, head ≠ target → before.elementAt head index = .ok element →
    after.elementAt head index = .ok element ∧
      after.value? element = if element = target then some value else before.value? element
  record : ∀ owner, owner ≠ target → after.record owner = before.record owner
  field : ∀ owner name, owner ≠ target → after.field owner name = before.field owner name

theorem Replaced.seenEverywhere {before after : Heap} {target : Address} {cell : Cell}
    {value : Value} {change : Address → Int}
    (replaced : Replaced before after target cell value change) :
    SeenEverywhere before after target value where
  elements := fun head apart => replaced.edited.elements_eq (replaced.elsewhere head apart)
  element := by
    intro head index element apart reads
    constructor
    · rw [replaced.edited.elementAt_eq (replaced.elsewhere head apart)]
      exact reads
    · by_cases same : element = target
      · rw [if_pos same, same, value?_eq replaced.placed]
      · rw [if_neg same]
        exact replaced.elsewhere element same
  record := fun owner apart => record_congr (replaced.elsewhere owner apart)
  field := fun owner name apart => field_congr (replaced.elsewhere owner apart) name

/-! ### Counts -/

theorem exchanged_eq_zero {heap : Heap} (held : UInt32) {old new : List Address}
    {address : Address} (apart : ∀ child, child ∈ old ++ new → ¬ Below heap.links child address) :
    heap.exchanged held old new address = 0 := by
  rw [exchanged,
    pathsFrom_eq_zero fun child member => apart child (List.mem_append_left new member),
    pathsFrom_eq_zero fun child member => apart child (List.mem_append_right old member),
    Int.sub_self, Int.mul_zero]

section Accounted

variable {heap after : Heap} {roots : List Address} (accounted : Accounted heap roots)
  {owner : Address} {value : Value}

include accounted

/-- An owner lies below none of its children, and a value that contains it is refused. -/
theorem not_below_owner_of_replaceValue {cell : Cell} (found : heap.cell? owner = some cell)
    (done : replaceValue owner value heap = .ok () after) (child : Address)
    (member : child ∈ cell.value.children ++ value.children) : ¬ Below heap.links child owner := by
  rcases List.mem_append.mp member with old | new
  · apply Exchange.not_below_of_owns accounted
    rw [Owns, children_eq (heap.links_of_cell? owner cell found)]
    exact List.mem_append_right _ old
  · have accepted := ((replaceValue_eq_ok_iff found value).mp done).1 child new
    exact (refuseCycle_eq_ok_iff.mp accepted).1

theorem exists_replaced_of_replaceValue
    (done : replaceValue owner value heap = .ok () after) :
    ∃ cell, heap.cell? owner = some cell ∧
      Replaced heap after owner cell value
        (heap.exchanged cell.references cell.value.children value.children) := by
  have worked := done
  rw [replaceValue_eq] at worked
  rcases exchangeChildren_cases accounted owner (references_withValue value)
      (children_withValue value) with
    ⟨cell, exchange, ⟨_, changed, moved⟩ | ⟨_, _, failed, _⟩⟩ | ⟨_, failed, _⟩
  · rw [worked] at changed
    cases changed
    have found := exchange.found
    refine ⟨cell, found, replaced_of_moved found ?_ done
      (moved.congr (heap.share_sub_share cell.references cell.value.children value.children))⟩
    exact exchanged_eq_zero _ (not_below_owner_of_replaceValue accounted found done)
  · rw [worked] at failed
    cases failed
  · rw [worked] at failed
    cases failed

end Accounted

/-! ### Elements and fields -/

theorem setElement_eq {heap : Heap} {head target : Address} {index : Nat}
    (known : heap.elementAt head index = .ok target) (value : Value) :
    setElement head index value heap = replaceValue target value heap :=
  bind_of_ok (ask_of_ok known)

theorem setField_eq {heap : Heap} {owner target : Address} {name : String}
    (known : heap.field owner name = .ok target) (value : Value) :
    setField owner name value heap = replaceValue target value heap :=
  bind_of_ok (ask_of_ok known)

/-- The target holds the new value, its count and successor stay, and the counts have moved
from below its old value to below the new one; a cell below neither is as often held as
before. All others read the heap as before, save for the target's value. -/
def ReplacedForAll (before after : Heap) (target : Address) (value : Value) : Prop :=
  ∃ cell, before.cell? target = some cell ∧
    Replaced before after target cell value
      (before.exchanged cell.references cell.value.children value.children) ∧
    (∀ address, (∀ child, child ∈ cell.value.children ++ value.children →
        ¬ Below before.links child address) →
      (after.cell? address).map Cell.references = (before.cell? address).map Cell.references) ∧
    SeenEverywhere before after target value

theorem replacedForAll_of_replaceValue {heap after : Heap} {roots : List Address}
    (accounted : Accounted heap roots) {target : Address} {value : Value}
    (done : replaceValue target value heap = .ok () after) :
    ReplacedForAll heap after target value := by
  obtain ⟨cell, found, replaced⟩ := exists_replaced_of_replaceValue accounted done
  refine ⟨cell, found, replaced, ?_, replaced.seenEverywhere⟩
  intro address apart
  cases foundFirst : heap.cell? address with
  | none => rw [(replaced.edited.cell?_eq_none_iff address).mpr foundFirst]
  | some first =>
      apply replaced.references_eq foundFirst
      rw [exchanged_eq_zero _ apart, Int.add_zero]

/-- Where nothing dead is owned, nothing owns itself and the counts are path counts: an element
or a field that is set keeps its cell. The cell holds the new value for everyone who names it,
through whichever collection or record, and nothing else that can be read has changed. Its
references have moved from what its old value names to what the new one names. -/
theorem set_in_place_for_all (heap : Heap) (roots : List Address) (closed : Closed heap.links)
    (acyclic : Acyclic heap.links)
    (counted : ∀ address cell, heap.cell? address = some cell →
      cell.references.toNat = pathsFrom heap.links roots address) :
    (∀ head index value after, setElement head index value heap = .ok () after →
        ∃ target, heap.elementAt head index = .ok target ∧
          ReplacedForAll heap after target value) ∧
      ∀ owner name value after, setField owner name value heap = .ok () after →
        ∃ target, heap.field owner name = .ok target ∧
          ReplacedForAll heap after target value := by
  have accounted : Accounted heap roots := ⟨closed, heap.founded_of_acyclic acyclic, counted⟩
  constructor
  · intro head index value after done
    obtain ⟨target, known⟩ := exists_of_ask_bind_ok done
    rw [setElement_eq known] at done
    exact ⟨target, known, replacedForAll_of_replaceValue accounted done⟩
  · intro owner name value after done
    obtain ⟨target, known⟩ := exists_of_ask_bind_ok done
    rw [setField_eq known] at done
    exact ⟨target, known, replacedForAll_of_replaceValue accounted done⟩

/-- A record that is held names a collection and also the only element of it. Set through the
collection to a value that names what it named before, the element holds that value for a reader
of the record, and what it names is still held twice. -/
theorem set_in_place_for_all_shared :
    let record := Value.record ⟨"Entry", [⟨"list", ⟨2⟩⟩, ⟨"item", ⟨1⟩⟩]⟩
    let value := Value.record ⟨"Box", [⟨"inner", ⟨0⟩⟩]⟩
    let unheld : Heap := ⟨#[some ⟨.null, none, 0⟩, some ⟨.collection (some ⟨0⟩), none, 0⟩,
      some ⟨.collection (some ⟨1⟩), none, 0⟩, some ⟨record, none, 0⟩], [], {}, 4, ⟨4, 0, 0⟩⟩
    ∃ heap after, unheld.addReference ⟨3⟩ = .ok heap ∧ Accounted heap [⟨3⟩] ∧
      setElement ⟨2⟩ 0 value heap = .ok () after ∧ after.field ⟨3⟩ "item" = .ok ⟨1⟩ ∧
      after.value? ⟨1⟩ = some value ∧ (after.cell? ⟨0⟩).map Cell.references = some 2 := by
  intro record value unheld
  have built : unheld.Balanced [] :=
    ((((balanced_empty {}).newCell .null fun _ named => absurd named List.not_mem_nil).newCell
      (.collection (some ⟨0⟩)) (names_collection ⟨_, rfl⟩)).newCell (.collection (some ⟨1⟩))
        (names_collection ⟨_, rfl⟩)).newCell record (names_record (by
          intro field member
          simp only [List.mem_cons, List.not_mem_nil, or_false] at member
          rcases member with rfl | rfl
          · exact ⟨_, rfl⟩
          · exact ⟨_, rfl⟩))
  obtain ⟨heap, added⟩ : ∃ heap, unheld.addReference ⟨3⟩ = .ok heap :=
    exists_of_isOk (by decide +kernel)
  obtain ⟨moved, accounted⟩ := built.toAccounted.addReference added
  obtain ⟨held, found, _⟩ := moved.live ⟨1⟩ ⟨.collection (some ⟨0⟩), none, 0⟩ rfl
  have leads : heap.elementAt ⟨2⟩ 0 = .ok ⟨1⟩ :=
    moved.edited.elementAt_eq (moved.value?_eq ⟨2⟩) 0
  have named : heap.field ⟨3⟩ "item" = .ok ⟨1⟩ := field_congr (moved.value?_eq ⟨3⟩) "item"
  have twice : (heap.cell? ⟨0⟩).map Cell.references = some 2 := by
    have counted : (unheld.addReference ⟨3⟩).toOption.bind
        (fun heap => (heap.cell? ⟨0⟩).map Cell.references) = some 2 := by decide +kernel
    rw [added] at counted
    exact counted
  have apart : ¬ Below heap.links ⟨0⟩ ⟨1⟩ := by
    intro below
    rw [moved.links_eq] at below
    rcases Relation.ReflTransGen.cases_head below with same | ⟨child, owns, _⟩
    · cases same
    · exact absurd owns List.not_mem_nil
  have names : heap.Names value := by
    rw [Names, moved.links_eq]
    intro child member
    rw [List.mem_singleton.mp member]
    exact ⟨_, rfl⟩
  have still (address : Address) : heap.exchanged held [⟨0⟩] [⟨0⟩] address = 0 := by
    rw [exchanged, Int.sub_self, Int.mul_zero]
  obtain ⟨_, after, done⟩ := (decided_replaceValue accounted found names).success.mpr (by
    constructor
    · rintro ⟨child, member, below⟩
      rw [List.mem_singleton.mp member] at below
      exact apart below
    · rintro ⟨address, cell, _, large⟩
      have bounded := cell.references.toNat_lt_size
      change _ ≤ _ + heap.exchanged held [⟨0⟩] [⟨0⟩] address at large
      rw [still] at large
      omega)
  rw [← setElement_eq leads] at done
  obtain ⟨target, known, cell, foundTarget, replaced, _, seen⟩ :=
    (set_in_place_for_all heap [⟨3⟩] accounted.closed (acyclic_of_founded accounted.founded)
      accounted.counted).1 ⟨2⟩ 0 value after done
  rw [leads] at known
  cases known
  rw [found] at foundTarget
  cases foundTarget
  refine ⟨heap, after, added, accounted, done, ?_, value?_eq replaced.placed, ?_⟩
  · rw [seen.field ⟨3⟩ "item" (by decide)]
    exact named
  · obtain ⟨first, foundFirst, two⟩ := Option.map_eq_some_iff.mp twice
    apply replaced.references_eq foundFirst
    change _ + heap.exchanged held [⟨0⟩] [⟨0⟩] ⟨0⟩ = _
    rw [still, two, Int.add_zero]

end ScriptCore.Heap
