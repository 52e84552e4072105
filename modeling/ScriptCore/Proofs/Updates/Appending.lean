import ScriptCore.Proofs.Accounts.Replacement
import ScriptCore.Proofs.Heap.Chains

set_option autoImplicit false

/-! A new element is allocated first and then linked, which is an exchange of children like any
other: in the last element or, without elements, in the head. -/

namespace ScriptCore.Heap

open Links HeapM

/-- The cell behind which a new element goes: the last element, or the head of a collection
without elements. -/
def tail (head : Address) (elements : List Address) : Address := elements.getLast?.getD head

/-- The last element with its new successor, or the head with its first element. -/
def withElement (elements : List Address) (element : Address) (cell : Cell) : Cell :=
  match elements.getLast? with
  | some _ => { cell with next := some element }
  | none => { cell with value := .collection (some element) }

/-- What the cell gives up for the new element. -/
def beforeElement (elements : List Address) (cell : Cell) : List Address :=
  match elements.getLast? with
  | some _ => cell.next.toList
  | none => cell.value.children

theorem references_withElement (elements : List Address) (element : Address) (cell : Cell) :
    (withElement elements element cell).references = cell.references := by
  unfold withElement
  cases elements.getLast? with
  | some last => rfl
  | none => rfl

theorem children_withElement (elements : List Address) (element : Address) (cell : Cell) :
    ∃ rest, cell.children.Perm (rest ++ beforeElement elements cell) ∧
      (withElement elements element cell).children.Perm (rest ++ [element]) := by
  unfold withElement beforeElement
  cases elements.getLast? with
  | some last => exact children_withNext (some element) cell
  | none => exact children_withValue (.collection (some element)) cell

/-- The heap with a new element behind the others, before any count has moved. -/
def linked (heap : Heap) (head : Address) (elements : List Address) (value : Value) : Heap :=
  (heap.allocate value none).2.modifyCell (tail head elements)
    (withElement elements (heap.allocate value none).1)

section Append

variable {heap : Heap} {head : Address} {elements : List Address}

theorem append_eq (value : Value) (answered : heap.elements head = .ok elements) :
    append head value heap =
      (exchangeChildren (tail head elements)
          (withElement elements (heap.allocate value none).1) (beforeElement elements)
          [(heap.allocate value none).1] >>=
        fun _ => pure (heap.allocate value none).1) (heap.allocate value none).2 := by
  unfold append
  rw [bind_of_ok (ask_of_ok answered),
    bind_of_ok (always_eq (fun heap => heap.allocate value none) heap)]
  unfold tail withElement beforeElement
  cases elements.getLast? with
  | some last =>
      simp only [relink_eq]
      rfl
  | none =>
      simp only [replaceValue_eq]
      rfl

theorem failsWith_append_iff (value : Value) (answered : heap.elements head = .ok elements)
    (reason : Fault → Prop) :
    FailsWith reason (append head value heap) ↔
      FailsWith reason (exchangeChildren (tail head elements)
        (withElement elements (heap.allocate value none).1) (beforeElement elements)
        [(heap.allocate value none).1] (heap.allocate value none).2) := by
  rw [append_eq value answered]
  exact failsWith_bind_pure_iff

theorem append_of_elements_error (value : Value) {fault : Fault}
    (failed : heap.elements head = .error fault) :
    append head value heap = .error fault heap := bind_of_error (ask_of_error failed)

theorem mem_or_eq_tail (head : Address) (elements : List Address) :
    (elements = [] ∧ tail head elements = head) ∨
      ∃ last, elements.getLast? = some last ∧ last ∈ elements ∧ tail head elements = last := by
  cases elements with
  | nil => exact Or.inl ⟨rfl, rfl⟩
  | cons first rest =>
      have isLast := List.getLast?_eq_getLast_of_ne_nil (List.cons_ne_nil first rest)
      refine Or.inr ⟨_, isLast, List.getLast_mem _, ?_⟩
      rw [tail, isLast, Option.getD_some]

/-- The cell behind which a new element goes is live and gives up nothing for it. -/
theorem cell?_tail (answered : heap.elements head = .ok elements) :
    ∃ cell, heap.cell? (tail head elements) = some cell ∧ beforeElement elements cell = [] := by
  obtain ⟨headCell, first, found, holds, chain⟩ := chain_of_elements answered
  rcases mem_or_eq_tail head elements with ⟨rfl, atHead⟩ | ⟨last, isLast, _, atLast⟩
  · refine ⟨headCell, by rw [atHead, found], ?_⟩
    change headCell.value.children = []
    rw [holds, chain.first_eq_none]
    rfl
  · obtain ⟨cell, foundLast, ends⟩ := chain.next_of_getLast? last isLast
    refine ⟨cell, by rw [atLast, foundLast], ?_⟩
    unfold beforeElement
    rw [isLast, ends]
    rfl

/-- The elements of a collection lead to the last of them, from the first one on. -/
theorem exists_child_below_tail {cell : Cell} (found : heap.cell? head = some cell)
    (answered : heap.elements head = .ok elements) (nonempty : elements ≠ []) :
    ∃ child, child ∈ cell.value.children ∧ Below heap.links child (tail head elements) := by
  obtain ⟨headCell, first, foundHead, holds, chain⟩ := chain_of_elements answered
  rw [found] at foundHead
  cases foundHead
  rcases mem_or_eq_tail head elements with ⟨empty, _⟩ | ⟨last, _, member, atLast⟩
  · exact absurd empty nonempty
  · obtain ⟨child, rfl, below⟩ := chain.below_of_mem last member
    refine ⟨child, ?_, by rw [atLast]; exact below⟩
    rw [holds]
    exact List.mem_singleton.mpr rfl

theorem below_tail (answered : heap.elements head = .ok elements) :
    Below heap.links head (tail head elements) := by
  by_cases empty : elements = []
  · rw [empty]
    exact Relation.ReflTransGen.refl
  · obtain ⟨cell, _, found, _, _⟩ := chain_of_elements answered
    obtain ⟨child, named, below⟩ := exists_child_below_tail found answered empty
    refine Below.trans (Below.of_owns ?_) below
    rw [Owns, children_eq (heap.links_of_cell? head cell found)]
    exact List.mem_append_right _ named

/-! ### The new element in the graph -/

section Element

variable (closed : Closed heap.links) (listed : heap.FreeListed) {value : Value}
  (answered : heap.elements head = .ok elements) (names : heap.Names value)

include closed listed names

include answered in
theorem below_element_iff :
    Below (heap.allocate value none).2.links (heap.allocate value none).1 (tail head elements) ↔
      ∃ child, child ∈ value.children ∧ Below heap.links child (tail head elements) := by
  obtain ⟨cell, found, _⟩ := cell?_tail answered
  have tailLive := (heap.live_links_iff _).mpr ⟨cell, found⟩
  have named : ∀ child, child ∈ (none : Option Address).toList ++ value.children →
      Live heap.links child := names
  exact below_fresh_iff listed closed named tailLive

theorem paths_element (founded : ∀ address, Founded heap.links address) (address : Address) :
    paths (heap.allocate value none).2.links (heap.allocate value none).1 address =
      (if (heap.allocate value none).1 = address then 1 else 0) +
        pathsFrom heap.links value.children address := by
  have named : ∀ child, child ∈ (none : Option Address).toList ++ value.children →
      Live heap.links child := names
  rw [paths_eq (founded_allocate listed closed named founded _), children_fresh listed]
  congr 1
  apply pathsFrom_congr value.children address
  intro child member
  exact paths_congr (founded child)
    (children_eq_of_apart (children_allocate_elsewhere listed)
      (not_below_fresh listed closed (names child member))) address

end Element

end Append
end ScriptCore.Heap
