import ScriptCore.Proofs.Heap.Readers
import ScriptCore.Proofs.Updates.Outcomes

set_option autoImplicit false

/-! A new element as all collections see it. Only the last cell of a chain gets a successor, so
the collections that gain the element are those whose own chain ends in that cell, from wherever
it is entered. -/

namespace ScriptCore.Heap

open Links HeapM

/-- What a chain becomes when the given cell, up to now without a successor, is followed by a new
element. -/
def extended (last : Option Address) (element : Address) (elements : List Address) :
    List Address :=
  if elements ≠ [] ∧ elements.getLast? = last then elements ++ [element] else elements

theorem extended_nil (last : Option Address) (element : Address) :
    extended last element [] = [] := if_neg fun both => both.1 rfl

theorem extended_cons_cons (last : Option Address) (element first second : Address)
    (rest : List Address) : extended last element (first :: second :: rest) =
      first :: extended last element (second :: rest) := by
  unfold extended
  rw [List.getLast?_cons_cons]
  by_cases ends : (second :: rest).getLast? = last
  · rw [if_pos ⟨List.cons_ne_nil _ _, ends⟩, if_pos ⟨List.cons_ne_nil _ _, ends⟩, List.cons_append]
  · rw [if_neg fun both => ends both.2, if_neg fun both => ends both.2]

theorem extended_own {elements : List Address} (nonempty : elements ≠ []) (element : Address) :
    extended elements.getLast? element elements = elements ++ [element] :=
  if_pos ⟨nonempty, rfl⟩

/-- The end of a chain comes where it came before, or one new element later. -/
theorem Chain.extend {before after : Heap} {last : Option Address} {element : Address}
    {first : Option Address} {elements : List Address} (chain : Chain before first elements)
    (ends : ∀ address cell, last = some address → before.cell? address = some cell →
      cell.next = none)
    (nexts : ∀ address cell, before.cell? address = some cell → ∃ changed,
      after.cell? address = some changed ∧
        changed.next = if last = some address then some element else cell.next)
    (alone : Chain after (some element) [element]) :
    Chain after first (extended last element elements) := by
  induction chain with
  | nil =>
      rw [extended_nil]
      exact .nil
  | cons address cell others found rest ih =>
      obtain ⟨changed, foundAfter, follows⟩ := nexts address cell found
      cases others with
      | nil =>
          have none' := rest.first_eq_none
          by_cases same : last = some address
          · have whole : extended last element [address] = [address, element] := by
              rw [same]
              exact extended_own (List.cons_ne_nil _ _) element
            rw [if_pos same] at follows
            rw [← follows] at alone
            rw [whole]
            exact .cons address changed [element] foundAfter alone
          · have whole : extended last element [address] = [address] :=
              if_neg fun both => same both.2.symm
            have final : Chain after none [] := .nil
            rw [if_neg same, none'] at follows
            rw [← follows] at final
            rw [whole]
            exact .cons address changed [] foundAfter final
      | cons second others =>
          -- the cell has a successor, so it is not the one that gets the new element
          have apart : last ≠ some address := by
            intro same
            have none' := ends address cell same found
            rw [none'] at rest
            cases rest
          rw [if_neg apart] at follows
          rw [← follows] at ih
          rw [extended_cons_cons]
          exact .cons address changed _ foundAfter ih

/-! ### The heap after an append -/

/-- A new element stands behind the elements that a collection had. It holds its value, is held
as often as the cell behind which it stands, and has no successor. The other collections that
ended in the same element have it as well, all others are as they were, and so are the values of
all other cells, save for a head that had no elements. -/
structure Appended (before after : Heap) (head : Address) (elements : List Address)
    (value : Value) (element : Address) : Prop where
  fresh : before.cell? element = none
  listed : after.elements head = .ok (elements ++ [element])
  placed : ∃ last, before.cell? (tail head elements) = some last ∧
    after.cell? (tail head elements) = some (withElement elements element last) ∧
      after.cell? element = some ⟨value, none, last.references⟩
  others : ∀ other cell first, other ≠ head → before.cell? other = some cell →
    cell.value = .collection first → ∃ theirs, before.elements other = .ok theirs ∧
      after.elements other = .ok (extended elements.getLast? element theirs)
  values : ∀ address, address ≠ element → (address = head → elements ≠ []) →
    after.value? address = before.value? address

section Linked

variable {heap after : Heap} (listed : heap.FreeListed) {head : Address}
  {elements : List Address} {value : Value} {change : Address → Int}
  (moved : Moved change (heap.linked head elements value) after)

include listed moved

theorem cell?_tail_of_linked {cell : Cell} (found : heap.cell? (tail head elements) = some cell) :
    ∃ count : UInt32, after.cell? (tail head elements) =
        some { withElement elements (heap.allocate value none).1 cell with references := count } ∧
      (count.toNat : Int) = cell.references.toNat + change (tail head elements) := by
  have changed : (heap.linked head elements value).cell? (tail head elements) =
      some (withElement elements (heap.allocate value none).1 cell) := by
    rw [linked, cell?_modifyCell, if_pos rfl, listed.grows_allocate value none _ cell found,
      Option.map_some]
  obtain ⟨count, foundAfter, counted⟩ := moved.live _ _ changed
  rw [references_withElement] at counted
  exact ⟨count, foundAfter, counted⟩

omit moved in
theorem cell?_linked_elsewhere {address : Address} (old : address ≠ (heap.allocate value none).1)
    (apart : address ≠ tail head elements) :
    (heap.linked head elements value).cell? address = heap.cell? address := by
  rw [linked, cell?_modifyCell, if_neg apart, listed.cell?_allocate, if_neg old]

theorem next_of_linked {address : Address} {cell : Cell}
    (found : heap.cell? address = some cell) :
    ∃ changed, after.cell? address = some changed ∧
      changed.next = if elements.getLast? = some address then
        some (heap.allocate value none).1 else cell.next := by
  by_cases same : address = tail head elements
  · subst same
    obtain ⟨count, foundAfter, _⟩ := cell?_tail_of_linked listed moved found
    refine ⟨_, foundAfter, ?_⟩
    rcases mem_or_eq_tail head elements with ⟨rfl, _⟩ | ⟨last, isLast, _, atLast⟩
    · rfl
    · rw [atLast, isLast, if_pos rfl, withElement, isLast]
  · have live := (heap.live_links_iff address).mpr ⟨cell, found⟩
    have kept : (heap.linked head elements value).cell? address = some cell :=
      (cell?_linked_elsewhere listed (ne_fresh_of_live listed live) same).trans found
    obtain ⟨count, foundAfter, _⟩ := moved.live address cell kept
    refine ⟨_, foundAfter, ?_⟩
    rw [if_neg]
    intro isLast
    rw [tail, isLast] at same
    exact same rfl

variable (answered : heap.elements head = .ok elements)

include answered

theorem value_of_linked {address : Address} (old : address ≠ (heap.allocate value none).1)
    (keeps : address = head → elements ≠ []) :
    after.value? address = heap.value? address := by
  by_cases same : address = tail head elements
  · subst same
    obtain ⟨cell, found, _⟩ := cell?_tail answered
    obtain ⟨count, foundAfter, _⟩ := cell?_tail_of_linked listed moved found
    rw [value?_eq foundAfter, value?_eq found]
    rcases mem_or_eq_tail head elements with ⟨empty, atHead⟩ | ⟨last, isLast, _, _⟩
    · exact absurd empty (keeps atHead)
    · rw [withElement, isLast]
  · rw [moved.value?_eq, value?, cell?_linked_elsewhere listed old same, value?]

/-- A collection that keeps its value has the new element behind its own if they end in the
same one. -/
theorem elements_of_linked
    (alone : Chain after (some (heap.allocate value none).1) [(heap.allocate value none).1])
    {other : Address} {theirs : List Address} (there : heap.elements other = .ok theirs)
    (keeps : other = head → elements ≠ []) :
    after.elements other =
      .ok (extended elements.getLast? (heap.allocate value none).1 theirs) := by
  obtain ⟨cell, first, found, holds, chain⟩ := chain_of_elements there
  obtain ⟨_, _, _, _, own⟩ := chain_of_elements answered
  have live := (heap.live_links_iff other).mpr ⟨cell, found⟩
  have same := value_of_linked listed moved answered (ne_fresh_of_live listed live) keeps
  rw [value?_eq found, holds] at same
  obtain ⟨changed, foundAfter, holdsAfter⟩ := Option.map_eq_some_iff.mp same
  rw [elements_eq foundAfter holdsAfter, chain_eq_ok_iff]
  apply chain.extend _ (fun _ _ => next_of_linked listed moved) alone
  intro address last isLast foundLast
  obtain ⟨_, foundLast', ends⟩ := own.next_of_getLast? address isLast
  rw [foundLast] at foundLast'
  cases foundLast'
  exact ends

end Linked

section Append

variable {heap after : Heap} {roots : List Address} (accounted : Accounted heap roots)
  (listed : heap.FreeListed) {head : Address} {elements : List Address} {value : Value}
  (names : heap.Names value)

include accounted listed names

theorem appended_element (held : UInt32) :
    heap.appended held (heap.allocate value none).1 value.children (heap.allocate value none).1 =
      held.toNat := by
  have none : pathsFrom heap.links value.children (heap.allocate value none).1 = 0 :=
    pathsFrom_eq_zero fun child member =>
      not_below_fresh listed accounted.closed (names child member)
  rw [appended, if_pos rfl, none, Nat.add_zero, Nat.cast_one, Int.mul_one]

variable (answered : heap.elements head = .ok elements) {last : Cell}
  (found : heap.cell? (tail head elements) = some last)
  (moved : Moved (heap.appended last.references (heap.allocate value none).1 value.children)
    (heap.linked head elements value) after)

include found moved

omit accounted names moved in
theorem fresh_ne_tail : (heap.allocate value none).1 ≠ tail head elements :=
  Ne.symm (ne_fresh_of_live listed ((heap.live_links_iff _).mpr ⟨last, found⟩))

/-- The new element is held as often as the cell behind which it stands. -/
theorem cell?_element_of_linked :
    after.cell? (heap.allocate value none).1 = some ⟨value, none, last.references⟩ := by
  have unheld : (heap.linked head elements value).cell? (heap.allocate value none).1 =
      some ⟨value, none, 0⟩ := by
    rw [linked, cell?_modifyCell, if_neg (fresh_ne_tail listed found), cell?_fresh listed]
  obtain ⟨count, foundAfter, counted⟩ := moved.live _ _ unheld
  rw [appended_element accounted listed names, UInt32.toNat_zero] at counted
  have same : count = last.references := UInt32.toNat_inj.mp (by omega)
  rw [foundAfter, same]

variable (apart : ∀ child, child ∈ value.children → ¬ Below heap.links child (tail head elements))

include apart

omit accounted names in
/-- The cell behind which the element stands is held as often as before. -/
theorem cell?_tail_of_appended : after.cell? (tail head elements) =
    some (withElement elements (heap.allocate value none).1 last) := by
  obtain ⟨count, foundAfter, counted⟩ := cell?_tail_of_linked listed moved found
  rw [appended, if_neg (fresh_ne_tail listed found), pathsFrom_eq_zero apart, Nat.add_zero,
    Nat.cast_zero, Int.mul_zero, Int.add_zero] at counted
  have same : count = (withElement elements (heap.allocate value none).1 last).references := by
    rw [references_withElement]
    exact UInt32.toNat_inj.mp (by omega)
  rw [foundAfter, same]

include answered

theorem appended_of_linked :
    Appended heap after head elements value (heap.allocate value none).1 := by
  have placed := cell?_element_of_linked accounted listed names found moved
  have behind := cell?_tail_of_appended listed found moved apart
  have alone : Chain after (some (heap.allocate value none).1) [(heap.allocate value none).1] :=
    .cons _ _ [] placed .nil
  constructor
  case fresh => exact listed.dead_allocate value none
  case placed => exact ⟨last, found, behind, placed⟩
  case listed =>
    by_cases empty : elements = []
    · subst empty
      have leads : after.elements head = after.chain (some (heap.allocate value none).1) :=
        elements_eq behind rfl
      exact leads.trans (chain_eq_ok_iff.mpr alone)
    · rw [elements_of_linked listed moved answered alone answered fun _ => empty,
        extended_own empty]
  case others =>
    intro other cell first different foundOther holds
    obtain ⟨theirs, there, _⟩ := exists_elements accounted.closed
      (acyclic_of_founded accounted.founded) foundOther holds
    exact ⟨theirs, there, elements_of_linked listed moved answered alone there
      fun same => absurd same different⟩
  case values =>
    intro address old keeps
    exact value_of_linked listed moved answered old keeps

end Append

end ScriptCore.Heap
