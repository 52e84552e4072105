import ScriptCore.Proofs.Heap.Successors
import ScriptCore.Proofs.Ownership.Cycles
import ScriptCore.Proofs.Updates.Appending

set_option autoImplicit false

/-! How an update ends where the counts are path counts. Nothing is missing on the way: it is
refused because of a cycle, or an exact count in the end is too large for a cell, or all
counts come out exactly. That references are let go before others are held does not show. -/

namespace ScriptCore.Heap

open Links HeapM

/-- By how much the exact count of a cell changes when an owner that is held so often
exchanges children. -/
noncomputable def exchanged (heap : Heap) (held : UInt32) (old new : List Address)
    (address : Address) : Int :=
  held.toNat * ((pathsFrom heap.links new address : Int) - pathsFrom heap.links old address)

/-- Some exact count would be more than a cell can hold. -/
def Exceeds (heap : Heap) (change : Address → Int) : Prop :=
  ∃ address cell, heap.cell? address = some cell ∧
    (UInt32.size : Int) ≤ cell.references.toNat + change address

/-- An update is refused because of a cycle, or fails because a count is too large, or
succeeds, each under its own condition, and has no other end. -/
structure Decided {Answer : Type} (closes tooLarge : Prop) (done : Answer → Heap → Prop)
    (result : EStateM.Result Fault Heap Answer) : Prop where
  cycle : FailsWith Fault.ReportsCycle result ↔ closes
  overflow : FailsWith Fault.Overflows result ↔ ¬ closes ∧ tooLarge
  success : (∃ answer after, result = .ok answer after) ↔ ¬ closes ∧ ¬ tooLarge
  exact : ∀ answer after, result = .ok answer after → done answer after
  faults : ∀ fault after, result = .error fault after → fault.ReportsCycle ∨ fault.Overflows

namespace Decided

variable {Answer : Type} {closes tooLarge : Prop} {done : Answer → Heap → Prop} {heap : Heap}

private theorem not_ok_error {fault : Fault} :
    ¬ ∃ answer after, (.error fault heap : EStateM.Result Fault Heap Answer) =
      .ok answer after := by
  rintro ⟨_, _, impossible⟩
  cases impossible

theorem of_cycle {fault : Fault} (reports : fault.ReportsCycle) (close : closes) :
    Decided closes tooLarge done (.error fault heap) where
  cycle := iff_of_true (failsWith_error_iff.mpr reports) close
  overflow := iff_of_false
    (fun failed => Fault.not_overflows_of_reportsCycle reports (failsWith_error_iff.mp failed))
    fun both => both.1 close
  success := iff_of_false not_ok_error fun both => both.1 close
  exact := by
    intro _ _ impossible
    cases impossible
  faults := by
    intro _ _ same
    cases same
    exact Or.inl reports

theorem of_overflow {fault : Fault} (overflows : fault.Overflows) (apart : ¬ closes)
    (large : tooLarge) : Decided closes tooLarge done (.error fault heap) where
  cycle := iff_of_false
    (fun failed => Fault.not_overflows_of_reportsCycle (failsWith_error_iff.mp failed) overflows)
    apart
  overflow := iff_of_true (failsWith_error_iff.mpr overflows) ⟨apart, large⟩
  success := iff_of_false not_ok_error fun both => both.2 large
  exact := by
    intro _ _ impossible
    cases impossible
  faults := by
    intro _ _ same
    cases same
    exact Or.inr overflows

theorem of_ok {answer : Answer} (apart : ¬ closes) (fits : ¬ tooLarge) (did : done answer heap) :
    Decided closes tooLarge done (.ok answer heap) where
  cycle := iff_of_false not_failsWith_ok apart
  overflow := iff_of_false not_failsWith_ok fun both => fits both.2
  success := iff_of_true ⟨answer, heap, rfl⟩ ⟨apart, fits⟩
  exact := by
    intro _ _ same
    cases same
    exact did
  faults := by
    intro _ _ impossible
    cases impossible

theorem bind_pure {work : HeapM Unit} {done : Heap → Prop} (answer : Answer)
    (decided : Decided closes tooLarge (fun _ => done) (work heap)) :
    Decided closes tooLarge (fun found after => found = answer ∧ done after)
      ((work >>= fun _ => pure answer) heap) := by
  cases worked : work heap with
  | ok _ after =>
      rw [worked] at decided
      rw [bind_of_ok worked]
      obtain ⟨apart, fits⟩ := decided.success.mp ⟨_, after, rfl⟩
      exact of_ok apart fits ⟨rfl, decided.exact _ after rfl⟩
  | error fault after =>
      rw [worked] at decided
      rw [bind_of_error worked]
      rcases decided.faults fault after rfl with reports | overflows
      · exact of_cycle reports (decided.cycle.mp ⟨fault, after, rfl, reports⟩)
      · obtain ⟨apart, large⟩ := decided.overflow.mp ⟨fault, after, rfl, overflows⟩
        exact of_overflow overflows apart large

end Decided

/-! ### An exchange of children -/

theorem share_sub_share (heap : Heap) (held : UInt32) (old new : List Address)
    (address : Address) :
    (heap.share held new address - heap.share held old address : Int) =
      heap.exchanged held old new address := by
  rw [share, share, exchanged, Int.natCast_mul, Int.natCast_mul, ← Int.sub_mul, Int.mul_comm]

theorem cell?_changed {heap : Heap} (owner : Address) {address : Address}
    {change : Cell → Cell} {before : Cell}
    (references : ∀ cell, (change cell).references = cell.references)
    (found : heap.cell? address = some before) :
    ∃ changed, (heap.modifyCell owner change).cell? address = some changed ∧
      changed.references = before.references := by
  rw [cell?_modifyCell, found]
  by_cases same : address = owner
  · rw [if_pos same, Option.map_some]
    exact ⟨_, rfl, references before⟩
  · rw [if_neg same]
    exact ⟨before, rfl, rfl⟩

section Exchange

variable {heap : Heap} {roots : List Address} (accounted : Accounted heap roots)
  {owner : Address} {cell : Cell} (found : heap.cell? owner = some cell)
  {change : Cell → Cell} {old : Cell → List Address} {new : List Address}
  (references : ∀ cell, (change cell).references = cell.references)
  (children : ∀ cell : Cell, ∃ rest, cell.children.Perm (rest ++ old cell) ∧
    (change cell).children.Perm (rest ++ new))
  (live : ∀ child, child ∈ new → Live heap.links child)

include accounted found references children live

theorem decided_exchangeChildren :
    Decided (∃ child, child ∈ new ∧ Below heap.links child owner)
      (heap.Exceeds (heap.exchanged cell.references (old cell) new))
      (fun _ => Moved (heap.exchanged cell.references (old cell) new)
        (heap.modifyCell owner change))
      (exchangeChildren owner change old new heap) := by
  rcases exchangeChildren_cases accounted owner references children with
    ⟨held, exchange, outcome⟩ | ⟨fault, failed, refused⟩
  · have foundOwner := exchange.found
    rw [found] at foundOwner
    cases foundOwner
    have notClosing : ¬ ∃ child, child ∈ new ∧ Below heap.links child owner := by
      rintro ⟨child, member, below⟩
      exact exchange.apart child member below
    rcases outcome with ⟨after, done, moved⟩ | ⟨fault, after, failed, overflowed⟩
    · rw [done]
      have exactly := moved.congr (heap.share_sub_share cell.references (old cell) new)
      -- every exact count has come out in a cell, so it is not too large
      refine .of_ok notClosing ?_ exactly
      rintro ⟨address, before, foundBefore, large⟩
      obtain ⟨changed, foundChanged, sameCount⟩ :=
        cell?_changed owner references foundBefore
      obtain ⟨count, _, counted⟩ := exactly.live address changed foundChanged
      have bounded := count.toNat_lt_size
      rw [sameCount] at counted
      omega
    · rw [failed]
      refine .of_overflow overflowed.reported notClosing ?_
      obtain ⟨address, changed, foundChanged, large⟩ := overflowed.large
      obtain ⟨before, foundBefore, sameCount⟩ :=
        exchange.of_cell?_changed address changed foundChanged
      have moves := heap.share_sub_share cell.references (old cell) new address
      refine ⟨address, before, foundBefore, ?_⟩
      rw [sameCount] at large
      omega
  · rw [failed]
    cases refused with
    | dead notLive =>
        rw [found] at notLive
        cases notLive
    | cycle child member below => exact .of_cycle ⟨owner, child, rfl⟩ ⟨child, member, below⟩
    | dangling child member notLive => exact absurd (live child member) notLive

end Exchange

theorem decided_replaceValue {heap : Heap} {roots : List Address}
    (accounted : Accounted heap roots) {owner : Address} {cell : Cell}
    (found : heap.cell? owner = some cell) {value : Value} (names : heap.Names value) :
    Decided (∃ child, child ∈ value.children ∧ Below heap.links child owner)
      (heap.Exceeds (heap.exchanged cell.references cell.value.children value.children))
      (fun _ => Moved (heap.exchanged cell.references cell.value.children value.children)
        (heap.modifyCell owner fun cell => { cell with value }))
      (replaceValue owner value heap) := by
  have decided := decided_exchangeChildren accounted found (references_withValue value)
    (children_withValue value) names
  rw [replaceValue_eq]
  exact decided

/-! ### A new element -/

theorem pathsFrom_filter_isLive (heap : Heap) (roots : List Address) {address : Address}
    (live : Live heap.links address) :
    pathsFrom heap.links (roots.filter heap.isLive) address =
      pathsFrom heap.links roots address := by
  induction roots with
  | nil => rfl
  | cons root rest ih =>
      by_cases kept : heap.isLive root = true
      · rw [List.filter_cons_of_pos kept, pathsFrom_cons, pathsFrom_cons, ih]
      · have none : paths heap.links root address = 0 := by
          apply paths_eq_zero
          intro below
          have dead : ¬ Live heap.links root := by
            rw [live_links_iff, ← isLive_iff]
            exact kept
          rw [eq_of_below_of_not_live dead below] at live
          exact dead live
        rw [List.filter_cons_of_neg kept, pathsFrom_cons, ih, none, Nat.zero_add]

/-- Roots that are dead account for nothing. -/
theorem Accounted.balanced {heap : Heap} {roots : List Address}
    (accounted : Accounted heap roots) (listed : heap.FreeListed) :
    Balanced heap (roots.filter heap.isLive) where
  closed := accounted.closed
  founded := accounted.founded
  counted := by
    intro address cell found
    rw [heap.pathsFrom_filter_isLive roots ((heap.live_links_iff address).mpr ⟨cell, found⟩)]
    exact accounted.counted address cell found
  listed := listed
  rooted := by
    intro root member
    exact (heap.live_links_iff root).mpr ((heap.isLive_iff root).mp (List.mem_filter.mp member).2)

/-- By how much the exact count of a cell changes when a new element is linked to a cell that
is held so often. -/
noncomputable def appended (heap : Heap) (held : UInt32) (element : Address)
    (named : List Address) (address : Address) : Int :=
  held.toNat * ((if element = address then 1 else 0) + pathsFrom heap.links named address : Nat)

section Append

variable {heap : Heap} {roots : List Address} (accounted : Accounted heap roots)
  (listed : heap.FreeListed) {head : Address} {elements : List Address} {value : Value}
  (answered : heap.elements head = .ok elements) (names : heap.Names value)

include accounted listed names

theorem exchanged_element (held : UInt32) :
    (heap.allocate value none).2.exchanged held [] [(heap.allocate value none).1] =
      heap.appended held (heap.allocate value none).1 value.children := by
  funext address
  rw [exchanged, appended, pathsFrom_cons, pathsFrom_nil, Nat.add_zero, Int.natCast_zero,
    Int.sub_zero, paths_element accounted.closed listed names accounted.founded]

include answered

theorem decided_append {cell : Cell} (found : heap.cell? (tail head elements) = some cell) :
    Decided (∃ child, child ∈ value.children ∧ Below heap.links child (tail head elements))
      ((heap.allocate value none).2.Exceeds
        (heap.appended cell.references (heap.allocate value none).1 value.children))
      (fun element after => element = (heap.allocate value none).1 ∧
        Moved (heap.appended cell.references (heap.allocate value none).1 value.children)
          (heap.linked head elements value) after)
      (append head value heap) := by
  obtain ⟨tailCell, foundTail, nothing⟩ := cell?_tail answered
  rw [found] at foundTail
  cases foundTail
  have balanced := accounted.balanced listed
  have after : Balanced (heap.allocate value none).2 (roots.filter heap.isLive) :=
    balanced.allocate names
  have found' := listed.grows_allocate value none _ _ found
  have decided := decided_exchangeChildren after.toAccounted found'
    (references_withElement elements (heap.allocate value none).1)
    (children_withElement elements (heap.allocate value none).1)
    (by
      intro child member
      rw [List.mem_singleton.mp member]
      exact balanced.live_fresh)
  rw [nothing, exchanged_element accounted listed names] at decided
  simp only [List.mem_singleton, exists_eq_left,
    below_element_iff accounted.closed listed answered names] at decided
  rw [append_eq value answered]
  exact decided.bind_pure (heap.allocate value none).1

end Append

/-- Where the counts are the path counts of some roots, a value is refused exactly if some
child of it contains the cell, and otherwise the exact counts decide: the update succeeds with
them, unless one is too large. The same holds of a new element and the cell behind which it
goes. No count is found missing and no address dead. -/
theorem updates_decided_by_paths (heap : Heap) (roots : List Address)
    (closed : Closed heap.links) (acyclic : Acyclic heap.links)
    (counted : ∀ address cell, heap.cell? address = some cell →
      cell.references.toNat = pathsFrom heap.links roots address)
    (owner : Address) (cell : Cell) (found : heap.cell? owner = some cell) (value : Value)
    (names : heap.Names value) :
    Decided (∃ child, child ∈ value.children ∧ Below heap.links child owner)
        (heap.Exceeds (heap.exchanged cell.references cell.value.children value.children))
        (fun _ => Moved (heap.exchanged cell.references cell.value.children value.children)
          (heap.modifyCell owner fun cell => { cell with value }))
        (replaceValue owner value heap) ∧
      ∀ first, cell.value = .collection first → heap.FreeListed →
        ∃ elements tailCell, heap.elements owner = .ok elements ∧
          heap.cell? (tail owner elements) = some tailCell ∧
          Decided (∃ child, child ∈ value.children ∧ Below heap.links child (tail owner elements))
            ((heap.allocate value none).2.Exceeds
              (heap.appended tailCell.references (heap.allocate value none).1 value.children))
            (fun element after => element = (heap.allocate value none).1 ∧
              Moved (heap.appended tailCell.references (heap.allocate value none).1 value.children)
                (heap.linked owner elements value) after)
            (append owner value heap) := by
  have accounted : Accounted heap roots := ⟨closed, heap.founded_of_acyclic acyclic, counted⟩
  constructor
  · exact decided_replaceValue accounted found names
  · intro first holds listed
    obtain ⟨elements, answered, _⟩ := exists_elements closed acyclic found holds
    obtain ⟨tailCell, foundTail, _⟩ := cell?_tail answered
    exact ⟨elements, tailCell, answered, foundTail,
      decided_append accounted listed answered names foundTail⟩

/-- A text of one character that is held once accepts its own elements as its value, and the
counts stay, but refuses them as a further element. -/
theorem updates_decided_by_paths_text :
    let heap : Heap := ⟨#[some ⟨.character 'a', none, 1⟩,
      some ⟨.collection (some ⟨0⟩), none, 1⟩], [], {}, 2, ⟨2, 0, 0⟩⟩
    ((Heap.empty {}).newText ['a']).2.addReference ⟨1⟩ = .ok heap ∧
      (∃ after, replaceValue ⟨1⟩ (.collection (some ⟨0⟩)) heap = .ok () after) ∧
      FailsWith Fault.ReportsCycle (append ⟨1⟩ (.collection (some ⟨0⟩)) heap) := by
  intro heap
  have held : ((Heap.empty {}).newText ['a']).2.addReference ⟨1⟩ = .ok heap := rfl
  have balanced : heap.Balanced [⟨1⟩] := by
    rcases ((balanced_empty {}).newText ['a']).balanced.addReference_cases ⟨1⟩ with
      ⟨after, added, balanced⟩ | ⟨fault, failed⟩
    · rw [held] at added
      cases added
      exact balanced
    · rw [held] at failed
      cases failed
  have names : heap.Names (.collection (some ⟨0⟩)) := names_collection ⟨_, rfl⟩
  have answered : heap.elements ⟨1⟩ = .ok [⟨0⟩] := rfl
  obtain ⟨replacing, appending⟩ := updates_decided_by_paths heap [⟨1⟩] balanced.closed
    (acyclic_of_founded balanced.founded) balanced.counted ⟨1⟩ _ rfl _ names
  refine ⟨held, ?_, ?_⟩
  · obtain ⟨_, after, done⟩ := replacing.success.mpr (by
      constructor
      · rintro ⟨child, named, below⟩
        rw [List.mem_singleton.mp named] at below
        rcases Relation.ReflTransGen.cases_head below with same | ⟨lower, owns, _⟩
        · cases same
        · exact absurd owns List.not_mem_nil
      · rintro ⟨address, cell, _, large⟩
        have bounded := cell.references.toNat_lt_size
        have still : heap.exchanged 1 [⟨0⟩] [⟨0⟩] address = 0 := by
          rw [exchanged, Int.sub_self, Int.mul_zero]
        change _ ≤ _ + heap.exchanged 1 [⟨0⟩] [⟨0⟩] address at large
        rw [still] at large
        omega)
    exact ⟨after, done⟩
  · obtain ⟨elements, tailCell, known, _, decided⟩ := appending (some ⟨0⟩) rfl balanced.listed
    rw [answered] at known
    cases known
    exact decided.cycle.mpr ⟨⟨0⟩, List.mem_singleton.mpr rfl, Relation.ReflTransGen.refl⟩

end ScriptCore.Heap
