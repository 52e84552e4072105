import ScriptCore.Proofs.Heap.Records
import ScriptCore.Proofs.Heap.Successors
import ScriptCore.Proofs.Ownership.Cycles
import ScriptCore.Proofs.Updates.Appending

set_option autoImplicit false

/-! Which updates are refused because of a cycle. The search runs on the heap as it was, with
the old children still in place; it still refuses exactly the updates after which something
would own itself. Counts play no part: an update that fails on them later leaves links that
are free of cycles as well. -/

namespace ScriptCore.Heap

open Links HeapM

/-! ### References move, links stay -/

/-- The links are as before, and no cycle was reported. -/
def SparesLinks (heap : Heap) (result : EStateM.Result Fault Heap Unit) : Prop :=
  (stateLeft result).links = heap.links ∧ ¬ FailsWith Fault.ReportsCycle result

theorem sparesLinks_ok {heap after : Heap} (same : after.links = heap.links) :
    SparesLinks heap (.ok () after) := by
  exact ⟨same, not_failsWith_ok⟩

theorem sparesLinks_error {heap : Heap} {fault : Fault} (other : ¬ fault.ReportsCycle) :
    SparesLinks heap (.error fault heap) := by
  refine ⟨rfl, ?_⟩
  rw [failsWith_error_iff]
  exact other

theorem sparesLinks_bind {heap : Heap} {work : HeapM Unit} {next : Unit → HeapM Unit}
    (first : SparesLinks heap (work heap))
    (later : ∀ after, after.links = heap.links → SparesLinks after (next () after)) :
    SparesLinks heap ((work >>= next) heap) := by
  cases worked : work heap with
  | ok answer after =>
      rw [worked] at first
      rw [bind_of_ok worked]
      obtain ⟨same, silent⟩ := later after first.1
      exact ⟨same.trans first.1, silent⟩
  | error fault after =>
      rw [worked] at first
      rw [bind_of_error worked]
      exact first

theorem Adjustment.not_reportsCycle_fault (adjustment : Adjustment) (cell : Address)
    (held : UInt32) (change : Nat) : ¬ (adjustment.fault cell held change).ReportsCycle := by
  rintro ⟨_, _, same⟩
  cases adjustment with
  | retain => cases same
  | release => cases same

theorem sparesLinks_adjust (heap : Heap) (adjustment : Adjustment) (root : Address)
    (amount : UInt32) (founded : Founded heap.links root) :
    SparesLinks heap (HeapM.change (·.adjust adjustment root amount) heap) := by
  by_cases zero : amount = 0
  · subst zero
    have unchanged : HeapM.change (·.adjust adjustment root 0) heap = .ok () heap :=
      change_of_ok (heap.adjust_zero adjustment root)
    rw [unchanged]
    exact sparesLinks_ok rfl
  · rcases heap.adjust_cases adjustment root amount zero founded.cycleFree with
      ⟨dead, _, _, failed⟩ | ⟨_, ⟨address, cell, _, _, failed⟩ | ⟨after, adjusted, moved⟩⟩
    · rw [change_of_error failed]
      apply sparesLinks_error
      rintro ⟨_, _, same⟩
      cases same
    · rw [change_of_error failed]
      exact sparesLinks_error
        (adjustment.not_reportsCycle_fault address cell.references _)
    · rw [change_of_ok adjusted]
      exact sparesLinks_ok moved.links_eq

theorem sparesLinks_adjustEach (heap : Heap) (adjustment : Adjustment) (owned : List Address)
    (amount : UInt32) (founded : ∀ address, Founded heap.links address) :
    SparesLinks heap
      ((owned.forM fun child => HeapM.change (·.adjust adjustment child amount)) heap) := by
  induction owned generalizing heap with
  | nil => exact sparesLinks_ok rfl
  | cons child rest ih =>
      apply sparesLinks_bind (heap.sparesLinks_adjust adjustment child amount (founded child))
      intro after same
      apply ih after
      rw [same]
      exact founded

theorem sparesLinks_moveReferences (heap : Heap) (held : UInt32) (old new : List Address)
    (founded : ∀ address, Founded heap.links address) :
    SparesLinks heap (moveReferences held old new heap) := by
  apply sparesLinks_bind (heap.sparesLinks_adjustEach .release old held founded)
  intro after same
  apply after.sparesLinks_adjustEach .retain new held
  rw [same]
  exact founded

/-! ### An exchange of children -/

section Exchange

variable {heap : Heap} (closed : Closed heap.links)
  (founded : ∀ address, Founded heap.links address) {owner : Address} {cell : Cell}
  (found : heap.cell? owner = some cell) {change : Cell → Cell} {old : Cell → List Address}
  {new : List Address}
  (children : ∀ cell : Cell, ∃ rest, cell.children.Perm (rest ++ old cell) ∧
    (change cell).children.Perm (rest ++ new))

include founded found children

omit closed in
/-- The new children alone decide whether something will own itself. -/
theorem acyclic_modifyCell_iff :
    Acyclic (heap.modifyCell owner change).links ↔
      ∀ child, child ∈ new → ¬ Below heap.links child owner := by
  obtain ⟨rest, before, afterwards⟩ := children cell
  have changed : (heap.modifyCell owner change).cell? owner = some (change cell) := by
    rw [cell?_modifyCell, if_pos rfl, found, Option.map_some]
  have owns_iff (child : Address) :
      Owns (heap.modifyCell owner change).links owner child ↔ child ∈ rest ∨ child ∈ new := by
    rw [Owns, children_eq (links_of_cell? _ owner _ changed), afterwards.mem_iff, List.mem_append]
  -- a child that stays was below the owner before the change
  have kept (child : Address) (member : child ∈ rest) : ¬ Below heap.links child owner := by
    intro back
    apply (founded owner).not_strictlyBelow
    refine StrictlyBelow.of_owns_below ?_ back
    rw [Owns, children_eq (heap.links_of_cell? owner cell found), before.mem_iff]
    exact List.mem_append_left _ member
  rw [acyclic_relink_iff Exchange.children_elsewhere founded]
  simp only [owns_iff]
  constructor
  · intro apart child member
    exact apart child (Or.inr member)
  · rintro apart child (member | member)
    · exact kept child member
    · exact apart child member

include closed

/-- The first new child that contains the owner or is dead ends the exchange before anything
is changed. Otherwise the new links are in place, whatever becomes of the counts. -/
theorem exchangeChildren_links :
    (∃ earlier child later, new = earlier ++ child :: later ∧
        (∀ other, other ∈ earlier → Live heap.links other ∧ ¬ Below heap.links other owner) ∧
        (Below heap.links child owner ∧
            exchangeChildren owner change old new heap = .error (.cycle owner child) heap ∨
          ¬ Live heap.links child ∧
            exchangeChildren owner change old new heap = .error (.dangling child) heap)) ∨
      (∀ child, child ∈ new → ¬ Below heap.links child owner) ∧
        SparesLinks (heap.modifyCell owner change)
          (exchangeChildren owner change old new heap) := by
  have accepted {child : Address} (passed : heap.refuseCycle owner child = .ok ()) :
      Live heap.links child ∧ ¬ Below heap.links child owner := by
    obtain ⟨apart, live⟩ := heap.refuseCycle_ok owner child passed
    exact ⟨live child Relation.ReflTransGen.refl, apart⟩
  rcases exchangeChildren_entry heap owner change old new with
    ⟨held, _, each, same⟩ | ⟨dead, _⟩ |
      ⟨earlier, child, later, fault, split, passed, refused, failed⟩
  · have apart (child : Address) (member : child ∈ new) := (accepted (each child member)).2
    have acyclic := (acyclic_modifyCell_iff founded found children).mpr apart
    rw [same]
    exact Or.inr ⟨apart, sparesLinks_moveReferences _ _ _ _ (founded_of_acyclic _ acyclic)⟩
  · rw [found] at dead
    cases dead
  · refine Or.inl ⟨earlier, child, later, split,
      fun other member => accepted (passed other member), ?_⟩
    rcases heap.refuseCycle_cases closed owner child with
      ⟨below, answer⟩ | ⟨notLive, answer⟩ | ⟨_, _, answer⟩
    · rw [answer] at refused
      cases refused
      exact Or.inl ⟨below, failed⟩
    · rw [answer] at refused
      cases refused
      exact Or.inr ⟨notLive, failed⟩
    · rw [answer] at refused
      cases refused

theorem acyclic_exchangeChildren (acyclic : Acyclic heap.links) :
    Acyclic (stateLeft (exchangeChildren owner change old new heap)).links := by
  rcases exchangeChildren_links closed founded found children with
    ⟨_, _, _, _, _, ⟨_, failed⟩ | ⟨_, failed⟩⟩ | ⟨apart, same, _⟩
  · rw [failed]
    exact acyclic
  · rw [failed]
    exact acyclic
  · rw [same]
    exact (acyclic_modifyCell_iff founded found children).mpr apart

theorem cycle_exchangeChildren_iff (live : ∀ child, child ∈ new → Live heap.links child) :
    FailsWith Fault.ReportsCycle (exchangeChildren owner change old new heap) ↔
      ∃ child, child ∈ new ∧ Below heap.links child owner := by
  rcases exchangeChildren_links closed founded found children with
    ⟨earlier, child, later, split, _, ⟨below, failed⟩ | ⟨notLive, _⟩⟩ | ⟨apart, _, silent⟩
  · have member : child ∈ new := by
      rw [split]
      exact List.mem_append_right earlier (List.mem_cons_self ..)
    rw [failed, failsWith_error_iff]
    exact iff_of_true ⟨owner, child, rfl⟩ ⟨child, member, below⟩
  · have member : child ∈ new := by
      rw [split]
      exact List.mem_append_right earlier (List.mem_cons_self ..)
    exact absurd (live child member) notLive
  · constructor
    · intro reported
      exact absurd reported silent
    · rintro ⟨child, member, below⟩
      exact absurd below (apart child member)

/-- The report names the owner and the first new child that contains it, and nothing has
changed. -/
theorem cycle_exchangeChildren (parent child : Address) (after : Heap)
    (refused : exchangeChildren owner change old new heap = .error (.cycle parent child) after) :
    after = heap ∧ parent = owner ∧ ∃ earlier later, new = earlier ++ child :: later ∧
      Below heap.links child owner ∧
      ∀ other, other ∈ earlier → ¬ Below heap.links other owner := by
  rcases exchangeChildren_links closed founded found children with
    ⟨earlier, first, later, split, passed, ⟨below, failed⟩ | ⟨_, failed⟩⟩ | ⟨_, _, silent⟩
  · rw [failed] at refused
    cases refused
    exact ⟨rfl, rfl, earlier, later, split, below, fun other member => (passed other member).2⟩
  · rw [failed] at refused
    cases refused
  · exact absurd ⟨_, after, refused, _, _, rfl⟩ silent

end Exchange

/-! ### The calls -/

section Calls

variable {heap : Heap} (closed : Closed heap.links) (acyclic : Acyclic heap.links)

include closed acyclic

theorem cycle_replaceValue_iff {owner : Address} {cell : Cell} {value : Value}
    (found : heap.cell? owner = some cell) (names : heap.Names value) :
    FailsWith Fault.ReportsCycle (replaceValue owner value heap) ↔
      ¬ Acyclic (heap.modifyCell owner fun cell => { cell with value }).links := by
  have founded := heap.founded_of_acyclic acyclic
  rw [replaceValue_eq,
    cycle_exchangeChildren_iff closed founded found (children_withValue value) names,
    acyclic_modifyCell_iff founded found (children_withValue value)]
  simp only [not_forall, not_not, exists_prop]

/-- Of a record's fields only the rebound one can contain the record. -/
theorem cycle_bindField_iff {owner : Address} {cell : Cell} {record : Record} {name : String}
    {previous : Address} (target : Address) (found : heap.cell? owner = some cell)
    (holds : cell.value = .record record) (known : record.field? name = some previous) :
    FailsWith Fault.ReportsCycle (bindField owner name target heap) ↔
      Below heap.links target owner := by
  have founded := heap.founded_of_acyclic acyclic
  have ownerLive := (heap.live_links_iff owner).mpr ⟨cell, found⟩
  have kept {child : Address}
      (member : child ∈ (Value.record (record.rebind name target)).children) :
      child = target ∨ Owns heap.links owner child := by
    rcases Record.eq_or_mem_of_mem_rebind target known member with same | named
    · exact Or.inl same
    · right
      rw [Owns, children_eq (heap.links_of_cell? owner cell found), Cell.children, holds]
      exact List.mem_append_right _ named
  rw [bindField_eq found holds target known, replaceValue_eq]
  rcases exchangeChildren_links closed founded found
      (children_withValue (.record (record.rebind name target))) with
    ⟨earlier, child, later, split, _, refused⟩ | ⟨apart, _, silent⟩
  · have member : child ∈ (Value.record (record.rebind name target)).children := by
      rw [split]
      exact List.mem_append_right earlier (List.mem_cons_self ..)
    rcases refused with ⟨below, failed⟩ | ⟨notLive, failed⟩
    · rcases kept member with rfl | owns
      · rw [failed, failsWith_error_iff]
        exact iff_of_true ⟨owner, child, rfl⟩ below
      · exact absurd (StrictlyBelow.of_owns_below owns below) (acyclic owner)
    · rcases kept member with rfl | owns
      · rw [failed, failsWith_error_iff]
        apply iff_of_false
        · rintro ⟨_, _, impossible⟩
          cases impossible
        · intro below
          rw [eq_of_below_of_not_live notLive below] at ownerLive
          exact notLive ownerLive
      · exact absurd (closed owner child owns) notLive
  · constructor
    · intro reported
      exact absurd reported silent
    · intro below
      exact absurd below (apart target (Record.target_mem_rebind target known))

variable (listed : heap.FreeListed) {head : Address} {elements : List Address} {value : Value}
  (answered : heap.elements head = .ok elements) (names : heap.Names value)

include listed answered names

/-- An element is refused when its value contains the cell behind which it would go. -/
theorem cycle_append_iff :
    FailsWith Fault.ReportsCycle (append head value heap) ↔
      ∃ child, child ∈ value.children ∧ Below heap.links child (tail head elements) := by
  obtain ⟨cell, found, _⟩ := cell?_tail answered
  have closed' : Closed (heap.allocate value none).2.links := closed_allocate listed closed names
  have acyclic' : Acyclic (heap.allocate value none).2.links :=
    acyclic_allocate listed closed names acyclic
  have found' := listed.grows_allocate value none _ _ found
  have freshLive (child : Address) (member : child ∈ [(heap.allocate value none).1]) :
      Live (heap.allocate value none).2.links child := by
    rw [List.mem_singleton.mp member]
    exact (live_links_iff _ _).mpr ⟨_, cell?_fresh listed⟩
  rw [failsWith_append_iff value answered, cycle_exchangeChildren_iff closed'
    (founded_of_acyclic _ acyclic') found' (children_withElement elements _) freshLive]
  simp only [List.mem_singleton, exists_eq_left]
  exact below_element_iff closed listed answered names

theorem cycle_append_iff_linked :
    FailsWith Fault.ReportsCycle (append head value heap) ↔
      ¬ Acyclic (heap.linked head elements value).links := by
  obtain ⟨cell, found, _⟩ := cell?_tail answered
  have acyclic' : Acyclic (heap.allocate value none).2.links :=
    acyclic_allocate listed closed names acyclic
  have found' := listed.grows_allocate value none _ _ found
  rw [cycle_append_iff closed acyclic listed answered names, linked,
    acyclic_modifyCell_iff (founded_of_acyclic _ acyclic') found' (children_withElement elements _)]
  simp only [List.mem_singleton, forall_eq, not_not]
  exact (below_element_iff closed listed answered names).symm

theorem acyclic_append : Acyclic (stateLeft (append head value heap)).links := by
  obtain ⟨cell, found, _⟩ := cell?_tail answered
  have closed' : Closed (heap.allocate value none).2.links := closed_allocate listed closed names
  have acyclic' : Acyclic (heap.allocate value none).2.links :=
    acyclic_allocate listed closed names acyclic
  rw [append_eq value answered, stateLeft_bind_pure]
  exact acyclic_exchangeChildren closed' (founded_of_acyclic _ acyclic')
    (listed.grows_allocate value none _ _ found) (children_withElement elements _) acyclic'

end Calls

/-- Whatever the counts are: a value is refused exactly if something would own itself with it
in place; then nothing changes, and the report names the first child that contains the cell. A
field may share a cell exactly if that cell does not contain the record. An element is refused
exactly if linking it would close a cycle, as the elements of the collection itself would.
However a call ends, nothing owns itself. -/
theorem cycles_refused_exactly (heap : Heap) (listed : heap.FreeListed)
    (closed : Closed heap.links) (acyclic : Acyclic heap.links) (owner : Address) (cell : Cell)
    (found : heap.cell? owner = some cell) :
    (∀ value, heap.Names value →
        (FailsWith Fault.ReportsCycle (replaceValue owner value heap) ↔
          ¬ Acyclic (heap.modifyCell owner fun cell => { cell with value }).links) ∧
        (∀ parent child after,
          replaceValue owner value heap = .error (.cycle parent child) after →
            after = heap ∧ parent = owner ∧
              ∃ earlier later, value.children = earlier ++ child :: later ∧
                Below heap.links child owner ∧
                ∀ other, other ∈ earlier → ¬ Below heap.links other owner) ∧
        Acyclic (stateLeft (replaceValue owner value heap)).links) ∧
      (∀ record name previous target, cell.value = .record record →
        record.field? name = some previous →
          (FailsWith Fault.ReportsCycle (bindField owner name target heap) ↔
            Below heap.links target owner) ∧
          Acyclic (stateLeft (bindField owner name target heap)).links) ∧
      ∀ first value, cell.value = .collection first → heap.Names value →
        ∃ elements, heap.elements owner = .ok elements ∧
          (FailsWith Fault.ReportsCycle (append owner value heap) ↔
            ¬ Acyclic (heap.linked owner elements value).links) ∧
          (elements ≠ [] ∧ value = cell.value ∨ owner ∈ value.children →
            FailsWith Fault.ReportsCycle (append owner value heap)) ∧
          Acyclic (stateLeft (append owner value heap)).links := by
  have founded := heap.founded_of_acyclic acyclic
  refine ⟨?_, ?_, ?_⟩
  · intro value names
    refine ⟨cycle_replaceValue_iff closed acyclic found names, ?_, ?_⟩
    · rw [replaceValue_eq]
      exact cycle_exchangeChildren closed founded found (children_withValue value)
    · rw [replaceValue_eq]
      exact acyclic_exchangeChildren closed founded found (children_withValue value) acyclic
  · intro record name previous target holds known
    refine ⟨cycle_bindField_iff closed acyclic target found holds known, ?_⟩
    rw [bindField_eq found holds target known, replaceValue_eq]
    exact acyclic_exchangeChildren closed founded found (children_withValue _) acyclic
  · intro first value holds names
    obtain ⟨elements, answered, _⟩ := exists_elements closed acyclic found holds
    refine ⟨elements, answered, cycle_append_iff_linked closed acyclic listed answered names, ?_,
      acyclic_append closed acyclic listed answered names⟩
    rw [cycle_append_iff closed acyclic listed answered names]
    rintro (⟨nonempty, rfl⟩ | named)
    · exact exists_child_below_tail found answered nonempty
    · exact ⟨owner, named, below_tail answered⟩

/-- A text of one character is refused as an element of itself. -/
theorem cycles_refused_exactly_text :
    let heap := ((Heap.empty {}).newText ['a']).2
    let itself := Value.collection (some ⟨0⟩)
    heap.FreeListed ∧ Closed heap.links ∧ Acyclic heap.links ∧
      heap.cell? ⟨1⟩ = some ⟨itself, none, 0⟩ ∧
      FailsWith Fault.ReportsCycle (append ⟨1⟩ itself heap) ∧
      ¬ Acyclic (heap.linked ⟨1⟩ [⟨0⟩] itself).links := by
  intro heap itself
  have balanced := ((balanced_empty {}).newText ['a']).balanced
  have acyclic := acyclic_of_founded balanced.founded
  have found : heap.cell? ⟨1⟩ = some ⟨itself, none, 0⟩ := rfl
  have names : heap.Names itself := names_collection ⟨_, rfl⟩
  have known : heap.elements ⟨1⟩ = .ok [⟨0⟩] := rfl
  obtain ⟨_, _, appending⟩ :=
    cycles_refused_exactly heap balanced.listed balanced.closed acyclic ⟨1⟩ _ found
  obtain ⟨elements, answered, refused, own, _⟩ := appending (some ⟨0⟩) itself rfl names
  rw [known] at answered
  cases answered
  have reported := own (Or.inl ⟨List.cons_ne_nil _ _, rfl⟩)
  exact ⟨balanced.listed, balanced.closed, acyclic, found, reported, refused.mp reported⟩

end ScriptCore.Heap
