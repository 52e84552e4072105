import ScriptCore.Proofs.Accounts.Replacement

set_option autoImplicit false

/-! A value that is replaced by hand, reference by reference. The cycle checks then come later
and in another graph, the old children are let go while they are still owned, and the count of
the owner is read again each time. None of it shows: the owner lies below no child, so neither
its value nor its count plays a part in what happens below the children. -/

namespace ScriptCore.Heap

open Links HeapM

/-- The old children are let go from under the owner, its value is overwritten, and the new
children are put under it. -/
def replaceByHand (owner : Address) (value : Value) : HeapM Unit := do
  let cell ← ask (·.cell owner)
  cell.value.children.forM fun child => change (·.removeReferenceFrom child owner)
  change (·.setValue owner value)
  value.children.forM fun child => change (·.addReferenceFrom child owner)

def withValue (heap : Heap) (owner : Address) (value : Value) : Heap :=
  heap.modifyCell owner fun cell => { cell with value }

variable {heap after : Heap} {owner child : Address} {cell : Cell}

/-! ### Another value of the owner -/

theorem sameFrame_withValue (heap : Heap) (owner : Address) (value : Value) :
    SameFrame heap (heap.withValue owner value) := sameFrame_modifyCell heap owner _

theorem cell?_withValue (found : heap.cell? owner = some cell) (value : Value) :
    (heap.withValue owner value).cell? owner = some { cell with value } := by
  rw [withValue, cell?_modifyCell, if_pos rfl, found, Option.map_some]

theorem cell?_withValue_elsewhere (value : Value) {address : Address} (apart : address ≠ owner) :
    (heap.withValue owner value).cell? address = heap.cell? address := by
  rw [withValue, cell?_modifyCell, if_neg apart]

theorem live_withValue_iff (value : Value) (address : Address) :
    Live (heap.withValue owner value).links address ↔ Live heap.links address :=
  Exchange.live_iff address

theorem children_withValue_elsewhere (value : Value) (address : Address)
    (apart : address ≠ owner) :
    Links.children (heap.withValue owner value).links address =
      Links.children heap.links address :=
  Exchange.children_elsewhere address apart

theorem setValue_eq (found : heap.cell? owner = some cell) (value : Value) :
    heap.setValue owner value = .ok (heap.withValue owner value) := by
  rw [setValue, Heap.cell, found]
  rfl

/-- With its own value back, a heap is as it was. -/
theorem withValue_withValue (found : heap.cell? owner = some cell) (value : Value) :
    (heap.withValue owner value).withValue owner cell.value = heap := by
  apply ((heap.sameFrame_withValue owner value).trans (sameFrame_withValue _ owner _)).heap_eq
  intro address
  by_cases same : address = owner
  · rw [same, cell?_withValue (cell?_withValue found value), found]
  · rw [cell?_withValue_elsewhere _ same, cell?_withValue_elsewhere _ same]

theorem moved_withValue {movement : Address → Int} (moved : Moved movement heap after)
    (found : heap.cell? owner = some cell) (value : Value) :
    Moved movement (heap.withValue owner value) (after.withValue owner value) where
  frame := ((heap.sameFrame_withValue owner value).symm.trans moved.frame).trans
    (after.sameFrame_withValue owner value)
  dead := by
    intro address dead
    by_cases same : address = owner
    · rw [same, cell?_withValue found] at dead
      cases dead
    · rw [cell?_withValue_elsewhere _ same] at dead ⊢
      exact moved.dead address dead
  live := by
    intro address changed there
    by_cases same : address = owner
    · subst same
      rw [cell?_withValue found] at there
      cases there
      obtain ⟨count, foundAfter, counted⟩ := moved.live address cell found
      exact ⟨count, cell?_withValue foundAfter value, counted⟩
    · rw [cell?_withValue_elsewhere _ same] at there ⊢
      exact moved.live address changed there

/-! ### Below a child -/

section Apart

variable (founded : Founded heap.links child) (apart : ¬ Below heap.links child owner)

include apart

theorem children_withValue_below (value : Value) (address : Address)
    (below : Below heap.links child address) :
    Links.children (heap.withValue owner value).links address =
      Links.children heap.links address :=
  children_eq_of_apart (children_withValue_elsewhere value) apart address below

theorem below_withValue_iff (value : Value) (address : Address) :
    Below (heap.withValue owner value).links child address ↔ Below heap.links child address :=
  below_congr_iff (children_withValue_below apart value) address

include founded

theorem founded_withValue (value : Value) :
    Founded (heap.withValue owner value).links child :=
  founded.congr (children_withValue_below apart value)

/-- What lies below the child moves in the same way, whatever the value of the owner. -/
theorem adjust_withValue {adjustment : Adjustment} {amount : UInt32}
    (found : heap.cell? owner = some cell)
    (adjusted : heap.adjust adjustment child amount = .ok after) (value : Value) :
    (heap.withValue owner value).adjust adjustment child amount =
      .ok (after.withValue owner value) := by
  obtain ⟨live, moved⟩ := (adjust_eq_ok_iff founded.cycleFree).mp adjusted
  rw [adjust_eq_ok_iff (founded_withValue founded apart value).cycleFree]
  constructor
  · intro nonzero address below
    rw [live_withValue_iff]
    exact live nonzero address ((below_withValue_iff apart value address).mp below)
  · apply (moved_withValue moved found value).congr
    intro address
    rw [movement, movement, paths_congr founded (children_withValue_below apart value)]

theorem adjust_withValue_eq_ok_iff {adjustment : Adjustment} {amount : UInt32}
    (found : heap.cell? owner = some cell) (value : Value) :
    (heap.withValue owner value).adjust adjustment child amount = .ok after ↔
      ∃ middle, heap.adjust adjustment child amount = .ok middle ∧
        after = middle.withValue owner value := by
  constructor
  · intro adjusted
    have found' := cell?_withValue found value
    have founded' := founded_withValue founded apart value
    have apart' := (below_withValue_iff apart value owner).not.mpr apart
    have back := adjust_withValue founded' apart' found' adjusted cell.value
    rw [withValue_withValue found] at back
    obtain ⟨_, moved⟩ := (adjust_eq_ok_iff founded'.cycleFree).mp adjusted
    obtain ⟨count, foundAfter, _⟩ := moved.live owner _ found'
    exact ⟨_, back, (withValue_withValue foundAfter cell.value).symm⟩
  · rintro ⟨middle, adjusted, rfl⟩
    exact adjust_withValue founded apart found adjusted value

/-- The owner itself does not move. -/
theorem adjust_spares_owner {adjustment : Adjustment} {amount : UInt32}
    (adjusted : heap.adjust adjustment child amount = .ok after) :
    after.links = heap.links ∧ after.cell? owner = heap.cell? owner := by
  obtain ⟨_, moved⟩ := (adjust_eq_ok_iff founded.cycleFree).mp adjusted
  refine ⟨moved.links_eq, ?_⟩
  cases found : heap.cell? owner with
  | none => exact moved.dead owner found
  | some cell =>
      obtain ⟨count, foundAfter, counted⟩ := moved.live owner cell found
      have none : paths heap.links child owner = 0 := paths_eq_zero apart
      rw [movement, none] at counted
      have same : count = cell.references := UInt32.toNat_inj.mp (by simpa using counted)
      rw [foundAfter, same]

end Apart

/-! ### Child by child -/

/-- The links are as in the given graph, and the owner is as given. -/
structure Spared (links : Links) (owner : Address) (cell : Cell) (heap : Heap) : Prop where
  links_eq : heap.links = links
  found : heap.cell? owner = some cell

theorem Spared.adjust {links : Links} {adjustment : Adjustment} {amount : UInt32}
    (spared : Spared links owner cell heap) (founded : Founded links child)
    (apart : ¬ Below links child owner)
    (adjusted : heap.adjust adjustment child amount = .ok after) :
    Spared links owner cell after := by
  rw [← spared.links_eq] at founded apart
  obtain ⟨sameLinks, sameOwner⟩ := adjust_spares_owner founded apart adjusted
  exact ⟨sameLinks.trans spared.links_eq, sameOwner.trans spared.found⟩

theorem removeReferenceFrom_eq (found : heap.cell? owner = some cell) (child : Address) :
    heap.removeReferenceFrom child owner = heap.release child cell.references := by
  rw [removeReferenceFrom, Heap.cell, found]
  rfl

theorem addReferenceFrom_eq_ok_iff (found : heap.cell? owner = some cell) :
    heap.addReferenceFrom child owner = .ok after ↔
      heap.refuseCycle owner child = .ok () ∧ heap.retain child cell.references = .ok after := by
  rw [addReferenceFrom, Heap.cell, found]
  cases answer : heap.refuseCycle owner child with
  | ok accepted =>
      constructor
      · intro retained
        exact ⟨rfl, retained⟩
      · intro both
        exact both.2
  | error fault =>
      constructor
      · intro impossible
        cases impossible
      · rintro ⟨impossible, _⟩
        cases impossible

section Remove

variable (found : heap.cell? owner = some cell) (owned : List Address)
  (founded : ∀ address, Founded heap.links address)
  (apart : ∀ child, child ∈ owned → ¬ Below heap.links child owner)

include founded apart

theorem spared_removeReferenceFrom {middle : Heap} (spared : Spared heap.links owner cell middle)
    (member : child ∈ owned) (removed : middle.removeReferenceFrom child owner = .ok after) :
    Spared heap.links owner cell after := by
  rw [removeReferenceFrom_eq spared.found] at removed
  exact spared.adjust (founded child) (apart child member) removed

include found

theorem spared_removeEach
    (removed : (owned.forM fun child => change (·.removeReferenceFrom child owner)) heap =
      .ok () after) : Spared heap.links owner cell after :=
  forM_change_keeps (motive := Spared heap.links owner cell) owned
    (fun _ member _ _ spared removed =>
      spared_removeReferenceFrom owned founded apart spared member removed)
    ⟨rfl, found⟩ removed

/-- The old children are let go in the same way before and after the value is overwritten. -/
theorem releaseEach_withValue_eq_ok_iff (value : Value) :
    (owned.forM fun child => change (·.release child cell.references))
        (heap.withValue owner value) = .ok () after ↔
      ∃ middle, (owned.forM fun child => change (·.removeReferenceFrom child owner)) heap =
          .ok () middle ∧ after = middle.withValue owner value := by
  apply forM_change_eq_ok_iff (motive := Spared heap.links owner cell)
    (fun heap => heap.withValue owner value) owned
  · intro child member before middle spared removed
    exact spared_removeReferenceFrom owned founded apart spared member removed
  · intro child member before after spared
    have sameLinks := spared.links_eq
    rw [removeReferenceFrom_eq spared.found]
    apply adjust_withValue_eq_ok_iff _ _ spared.found
    · rw [sameLinks]
      exact founded child
    · rw [sameLinks]
      exact apart child member
  · exact ⟨rfl, found⟩

end Remove

theorem accepted_congr (same : after.links = heap.links) :
    after.refuseCycle owner child = .ok () ↔ heap.refuseCycle owner child = .ok () := by
  rw [refuseCycle_eq_ok_iff, refuseCycle_eq_ok_iff, same]

/-- The new children can be checked one by one or all at first. -/
theorem addEach_eq_ok_iff {links : Links} (spared : Spared links owner cell heap)
    (owned : List Address)
    (founded : ∀ child, ¬ Below links child owner → Founded links child) :
    (owned.forM fun child => change (·.addReferenceFrom child owner)) heap = .ok () after ↔
      (∀ child, child ∈ owned → heap.refuseCycle owner child = .ok ()) ∧
        (owned.forM fun child => change (·.retain child cell.references)) heap =
          .ok () after := by
  induction owned generalizing heap with
  | nil =>
      constructor
      · intro done
        exact ⟨fun _ member => absurd member List.not_mem_nil, done⟩
      · intro both
        exact both.2
  | cons child rest ih =>
      -- once the child is accepted, holding it leaves the links for the checks that follow
      have onwards {middle : Heap} (accepted : heap.refuseCycle owner child = .ok ())
          (retained : heap.retain child cell.references = .ok middle) :
          Spared links owner cell middle := by
        have apart := (refuseCycle_eq_ok_iff.mp accepted).1
        rw [spared.links_eq] at apart
        exact spared.adjust (founded child apart) apart retained
      simp only [forM_cons, bind_change_eq_ok_iff, addReferenceFrom_eq_ok_iff spared.found]
      constructor
      · rintro ⟨middle, ⟨accepted, retained⟩, added⟩
        have spared' := onwards accepted retained
        obtain ⟨others, done⟩ := (ih spared').mp added
        refine ⟨?_, middle, retained, done⟩
        intro other member
        rcases List.mem_cons.mp member with rfl | later
        · exact accepted
        · exact (accepted_congr (spared'.links_eq.trans spared.links_eq.symm)).mp
            (others other later)
      · rintro ⟨accepted, middle, retained, done⟩
        have here := accepted child (List.mem_cons_self ..)
        have spared' := onwards here retained
        refine ⟨middle, ⟨here, retained⟩, (ih spared').mpr ⟨?_, done⟩⟩
        intro other member
        exact (accepted_congr (spared'.links_eq.trans spared.links_eq.symm)).mpr
          (accepted other (List.mem_cons_of_mem child member))

/-! ### The whole replacement -/

/-- A child contains the owner or not, whatever the value of the owner. -/
theorem below_owner_withValue_iff (value : Value) :
    Below (heap.withValue owner value).links child owner ↔ Below heap.links child owner := by
  constructor
  · intro below
    exact below_owner_relink (fun address apart =>
      (children_withValue_elsewhere value address apart).symm) below
  · exact below_owner_relink (children_withValue_elsewhere value)

theorem accepted_withValue_iff (value : Value) :
    (heap.withValue owner value).refuseCycle owner child = .ok () ↔
      heap.refuseCycle owner child = .ok () := by
  rw [refuseCycle_eq_ok_iff, refuseCycle_eq_ok_iff, below_owner_withValue_iff]
  apply and_congr_right
  intro apart
  simp only [below_withValue_iff apart, live_withValue_iff]

theorem replaceValue_eq_ok_iff (found : heap.cell? owner = some cell) (value : Value) :
    replaceValue owner value heap = .ok () after ↔
      (∀ child, child ∈ value.children → heap.refuseCycle owner child = .ok ()) ∧
        moveReferences cell.references cell.value.children value.children
          (heap.withValue owner value) = .ok () after := by
  rw [replaceValue_eq]
  rcases exchangeChildren_entry heap owner (fun cell => { cell with value })
      (fun cell => cell.value.children) value.children with
    ⟨cell', found', accepted, same⟩ | ⟨dead, _⟩ |
      ⟨earlier, child, later, fault, split, _, refused, failed⟩
  · rw [found] at found'
    cases found'
    rw [same]
    exact ⟨fun moved => ⟨accepted, moved⟩, And.right⟩
  · rw [found] at dead
    cases dead
  · rw [failed]
    constructor
    · intro impossible
      cases impossible
    · rintro ⟨accepted, _⟩
      rw [accepted child (split ▸ List.mem_append_right earlier (List.mem_cons_self ..))] at refused
      cases refused

theorem replaceByHand_eq_ok_iff (found : heap.cell? owner = some cell) (value : Value) :
    replaceByHand owner value heap = .ok () after ↔
      ∃ middle, (cell.value.children.forM fun child =>
          change (·.removeReferenceFrom child owner)) heap = .ok () middle ∧
        ∃ changed, middle.setValue owner value = .ok changed ∧
          (value.children.forM fun child => change (·.addReferenceFrom child owner)) changed =
            .ok () after := by
  have answered : heap.cell owner = .ok cell := by rw [Heap.cell, found]
  rw [replaceByHand, bind_of_ok (ask_of_ok answered), bind_eq_ok_iff]
  constructor
  · rintro ⟨_, middle, removed, rest⟩
    exact ⟨middle, removed, bind_change_eq_ok_iff.mp rest⟩
  · rintro ⟨middle, removed, rest⟩
    exact ⟨(), middle, removed, bind_change_eq_ok_iff.mpr rest⟩

/-- The new children are accepted after the value is overwritten if they were before. -/
theorem addEach_withValue_eq_ok_iff {middle : Heap}
    (founded : ∀ address, Founded heap.links address)
    (spared : Spared heap.links owner cell middle) (value : Value) (owned : List Address) :
    (owned.forM fun child => change (·.addReferenceFrom child owner))
        (middle.withValue owner value) = .ok () after ↔
      (∀ child, child ∈ owned → heap.refuseCycle owner child = .ok ()) ∧
        (owned.forM fun child => change (·.retain child cell.references))
          (middle.withValue owner value) = .ok () after := by
  have overwritten : Spared (middle.withValue owner value).links owner { cell with value }
      (middle.withValue owner value) := ⟨rfl, cell?_withValue spared.found value⟩
  rw [addEach_eq_ok_iff overwritten owned]
  · simp only [accepted_withValue_iff, accepted_congr spared.links_eq]
  · intro child apart
    rw [below_owner_withValue_iff] at apart
    apply founded_withValue _ apart
    rw [spared.links_eq]
    exact founded child

/-- Replacing a value and moving its references by hand succeed in the same cases, and then
leave the same heap. -/
theorem replaceValue_ok_iff_replaceByHand_ok (heap : Heap) (acyclic : Acyclic heap.links)
    (owner : Address) (value : Value) (after : Heap) :
    replaceValue owner value heap = .ok () after ↔
      replaceByHand owner value heap = .ok () after := by
  have founded := heap.founded_of_acyclic acyclic
  cases found : heap.cell? owner with
  | none =>
      have failed : heap.cell owner = .error (.dangling owner) := by rw [Heap.cell, found]
      rw [replaceValue, replaceByHand, bind_of_error (ask_of_error failed),
        bind_of_error (ask_of_error failed)]
  | some cell =>
      have apart (child : Address) (named : child ∈ cell.value.children) :
          ¬ Below heap.links child owner := by
        intro back
        refine acyclic owner (StrictlyBelow.of_owns_below ?_ back)
        rw [Owns, children_eq (heap.links_of_cell? owner cell found)]
        exact List.mem_append_right _ named
      rw [replaceValue_eq_ok_iff found, replaceByHand_eq_ok_iff found, moveReferences,
        bind_eq_ok_iff]
      constructor
      · rintro ⟨accepted, _, _, released, held⟩
        obtain ⟨middle, removed, rfl⟩ :=
          (releaseEach_withValue_eq_ok_iff found _ founded apart value).mp released
        have spared := spared_removeEach found _ founded apart removed
        exact ⟨middle, removed, _, setValue_eq spared.found value,
          (addEach_withValue_eq_ok_iff founded spared value _).mpr ⟨accepted, held⟩⟩
      · rintro ⟨middle, removed, changed, overwritten, added⟩
        have spared := spared_removeEach found _ founded apart removed
        rw [setValue_eq spared.found] at overwritten
        cases overwritten
        obtain ⟨accepted, held⟩ := (addEach_withValue_eq_ok_iff founded spared value _).mp added
        exact ⟨accepted, (), _,
          (releaseEach_withValue_eq_ok_iff found _ founded apart value).mpr ⟨middle, removed, rfl⟩,
          held⟩

/-- A held record of two fields gives up its second field and names the first one twice. By
hand as well, the first field is then held twice and the second one not at all. -/
theorem replaceValue_ok_iff_replaceByHand_ok_pair :
    let pair := Value.record ⟨"Pair", [⟨"left", ⟨0⟩⟩, ⟨"right", ⟨0⟩⟩]⟩
    let heap : Heap := ⟨#[some ⟨.null, none, 1⟩, some ⟨.null, none, 1⟩,
      some ⟨.record ⟨"Pair", [⟨"left", ⟨0⟩⟩, ⟨"right", ⟨1⟩⟩]⟩, none, 1⟩], [], {}, 3, ⟨3, 0, 0⟩⟩
    ((Heap.empty {}).newRecord "Pair" ["left", "right"]).2.addReference ⟨2⟩ = .ok heap ∧
      Acyclic heap.links ∧ ∃ after, replaceByHand ⟨2⟩ pair heap = .ok () after ∧
        (after.cell? ⟨0⟩).map Cell.references = some 2 ∧
        (after.cell? ⟨1⟩).map Cell.references = some 0 := by
  intro pair heap
  have balanced := ((balanced_empty {}).newRecord "Pair" ["left", "right"]).balanced
  have held : ((Heap.empty {}).newRecord "Pair" ["left", "right"]).2.addReference ⟨2⟩ =
      .ok heap := rfl
  have acyclic : Acyclic heap.links := by
    rcases balanced.addReference_cases ⟨2⟩ with ⟨_, added, balanced'⟩ | ⟨_, failed⟩
    · rw [held] at added
      cases added
      exact acyclic_of_founded balanced'.founded
    · rw [held] at failed
      cases failed
  have leaf (lower : Address) (below : Below heap.links ⟨0⟩ lower) : lower = ⟨0⟩ := by
    rcases Relation.ReflTransGen.cases_head below with same | ⟨_, owns, _⟩
    · exact same.symm
    · exact absurd owns List.not_mem_nil
  have accepted (child : Address) (named : child ∈ pair.children) :
      heap.refuseCycle ⟨2⟩ child = .ok () := by
    have first : child = ⟨0⟩ := by simpa [pair, Value.children] using named
    rw [first, refuseCycle_eq_ok_iff]
    constructor
    · intro back
      cases leaf ⟨2⟩ back
    · intro lower below
      rw [leaf lower below]
      exact ⟨_, rfl⟩
  let moving := moveReferences 1 [⟨0⟩, ⟨1⟩] [⟨0⟩, ⟨0⟩]
  let changed := heap.withValue ⟨2⟩ pair
  have succeeds : EStateM.run' moving changed = some () := by decide +kernel
  have counts : ((stateLeft (moving changed)).cell? ⟨0⟩).map Cell.references = some 2 ∧
      ((stateLeft (moving changed)).cell? ⟨1⟩).map Cell.references = some 0 := by
    decide +kernel
  refine ⟨held, acyclic, stateLeft (moving changed), ?_, counts⟩
  apply (replaceValue_ok_iff_replaceByHand_ok heap acyclic ⟨2⟩ pair _).mp
  rw [replaceValue_eq_ok_iff rfl]
  exact ⟨accepted, eq_ok_of_run' succeeds⟩

end ScriptCore.Heap
