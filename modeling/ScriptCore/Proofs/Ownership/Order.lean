import ScriptCore.Proofs.Ownership.Paths

set_option autoImplicit false

/-! The order of ownership lists a cell and all below it, each before those that it owns,
and meets a dead address exactly when there is one below. -/

namespace ScriptCore.Links

variable {links : Links}

/-- Distinct live addresses, each before those that it owns. -/
inductive Ordered (links : Links) : List Address → Prop where
  | nil : Ordered links []
  | cons (address : Address) (owned order : List Address)
      (found : links address = some owned) (later : ∀ child, child ∈ owned → child ∈ order)
      (fresh : address ∉ order) (rest : Ordered links order) : Ordered links (address :: order)

theorem Ordered.nodup {order : List Address} (ordered : Ordered links order) : order.Nodup := by
  induction ordered with
  | nil => exact List.nodup_nil
  | cons address owned order _ _ fresh _ ih => exact List.nodup_cons.mpr ⟨fresh, ih⟩

theorem Ordered.live {order : List Address} (ordered : Ordered links order) (address : Address)
    (member : address ∈ order) : Live links address := by
  induction ordered with
  | nil => exact absurd member List.not_mem_nil
  | cons first owned order found _ _ _ ih =>
      rcases List.mem_cons.mp member with rfl | later
      · exact ⟨owned, found⟩
      · exact ih later

theorem Ordered.mem_of_owns {order : List Address} (ordered : Ordered links order)
    {parent child : Address} (member : parent ∈ order) (owns : Owns links parent child) :
    child ∈ order := by
  induction ordered with
  | nil => exact absurd member List.not_mem_nil
  | cons first owned order found later _ _ ih =>
      rcases List.mem_cons.mp member with rfl | below
      · rw [Owns, children_eq found] at owns
        exact List.mem_cons_of_mem _ (later child owns)
      · exact List.mem_cons_of_mem _ (ih below)

theorem Ordered.mem_of_below {order : List Address} (ordered : Ordered links order)
    {root address : Address} (member : root ∈ order) (below : Below links root address) :
    address ∈ order := by
  induction below with
  | refl => exact member
  | tail _ owns ih => exact ordered.mem_of_owns ih owns

theorem Ordered.founded {order : List Address} (ordered : Ordered links order)
    (address : Address) (member : address ∈ order) : Founded links address := by
  induction ordered generalizing address with
  | nil => exact absurd member List.not_mem_nil
  | cons first owned order found later _ _ ih =>
      rcases List.mem_cons.mp member with rfl | below
      · apply Acc.intro address
        intro child owns
        rw [Owns, children_eq found] at owns
        exact ih child (later child owns)
      · exact ih address below

/-! ### The walk -/

/-- An order that was extended by some roots and cells below them. -/
structure Extends (links : Links) (roots before after : List Address) : Prop where
  ordered : Ordered links after
  kept : ∀ address, address ∈ before → address ∈ after
  roots_mem : ∀ root, root ∈ roots → root ∈ after
  added : ∀ address, address ∈ after →
    address ∈ before ∨ ∃ root, root ∈ roots ∧ Below links root address

/-- How a walk below some roots ends: the order is extended, or there is a dead address
below a root. -/
def WalkEnds (links : Links) (roots before : List Address) :
    Except Fault (List Address) → Prop
  | .ok after => Extends links roots before after
  | .error fault =>
      ∃ root dead, root ∈ roots ∧ Below links root dead ∧ links dead = none ∧
        fault = .dangling dead

theorem Extends.trans {root : Address} {roots before middle after : List Address}
    (first : Extends links [root] before middle) (second : Extends links roots middle after) :
    Extends links (root :: roots) before after where
  ordered := second.ordered
  kept := fun address member => second.kept address (first.kept address member)
  roots_mem := by
    intro address member
    rcases List.mem_cons.mp member with rfl | later
    · exact second.kept address (first.roots_mem address (List.mem_singleton.mpr rfl))
    · exact second.roots_mem address later
  added := by
    intro address member
    rcases second.added address member with early | ⟨source, inRoots, below⟩
    · rcases first.added address early with old | ⟨source, inRoot, below⟩
      · exact Or.inl old
      · rw [List.mem_singleton.mp inRoot] at below
        exact Or.inr ⟨root, List.mem_cons_self .., below⟩
    · exact Or.inr ⟨source, List.mem_cons_of_mem root inRoots, below⟩

private theorem walkEnds_foldlM (walk : List Address → Address → Except Fault (List Address))
    (roots before : List Address) (ordered : Ordered links before)
    (each : ∀ root, root ∈ roots → ∀ order, Ordered links order →
      WalkEnds links [root] order (walk order root)) :
    WalkEnds links roots before (roots.foldlM walk before) := by
  induction roots generalizing before with
  | nil =>
      exact ⟨ordered, fun _ member => member, fun _ member => absurd member List.not_mem_nil,
        fun _ member => Or.inl member⟩
  | cons root roots ih =>
      have first := each root (List.mem_cons_self ..) before ordered
      rw [List.foldlM_cons]
      cases ended : walk before root with
      | error fault =>
          rw [ended] at first
          obtain ⟨source, dead, inRoot, below, none, sameFault⟩ := first
          rw [List.mem_singleton.mp inRoot] at below
          exact ⟨root, dead, List.mem_cons_self .., below, none, sameFault⟩
      | ok middle =>
          rw [ended] at first
          have later := ih middle first.ordered fun source member =>
            each source (List.mem_cons_of_mem root member)
          change WalkEnds links (root :: roots) before (roots.foldlM walk middle)
          cases endedLater : roots.foldlM walk middle with
          | ok after =>
              rw [endedLater] at later
              exact first.trans later
          | error fault =>
              rw [endedLater] at later
              obtain ⟨source, dead, inRoots, below, none, sameFault⟩ := later
              exact ⟨source, dead, List.mem_cons_of_mem root inRoots, below, none, sameFault⟩

/-- A cell goes in front of all that lies below its children. -/
private theorem Extends.cons {address : Address} {owned order after : List Address}
    (below : Extends links owned.reverse order after) (found : links address = some owned)
    (founded : Founded links address) (old : address ∉ order) :
    Extends links [address] order (address :: after) := by
  have owns (child : Address) (member : child ∈ owned.reverse) : Owns links address child := by
    rw [Owns, children_eq found]
    exact List.mem_reverse.mp member
  have fresh : address ∉ after := by
    intro member
    rcases below.added address member with early | ⟨child, inOwned, back⟩
    · exact old early
    · exact founded.not_strictlyBelow (StrictlyBelow.of_owns_below (owns child inOwned) back)
  refine ⟨.cons address owned after found ?_ fresh below.ordered, ?_, ?_, ?_⟩
  · intro child member
    exact below.roots_mem child (List.mem_reverse.mpr member)
  · intro other member
    exact List.mem_cons_of_mem address (below.kept other member)
  · intro root member
    rw [List.mem_singleton.mp member]
    exact List.mem_cons_self ..
  · intro other member
    rcases List.mem_cons.mp member with rfl | later
    · exact Or.inr ⟨other, List.mem_singleton.mpr rfl, Relation.ReflTransGen.refl⟩
    · rcases below.added other later with early | ⟨child, inOwned, lower⟩
      · exact Or.inl early
      · exact Or.inr ⟨address, List.mem_singleton.mpr rfl,
          (Below.of_owns (owns child inOwned)).trans lower⟩

theorem walkEnds_visit (depth : Nat) (address : Address) (order : List Address)
    (shallow : Shallow links depth address) (ordered : Ordered links order) :
    WalkEnds links [address] order (Heap.visit links depth order address) := by
  induction depth generalizing address order with
  | zero => exact shallow.elim
  | succ depth ih =>
      unfold Heap.visit
      by_cases old : address ∈ order
      · rw [if_pos old]
        refine ⟨ordered, fun _ member => member, ?_, fun _ member => Or.inl member⟩
        intro root member
        rw [List.mem_singleton.mp member]
        exact old
      · rw [if_neg old]
        cases found : links address with
        | none =>
            exact ⟨address, address, List.mem_singleton.mpr rfl, Relation.ReflTransGen.refl,
              found, rfl⟩
        | some owned =>
            have owns (child : Address) (member : child ∈ owned.reverse) :
                Owns links address child := by
              rw [Owns, children_eq found]
              exact List.mem_reverse.mp member
            have below := walkEnds_foldlM (Heap.visit links depth) owned.reverse order ordered
              fun child member before orderedBefore =>
                ih child before (shallow child (owns child member)) orderedBefore
            dsimp only
            cases ended : owned.reverse.foldlM (Heap.visit links depth) order with
            | error fault =>
                rw [ended] at below
                obtain ⟨child, dead, member, lower, none, sameFault⟩ := below
                exact ⟨address, dead, List.mem_singleton.mpr rfl,
                  (Below.of_owns (owns child member)).trans lower, none, sameFault⟩
            | ok after =>
                rw [ended] at below
                exact below.cons found shallow.founded old

end ScriptCore.Links

namespace ScriptCore.Heap

open Links

/-- Without a cycle below the root, the order lists the root and all below it, unless
one of them is dead. -/
theorem ownershipOrder_cases (heap : Heap) (root : Address)
    (cycleFree : CycleFree heap.links root) :
    (∃ order, heap.ownershipOrder root = .ok order ∧ Ordered heap.links order ∧
        ∀ address, address ∈ order ↔ Below heap.links root address) ∨
      ∃ dead, heap.ownershipOrder root = .error (.dangling dead) ∧
        Below heap.links root dead ∧ ¬ Live heap.links dead := by
  have ends := walkEnds_visit (heap.slots.size + 1) root []
    (heap.shallow_of_cycleFree root cycleFree) .nil
  unfold ownershipOrder
  cases ended : visit heap.links (heap.slots.size + 1) [] root with
  | ok order =>
      rw [ended] at ends
      refine Or.inl ⟨order, rfl, ends.ordered, ?_⟩
      intro address
      constructor
      · intro member
        rcases ends.added address member with none | ⟨source, inRoot, below⟩
        · exact absurd none List.not_mem_nil
        · rw [List.mem_singleton.mp inRoot] at below
          exact below
      · exact ends.ordered.mem_of_below (ends.roots_mem root (List.mem_singleton.mpr rfl))
  | error fault =>
      rw [ended] at ends
      obtain ⟨source, dead, inRoot, below, none, rfl⟩ := ends
      rw [List.mem_singleton.mp inRoot] at below
      refine Or.inr ⟨dead, rfl, below, ?_⟩
      rintro ⟨owned, found⟩
      rw [none] at found
      cases found

end ScriptCore.Heap
