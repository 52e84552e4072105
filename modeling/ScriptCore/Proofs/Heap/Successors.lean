import ScriptCore.Proofs.Heap.Chains

set_option autoImplicit false

/-! Which cell follows which. A walk along successors opens each cell again when it comes
back to it, so it ends exactly because no cell follows itself. -/

namespace ScriptCore.Heap

open Links

/-- The cell that follows a live cell, whatever the values name. -/
def successors (heap : Heap) (address : Address) : Option (List Address) :=
  (heap.cell? address).map fun cell => cell.next.toList

variable {heap : Heap}

theorem children_successors {address : Address} {cell : Cell}
    (found : heap.cell? address = some cell) :
    children heap.successors address = cell.next.toList := by
  rw [children, successors, found, Option.map_some, Option.getD_some]

theorem owns_successors_iff {address next : Address} :
    Owns heap.successors address next ↔
      ∃ cell, heap.cell? address = some cell ∧ cell.next = some next := by
  cases found : heap.cell? address with
  | none =>
      rw [Owns, children, successors, found]
      constructor
      · intro member
        exact absurd member List.not_mem_nil
      · rintro ⟨_, impossible, _⟩
        cases impossible
  | some cell =>
      rw [Owns, children_successors found, Option.mem_toList]
      constructor
      · intro follows
        exact ⟨cell, rfl, follows⟩
      · rintro ⟨_, same, follows⟩
        cases same
        exact follows

theorem owns_of_owns_successors {address next : Address}
    (follows : Owns heap.successors address next) : Owns heap.links address next := by
  obtain ⟨cell, found, follows⟩ := owns_successors_iff.mp follows
  rw [Owns, children_eq (heap.links_of_cell? address cell found)]
  exact List.mem_append_left _ (Option.mem_toList.mpr follows)

theorem acyclic_successors (acyclic : Acyclic heap.links) : Acyclic heap.successors :=
  fun address cycle =>
    acyclic address
      (Relation.TransGen.mono (fun _ _ => owns_of_owns_successors) address address cycle)

theorem index_lt_of_live_successors {address : Address}
    (live : Live heap.successors address) : address.index < heap.slots.size := by
  obtain ⟨_, found⟩ := live
  obtain ⟨cell, found, _⟩ := Option.map_eq_some_iff.mp found
  exact heap.index_lt_size_of_cell? address cell found

theorem live_of_chain {elements : List Address} {next target : Address}
    (chain : Chain heap (some next) elements) (below : Below heap.successors next target) :
    ∃ cell, heap.cell? target = some cell := by
  induction below using Relation.ReflTransGen.head_induction_on generalizing elements with
  | refl => exact chain.cell?_of_mem target (by cases chain; exact List.mem_cons_self ..)
  | head owns _ ih =>
      obtain ⟨cell, found, follows⟩ := owns_successors_iff.mp owns
      cases chain with
      | cons _ cell' elements found' rest =>
          rw [found] at found'
          cases found'
          rw [follows] at rest
          exact ih rest

/-! ### Walks -/

/-- From the first element on, each is followed by the next, and the last one by a dead
address. -/
inductive Breaks (heap : Heap) : Option Address → List Address → Address → Prop where
  | here (dead : Address) (gone : heap.cell? dead = none) : Breaks heap (some dead) [] dead
  | later (address : Address) (cell : Cell) (elements : List Address) (dead : Address)
      (found : heap.cell? address = some cell) (rest : Breaks heap cell.next elements dead) :
      Breaks heap (some address) (address :: elements) dead

/-- A walk ends with all its elements, each once, or at a dead address. -/
inductive Walked (heap : Heap) (first : Option Address) : Except Fault (List Address) → Prop where
  | whole (elements : List Address) (chain : Chain heap first elements)
      (distinct : elements.Nodup) : Walked heap first (.ok elements)
  | broken (elements : List Address) (dead : Address) (breaks : Breaks heap first elements dead) :
      Walked heap first (.error (.dangling dead))

variable {first : Option Address}

private theorem walked_follow (length : Nat)
    (shallow : ∀ address, address ∈ first.toList → Shallow heap.successors length address) :
    Walked heap first (heap.follow length first) := by
  induction length generalizing first with
  | zero =>
      cases first with
      | none => exact .whole [] .nil List.nodup_nil
      | some address => exact (shallow address (List.mem_singleton.mpr rfl)).elim
  | succ length ih =>
      cases first with
      | none => exact .whole [] .nil List.nodup_nil
      | some address =>
          cases found : heap.cell? address with
          | none =>
              simp only [Heap.follow, Heap.cell, found, bind, Except.bind]
              exact .broken [] address (.here address found)
          | some cell =>
              have rest := ih fun next follows =>
                shallow address (List.mem_singleton.mpr rfl) next (by
                  rw [Owns, children_successors found]
                  exact follows)
              simp only [Heap.follow, Heap.cell, found, bind, Except.bind]
              generalize heap.follow length cell.next = followed at rest ⊢
              cases rest with
              | whole elements chain _ =>
                  have longer := Chain.cons address cell elements found chain
                  exact .whole _ longer longer.nodup
              | broken elements dead breaks =>
                  exact .broken _ dead (.later address cell elements dead found breaks)

/-- Where no cell follows itself, the bound on a walk never cuts it off. -/
theorem walked_chain (acyclic : Acyclic heap.successors) (first : Option Address) :
    Walked heap first (heap.chain first) :=
  walked_follow _ fun _ _ =>
    CycleFree.shallow (fun lower _ => acyclic lower) heap.slots.size
      fun _ => index_lt_of_live_successors

theorem Breaks.elim {elements : List Address} {dead : Address}
    (breaks : Breaks heap first elements dead) (closed : Closed heap.links)
    (live : ∀ address, address ∈ first.toList → Live heap.links address) : False := by
  induction breaks with
  | here dead gone =>
      obtain ⟨cell, found⟩ := (heap.live_links_iff dead).mp (live dead (List.mem_singleton.mpr rfl))
      rw [gone] at found
      cases found
  | later address cell _ _ found _ ih =>
      apply ih
      intro next member
      have follows : Owns heap.successors address next :=
        owns_successors_iff.mpr ⟨cell, found, Option.mem_toList.mp member⟩
      exact closed address next (owns_of_owns_successors follows)

/-- Where nothing dead is owned and nothing owns itself, every collection has its elements. -/
theorem exists_elements (closed : Closed heap.links) (acyclic : Acyclic heap.links)
    {head : Address} {cell : Cell} (found : heap.cell? head = some cell)
    (holds : cell.value = .collection first) :
    ∃ elements, heap.elements head = .ok elements ∧ Chain heap first elements := by
  have live (address : Address) (member : address ∈ first.toList) : Live heap.links address := by
    apply closed head address
    rw [Owns, children_eq (heap.links_of_cell? head cell found), Cell.children, holds]
    exact List.mem_append_right _ member
  have walked := walked_chain (acyclic_successors acyclic) first
  rw [elements_eq found holds]
  generalize heap.chain first = answer at walked ⊢
  cases walked with
  | whole elements chain _ => exact ⟨elements, rfl, chain⟩
  | broken _ _ breaks => exact (breaks.elim closed live).elim

end ScriptCore.Heap
