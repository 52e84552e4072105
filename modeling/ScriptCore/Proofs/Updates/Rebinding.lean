import ScriptCore.Proofs.Updates.InPlace

set_option autoImplicit false

/-! A field that refers to another cell. All fields of the record are let go and held again, and
they may share cells with each other and with the new one; what is left of that is one link of the
record that leads elsewhere. -/

namespace ScriptCore.Heap

open Links HeapM

/-- By how much the exact count of a cell changes when a link of an owner that is held so often
leads to another cell. -/
noncomputable def rerouted (heap : Heap) (held : UInt32) (previous target address : Address) :
    Int :=
  held.toNat * ((paths heap.links target address : Int) - paths heap.links previous address)

section Rebind

variable {heap : Heap} {owner : Address} {cell : Cell} {record : Record} {name : String}
  {previous : Address} (holds : cell.value = .record record)
  (known : record.field? name = some previous) (target : Address)

include holds known

/-- The fields that stay are let go as often as they are held again. -/
theorem exchanged_rebind :
    heap.exchanged cell.references cell.value.children
        (Value.record (record.rebind name target)).children =
      heap.rerouted cell.references previous target := by
  -- both lists of children are the cells of the earlier fields, one cell, and those of the later
  obtain ⟨earlier, field, later, split, _, rfl, _, rebound⟩ := record.rebind_eq target known
  funext address
  rw [exchanged, rerouted, holds, rebound, Value.children, Value.children, split, List.map_append,
    List.map_append, List.map_cons, List.map_cons, pathsFrom_append, pathsFrom_append,
    pathsFrom_cons, pathsFrom_cons]
  congr 1
  dsimp only
  omega

variable {roots : List Address} (accounted : Accounted heap roots)
  (found : heap.cell? owner = some cell) (live : Live heap.links target)

include accounted found live

theorem names_rebind : heap.Names (.record (record.rebind name target)) := by
  intro child named
  rcases Record.eq_or_mem_of_mem_rebind target known named with same | kept
  · rw [same]
    exact live
  · apply accounted.closed owner
    rw [Owns, children_eq (heap.links_of_cell? owner cell found), Cell.children, holds]
    exact List.mem_append_right _ kept

theorem decided_bindField :
    Decided (Below heap.links target owner)
      (heap.Exceeds (heap.rerouted cell.references previous target))
      (fun _ => Moved (heap.rerouted cell.references previous target)
        (heap.withValue owner (.record (record.rebind name target))))
      (bindField owner name target heap) := by
  have decided := decided_replaceValue accounted found
    (names_rebind holds known target accounted found live)
  have closes := cycle_bindField_iff accounted.closed (acyclic_of_founded accounted.founded) target
    found holds known
  rw [exchanged_rebind holds known target] at decided
  rw [bindField_eq found holds target known] at closes ⊢
  rw [← propext (decided.cycle.symm.trans closes)]
  exact decided

end Rebind

/-- Only a field that the record has can be rebound. -/
theorem exists_field_of_bindField {heap after : Heap} {owner target : Address} {cell : Cell}
    {record : Record} {name : String} (found : heap.cell? owner = some cell)
    (holds : cell.value = .record record)
    (done : bindField owner name target heap = .ok () after) :
    ∃ previous, record.field? name = some previous := by
  unfold bindField at done
  rw [bind_of_ok (ask_of_ok (record_eq found holds))] at done
  obtain ⟨previous, answered⟩ := exists_of_ask_bind_ok done
  exact ⟨previous, field?_of_field_eq_ok found holds answered⟩

/-- A field leads to its new cell in every heap in which the record has not changed since, so
to set the field and to replace the value of that cell are the same. -/
theorem setField_of_record_eq_rebind {heap : Heap} {owner target previous : Address}
    {record : Record} {name : String} (known : record.field? name = some previous)
    (still : heap.record owner = .ok (record.rebind name target)) (value : Value) :
    setField owner name value heap = replaceValue target value heap := by
  apply setField_eq
  simp only [field, still, bind, Except.bind, Record.field?_rebind target known]

/-- Where nothing dead is owned, nothing owns itself and the counts are path counts: the first
field of the name refers to the new cell. All other fields, their order and the type of the
record stay, and so does all else but counts, which have moved as if the one link alone had been
exchanged. From then on the field and its cell are set alike. The call succeeds exactly if the
new cell does not contain the record and all exact counts can be held. -/
theorem field_rebound_exactly (heap : Heap) (roots : List Address) (closed : Closed heap.links)
    (acyclic : Acyclic heap.links)
    (counted : ∀ address cell, heap.cell? address = some cell →
      cell.references.toNat = pathsFrom heap.links roots address)
    (owner : Address) (cell : Cell) (found : heap.cell? owner = some cell) (record : Record)
    (holds : cell.value = .record record) (name : String) (target : Address)
    (live : Live heap.links target) :
    (∀ after, bindField owner name target heap = .ok () after →
        ∃ earlier field later, record.fields = earlier ++ field :: later ∧ field.name = name ∧
          (∀ other, other ∈ earlier → other.name ≠ name) ∧
          Replaced heap after owner cell
            (.record { record with
              fields := earlier ++ { field with address := target } :: later })
            (heap.rerouted cell.references field.address target) ∧
          ∀ onwards value, Heap.record onwards owner = after.record owner →
            setField owner name value onwards = replaceValue target value onwards) ∧
      ∀ previous, record.field? name = some previous →
        ((∃ after, bindField owner name target heap = .ok () after) ↔
          ¬ Below heap.links target owner ∧
            ¬ heap.Exceeds (heap.rerouted cell.references previous target)) := by
  have accounted : Accounted heap roots := ⟨closed, heap.founded_of_acyclic acyclic, counted⟩
  constructor
  · intro after done
    obtain ⟨previous, known⟩ := exists_field_of_bindField found holds done
    rw [bindField_eq found holds target known] at done
    obtain ⟨_, found', replaced⟩ := exists_replaced_of_replaceValue accounted done
    rw [found] at found'
    cases found'
    have reads : after.record owner = .ok (record.rebind name target) :=
      record_eq replaced.placed rfl
    rw [exchanged_rebind holds known target] at replaced
    obtain ⟨earlier, field, later, split, named, held, others, rebound⟩ :=
      record.rebind_eq target known
    rw [rebound, ← held] at replaced
    refine ⟨earlier, field, later, split, named, others, replaced, ?_⟩
    intro onwards value still
    exact setField_of_record_eq_rebind known (still.trans reads) value
  · intro previous known
    have decided := decided_bindField holds known target accounted found live
    rw [← decided.success]
    constructor
    · rintro ⟨after, done⟩
      exact ⟨(), after, done⟩
    · rintro ⟨_, after, done⟩
      exact ⟨after, done⟩

/-- A record that is held has two fields of one name, and its first and its third field share a
cell. With the first one rebound to the cell of the second, the shared cell is held once less
and the other one twice. -/
theorem field_rebound_exactly_repeated :
    let record : Record := ⟨"Triple", [⟨"x", ⟨0⟩⟩, ⟨"x", ⟨1⟩⟩, ⟨"y", ⟨0⟩⟩]⟩
    let rebound : Record := ⟨"Triple", [⟨"x", ⟨1⟩⟩, ⟨"x", ⟨1⟩⟩, ⟨"y", ⟨0⟩⟩]⟩
    let unheld : Heap := ⟨#[some ⟨.null, none, 0⟩, some ⟨.null, none, 0⟩,
      some ⟨.record record, none, 0⟩], [], {}, 3, ⟨3, 0, 0⟩⟩
    ∃ heap after, unheld.addReference ⟨2⟩ = .ok heap ∧ Accounted heap [⟨2⟩] ∧
      (∃ held, heap.cell? ⟨2⟩ = some ⟨.record record, none, held⟩) ∧ Live heap.links ⟨1⟩ ∧
      bindField ⟨2⟩ "x" ⟨1⟩ heap = .ok () after ∧ after.record ⟨2⟩ = .ok rebound ∧
      (after.cell? ⟨0⟩).map Cell.references = some 1 ∧
      (after.cell? ⟨1⟩).map Cell.references = some 2 := by
  intro record rebound unheld
  have built : unheld.Balanced [] :=
    (((balanced_empty {}).newCell .null fun _ named => absurd named List.not_mem_nil).newCell
      .null fun _ named => absurd named List.not_mem_nil).newCell (.record record)
        (names_record (by
          intro field member
          simp only [List.mem_cons, List.not_mem_nil, or_false] at member
          rcases member with rfl | rfl | rfl
          all_goals exact ⟨_, rfl⟩))
  obtain ⟨heap, added⟩ : ∃ heap, unheld.addReference ⟨2⟩ = .ok heap :=
    exists_of_isOk (by decide +kernel)
  obtain ⟨moved, accounted⟩ := built.toAccounted.addReference added
  obtain ⟨held, found, _⟩ := moved.live ⟨2⟩ ⟨.record record, none, 0⟩ rfl
  have live : Live heap.links ⟨1⟩ := by
    rw [moved.links_eq]
    exact ⟨_, rfl⟩
  have leaf (index : Nat) (none : children unheld.links ⟨index⟩ = []) (target : Address) :
      paths heap.links ⟨index⟩ target = if ⟨index⟩ = target then 1 else 0 := by
    rw [← moved.links_eq] at none
    exact paths_leaf (accounted.founded ⟨index⟩) none target
  have counts (address : Address) (cell : Cell) (there : heap.cell? address = some cell) :
      cell.references.toNat = (if ⟨2⟩ = address then 1 else 0) +
        ((if ⟨0⟩ = address then 1 else 0) + ((if ⟨1⟩ = address then 1 else 0) +
          (if ⟨0⟩ = address then 1 else 0))) := by
    rw [accounted.counted address cell there, pathsFrom_cons, pathsFrom_nil, Nat.add_zero,
      paths_eq (accounted.founded ⟨2⟩), children_eq (heap.links_of_cell? _ _ found)]
    change _ + pathsFrom heap.links [⟨0⟩, ⟨1⟩, ⟨0⟩] address = _
    rw [pathsFrom_cons, pathsFrom_cons, pathsFrom_cons, pathsFrom_nil, Nat.add_zero,
      leaf 0 rfl, leaf 1 rfl]
  have once : held.toNat = 1 := counts ⟨2⟩ _ found
  have change (address : Address) : heap.rerouted held ⟨0⟩ ⟨1⟩ address =
      (if ⟨1⟩ = address then 1 else 0) - (if ⟨0⟩ = address then 1 else 0) := by
    rw [rerouted, once, leaf 0 rfl, leaf 1 rfl]
    split <;> split <;> rfl
  obtain ⟨rebinding, succeeds⟩ := field_rebound_exactly heap [⟨2⟩] accounted.closed
    (acyclic_of_founded accounted.founded) accounted.counted ⟨2⟩ _ found record rfl "x" ⟨1⟩ live
  obtain ⟨after, done⟩ := (succeeds ⟨0⟩ rfl).mpr (by
    constructor
    · intro below
      rw [← paths_pos_iff (accounted.founded ⟨1⟩), leaf 1 rfl] at below
      exact absurd below (by decide)
    · rintro ⟨address, cell, there, large⟩
      rw [change, counts address cell there] at large
      change (4294967296 : Int) ≤ _ at large
      split_ifs at large
      all_goals omega)
  obtain ⟨earlier, field, later, split, named, others, replaced, _⟩ := rebinding after done
  -- the first field has the name, so none stands before the one that is rebound
  have first : earlier = [] := by
    cases earlier with
    | nil => rfl
    | cons other rest =>
        have head : (⟨"x", ⟨0⟩⟩ : Field) = other := (List.cons.inj split).1
        exact absurd (head ▸ rfl) (others other (List.mem_cons_self ..))
  subst first
  cases split
  have count (address : Address) (wanted : UInt32) (isLive : Live unheld.links address)
      (amounts : ∀ cell, heap.cell? address = some cell →
        (cell.references.toNat : Int) + heap.rerouted held ⟨0⟩ ⟨1⟩ address = wanted.toNat) :
      (after.cell? address).map Cell.references = some wanted := by
    rw [← moved.links_eq] at isLive
    obtain ⟨cell, there⟩ := (heap.live_links_iff address).mp isLive
    exact replaced.references_eq there (amounts cell there)
  refine ⟨heap, after, added, accounted, ⟨held, found⟩, live, done,
    record_eq replaced.placed rfl, count ⟨0⟩ 1 ⟨_, rfl⟩ ?_, count ⟨1⟩ 2 ⟨_, rfl⟩ ?_⟩
  · intro cell there
    rw [change, counts _ cell there]
    rfl
  · intro cell there
    rw [change, counts _ cell there]
    rfl

end ScriptCore.Heap
