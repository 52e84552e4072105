import ScriptCore.Heap.Primitive
import ScriptCore.Heap.Record
import ScriptCore.Proofs.Accounts.Balanced
import ScriptCore.Proofs.Heap.Work

set_option autoImplicit false

/-! Values that take several cells. Each cell is allocated after those it names, so the
heap is in order after each of them. -/

namespace ScriptCore.Heap

open Links

/-- All that a value names is live. -/
def Names (heap : Heap) (value : Value) : Prop :=
  ∀ child, child ∈ value.children → Live heap.links child

theorem Names.grows {before after : Heap} {value : Value} (names : Names before value)
    (grows : Grows before after) : Names after value := fun child member =>
  grows.live (names child member)

theorem names_collection {heap : Heap} {first : Address} (live : Live heap.links first) :
    heap.Names (.collection (some first)) := by
  intro child named
  rw [List.mem_singleton.mp named]
  exact live

theorem names_record {heap : Heap} {typeName : String} {fields : List Field}
    (live : ∀ field, field ∈ fields → Live heap.links field.address) :
    heap.Names (.record ⟨typeName, fields⟩) := by
  intro child named
  obtain ⟨field, member, rfl⟩ := List.mem_map.mp named
  exact live field member

/-- The heap is in order after some allocations, which changed no cell. -/
structure Built (before after : Heap) (roots : List Address) : Prop where
  grows : Grows before after
  balanced : Balanced after roots

/-- Work adds cells to the heap or, with a fault, does nothing. -/
def OnlyAdds (heap : Heap) (roots : List Address) : EStateM.Result Fault Heap Address → Prop
  | .ok _ after => Built heap after roots
  | .error _ after => after = heap

namespace Balanced

variable {heap : Heap} {roots : List Address} (balanced : Balanced heap roots)

include balanced

theorem built_allocate (value : Value) (next : Option Address) (names : heap.Names value)
    (live : ∀ address, address ∈ next.toList → Live heap.links address) :
    Built heap (heap.allocate value next).2 roots := by
  refine ⟨balanced.listed.grows_allocate value next, balanced.allocate ?_⟩
  intro child member
  rcases List.mem_append.mp member with follows | named
  · exact live child follows
  · exact names child named

theorem newCell (value : Value) (names : heap.Names value) :
    Balanced (heap.allocate value none).2 roots := balanced.allocate names

theorem allocateChain (values : List Value) (names : ∀ value, value ∈ values → heap.Names value) :
    Built heap (heap.allocateChain values).2 roots ∧
      ∀ address, address ∈ (heap.allocateChain values).1.toList →
        Live (heap.allocateChain values).2.links address := by
  induction values with
  | nil => exact ⟨⟨.refl heap, balanced⟩, fun _ member => absurd member List.not_mem_nil⟩
  | cons value rest ih =>
      obtain ⟨built, live⟩ := ih fun other member => names other (List.mem_cons_of_mem value member)
      have here := (names value (List.mem_cons_self ..)).grows built.grows
      have added := built.balanced.built_allocate value _ here live
      refine ⟨⟨built.grows.trans added.grows, added.balanced⟩, ?_⟩
      intro address member
      rw [Option.mem_toList] at member
      cases member
      exact built.balanced.live_fresh

theorem newCollection (values : List Value) (names : ∀ value, value ∈ values → heap.Names value) :
    Built heap (heap.newCollection values).2 roots := by
  obtain ⟨built, live⟩ := balanced.allocateChain values names
  have head := built.balanced.built_allocate (.collection (heap.allocateChain values).1) none live
    fun _ member => absurd member List.not_mem_nil
  exact ⟨built.grows.trans head.grows, head.balanced⟩

theorem newText (chars : List Char) : Built heap (heap.newText chars).2 roots := by
  apply balanced.newCollection (chars.map Value.character)
  intro value member
  obtain ⟨char, _, rfl⟩ := List.mem_map.mp member
  exact fun _ named => absurd named List.not_mem_nil

theorem newLiteral (literal : Literal) : Built heap (heap.newLiteral literal).2 roots := by
  cases literal with
  | text value => exact balanced.newText value.toList
  | null | number value | character value =>
      refine balanced.built_allocate _ none ?_ ?_
      all_goals exact fun _ named => absurd named List.not_mem_nil

theorem allocateFields (names : List String) :
    Built heap (heap.allocateFields names).2 roots ∧
      ∀ field, field ∈ (heap.allocateFields names).1 →
        Live (heap.allocateFields names).2.links field.address := by
  induction names generalizing heap with
  | nil => exact ⟨⟨.refl heap, balanced⟩, fun _ member => absurd member List.not_mem_nil⟩
  | cons name rest ih =>
      have added := balanced.built_allocate .null none
        (fun _ named => absurd named List.not_mem_nil)
        (fun _ member => absurd member List.not_mem_nil)
      obtain ⟨built, live⟩ := ih added.balanced
      refine ⟨⟨added.grows.trans built.grows, built.balanced⟩, ?_⟩
      intro field member
      rcases List.mem_cons.mp member with rfl | later
      · exact built.grows.live balanced.live_fresh
      · exact live field later

theorem newRecord (typeName : String) (names : List String) :
    Built heap (heap.newRecord typeName names).2 roots := by
  obtain ⟨built, live⟩ := balanced.allocateFields names
  have head := built.balanced.built_allocate
    (.record ⟨typeName, (heap.allocateFields names).1⟩) none (names_record live)
    fun _ member => absurd member List.not_mem_nil
  exact ⟨built.grows.trans head.grows, head.balanced⟩

/-! ### Primitives -/

omit balanced in
private theorem onlyAdds_ask_always {Answer : Type} (question : Heap → Except Fault Answer)
    (build : Answer → Heap → Address × Heap)
    (built : ∀ answer, Built heap (build answer heap).2 roots) :
    OnlyAdds heap roots ((HeapM.ask question >>= fun answer => HeapM.always (build answer)) heap) := by
  rcases HeapM.ask_cases question heap with ⟨answer, _, asked⟩ | ⟨fault, _, asked⟩
  · rw [bind_of_ok asked]
    exact built answer
  · rw [bind_of_error asked]
    rfl

omit balanced in
theorem of_lookup_standard (name : String) (primitive : Primitive)
    (found : Catalogue.standard.lookup name = some primitive) :
    primitive = Primitive.kindOf ∨ primitive = Primitive.textOfNumber ∨
      primitive = Primitive.numberOfText := by
  obtain ⟨earlier, later, split, _⟩ := List.lookup_eq_some_iff.mp found
  have member : (name, primitive) ∈ Catalogue.standard := by
    rw [split]
    exact List.mem_append_right earlier (List.mem_cons_self ..)
  simp only [Catalogue.standard, List.mem_cons, Prod.mk.injEq, List.not_mem_nil,
    or_false] at member
  rcases member with ⟨_, same⟩ | ⟨_, same⟩ | ⟨_, same⟩
  · exact Or.inl same
  · exact Or.inr (Or.inl same)
  · exact Or.inr (Or.inr same)

theorem call_standard (name : String) (arguments : List Value) :
    OnlyAdds heap roots (Catalogue.standard.call name arguments heap) := by
  unfold Catalogue.call
  cases found : Catalogue.standard.lookup name with
  | none => rfl
  | some primitive =>
      rcases of_lookup_standard name primitive found with rfl | rfl | rfl
      · refine onlyAdds_ask_always _ _ fun _ => balanced.built_allocate _ none ?_ ?_
        all_goals exact fun _ named => absurd named List.not_mem_nil
      · exact onlyAdds_ask_always _ _ fun _ => balanced.newText _
      · refine onlyAdds_ask_always _ _ fun _ => balanced.built_allocate _ none ?_ ?_
        all_goals exact fun _ named => absurd named List.not_mem_nil

end Balanced
end ScriptCore.Heap
