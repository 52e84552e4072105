import ScriptCore.Proofs.Ownership.Basic

set_option autoImplicit false

/-! The search for a cell below another one gives the right answer on every heap, with or
without cycles: it finds the target when it lies below, says that it does not when all
below is live and none of it is the target, and otherwise names a dead address below. -/

namespace ScriptCore.Links

variable {links : Links}

/-- A live cell that the search has taken out of the fresh ones. -/
def Opened (links : Links) (fresh : AddressSet) (address : Address) : Prop :=
  Live links address ∧ fresh.contains address = false

/-- Opened cells are not the target, and what they own was opened or still waits. -/
def Explored (links : Links) (target : Address) (fresh : AddressSet)
    (pending : List Address) : Prop :=
  ∀ address, Opened links fresh address → address ≠ target ∧
    ∀ child, Owns links address child → Opened links fresh child ∨ child ∈ pending

private theorem Explored.below {target : Address} {fresh : AddressSet}
    (explored : Explored links target fresh []) {address lower : Address}
    (opened : Opened links fresh address) (below : Below links address lower) :
    Opened links fresh lower := by
  induction below with
  | refl => exact opened
  | tail _ owns ih =>
      rcases (explored _ ih).2 _ owns with reached | waiting
      · exact reached
      · exact absurd waiting List.not_mem_nil

private theorem Explored.open_next {target address : Address} {fresh : AddressSet}
    {owned pending : List Address} (explored : Explored links target fresh (address :: pending))
    (apart : address ≠ target) (found : links address = some owned) :
    Opened links (fresh.erase address) address ∧
      (∀ other, Opened links fresh other → Opened links (fresh.erase address) other) ∧
      Explored links target (fresh.erase address) (owned.reverse ++ pending) := by
  have here : Opened links (fresh.erase address) address := by
    refine ⟨⟨owned, found⟩, ?_⟩
    rw [AddressSet.contains_erase]
    simp
  have kept (other : Address) (opened : Opened links fresh other) :
      Opened links (fresh.erase address) other := by
    refine ⟨opened.1, ?_⟩
    rw [AddressSet.contains_erase, opened.2, Bool.false_and]
  refine ⟨here, kept, ?_⟩
  intro other opened
  by_cases same : other = address
  · subst same
    refine ⟨apart, ?_⟩
    intro child owns
    rw [Owns, children_eq found] at owns
    exact Or.inr (List.mem_append.mpr (Or.inl (List.mem_reverse.mpr owns)))
  · have before : Opened links fresh other := by
      refine ⟨opened.1, ?_⟩
      have erased := opened.2
      rw [AddressSet.contains_erase, decide_eq_true same, Bool.and_true] at erased
      exact erased
    refine ⟨(explored other before).1, ?_⟩
    intro child owns
    rcases (explored other before).2 child owns with reached | waiting
    · exact Or.inl (kept child reached)
    · rcases List.mem_cons.mp waiting with rfl | later
      · exact Or.inl here
      · exact Or.inr (List.mem_append.mpr (Or.inr later))

private theorem Explored.skip {target address : Address} {fresh : AddressSet}
    {pending : List Address} (explored : Explored links target fresh (address :: pending))
    (opened : Opened links fresh address) : Explored links target fresh pending := by
  intro other openedOther
  refine ⟨(explored other openedOther).1, ?_⟩
  intro child owns
  rcases (explored other openedOther).2 child owns with reached | waiting
  · exact Or.inl reached
  · rcases List.mem_cons.mp waiting with rfl | later
    · exact Or.inl opened
    · exact Or.inr later

theorem search_false (target : Address) (fresh : AddressSet) (pending : List Address)
    (explored : Explored links target fresh pending)
    (answer : Heap.search links target fresh pending = .ok false) (address lower : Address)
    (start : Opened links fresh address ∨ address ∈ pending)
    (below : Below links address lower) : Live links lower ∧ lower ≠ target := by
  induction fresh, pending using Heap.search.induct links target with
  | case1 fresh =>
      have opened := explored.below (start.resolve_right List.not_mem_nil) below
      exact ⟨opened.1, (explored lower opened).1⟩
  | case2 fresh pending =>
      rw [Heap.search, if_pos rfl] at answer
      cases answer
  | case3 fresh first pending apart found =>
      rw [Heap.search, if_neg apart, found] at answer
      cases answer
  | case4 fresh first pending apart owned found isFresh ih =>
      rw [Heap.search, if_neg apart, found] at answer
      simp only [isFresh, if_true] at answer
      obtain ⟨here, kept, explored'⟩ := explored.open_next apart found
      apply ih explored' answer
      rcases start with opened | waiting
      · exact Or.inl (kept address opened)
      · rcases List.mem_cons.mp waiting with rfl | later
        · exact Or.inl here
        · exact Or.inr (List.mem_append.mpr (Or.inr later))
  | case5 fresh first pending apart owned found notFresh ih =>
      rw [Heap.search, if_neg apart, found] at answer
      simp only [notFresh] at answer
      have opened : Opened links fresh first :=
        ⟨⟨owned, found⟩, Bool.eq_false_iff.mpr notFresh⟩
      apply ih (explored.skip opened) answer
      rcases start with openedAddress | waiting
      · exact Or.inl openedAddress
      · rcases List.mem_cons.mp waiting with rfl | later
        · exact Or.inl opened
        · exact Or.inr later

private theorem pending_of_children {address lower : Address} {owned pending : List Address}
    (found : links address = some owned)
    (start : ∃ source, source ∈ owned.reverse ++ pending ∧ Below links source lower) :
    ∃ source, source ∈ address :: pending ∧ Below links source lower := by
  obtain ⟨source, member, below⟩ := start
  rcases List.mem_append.mp member with child | later
  · refine ⟨address, List.mem_cons_self .., Below.trans (Below.of_owns ?_) below⟩
    rw [Owns, children_eq found]
    exact List.mem_reverse.mp child
  · exact ⟨source, List.mem_cons_of_mem address later, below⟩

theorem search_true (target : Address) (fresh : AddressSet) (pending : List Address)
    (answer : Heap.search links target fresh pending = .ok true) :
    ∃ source, source ∈ pending ∧ Below links source target := by
  induction fresh, pending using Heap.search.induct links target with
  | case1 fresh =>
      rw [Heap.search] at answer
      cases answer
  | case2 fresh pending =>
      exact ⟨target, List.mem_cons_self .., Relation.ReflTransGen.refl⟩
  | case3 fresh first pending apart found =>
      rw [Heap.search, if_neg apart, found] at answer
      cases answer
  | case4 fresh first pending apart owned found isFresh ih =>
      rw [Heap.search, if_neg apart, found] at answer
      simp only [isFresh, if_true] at answer
      exact pending_of_children found (ih answer)
  | case5 fresh first pending apart owned found notFresh ih =>
      rw [Heap.search, if_neg apart, found] at answer
      simp only [notFresh] at answer
      obtain ⟨source, member, below⟩ := ih answer
      exact ⟨source, List.mem_cons_of_mem first member, below⟩

theorem search_error (target : Address) (fresh : AddressSet) (pending : List Address)
    (fault : Fault) (answer : Heap.search links target fresh pending = .error fault) :
    ∃ dead, fault = .dangling dead ∧ ¬ Live links dead ∧ dead ≠ target ∧
      ∃ source, source ∈ pending ∧ Below links source dead := by
  induction fresh, pending using Heap.search.induct links target with
  | case1 fresh =>
      rw [Heap.search] at answer
      cases answer
  | case2 fresh pending =>
      rw [Heap.search, if_pos rfl] at answer
      cases answer
  | case3 fresh first pending apart found =>
      rw [Heap.search, if_neg apart, found] at answer
      cases answer
      refine ⟨first, rfl, ?_, apart, first, List.mem_cons_self .., Relation.ReflTransGen.refl⟩
      rintro ⟨owned, live⟩
      rw [found] at live
      cases live
  | case4 fresh first pending apart owned found isFresh ih =>
      rw [Heap.search, if_neg apart, found] at answer
      simp only [isFresh, if_true] at answer
      obtain ⟨dead, named, notLive, notTarget, start⟩ := ih answer
      exact ⟨dead, named, notLive, notTarget, pending_of_children found start⟩
  | case5 fresh first pending apart owned found notFresh ih =>
      rw [Heap.search, if_neg apart, found] at answer
      simp only [notFresh] at answer
      obtain ⟨dead, named, notLive, notTarget, source, member, below⟩ := ih answer
      exact ⟨dead, named, notLive, notTarget, source, List.mem_cons_of_mem first member, below⟩

end ScriptCore.Links

namespace ScriptCore.Heap

open Links

theorem reaches_true (heap : Heap) (source target : Address)
    (answer : heap.reaches source target = .ok true) : Below heap.links source target := by
  obtain ⟨start, member, below⟩ := search_true target heap.liveSet [source] answer
  rw [List.mem_singleton.mp member] at below
  exact below

theorem reaches_false (heap : Heap) (source target : Address)
    (answer : heap.reaches source target = .ok false) (lower : Address)
    (below : Below heap.links source lower) : Live heap.links lower ∧ lower ≠ target := by
  refine search_false target heap.liveSet [source] ?_ answer source lower
    (Or.inr (List.mem_singleton.mpr rfl)) below
  rintro address ⟨live, notFresh⟩
  rw [heap.contains_liveSet] at notFresh
  obtain ⟨cell, found⟩ := (heap.live_links_iff address).mp live
  rw [(heap.isLive_iff address).mpr ⟨cell, found⟩] at notFresh
  cases notFresh

theorem reaches_error (heap : Heap) (source target : Address) (fault : Fault)
    (answer : heap.reaches source target = .error fault) :
    ∃ dead, fault = .dangling dead ∧ Below heap.links source dead ∧
      ¬ Live heap.links dead ∧ dead ≠ target := by
  obtain ⟨dead, named, notLive, notTarget, start, member, below⟩ :=
    search_error target heap.liveSet [source] fault answer
  rw [List.mem_singleton.mp member] at below
  exact ⟨dead, named, below, notLive, notTarget⟩

/-- A child is accepted when all below it is live and the parent is none of it. -/
theorem refuseCycle_ok (heap : Heap) (parent child : Address)
    (accepted : heap.refuseCycle parent child = .ok ()) :
    ¬ Below heap.links child parent ∧
      ∀ lower, Below heap.links child lower → Live heap.links lower := by
  unfold refuseCycle at accepted
  cases answer : heap.reaches child parent with
  | error fault =>
      rw [answer] at accepted
      cases accepted
  | ok found =>
      cases found with
      | true =>
          rw [answer] at accepted
          cases accepted
      | false =>
          have spec := heap.reaches_false child parent answer
          exact ⟨fun below => (spec parent below).2 rfl, fun lower below => (spec lower below).1⟩

theorem refuseCycle_error (heap : Heap) (parent child : Address) (fault : Fault)
    (refused : heap.refuseCycle parent child = .error fault) :
    fault = .cycle parent child ∧ Below heap.links child parent ∨
      ∃ dead, fault = .dangling dead ∧ Below heap.links child dead ∧
        ¬ Live heap.links dead ∧ dead ≠ parent := by
  unfold refuseCycle at refused
  cases answer : heap.reaches child parent with
  | error searchFault =>
      rw [answer] at refused
      cases refused
      exact Or.inr (heap.reaches_error child parent fault answer)
  | ok found =>
      rw [answer] at refused
      cases found with
      | true =>
          cases refused
          exact Or.inl ⟨rfl, heap.reaches_true child parent answer⟩
      | false => cases refused

theorem refuseCycle_eq_ok_iff {heap : Heap} {parent child : Address} :
    heap.refuseCycle parent child = .ok () ↔
      ¬ Below heap.links child parent ∧
        ∀ lower, Below heap.links child lower → Live heap.links lower := by
  constructor
  · exact heap.refuseCycle_ok parent child
  · rintro ⟨apart, live⟩
    cases answer : heap.refuseCycle parent child with
    | ok accepted => rfl
    | error fault =>
        rcases heap.refuseCycle_error parent child fault answer with
          ⟨_, below⟩ | ⟨dead, _, below, notLive, _⟩
        · exact absurd below apart
        · exact absurd (live dead below) notLive

end ScriptCore.Heap
