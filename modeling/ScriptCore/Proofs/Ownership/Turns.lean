import Mathlib
import ScriptCore.Proofs.Ownership.Search

set_option autoImplicit false

/-! The search for a cell turn by turn. Each turn takes the next cell that waits and opens it, if
it was not opened before. No cell is opened twice, so a search comes to its end on every heap,
after one turn for the cell it starts from and at most one for each time a live cell owns
another. -/

namespace ScriptCore.Links

/-- Where a search stands: the cells that it has opened, and those that wait, the next one
first. -/
structure Progress where
  opened : Finset Address
  pending : List Address

variable (links : Links) (target : Address)

/-- A turn after which the search goes on. What a cell owns is looked at from its end. -/
inductive Turn : Progress → Progress → Prop where
  | skip {address : Address} {opened : Finset Address} {pending : List Address}
      (apart : address ≠ target) (known : address ∈ opened) :
      Turn ⟨opened, address :: pending⟩ ⟨opened, pending⟩
  | expand {address : Address} {opened : Finset Address} {pending owned : List Address}
      (apart : address ≠ target) (fresh : address ∉ opened) (found : links address = some owned) :
      Turn ⟨opened, address :: pending⟩ ⟨insert address opened, owned.reverse ++ pending⟩

/-- The end of a search and its answer. -/
inductive Ends : Progress → Except Fault Bool → Prop where
  | exhausted (opened : Finset Address) : Ends ⟨opened, []⟩ (.ok false)
  | found (opened : Finset Address) (pending : List Address) :
      Ends ⟨opened, target :: pending⟩ (.ok true)
  | dead {address : Address} {opened : Finset Address} (pending : List Address)
      (apart : address ≠ target) (fresh : address ∉ opened) (dead : links address = none) :
      Ends ⟨opened, address :: pending⟩ (.error (.dangling address))

/-- A search that ends with an answer after so many turns. -/
inductive Runs : Nat → Progress → Except Fault Bool → Prop where
  | stop {progress : Progress} {answer : Except Fault Bool}
      (ends : Ends links target progress answer) : Runs 0 progress answer
  | turn {count : Nat} {progress next : Progress} {answer : Except Fault Bool}
      (turn : Turn links target progress next) (rest : Runs count next answer) :
      Runs (count + 1) progress answer

variable {links target}

/-! ### One way to go on -/

theorem Turn.unique {progress next next' : Progress} (first : Turn links target progress next)
    (second : Turn links target progress next') : next = next' := by
  cases first with
  | skip _ known =>
      cases second with
      | skip => rfl
      | expand _ fresh _ => exact absurd known fresh
  | expand _ fresh found =>
      cases second with
      | skip _ known => exact absurd known fresh
      | expand _ _ found' =>
          rw [found, Option.some.injEq] at found'
          rw [found']

theorem Ends.unique {progress : Progress} {answer answer' : Except Fault Bool}
    (first : Ends links target progress answer) (second : Ends links target progress answer') :
    answer = answer' := by
  cases first with
  | exhausted => cases second with | exhausted => rfl
  | found =>
      cases second with
      | found => rfl
      | dead _ apart => exact absurd rfl apart
  | dead _ apart =>
      cases second with
      | found => exact absurd rfl apart
      | dead => rfl

theorem Ends.not_turn {progress next : Progress} {answer : Except Fault Bool}
    (ends : Ends links target progress answer) : ¬ Turn links target progress next := by
  intro turn
  cases ends with
  | exhausted => cases turn
  | found =>
      cases turn with
      | skip apart => exact apart rfl
      | expand apart => exact apart rfl
  | dead _ _ fresh dead =>
      cases turn with
      | skip _ known => exact fresh known
      | expand _ _ found =>
          rw [dead] at found
          cases found

theorem Runs.unique {count count' : Nat} {progress : Progress} {answer answer' : Except Fault Bool}
    (first : Runs links target count progress answer)
    (second : Runs links target count' progress answer') : count = count' ∧ answer = answer' := by
  induction first generalizing count' with
  | stop ends =>
      cases second with
      | stop ends' => exact ⟨rfl, ends.unique ends'⟩
      | turn turn _ => exact absurd turn ends.not_turn
  | turn turn _ ih =>
      cases second with
      | stop ends => exact absurd turn ends.not_turn
      | turn turn' rest =>
          rw [turn'.unique turn] at rest
          obtain ⟨same, answers⟩ := ih rest
          exact ⟨congrArg (· + 1) same, answers⟩

/-! ### How many turns are left -/

/-- How many cells can still be added to those that wait: what the live cells own that have not
been opened, each as often as it is owned. -/
def unopenedChildren (links : Links) (live opened : Finset Address) : Nat :=
  ∑ address ∈ live \ opened, (children links address).length

theorem unopenedChildren_insert {live opened : Finset Address} {address : Address}
    (member : address ∈ live) (fresh : address ∉ opened) :
    unopenedChildren links live (insert address opened) + (children links address).length =
      unopenedChildren links live opened := by
  unfold unopenedChildren
  rw [Finset.sdiff_insert]
  exact Finset.sum_erase_add _ _ (Finset.mem_sdiff.mpr ⟨member, fresh⟩)

/-- Every turn takes one cell from those that wait and from those that can still be added, so
there are no more turns than both together. -/
theorem exists_runs {live : Finset Address}
    (complete : ∀ address, Live links address → address ∈ live) (target : Address)
    (fresh : AddressSet) (pending : List Address) (opened : Finset Address)
    (same : ∀ address, address ∈ opened ↔ Opened links fresh address) :
    ∃ count, count ≤ pending.length + unopenedChildren links live opened ∧
      Runs links target count ⟨opened, pending⟩ (Heap.search links target fresh pending) := by
  induction fresh, pending using Heap.search.induct links target generalizing opened with
  | case1 fresh =>
      rw [Heap.search]
      exact ⟨0, Nat.zero_le _, .stop (.exhausted opened)⟩
  | case2 fresh pending =>
      rw [Heap.search, if_pos rfl]
      exact ⟨0, Nat.zero_le _, .stop (.found opened pending)⟩
  | case3 fresh address pending apart dead =>
      have unknown : address ∉ opened := by
        intro known
        obtain ⟨owned, found⟩ := ((same address).mp known).1
        rw [dead] at found
        cases found
      rw [Heap.search, if_neg apart, dead]
      exact ⟨0, Nat.zero_le _, .stop (.dead pending apart unknown dead)⟩
  | case4 fresh address pending apart owned found isFresh ih =>
      have unknown : address ∉ opened := by
        intro known
        have taken := ((same address).mp known).2
        rw [isFresh] at taken
        cases taken
      have later (other : Address) :
          other ∈ insert address opened ↔ Opened links (fresh.erase address) other := by
        rw [Finset.mem_insert, same other, Opened, Opened, AddressSet.contains_erase]
        by_cases equal : other = address
        · subst equal
          simp [Live, found]
        · simp [equal]
      obtain ⟨count, bounded, runs⟩ := ih (insert address opened) later
      have owes : unopenedChildren links live (insert address opened) +
          (children links address).length = unopenedChildren links live opened :=
        unopenedChildren_insert (complete address ⟨owned, found⟩) unknown
      rw [children_eq found] at owes
      rw [List.length_append, List.length_reverse] at bounded
      rw [Heap.search, if_neg apart, found]
      simp only [isFresh, if_true]
      refine ⟨count + 1, ?_, .turn (.expand apart unknown found) runs⟩
      rw [List.length_cons]
      omega
  | case5 fresh address pending apart owned found notFresh ih =>
      have known : address ∈ opened :=
        (same address).mpr ⟨⟨owned, found⟩, Bool.eq_false_iff.mpr notFresh⟩
      obtain ⟨count, bounded, runs⟩ := ih opened same
      rw [Heap.search, if_neg apart, found]
      simp only [notFresh]
      refine ⟨count + 1, ?_, .turn (.skip apart known) runs⟩
      rw [List.length_cons]
      omega

end ScriptCore.Links

namespace ScriptCore.Heap

open Links

/-- How often a live cell owns a cell. -/
def ownedCount (heap : Heap) : Nat :=
  ∑ address ∈ heap.live.toFinset, (children heap.links address).length

theorem exists_runs_reaches (heap : Heap) (source target : Address) :
    ∃ count, count ≤ 1 + heap.ownedCount ∧
      Runs heap.links target count ⟨∅, [source]⟩ (heap.reaches source target) := by
  have complete (address : Address) (live : Live heap.links address) :
      address ∈ heap.live.toFinset := by
    rw [List.mem_toFinset, mem_live_iff]
    exact (heap.live_links_iff address).mp live
  have none (address : Address) : address ∈ (∅ : Finset Address) ↔
      Opened heap.links heap.liveSet address := by
    refine iff_of_false (Finset.notMem_empty address) ?_
    rintro ⟨live, taken⟩
    obtain ⟨cell, found⟩ := (heap.live_links_iff address).mp live
    rw [contains_liveSet, (heap.isLive_iff address).mpr ⟨cell, found⟩] at taken
    cases taken
  obtain ⟨count, bounded, runs⟩ := exists_runs complete target heap.liveSet [source] ∅ none
  refine ⟨count, ?_, runs⟩
  rw [unopenedChildren, Finset.sdiff_empty] at bounded
  exact bounded

theorem reaches_eq_false_iff (heap : Heap) (source target : Address) :
    heap.reaches source target = .ok false ↔ ¬ Below heap.links source target ∧
      ∀ lower, Below heap.links source lower → Live heap.links lower := by
  constructor
  · intro answer
    have spec := heap.reaches_false source target answer
    exact ⟨fun below => (spec target below).2 rfl, fun lower below => (spec lower below).1⟩
  · rintro ⟨apart, live⟩
    cases answer : heap.reaches source target with
    | error fault =>
        obtain ⟨dead, _, below, notLive, _⟩ := heap.reaches_error source target fault answer
        exact absurd (live dead below) notLive
    | ok found =>
        cases found with
        | true => exact absurd (heap.reaches_true source target answer) apart
        | false => rfl

/-- On every heap, whatever its cells hold and whether or not some of them own themselves, a search
takes one course, which is no longer than there are cells to take up, and its answer is right. -/
theorem reaches_exact (heap : Heap) (source target : Address) :
    (∃ turns, turns ≤ 1 + heap.ownedCount ∧ ∀ count answer,
      Runs heap.links target count ⟨∅, [source]⟩ answer ↔
        count = turns ∧ answer = heap.reaches source target) ∧
    (heap.reaches source target = .ok true → Below heap.links source target) ∧
    (heap.reaches source target = .ok false ↔ ¬ Below heap.links source target ∧
      ∀ lower, Below heap.links source lower → Live heap.links lower) ∧
    ∀ fault, heap.reaches source target = .error fault →
      ∃ dead, fault = .dangling dead ∧ Below heap.links source dead ∧
        ¬ Live heap.links dead ∧ dead ≠ target := by
  obtain ⟨turns, bounded, runs⟩ := heap.exists_runs_reaches source target
  refine ⟨⟨turns, bounded, ?_⟩, heap.reaches_true source target,
    heap.reaches_eq_false_iff source target, heap.reaches_error source target⟩
  intro count answer
  constructor
  · intro other
    exact other.unique runs
  · rintro ⟨rfl, rfl⟩
    exact runs

/-- Two cells that own each other, one of which leads on to a dead address, and a cell that owns
itself. A dead address is found like any other when it is the target. -/
theorem reaches_exact_looped :
    let heap : Heap := ⟨#[some ⟨.collection (some ⟨1⟩), none, 0⟩,
      some ⟨.collection (some ⟨0⟩), some ⟨7⟩, 0⟩, some ⟨.collection (some ⟨2⟩), none, 0⟩],
      [], {}, 0, {}⟩
    (heap.reaches ⟨0⟩ ⟨7⟩ = .ok true ∧ Below heap.links ⟨0⟩ ⟨7⟩) ∧
      (heap.reaches ⟨2⟩ ⟨0⟩ = .ok false ∧ ¬ Below heap.links ⟨2⟩ ⟨0⟩) ∧
      heap.reaches ⟨0⟩ ⟨9⟩ = .error (.dangling ⟨7⟩) ∧ ¬ Live heap.links ⟨7⟩ := by
  intro heap
  obtain ⟨⟨_, _, runs⟩, reached, _⟩ := reaches_exact heap ⟨0⟩ ⟨7⟩
  obtain ⟨⟨_, _, runs'⟩, _, apart, _⟩ := reaches_exact heap ⟨2⟩ ⟨0⟩
  obtain ⟨⟨_, _, runs''⟩, _, _, dead⟩ := reaches_exact heap ⟨0⟩ ⟨9⟩
  have first : .ok true = heap.reaches ⟨0⟩ ⟨7⟩ :=
    ((runs 3 _).mp (.turn (.expand (by decide) (by decide) rfl)
      (.turn (.expand (by decide) (by decide) rfl)
        (.turn (.skip (by decide) (by decide)) (.stop (.found _ _)))))).2
  have second : .ok false = heap.reaches ⟨2⟩ ⟨0⟩ :=
    ((runs' 2 _).mp (.turn (.expand (by decide) (by decide) rfl)
      (.turn (.skip (by decide) (by decide)) (.stop (.exhausted _))))).2
  have third : .error (.dangling ⟨7⟩) = heap.reaches ⟨0⟩ ⟨9⟩ :=
    ((runs'' 3 _).mp (.turn (.expand (by decide) (by decide) rfl)
      (.turn (.expand (by decide) (by decide) rfl) (.turn (.skip (by decide) (by decide))
        (.stop (.dead _ (by decide) (by decide) rfl)))))).2
  obtain ⟨_, named, _, notLive, _⟩ := dead _ third.symm
  rw [← Fault.dangling.inj named] at notLive
  exact ⟨⟨first.symm, reached first.symm⟩, ⟨second.symm, (apart.mp second.symm).1⟩,
    third.symm, notLive⟩

end ScriptCore.Heap
