import ScriptCore.Proofs.Heap.Successors
import ScriptCore.Proofs.History.Basic

set_option autoImplicit false

/-! Walks along a chain end at every point of a history, although values may come to own
themselves and links may lead to slots that were freed and taken again. A link is written in
two places only: a new cell gets one to a chain that comes to an end, and a cell gets one to
a new cell without a successor. Neither closes a cycle of successors. -/

namespace ScriptCore

open Heap Links

namespace Heap

/-! ### What keeps chains free of cycles -/

variable {heap after : Heap}

theorem Edited.successors_eq (edited : Edited heap after) : after.successors = heap.successors := by
  funext address
  have same := congrArg (Option.map Option.toList) (edited.nexts address)
  rw [Option.map_map, Option.map_map] at same
  exact same

theorem founded_successors_allocate (listed : heap.FreeListed)
    (founded : ∀ address, Founded heap.successors address) (value : Value)
    {next : Option Address} {elements : List Address} (chain : Chain heap next elements) :
    ∀ address, Founded (heap.allocate value next).2.successors address := by
  have elsewhere (address : Address) (apart : address ≠ (heap.allocate value next).1) :
      children (heap.allocate value next).2.successors address =
        children heap.successors address := by
    rw [children, children, successors, successors, listed.cell?_allocate, if_neg apart]
  apply founded_relink elsewhere founded
  intro child owns below
  rw [Owns, children_successors (cell?_fresh listed)] at owns
  have follows : next = some child := Option.mem_toList.mp owns
  rw [follows] at chain
  obtain ⟨cell, found⟩ := live_of_chain chain below
  rw [listed.dead_allocate] at found
  cases found

theorem founded_successors_link (founded : ∀ address, Founded heap.successors address)
    (owner : Address) {element : Address} {cell : Cell} (found : heap.cell? element = some cell)
    (last : cell.next = none) (apart : element ≠ owner) :
    let linked := heap.modifyCell owner fun cell => { cell with next := some element }
    ∀ address, Founded linked.successors address := by
  intro linked
  have elsewhere (address : Address) (other : address ≠ owner) :
      children linked.successors address = children heap.successors address := by
    rw [children, children, successors, successors, cell?_modifyCell, if_neg other]
  apply founded_relink elsewhere founded
  intro child owns below
  obtain ⟨changed, here, follows⟩ := owns_successors_iff.mp owns
  rw [cell?_modifyCell, if_pos rfl] at here
  obtain ⟨_, _, rfl⟩ := Option.map_eq_some_iff.mp here
  cases follows
  rcases Relation.ReflTransGen.cases_head below with same | ⟨next, later, _⟩
  · exact apart same
  · rw [Owns, children_successors found, last] at later
    exact absurd later List.not_mem_nil

theorem founded_successors_sweep (founded : ∀ address, Founded heap.successors address)
    (address : Address) : Founded heap.sweep.2.successors address := by
  refine Subrelation.accessible ?_ (founded address)
  intro next address follows
  obtain ⟨cell, kept, follows⟩ := owns_successors_iff.mp follows
  rw [cell?_sweep] at kept
  exact owns_successors_iff.mpr ⟨cell, (Option.filter_eq_some_iff.mp kept).1, follows⟩

theorem Works.founded_successors {taken : List Address} (works : Works heap taken after)
    (listed : heap.FreeListed) (founded : ∀ address, Founded heap.successors address) :
    ∀ address, Founded after.successors address := by
  induction works with
  | done heap => exact founded
  | edit edited _ ih =>
      rw [← edited.successors_eq] at founded
      exact ih (listed.of_sameFrame edited.frame edited.cell?_eq_none_iff) founded
  | allocate value chain _ ih =>
      exact ih (listed.allocate value _) (founded_successors_allocate listed founded value chain)
  | link owner found last apart _ ih =>
      exact ih (listed.modifyCell owner _) (founded_successors_link founded owner found last apart)

/-! ### Questions that come to an end -/

/-- A question is answered or it fails, but not because a walk goes on. -/
abbrev Terminates {Answer : Type} (asked : Except Fault Answer) : Prop :=
  Avoids Fault.IsEndless asked

theorem Walked.terminates {first : Option Address} {asked : Except Fault (List Address)}
    (walked : Walked heap first asked) : Terminates asked := by
  cases walked with
  | whole elements _ _ => exact avoids_ok elements
  | broken _ dead _ => exact avoids_error fun ⟨_, same⟩ => by cases same

section Collections

variable (acyclic : Acyclic heap.successors) (head : Address)

include acyclic

theorem terminates_elements : Terminates (heap.elements head) := by
  apply heap.avoids_elements
  · rintro _ ⟨_, same⟩
    cases same
  · rintro _ ⟨_, same⟩
    cases same
  · intro first
    exact (walked_chain acyclic first).terminates

theorem terminates_elementAt (index : Nat) : Terminates (heap.elementAt head index) := by
  apply heap.avoids_elementAt head (terminates_elements acyclic head)
  rintro _ _ ⟨_, same⟩
  cases same

theorem terminates_spelled : Terminates (heap.spelled head) := by
  refine avoids_bind (terminates_elements acyclic head) fun elements => ?_
  apply avoids_mapM
  intro element
  apply heap.avoids_characterIn
  · rintro _ ⟨_, same⟩
    cases same
  · rintro _ _ _ ⟨_, same⟩
    cases same

theorem terminates_numberOfText (arguments : List Value) :
    ¬ FailsWith Fault.IsEndless (Catalogue.standard.call "to_numerical" arguments heap) := by
  rw [Catalogue.call_to_numerical]
  by_cases collection : ∃ first, arguments = [.collection first]
  · obtain ⟨first, rfl⟩ := collection
    have ends := (walked_chain acyclic first).terminates
    cases walked : heap.chain first with
    | ok elements =>
        rw [Primitive.numberOfText_of_chain_ok walked]
        exact not_failsWith_ok
    | error fault =>
        rw [Primitive.numberOfText_of_chain_error walked, failsWith_error_iff]
        exact ends fault walked
  · rcases Primitive.numberOfText_of_no_collection heap fun first same => collection ⟨first, same⟩
      with refused | ⟨given, refused⟩
    · rw [refused, failsWith_error_iff]
      rintro ⟨_, same⟩
      cases same
    · rw [refused, failsWith_error_iff]
      rintro ⟨_, same⟩
      cases same

end Collections

/-- Every walk along a chain ends, and the questions that walk are answered on a list of
distinct elements, or fail. -/
structure WalksEnd (heap : Heap) : Prop where
  chain : ∀ first, Walked heap first (heap.chain first)
  elements : ∀ head, Terminates (heap.elements head)
  distinct : ∀ head elements, heap.elements head = .ok elements → elements.Nodup
  elementAt : ∀ head index, Terminates (heap.elementAt head index)
  spelled : ∀ head, Terminates (heap.spelled head)
  number : ∀ arguments,
    ¬ FailsWith Fault.IsEndless (Catalogue.standard.call "to_numerical" arguments heap)

theorem walksEnd_of_acyclic (acyclic : Acyclic heap.successors) : WalksEnd heap where
  chain := walked_chain acyclic
  elements := terminates_elements acyclic
  distinct := by
    intro head elements answered
    obtain ⟨_, _, _, _, chain⟩ := chain_of_elements answered
    exact chain.nodup
  elementAt := terminates_elementAt acyclic
  spelled := terminates_spelled acyclic
  number := terminates_numberOfText acyclic

end Heap

/-! ### Every point of a history -/

namespace History

variable {limits : Limits} {swept now : Heap}

theorem founded_successors (history : History limits swept now) :
    ∀ address, Founded now.successors address := by
  refine history.invariant (motive := fun _ heap => ∀ address, Founded heap.successors address)
    ?_ ?_ ?_
  · intro address
    apply Acc.intro
    intro next follows
    obtain ⟨_, impossible, _⟩ := owns_successors_iff.mp follows
    rw [cell?_empty] at impossible
    cases impossible
  · intro _ _ _ _ listed works founded
    exact works.founded_successors listed founded
  · intro _ _ _ founded
    exact founded_successors_sweep founded

/-- Whatever was called before, also with faults and against the rules, no cell follows itself,
so every walk along a chain ends. -/
theorem chains_end (history : History limits swept now) :
    Acyclic now.successors ∧ WalksEnd now := by
  have acyclic := acyclic_of_founded history.founded_successors
  exact ⟨acyclic, walksEnd_of_acyclic acyclic⟩

/-- The element behind another one is let go once too often and freed. Its slot becomes the
head of a new collection, which then contains itself. The walk still ends there. -/
theorem chains_end_reused :
    let swept := Call.sweep.leaves
      ((Call.removeReference ⟨0⟩).leaves
        ((Call.addReference ⟨1⟩).leaves
          ((Call.newCollection [.null, .null]).leaves (.empty {}) .empty) .empty) .empty) .empty
    let now := (Call.setValue ⟨0⟩ (.collection (some ⟨0⟩))).leaves
      ((Call.newCollection [.character 'x']).leaves swept .empty) .empty
    History {} swept now ∧ StrictlyBelow now.links ⟨0⟩ ⟨0⟩ ∧
      Chain now (some ⟨1⟩) [⟨1⟩, ⟨0⟩] ∧ Acyclic now.successors := by
  intro swept now
  have history : History {} swept now :=
    .call _ _ (.call _ _ (.sweep _ _ (.call _ _ (.call _ _ (.call _ _ .start rfl) rfl) rfl) rfl)
      rfl) rfl
  have walked : (now.chain (some ⟨1⟩)).toOption = some [⟨1⟩, ⟨0⟩] := by decide +kernel
  have itself : Owns now.links ⟨0⟩ ⟨0⟩ := by
    change ⟨0⟩ ∈ children now.links ⟨0⟩
    decide +kernel
  obtain ⟨acyclic, ends⟩ := history.chains_end
  have whole := ends.chain (some ⟨1⟩)
  generalize now.chain (some ⟨1⟩) = answer at walked whole
  cases whole with
  | whole elements chain _ =>
      cases walked
      exact ⟨history, .single itself, chain, acyclic⟩
  | broken _ _ _ => cases walked

end History
end ScriptCore
