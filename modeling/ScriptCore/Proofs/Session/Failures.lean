import ScriptCore.Proofs.Session.Balance
import ScriptCore.Proofs.Updates.Cycles
import ScriptCore.Proofs.Updates.Failures
import ScriptCore.Proofs.Updates.Outcomes

set_option autoImplicit false

/-! Updates that fail under a disciplined caller. They leave all cells as they were, with one
exception: a count that becomes too large is noticed when the new value is in place already. -/

namespace ScriptCore.Session

open Links Heap

variable {session : Session}

section Quietly

variable {Answer : Type} (session : Session) (call : Call) {work : HeapM Answer}

theorem of_perform_error (performs : call.perform = Call.quietly work) {fault : Fault}
    {after : Store} (failed : call.perform session.store = .error fault after) :
    after.scopes = session.store.scopes ∧
      work session.store.heap = .error fault after.heap := by
  cases worked : work session.store.heap with
  | ok answer heap =>
      rw [perform_quietly_ok session call performs worked] at failed
      cases failed
  | error reason heap =>
      rw [perform_quietly_error session call performs worked] at failed
      cases failed
      exact ⟨rfl, rfl⟩

end Quietly

theorem exists_stopped (balanced : session.Balanced) (call : Call) (replaces : call.Replaces)
    (names : ∀ value, value ∈ call.stored → session.store.heap.Names value) {fault : Fault}
    {after : Store} (failed : call.perform session.store = .error fault after) :
    after.scopes = session.store.scopes ∧
      ∃ start, StartsFrom session.store.heap call start ∧ Stopped start after.heap fault := by
  obtain ⟨_, work, start, performs, starts, exchange⟩ := session.exists_exchange call replaces
  obtain ⟨same, worked⟩ := of_perform_error session call performs failed
  have inOrder := starts.balanced balanced names
  exact ⟨same, start, starts, exchange.stopped inOrder.toAccounted worked⟩

/-- The cell that an update may have allocated is held by nothing, so no exchange was cut short
there. -/
theorem grows_iff {heap start after : Heap} {call : Call} {fault : Fault}
    (listed : heap.FreeListed) (starts : StartsFrom heap call start)
    (stopped : Stopped start after fault) : Grows heap after ↔ ¬ fault.Overflows := by
  rcases starts with rfl | ⟨_, value, _, rfl⟩
  · exact stopped.grows_iff (.refl _) fun _ _ found _ => found
  · refine stopped.grows_iff (listed.grows_allocate value none) ?_
    intro address cell found held
    rw [listed.cell?_allocate] at found
    by_cases fresh : address = (heap.allocate value none).1
    · rw [if_pos fresh] at found
      cases found
      exact absurd rfl held
    · rw [if_neg fresh] at found
      exact found

/-- In every state that a disciplined caller can arrive at, an update that fails leaves every
cell as it was exactly if its fault is not an overflow; then it stopped before its first
change, or with one new cell that nothing holds. An overflow cuts an exchange short: the new
children are in place, the old ones have been let go and not all of the new ones are held. -/
theorem Disciplined.failed_update {limits : Limits} (disciplined : Disciplined limits session)
    (call : Call) (replaces : call.Replaces)
    (names : ∀ value, value ∈ call.stored → session.store.heap.Names value) (fault : Fault)
    (after : Store) (failed : call.perform session.store = .error fault after) :
    after.scopes = session.store.scopes ∧
      (Grows session.store.heap after.heap ↔ ¬ fault.Overflows) ∧
      ∃ start, StartsFrom session.store.heap call start ∧ Stopped start after.heap fault := by
  have balanced := disciplined.balanced
  obtain ⟨same, start, starts, stopped⟩ := exists_stopped balanced call replaces names failed
  exact ⟨same, grows_iff (Heap.Balanced.listed balanced) starts stopped, start, starts, stopped⟩

/-- A text that is refused as an element of itself stays as it was. -/
theorem failed_update_text :
    let session := (Session.start {}).after (.newLiteral (.text "a"))
    let call := Call.append ⟨1⟩ (.collection (some ⟨0⟩))
    Disciplined {} session ∧ ∃ fault after, call.perform session.store = .error fault after ∧
      fault.ReportsCycle ∧ Grows session.store.heap after.heap := by
  intro session call
  have disciplined : Disciplined {} session :=
    .call _ .start (allows_plain _ _ id rfl (fun _ same => by cases same) id)
  have balanced := disciplined.balanced
  have accounted := Heap.Balanced.toAccounted balanced
  have names : session.store.heap.Names (.collection (some ⟨0⟩)) := names_collection ⟨_, rfl⟩
  have answered : session.store.heap.elements ⟨1⟩ = .ok [⟨0⟩] := rfl
  obtain ⟨fault, heap, refused, reports⟩ :=
    (cycle_append_iff accounted.closed (acyclic_of_founded accounted.founded)
      (Heap.Balanced.listed balanced) answered names).mpr
        ⟨⟨0⟩, List.mem_singleton.mpr rfl, Relation.ReflTransGen.refl⟩
  have failed := perform_quietly_error session call rfl refused
  obtain ⟨_, grows, _⟩ := disciplined.failed_update call trivial
    (Call.names_of_stored names rfl) fault _ failed
  exact ⟨disciplined, fault, _, failed, reports,
    grows.mpr (Fault.not_overflows_of_reportsCycle reports)⟩

/-! ### An overflow -/

def pair (address : Address) : Value :=
  .record ⟨"Pair", [⟨"left", address⟩, ⟨"right", address⟩]⟩

theorem eq_of_mem_pair {address child : Address} (named : child ∈ (pair address).children) :
    child = address := by
  simpa only [pair, Value.children, List.map, List.mem_cons, List.not_mem_nil, or_false,
    or_self] using named

/-- A cell that is held once becomes a pair of a new cell, which becomes a pair of a new cell,
and so on: each is held twice as often as the one before. -/
def doubled : Nat → Session
  | 0 => ((Session.start {}).after (.newCell .null)).after (.addReference ⟨0⟩)
  | count + 1 =>
      ((doubled count).after (.newCell .null)).after (.replaceValue ⟨count⟩ (pair ⟨count + 1⟩))

/-- The last of so many cells is empty, and held so often. -/
structure Ends (session : Session) (count held : Nat) : Prop where
  disciplined : Disciplined {} session
  last : ∃ references, session.store.heap.cell? ⟨count⟩ = some ⟨.null, none, references⟩ ∧
    references.toNat = held
  size : session.store.heap.slots.size = count + 1
  free : session.store.heap.free = []

namespace Ends

private theorem next_ne (count : Nat) : (⟨count + 1⟩ : Address) ≠ ⟨count⟩ := by
  intro equal
  have equalIndex := congrArg Address.index equal
  change count + 1 = count at equalIndex
  omega

variable {count held : Nat} (ends : Ends session count held)

include ends

theorem grow : Ends (session.after (.newCell .null)) (count + 1) 0 ∧
    ∃ references, (session.after (.newCell .null)).store.heap.cell? ⟨count⟩ =
      some ⟨.null, none, references⟩ ∧ references.toNat = held := by
  obtain ⟨references, found, counted⟩ := ends.last
  have listed := Heap.Balanced.listed ends.disciplined.balanced
  have grown : (session.after (.newCell .null)).store.heap =
      (session.store.heap.allocate .null none).2 := rfl
  have fresh : (session.store.heap.allocate .null none).1 = ⟨count + 1⟩ := by
    simp only [Heap.allocate, ends.free, ends.size]
  refine ⟨⟨ends.disciplined.call _ (allows_newCell _ .null fun _ named =>
    absurd named List.not_mem_nil), ⟨0, ?_, rfl⟩, ?_, ?_⟩, references, ?_, counted⟩
  · rw [grown, listed.cell?_allocate, if_pos fresh.symm]
  · rw [grown]
    simp only [Heap.allocate, ends.free, Array.size_push, ends.size]
  · rw [grown]
    simp only [Heap.allocate, ends.free]
  · rw [grown]
    exact listed.grows_allocate .null none _ _ found

theorem names_pair : session.store.heap.Names (pair ⟨count⟩) := by
  obtain ⟨references, found, _⟩ := ends.last
  intro child named
  rw [eq_of_mem_pair named]
  exact (session.store.heap.live_links_iff _).mpr ⟨_, found⟩

theorem paths_last (address : Address) :
    paths session.store.heap.links ⟨count⟩ address =
      if (⟨count⟩ : Address) = address then 1 else 0 := by
  obtain ⟨references, found, _⟩ := ends.last
  have founded := (Heap.Balanced.toAccounted ends.disciplined.balanced).founded
  exact paths_leaf (founded ⟨count⟩) (children_eq (links_of_cell? _ _ _ found)) address

theorem exchanged_pair (references : UInt32) (address : Address) :
    session.store.heap.exchanged references [] (pair ⟨count⟩).children address =
      if (⟨count⟩ : Address) = address then 2 * (references.toNat : Int) else 0 := by
  change session.store.heap.exchanged references [] [⟨count⟩, ⟨count⟩] address = _
  rw [exchanged, pathsFrom_cons, pathsFrom_cons, pathsFrom_nil, ends.paths_last]
  by_cases same : (⟨count⟩ : Address) = address
  · rw [if_pos same, if_pos same]
    omega
  · rw [if_neg same, if_neg same]
    omega

theorem exceeds_pair_iff (unheld : held = 0) (references : UInt32) :
    session.store.heap.Exceeds
        (session.store.heap.exchanged references [] (pair ⟨count⟩).children) ↔
      UInt32.size ≤ 2 * references.toNat := by
  obtain ⟨zero, found, counted⟩ := ends.last
  constructor
  · rintro ⟨address, cell, foundCell, large⟩
    rw [ends.exchanged_pair] at large
    by_cases same : (⟨count⟩ : Address) = address
    · rw [← same, found] at foundCell
      cases foundCell
      rw [if_pos same] at large
      change (UInt32.size : Int) ≤ zero.toNat + _ at large
      omega
    · have bounded := cell.references.toNat_lt_size
      rw [if_neg same] at large
      omega
  · intro large
    refine ⟨⟨count⟩, _, found, ?_⟩
    rw [ends.exchanged_pair, if_pos rfl]
    change (UInt32.size : Int) ≤ zero.toNat + _
    omega

/-- The last cell becomes a pair of a new one, unless that would be held too often. -/
theorem decided_pair :
    let heap := (session.after (.newCell .null)).store.heap
    ∃ references : UInt32, references.toNat = held ∧
      Decided False (UInt32.size ≤ 2 * held)
        (fun _ => Moved (heap.exchanged references [] (pair ⟨count + 1⟩).children)
          (heap.modifyCell ⟨count⟩ fun cell => { cell with value := pair ⟨count + 1⟩ }))
        (replaceValue ⟨count⟩ (pair ⟨count + 1⟩) heap) := by
  intro heap
  obtain ⟨grown, references, found, counted⟩ := ends.grow
  have accounted := Heap.Balanced.toAccounted grown.disciplined.balanced
  have decided := decided_replaceValue accounted found grown.names_pair
  refine ⟨references, counted, ?_⟩
  have apart : ¬ ∃ child, child ∈ (pair ⟨count + 1⟩).children ∧
      Below heap.links child ⟨count⟩ := by
    rintro ⟨child, named, below⟩
    rw [eq_of_mem_pair named, ← paths_pos_iff (accounted.founded _), grown.paths_last,
      if_neg] at below
    · exact absurd below (Nat.lt_irrefl 0)
    · exact next_ne count
  rw [← counted, ← grown.exceeds_pair_iff rfl, ← iff_false_intro apart]
  exact decided

theorem double (small : 2 * held < UInt32.size) :
    Ends ((session.after (.newCell .null)).after (.replaceValue ⟨count⟩ (pair ⟨count + 1⟩)))
      (count + 1) (2 * held) := by
  obtain ⟨grown, _⟩ := ends.grow
  obtain ⟨references, counted, decided⟩ := ends.decided_pair
  obtain ⟨_, after, done⟩ := decided.success.mpr ⟨id, Nat.not_le_of_lt small⟩
  have moved := decided.exact _ after done
  have performed := perform_quietly_ok _ (.replaceValue ⟨count⟩ (pair ⟨count + 1⟩)) rfl done
  have allows : (session.after (.newCell .null)).Allows
      (.replaceValue ⟨count⟩ (pair ⟨count + 1⟩)) := by
    refine ⟨id, Call.names_of_stored grown.names_pair rfl, ?_, ?_⟩
    · intro address same
      cases same
    · intro _ fault store failed
      rw [performed] at failed
      cases failed
  have disciplined := grown.disciplined.call _ allows
  rw [after_of_ok _ _ performed] at disciplined ⊢
  obtain ⟨zero, found, unheld⟩ := grown.last
  obtain ⟨twice, foundAfter, doubled⟩ := moved.live ⟨count + 1⟩ ⟨.null, none, zero⟩ (by
    rw [cell?_modifyCell, if_neg (next_ne count)]
    exact found)
  rw [grown.exchanged_pair, if_pos rfl] at doubled
  change (twice.toNat : Int) = zero.toNat + _ at doubled
  refine ⟨disciplined, ⟨twice, foundAfter, by omega⟩, ?_, ?_⟩
  · exact moved.frame.size.trans (Array.size_modify.trans grown.size)
  · exact moved.frame.free.trans grown.free

theorem overflow (large : UInt32.size ≤ 2 * held) :
    let grown := session.after (.newCell .null)
    let call := Call.replaceValue ⟨count⟩ (pair ⟨count + 1⟩)
    Disciplined {} grown ∧ grown.store.heap.Names (pair ⟨count + 1⟩) ∧
      ∃ fault after, call.perform grown.store = .error fault after ∧
        ¬ Grows grown.store.heap after.heap := by
  intro grown call
  obtain ⟨grownEnds, _⟩ := ends.grow
  obtain ⟨_, _, decided⟩ := ends.decided_pair
  obtain ⟨fault, after, failed, overflows⟩ := decided.overflow.mpr ⟨id, large⟩
  have performed := perform_quietly_error grown call rfl failed
  have balanced := grownEnds.disciplined.balanced
  obtain ⟨_, start, starts, stopped⟩ := exists_stopped balanced call trivial
    (Call.names_of_stored grownEnds.names_pair rfl) performed
  refine ⟨grownEnds.disciplined, grownEnds.names_pair, fault, _, performed, ?_⟩
  rw [grows_iff (Heap.Balanced.listed balanced) starts stopped, not_not]
  exact overflows

end Ends

theorem ends_doubled (count : Nat) (small : count < 32) :
    Ends (doubled count) count (2 ^ count) := by
  induction count with
  | zero =>
      have first : Disciplined {} ((Session.start {}).after (.newCell .null)) :=
        .call _ .start (allows_newCell _ .null fun _ named => absurd named List.not_mem_nil)
      have second : Disciplined {} (doubled 0) :=
        first.call _ (allows_plain _ _ id rfl (fun _ same => by cases same) id)
      exact ⟨second, ⟨1, rfl, rfl⟩, rfl, rfl⟩
  | succ count ih =>
      have larger : 2 * 2 ^ count < UInt32.size := by
        have bounded : 2 ^ count ≤ 2 ^ 30 := Nat.pow_le_pow_right (by decide) (by omega)
        change 2 * 2 ^ count < 4294967296
        omega
      rw [Nat.pow_succ, Nat.mul_comm]
      exact (ih (by omega)).double larger

/-- The next pair after thirty-one is one too many: the update fails, and the cell that was to
become a pair is not what it was. -/
theorem not_grows_doubled :
    let session := (doubled 31).after (.newCell .null)
    let call := Call.replaceValue ⟨31⟩ (pair ⟨32⟩)
    Disciplined {} session ∧ session.store.heap.Names (pair ⟨32⟩) ∧
      ∃ fault after, call.perform session.store = .error fault after ∧
        ¬ Grows session.store.heap after.heap :=
  (ends_doubled 31 (by decide)).overflow (by decide +kernel)

end ScriptCore.Session
