import ScriptCore.Proofs.Session.Balance
import ScriptCore.Proofs.Updates.Elements
import ScriptCore.Proofs.Updates.Names

set_option autoImplicit false

/-! What single calls of a disciplined caller do to all that was there: a new element behind those
of one collection among many, and a name that goes over to another cell. -/

namespace ScriptCore.Session

open Links Heap

variable {session : Session} {limits : Limits}

/-- A new element that a disciplined caller puts behind those of a collection is seen by every
collection that ended where this one did, and by no other. -/
theorem Disciplined.append_seen_by_all (disciplined : Disciplined limits session)
    (head : Address) (value : Value) (names : session.store.heap.Names value)
    (element : Address) (after : Heap)
    (done : append head value session.store.heap = .ok element after) :
    ∃ elements, session.store.heap.elements head = .ok elements ∧
      Appended session.store.heap after head elements value element := by
  have balanced := disciplined.balanced
  cases answered : session.store.heap.elements head with
  | error fault =>
      rw [append_of_elements_error value answered] at done
      cases done
  | ok elements =>
      obtain ⟨last, found, _⟩ := cell?_tail answered
      have decided := decided_append balanced.toAccounted balanced.listed answered names found
      obtain ⟨rfl, moved⟩ := decided.exact element after done
      obtain ⟨notClosing, _⟩ := decided.success.mp ⟨_, after, done⟩
      exact ⟨elements, rfl, appended_of_linked balanced.toAccounted balanced.listed names answered
        found moved fun child member below => notClosing ⟨child, member, below⟩⟩

/-- Two bound collections share their only element. What is put behind it through the first one
is an element of the second one too, and is held twice. -/
theorem append_seen_by_all_shared :
    let session := ((((Session.start {}).after (.newCollection [.null])).after
      (.newCell (.collection (some ⟨0⟩)))).after (.bind "first" ⟨1⟩ true)).after
        (.bind "second" ⟨2⟩ true)
    ∃ after, Disciplined {} session ∧
      append ⟨1⟩ (.character 'b') session.store.heap = .ok ⟨3⟩ after ∧
      after.elements ⟨2⟩ = .ok [⟨0⟩, ⟨3⟩] ∧
      after.cell? ⟨3⟩ = some ⟨.character 'b', none, 2⟩ := by
  intro session
  have first : Disciplined {} ((Session.start {}).after (.newCollection [.null])) :=
    .call _ .start {
      notRaw := id
      live := by
        intro value member
        rw [List.mem_singleton.mp member]
        exact fun _ named => absurd named List.not_mem_nil
      held := by
        intro address same
        cases same
      fits := False.elim }
  have second := first.call (.newCell (.collection (some ⟨0⟩)))
    (allows_newCell _ _ (names_collection ⟨_, rfl⟩))
  have third := second.call _ (allows_bind _ "first" ⟨1⟩ true)
  have disciplined : Disciplined {} session := third.call _ (allows_bind _ "second" ⟨2⟩ true)
  have balanced := disciplined.balanced
  have names : session.store.heap.Names (.character 'b') :=
    fun _ named => absurd named List.not_mem_nil
  have answered : session.store.heap.elements ⟨1⟩ = .ok [⟨0⟩] := by decide +kernel
  have others : session.store.heap.elements ⟨2⟩ = .ok [⟨0⟩] := by decide +kernel
  have fresh : (session.store.heap.allocate (.character 'b') none).1 = ⟨3⟩ := by decide +kernel
  have small : ∀ address,
      address ∈ (session.store.heap.allocate (.character 'b') none).2.addresses →
        ((session.store.heap.allocate (.character 'b') none).2.cell? address).all
          (fun cell => cell.references ≤ 2) = true := by decide +kernel
  obtain ⟨last, found, twice⟩ : ∃ last,
      session.store.heap.cell? (tail ⟨1⟩ [⟨0⟩]) = some last ∧ last.references = 2 :=
    Option.map_eq_some_iff.mp (by decide +kernel)
  have decided := decided_append balanced.toAccounted balanced.listed answered names found
  obtain ⟨element, after, done⟩ := decided.success.mpr (by
    constructor
    · rintro ⟨_, named, _⟩
      exact absurd named List.not_mem_nil
    · rintro ⟨address, cell, there, large⟩
      have bounded := small address ((mem_addresses_iff _ _).mpr
        (index_lt_size_of_cell? _ address cell there))
      rw [there, Option.all_some, decide_eq_true_iff, UInt32.le_iff_toNat_le] at bounded
      rw [twice, appended] at large
      change (4294967296 : Int) ≤ _ + 2 * ((_ + 0 : Nat) : Int) at large
      change cell.references.toNat ≤ 2 at bounded
      split_ifs at large
      all_goals omega)
  have same : element = ⟨3⟩ := (decided.exact element after done).1.trans fresh
  rw [same] at done
  obtain ⟨elements, answered', appended⟩ :=
    disciplined.append_seen_by_all ⟨1⟩ (.character 'b') names ⟨3⟩ after done
  rw [answered] at answered'
  cases answered'
  refine ⟨after, disciplined, done, ?_, ?_⟩
  · obtain ⟨other, leading, foundOther, holds, _⟩ := chain_of_elements others
    obtain ⟨theirs, there, longer⟩ := appended.others ⟨2⟩ other leading (by decide) foundOther holds
    rw [others] at there
    cases there
    exact longer
  · obtain ⟨last', found', _, placed⟩ := appended.placed
    rw [found] at found'
    cases found'
    rw [← twice]
    exact placed

/-- In every state that a disciplined caller can arrive at, a name is bound to a live cell with
counts that are exact again, or not at all because some count would be too large; a dead cell is
refused. -/
theorem Disciplined.bind_exact (disciplined : Disciplined limits session) (name : String)
    (address : Address) (isGlobal : Bool) :
    session.store.BindsExactly name address isGlobal := by
  have balanced := disciplined.balanced
  constructor
  case dead =>
    intro dead
    exact Store.bind_eq_error name isGlobal (addReference_of_dead balanced.toAccounted dead)
  case tooLarge =>
    intro live large
    rcases addReference_of_live balanced.toAccounted live with
      ⟨fits, _⟩ | ⟨_, fault, overflows, failed⟩
    · exact absurd large fits
    · exact ⟨fault, overflows, Store.bind_eq_error name isGlobal failed⟩
  case bound =>
    intro live fits
    rcases addReference_of_live balanced.toAccounted live with ⟨_, between, added⟩ | ⟨large, _⟩
    · exact Store.exists_bound balanced name isGlobal added
    · exact absurd large fits

/-- A name goes over from a record to the cell that the record names. The cell stays held, once,
and the record is held no longer. -/
theorem bind_exact_below :
    let session := (((Session.start {}).after (.newCell .null)).after
      (.newCell (.record ⟨"Box", [⟨"inner", ⟨0⟩⟩]⟩))).after (.bind "x" ⟨1⟩ true)
    ∃ after, Disciplined {} session ∧
      Store.bind "x" ⟨0⟩ true session.store = .ok () after ∧
      session.store.Bound after "x" ⟨0⟩ true (some ⟨1⟩) ∧
      after.scopes.lookup "x" = some ⟨0⟩ ∧
      (after.heap.cell? ⟨0⟩).map Cell.references = some 1 ∧
      (after.heap.cell? ⟨1⟩).map Cell.references = some 0 := by
  intro session
  have first : Disciplined {} ((Session.start {}).after (.newCell .null)) :=
    .call _ .start (allows_newCell _ .null fun _ named => absurd named List.not_mem_nil)
  have second := first.call (.newCell (.record ⟨"Box", [⟨"inner", ⟨0⟩⟩]⟩))
    (allows_newCell _ _ (names_record (by
      intro field member
      rw [List.mem_singleton.mp member]
      exact ⟨_, rfl⟩)))
  have disciplined : Disciplined {} session := second.call _ (allows_bind _ "x" ⟨1⟩ true)
  have done : Store.bind "x" ⟨0⟩ true session.store =
      .ok () (stateLeft (Store.bind "x" ⟨0⟩ true session.store)) :=
    eq_ok_of_run' (by decide +kernel)
  have exact' := disciplined.bind_exact "x" ⟨0⟩ true
  have live : Live session.store.heap.links ⟨0⟩ := by
    rw [live_links_iff, ← isLive_iff]
    decide +kernel
  have fits : ¬ session.store.heap.Exceeds
      (fun other => paths session.store.heap.links ⟨0⟩ other) := by
    intro large
    obtain ⟨fault, _, failed⟩ := exact'.tooLarge live large
    rw [done] at failed
    cases failed
  obtain ⟨after, done', bound⟩ := exact'.bound live fits
  rw [done] at done'
  cases done'
  refine ⟨_, disciplined, done, ?_, ?_, ?_, ?_⟩
  · have previous : (session.store.scopes.selected true).find? "x" = some ⟨1⟩ := by
      decide +kernel
    rw [previous] at bound
    exact bound
  · decide +kernel
  · decide +kernel
  · decide +kernel

end ScriptCore.Session
