import ScriptCore.Proofs.Session.Balance

set_option autoImplicit false

/-! Bindings that are let go. A table does not say in which order its bindings are met, and a
fault on the way would leave the rest of them held for ever. Under a disciplined caller there
is no fault, and every order ends in the same heap. -/

namespace ScriptCore.Session

open Links Heap

variable {session : Session}

/-- In every state that a disciplined caller can arrive at, dropping the innermost scope and
clearing all bindings succeed, and end in the same heap however the bindings are enumerated.
Only counts change; each falls by the number of paths to the cell from the bindings that went,
and is the number of paths from the roots that are left. -/
theorem Disciplined.releases_exact {limits : Limits} (disciplined : Disciplined limits session) :
    let store := session.store
    (∃ popped,
        (∀ enumeration, Store.popScopeIn enumeration store =
          .ok () ⟨popped, store.scopes.outer⟩) ∧
        LetGo store.heap popped store.scopes.innermost
          (store.scopes.outer.held ++ session.holds)) ∧
      ∃ cleared,
        (∀ enumeration, Store.clearIn enumeration store = .ok () ⟨cleared, .empty⟩) ∧
        LetGo store.heap cleared store.scopes.held session.holds := by
  intro store
  have balanced : store.heap.Balanced (store.scopes.held ++ session.holds) := disciplined.balanced
  constructor
  · obtain ⟨popped, _, letGo⟩ := Store.popScopeIn_letGo .listed balanced
    refine ⟨popped, ?_, letGo⟩
    intro enumeration
    obtain ⟨other, done, letGo'⟩ := Store.popScopeIn_letGo enumeration balanced
    rw [letGo.unique letGo']
    exact done
  · obtain ⟨cleared, _, letGo⟩ := Store.clearIn_letGo .listed balanced
    refine ⟨cleared, ?_, letGo⟩
    intro enumeration
    obtain ⟨other, done, letGo'⟩ := Store.clearIn_letGo enumeration balanced
    rw [letGo.unique letGo']
    exact done

/-- A scope binds a record and the cell that both of its fields name. Whichever is let go
first, no count is left. -/
theorem releases_exact_shared :
    let pair := Value.record ⟨"Pair", [⟨"left", ⟨0⟩⟩, ⟨"right", ⟨0⟩⟩]⟩
    let session := (((((Session.start {}).after (.newCell .null)).after (.newCell pair)).after
      .pushScope).after (.bind "pair" ⟨1⟩ false)).after (.bind "shared" ⟨0⟩ false)
    Disciplined {} session ∧
      (session.store.heap.cell? ⟨0⟩).map Cell.references = some 3 ∧
      ∃ popped,
        (∀ enumeration, Store.popScopeIn enumeration session.store =
          .ok () ⟨popped, session.store.scopes.outer⟩) ∧
        (popped.cell? ⟨0⟩).map Cell.references = some 0 := by
  intro pair session
  have first : Disciplined {} ((Session.start {}).after (.newCell .null)) :=
    .call _ .start (allows_newCell _ .null fun _ named => absurd named List.not_mem_nil)
  have second := first.call (.newCell pair) (allows_newCell _ pair (by
    intro child named
    have same : child = ⟨0⟩ := by
      simpa only [pair, Value.children, List.map, List.mem_cons, List.not_mem_nil, or_false,
        or_self] using named
    rw [same]
    exact ⟨_, rfl⟩))
  have third := second.call .pushScope
    (allows_plain _ .pushScope id rfl (fun _ same => by cases same) id)
  have fourth := third.call _ (allows_bind _ "pair" ⟨1⟩ false)
  have fifth : Disciplined {} session := fourth.call _ (allows_bind _ "shared" ⟨0⟩ false)
  obtain ⟨⟨popped, each, _⟩, _⟩ := fifth.releases_exact
  refine ⟨fifth, by decide +kernel, popped, each, ?_⟩
  have gone : ((stateLeft (Store.popScopeIn .listed session.store)).heap.cell? ⟨0⟩).map
      Cell.references = some 0 := by
    decide +kernel
  rw [each .listed] at gone
  exact gone

end ScriptCore.Session
