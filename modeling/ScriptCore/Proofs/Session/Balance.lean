import ScriptCore.Proofs.Session.Basic
import ScriptCore.Proofs.Updates.Exchanges

set_option autoImplicit false

/-! Under a disciplined caller the heap stays in order: its counts are the path counts of
the bindings and of what the caller holds. -/

namespace ScriptCore.Session

open Links Heap

/-- The heap is in order, and its roots are those of the session. -/
def Balanced (session : Session) : Prop := session.store.heap.Balanced session.roots

variable {session : Session}

/-! ### Calls that work on the heap alone -/

section Quietly

variable {Answer : Type} (session : Session) (call : Call) {work : HeapM Answer}

theorem after_of_ok {store : Store} (performed : call.perform session.store = .ok () store) :
    session.after call = ⟨store, call.holdsAfter session.holds⟩ := by
  unfold after
  rw [performed]

theorem after_of_error {store : Store} {fault : Fault}
    (failed : call.perform session.store = .error fault store) :
    session.after call = ⟨store, session.holds⟩ := by
  unfold after
  rw [failed]

theorem perform_quietly_ok (performs : call.perform = Call.quietly work) {answer : Answer}
    {heap : Heap} (worked : work session.store.heap = .ok answer heap) :
    call.perform session.store = .ok () { session.store with heap } := by
  rw [performs, Call.quietly, bind_of_ok (StoreM.onHeap_of_ok worked)]
  rfl

theorem perform_quietly_error (performs : call.perform = Call.quietly work) {fault : Fault}
    {heap : Heap} (failed : work session.store.heap = .error fault heap) :
    call.perform session.store = .error fault { session.store with heap } := by
  rw [performs, Call.quietly, bind_of_error (StoreM.onHeap_of_error failed)]

end Quietly

theorem balanced_of_onlyAdds (call : Call) {work : HeapM Address}
    (performs : call.perform = Call.quietly work)
    (sameHolds : call.holdsAfter session.holds = session.holds) (balanced : session.Balanced)
    (adds : OnlyAdds session.store.heap session.roots (work session.store.heap)) :
    (session.after call).Balanced := by
  cases worked : work session.store.heap with
  | ok address heap =>
      rw [worked] at adds
      rw [after_of_ok session call (perform_quietly_ok session call performs worked), sameHolds]
      exact adds.balanced
  | error fault heap =>
      rw [worked] at adds
      rw [after_of_error session call (perform_quietly_error session call performs worked), adds]
      exact balanced

theorem balanced_of_keptBy {Answer : Type} (call : Call) {work : HeapM Answer}
    (performs : call.perform = Call.quietly work)
    (sameHolds : call.holdsAfter session.holds = session.holds)
    (fits : ∀ fault store, call.perform session.store = .error fault store →
      ¬ fault.Overflows)
    (kept : KeptBy session.roots (work session.store.heap)) :
    (session.after call).Balanced := by
  cases worked : work session.store.heap with
  | ok answer heap =>
      rw [worked] at kept
      rw [after_of_ok session call (perform_quietly_ok session call performs worked), sameHolds]
      exact kept
  | error fault heap =>
      rw [worked] at kept
      have failed := perform_quietly_error session call performs worked
      rw [after_of_error session call failed]
      exact kept.resolve_left (fits fault _ failed)

/-! ### Calls that give a cell other children -/

/-- Where an update begins its exchange: on the heap as it was, or after one allocation. -/
def StartsFrom (heap : Heap) (call : Call) (start : Heap) : Prop :=
  start = heap ∨ ∃ address value, call = .append address value ∧
    start = (heap.allocate value none).2

theorem StartsFrom.balanced {heap start : Heap} {roots : List Address} {call : Call}
    (starts : StartsFrom heap call start) (balanced : heap.Balanced roots)
    (names : ∀ value, value ∈ call.stored → heap.Names value) : start.Balanced roots := by
  rcases starts with rfl | ⟨address, value, rfl, rfl⟩
  · exact balanced
  · have named : heap.Names value := names value (List.mem_singleton.mpr rfl)
    exact balanced.allocate named

/-- Each of these calls is at most one exchange of children. -/
theorem exists_exchange (session : Session) (call : Call) (replaces : call.Replaces) :
    ∃ (Answer : Type) (work : HeapM Answer) (start : Heap), call.perform = Call.quietly work ∧
      StartsFrom session.store.heap call start ∧
        AtMostExchange start (work session.store.heap) := by
  cases call with
  | replaceValue address value =>
      exact ⟨_, _, _, rfl, Or.inl rfl, atMostExchange_replaceValue _ address value⟩
  | setElement address index value =>
      exact ⟨_, _, _, rfl, Or.inl rfl, atMostExchange_setElement _ address index value⟩
  | setField address name value =>
      exact ⟨_, _, _, rfl, Or.inl rfl, atMostExchange_setField _ address name value⟩
  | bindField address name target =>
      exact ⟨_, _, _, rfl, Or.inl rfl, atMostExchange_bindField _ address name target⟩
  | append address value =>
      rcases atMostExchange_append session.store.heap address value with exchange | exchange
      · exact ⟨_, _, _, rfl, Or.inl rfl, exchange⟩
      · exact ⟨_, _, _, rfl, Or.inr ⟨address, value, rfl, rfl⟩, exchange⟩
  | _ => exact replaces.elim

theorem balanced_update (balanced : session.Balanced) (call : Call) (replaces : call.Replaces)
    (sameHolds : call.holdsAfter session.holds = session.holds) (allows : session.Allows call) :
    (session.after call).Balanced := by
  obtain ⟨_, work, start, performs, starts, exchange⟩ := session.exists_exchange call replaces
  exact balanced_of_keptBy call performs sameHolds (allows.fits replaces)
    (exchange.keptBy (starts.balanced balanced allows.live))

/-! ### Calls that change the roots -/

theorem balanced_addReference (balanced : session.Balanced) (address : Address) :
    (session.after (.addReference address)).Balanced := by
  rcases Heap.Balanced.addReference_cases balanced address with
    ⟨heap, added, more⟩ | ⟨fault, failed⟩
  · rw [after_of_ok session _ (perform_quietly_ok session _ rfl (HeapM.change_of_ok added))]
    exact more.perm List.perm_middle.symm
  · rw [after_of_error session _ (perform_quietly_error session _ rfl (HeapM.change_of_error failed))]
    exact balanced

theorem balanced_removeReference (balanced : session.Balanced) (address : Address)
    (held : address ∈ session.holds) :
    (session.after (.removeReference address)).Balanced := by
  have first : session.roots.Perm
      (address :: (session.store.scopes.held ++ session.holds.erase address)) :=
    ((List.perm_cons_erase held).append_left _).trans List.perm_middle
  obtain ⟨heap, removed, _, fewer⟩ := Heap.Balanced.removeReference (balanced.perm first)
  rw [after_of_ok session _ (perform_quietly_ok session _ rfl (HeapM.change_of_ok removed))]
  exact fewer

theorem balanced_bind (balanced : session.Balanced) (name : String) (address : Address)
    (isGlobal : Bool) : (session.after (.bind name address isGlobal)).Balanced := by
  rcases Store.bind_cases balanced name address isGlobal with
    ⟨store, bound, balanced'⟩ | ⟨fault, failed⟩
  · rw [after_of_ok session (.bind name address isGlobal) bound]
    exact balanced'
  · rw [after_of_error session (.bind name address isGlobal) failed]
    exact balanced

theorem balanced_popScope (balanced : session.Balanced) :
    (session.after .popScope).Balanced := by
  obtain ⟨heap, popped, balanced'⟩ := Store.popScope_balanced balanced
  rw [after_of_ok session .popScope popped]
  exact balanced'

theorem balanced_clear (balanced : session.Balanced) : (session.after .clear).Balanced := by
  obtain ⟨heap, cleared, balanced'⟩ := Store.clear_balanced balanced
  rw [after_of_ok session .clear cleared]
  exact balanced'

/-! ### Any call, any run -/

theorem balanced_start (limits : Limits) : (Session.start limits).Balanced :=
  balanced_empty limits

theorem balanced_after (balanced : session.Balanced) (call : Call)
    (allows : session.Allows call) : (session.after call).Balanced := by
  cases call with
  | newCell value =>
      apply balanced_of_onlyAdds (.newCell value) rfl rfl balanced
      exact Heap.Balanced.built_allocate balanced value none
        (allows.live value (List.mem_singleton.mpr rfl))
        fun _ member => absurd member List.not_mem_nil
  | newLiteral literal =>
      apply balanced_of_onlyAdds (.newLiteral literal) rfl rfl balanced
      exact Heap.Balanced.newLiteral balanced literal
  | newCollection values =>
      apply balanced_of_onlyAdds (.newCollection values) rfl rfl balanced
      exact Heap.Balanced.newCollection balanced values allows.live
  | newRecord typeName names =>
      apply balanced_of_onlyAdds (.newRecord typeName names) rfl rfl balanced
      exact Heap.Balanced.newRecord balanced typeName names
  | primitive name arguments =>
      apply balanced_of_onlyAdds (.primitive name arguments) rfl rfl balanced
      exact Heap.Balanced.call_standard balanced name arguments
  | replaceValue address value => exact balanced_update balanced _ trivial rfl allows
  | setElement address index value => exact balanced_update balanced _ trivial rfl allows
  | append address value => exact balanced_update balanced _ trivial rfl allows
  | setField address name value => exact balanced_update balanced _ trivial rfl allows
  | bindField address name target => exact balanced_update balanced _ trivial rfl allows
  | addReference address => exact balanced_addReference balanced address
  | removeReference address =>
      exact balanced_removeReference balanced address (allows.held address rfl)
  | bind name address isGlobal => exact balanced_bind balanced name address isGlobal
  | pushScope => exact balanced
  | popScope => exact balanced_popScope balanced
  | clear => exact balanced_clear balanced
  | sweep => exact Heap.Balanced.sweep balanced
  | sweepIfDue => exact Heap.Balanced.sweepIfDue balanced
  | setValue address value => exact absurd trivial allows.notRaw
  | addReferenceFrom address parent => exact absurd trivial allows.notRaw
  | removeReferenceFrom address parent => exact absurd trivial allows.notRaw

theorem Disciplined.balanced {limits : Limits} (disciplined : Disciplined limits session) :
    session.Balanced := by
  induction disciplined with
  | start => exact balanced_start limits
  | call call _ allows ih => exact balanced_after ih call allows

/-- In every state that a disciplined caller can arrive at, nothing live owns anything dead,
nothing owns itself, and the count of each cell is the number of paths to it from all
bindings and holds. -/
theorem Disciplined.counts_are_path_counts {limits : Limits}
    (disciplined : Disciplined limits session) :
    Closed session.store.heap.links ∧ Acyclic session.store.heap.links ∧
      ∀ address cell, session.store.heap.cell? address = some cell →
        cell.references.toNat =
          pathsFrom session.store.heap.links session.roots address := by
  have balanced := disciplined.balanced
  exact ⟨balanced.closed, acyclic_of_founded balanced.founded, balanced.counted⟩

theorem allows_newCell (session : Session) (value : Value)
    (names : session.store.heap.Names value) : session.Allows (.newCell value) where
  notRaw := id
  live := Call.names_of_stored names rfl
  held := by
    intro address same
    cases same
  fits := False.elim

/-- A call that stores no value, lets nothing go and replaces nothing asks for nothing. -/
theorem allows_plain (session : Session) (call : Call) (notRaw : ¬ call.IsRaw)
    (stores : call.stored = []) (keeps : ∀ address, call ≠ .removeReference address)
    (notReplacing : ¬ call.Replaces) : session.Allows call where
  notRaw := notRaw
  live := by
    rw [stores]
    exact fun _ member => absurd member List.not_mem_nil
  held := fun address same => absurd same (keeps address)
  fits := fun replaces => absurd replaces notReplacing

theorem allows_bind (session : Session) (name : String) (address : Address)
    (isGlobal : Bool) : session.Allows (.bind name address isGlobal) :=
  allows_plain session _ id rfl (fun _ same => by cases same) id

/-- A bound record whose two fields name one cell, which is bound as well: three paths lead
to that cell. -/
theorem counts_are_path_counts_shared :
    let pair := Value.record ⟨"Pair", [⟨"left", ⟨0⟩⟩, ⟨"right", ⟨0⟩⟩]⟩
    let session := ((((Session.start {}).after (.newCell .null)).after (.newCell pair)).after
      (.bind "pair" ⟨1⟩ true)).after (.bind "shared" ⟨0⟩ true)
    Disciplined {} session ∧ Acyclic session.store.heap.links ∧
      pathsFrom session.store.heap.links session.roots ⟨0⟩ = 3 := by
  intro pair session
  have first : Disciplined {} ((Session.start {}).after (.newCell .null)) :=
    .call _ .start (allows_newCell _ .null fun _ named => absurd named List.not_mem_nil)
  have second := first.call (.newCell pair) (allows_newCell _ pair (by
    intro child named
    have same : child = ⟨0⟩ := by
      simpa only [pair, Value.children, List.map, List.mem_cons, List.not_mem_nil, or_false,
        or_self] using named
    rw [same]
    exact ⟨_, rfl⟩))
  have third := second.call _ (allows_bind _ "pair" ⟨1⟩ true)
  have fourth : Disciplined {} session := third.call _ (allows_bind _ "shared" ⟨0⟩ true)
  have counted : (session.store.heap.cell? ⟨0⟩).map Cell.references = some 3 := by
    decide +kernel
  obtain ⟨cell, found, three⟩ := Option.map_eq_some_iff.mp counted
  obtain ⟨_, acyclic, exact'⟩ := fourth.counts_are_path_counts
  refine ⟨fourth, acyclic, ?_⟩
  rw [← exact' ⟨0⟩ cell found, three]
  rfl

end ScriptCore.Session
