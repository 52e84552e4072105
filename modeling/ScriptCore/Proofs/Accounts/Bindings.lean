import ScriptCore.Proofs.Accounts.Balanced
import ScriptCore.Proofs.Heap.Work

set_option autoImplicit false

/-! Bindings are roots. Binding a name and dropping scopes change the roots and the counts
together, and letting bindings go cannot fail, in whichever order they are met. -/

namespace ScriptCore

open Links

theorem Table.held_insert_perm (table : Table) (name : String) (address : Address) :
    ((table.find? name).toList ++ (table.insert name address).held).Perm
      (address :: table.held) := by
  induction table with
  | nil => exact List.Perm.refl _
  | cons entry rest ih =>
      obtain ⟨bound, old⟩ := entry
      by_cases same : bound = name
      · subst same
        simp only [find?, List.lookup_cons_self, insert, BEq.rfl, if_true]
        exact List.Perm.swap address old (Table.held rest)
      · have apart : (bound == name) = false := beq_false_of_ne same
        have apart' : (name == bound) = false := beq_false_of_ne (Ne.symm same)
        simp only [find?, List.lookup_cons, apart', insert, apart]
        have later := (ih.cons old).trans (List.Perm.swap address old (Table.held rest))
        exact List.perm_middle.trans later

namespace Scopes

/-- What the bindings hold, each cell once for every binding. -/
def held (scopes : Scopes) : List Address :=
  scopes.globals.held ++ scopes.locals.flatMap Table.held

/-- What the bindings of the innermost scope hold. -/
def innermost (scopes : Scopes) : List Address :=
  scopes.locals.head?.toList.flatMap Table.held

def outer (scopes : Scopes) : Scopes := { scopes with locals := scopes.locals.tail }

theorem held_split (scopes : Scopes) :
    scopes.held.Perm (scopes.innermost ++ scopes.outer.held) := by
  obtain ⟨globals, locals⟩ := scopes
  cases locals with
  | nil => exact List.Perm.refl _
  | cons first rest =>
      change (globals.held ++ (first.held ++ rest.flatMap Table.held)).Perm
        ((first.held ++ []) ++ (globals.held ++ rest.flatMap Table.held))
      rw [List.append_nil]
      exact List.perm_append_comm_assoc _ _ _

theorem held_insert_perm (scopes : Scopes) (name : String) (address : Address)
    (isGlobal : Bool) :
    ((scopes.insert name address isGlobal).1.toList ++
        (scopes.insert name address isGlobal).2.held).Perm (address :: scopes.held) := by
  obtain ⟨globals, locals⟩ := scopes
  have inGlobals : ((globals.find? name).toList ++
      ((globals.insert name address).held ++ locals.flatMap Table.held)).Perm
        (address :: (globals.held ++ locals.flatMap Table.held)) := by
    rw [← List.append_assoc, ← List.cons_append]
    exact (globals.held_insert_perm name address).append_right _
  cases isGlobal with
  | true =>
      cases locals with
      | nil => exact inGlobals
      | cons innermost outer => exact inGlobals
  | false =>
      cases locals with
      | nil => exact inGlobals
      | cons innermost outer =>
          have inInnermost := (innermost.held_insert_perm name address).append_right
            (outer.flatMap Table.held)
          change ((innermost.find? name).toList ++ (globals.held ++
            ((innermost.insert name address).held ++ outer.flatMap Table.held))).Perm
              (address :: (globals.held ++ (innermost.held ++ outer.flatMap Table.held)))
          rw [List.append_assoc] at inInnermost
          exact (List.perm_append_comm_assoc _ _ _).trans
            ((inInnermost.append_left globals.held).trans List.perm_middle)

end Scopes

/-- In which order the bindings of a table are met. It may depend on all that is bound. -/
structure Enumeration where
  cells : Scopes → Table → List Address
  complete : ∀ scopes table, (cells scopes table).Perm table.held

def Enumeration.listed : Enumeration := ⟨fun _ => Table.held, fun _ _ => List.Perm.refl _⟩

namespace Heap

/-- Roots were let go, and only counts have changed: each is lower by the number of paths from
those roots, and the heap is in order with the remaining ones. -/
structure LetGo (before after : Heap) (released remaining : List Address) : Prop where
  moved : Moved (fun address => -(pathsFrom before.links released address : Int)) before after
  balanced : after.Balanced remaining

namespace LetGo

variable {before middle after : Heap} {released released' remaining remaining' : List Address}

theorem refl (balanced : before.Balanced remaining) : LetGo before before [] remaining where
  moved := (Moved.refl before).congr fun _ => rfl
  balanced := balanced

theorem trans (first : LetGo before middle released remaining)
    (second : LetGo middle after released' remaining') :
    LetGo before after (released ++ released') remaining' where
  moved := by
    apply (first.moved.trans second.moved).congr
    intro address
    rw [first.moved.links_eq, pathsFrom_append]
    omega
  balanced := second.balanced

theorem perm (letGo : LetGo before after released remaining) (same : released.Perm released') :
    LetGo before after released' remaining where
  moved := by
    apply letGo.moved.congr
    intro address
    rw [pathsFrom_perm same]
  balanced := letGo.balanced

theorem unique {after' : Heap} (letGo : LetGo before after released remaining)
    (letGo' : LetGo before after' released remaining') : after = after' :=
  letGo.moved.unique letGo'.moved

end LetGo
end Heap

namespace Store

open Heap StoreM

/-- Drops the innermost scope and lets its cells go as they are enumerated. -/
def popScopeIn (enumeration : Enumeration) : StoreM Unit := do
  let held ← onScopes fun scopes =>
    (scopes.locals.head?.toList.flatMap (enumeration.cells scopes), scopes.outer)
  releaseAll held

/-- Drops every scope and the global table, each enumerated by itself. -/
def clearIn (enumeration : Enumeration) : StoreM Unit := do
  let depth := (← get).scopes.depth
  (List.replicate depth ()).forM fun _ => popScopeIn enumeration
  let held ← onScopes fun scopes =>
    (enumeration.cells scopes scopes.globals, { scopes with globals := [] })
  releaseAll held

theorem popScope_eq : popScope = popScopeIn .listed := rfl

theorem clear_eq : clear = clearIn .listed := rfl

variable {store : Store} {holds : List Address}

theorem releaseAll_letGo (store : Store) (released : List Address) {rest : List Address}
    (balanced : store.heap.Balanced (released ++ rest)) :
    ∃ heap, releaseAll released store = .ok () { store with heap } ∧
      LetGo store.heap heap released rest := by
  unfold releaseAll
  induction released generalizing store with
  | nil => exact ⟨store.heap, rfl, .refl balanced⟩
  | cons first others ih =>
      obtain ⟨middle, removed, moved, remaining⟩ := Balanced.removeReference balanced
      obtain ⟨heap, released, letGo⟩ := ih { store with heap := middle } remaining
      have one : LetGo store.heap middle [first] (others ++ rest) := by
        refine ⟨moved.congr ?_, remaining⟩
        intro address
        rw [pathsFrom_cons, pathsFrom_nil, movement, Adjustment.sign]
        change -1 * ((_ * 1 : Nat) : Int) = _
        omega
      refine ⟨heap, ?_, one.trans letGo⟩
      rw [forM_cons, bind_of_ok (onHeap_of_ok (HeapM.change_of_ok removed))]
      exact released

section Enumerated

variable (enumeration : Enumeration)

theorem popScopeIn_letGo (balanced : store.heap.Balanced (store.scopes.held ++ holds)) :
    ∃ heap, popScopeIn enumeration store = .ok () ⟨heap, store.scopes.outer⟩ ∧
      LetGo store.heap heap store.scopes.innermost (store.scopes.outer.held ++ holds) := by
  have met : (store.scopes.locals.head?.toList.flatMap (enumeration.cells store.scopes)).Perm
      store.scopes.innermost :=
    List.Perm.flatMap_left _ fun table _ => enumeration.complete store.scopes table
  have split := (store.scopes.held_split.trans (met.symm.append_right _)).append_right holds
  rw [List.append_assoc] at split
  obtain ⟨heap, released, letGo⟩ := releaseAll_letGo ⟨store.heap, store.scopes.outer⟩ _
    (balanced.perm split)
  exact ⟨heap, released, letGo.perm met⟩

theorem popScopesIn_letGo (heap : Heap) (globals : Table) (locals : List Table)
    (balanced : heap.Balanced (Scopes.held ⟨globals, locals⟩ ++ holds)) :
    ∃ after, ((List.replicate locals.length ()).forM fun _ => popScopeIn enumeration)
          ⟨heap, ⟨globals, locals⟩⟩ = .ok () ⟨after, ⟨globals, []⟩⟩ ∧
      LetGo heap after (locals.flatMap Table.held) (globals.held ++ holds) := by
  induction locals generalizing heap with
  | nil =>
      simp only [Scopes.held, List.flatMap_nil, List.append_nil] at balanced
      exact ⟨heap, rfl, .refl balanced⟩
  | cons first rest ih =>
      have held : (⟨heap, ⟨globals, first :: rest⟩⟩ : Store).heap.Balanced
        (Scopes.held ⟨globals, first :: rest⟩ ++ holds) := balanced
      obtain ⟨middle, popped, letGo⟩ := popScopeIn_letGo enumeration held
      obtain ⟨after, done, letGo'⟩ := ih middle letGo.balanced
      refine ⟨after, ?_, ?_⟩
      · rw [List.length_cons, List.replicate_succ, forM_cons, bind_of_ok popped]
        exact done
      · have both := letGo.trans letGo'
        change LetGo heap after ((first.held ++ []) ++ rest.flatMap Table.held) _ at both
        rw [List.append_nil] at both
        exact both

theorem clearIn_letGo (balanced : store.heap.Balanced (store.scopes.held ++ holds)) :
    ∃ heap, clearIn enumeration store = .ok () ⟨heap, .empty⟩ ∧
      LetGo store.heap heap store.scopes.held holds := by
  obtain ⟨heap, globals, locals⟩ := store
  obtain ⟨middle, popped, letGo⟩ :=
    popScopesIn_letGo enumeration heap globals locals balanced
  have met := enumeration.complete ⟨globals, []⟩ globals
  obtain ⟨after, released, letGo'⟩ := releaseAll_letGo ⟨middle, .empty⟩ _
    (letGo.balanced.perm (met.symm.append_right holds))
  refine ⟨after, ?_, (letGo.trans (letGo'.perm met)).perm List.perm_append_comm⟩
  unfold clearIn
  change ((List.replicate locals.length ()).forM (fun _ => popScopeIn enumeration) >>= _) _ = _
  rw [bind_of_ok popped]
  exact released

end Enumerated

variable (balanced : store.heap.Balanced (store.scopes.held ++ holds))

include balanced

/-- Once the new cell is held, binding its name cannot fail. -/
theorem bind_letGo (name : String) {address : Address} (isGlobal : Bool) {middle : Heap}
    (added : store.heap.addReference address = .ok middle) :
    ∃ heap, bind name address isGlobal store =
        .ok () ⟨heap, (store.scopes.insert name address isGlobal).2⟩ ∧
      LetGo middle heap (store.scopes.insert name address isGlobal).1.toList
        ((store.scopes.insert name address isGlobal).2.held ++ holds) := by
  have exchanged := (store.scopes.held_insert_perm name address isGlobal).append_right holds
  rw [List.append_assoc] at exchanged
  obtain ⟨heap, released, letGo⟩ := releaseAll_letGo
    ⟨middle, (store.scopes.insert name address isGlobal).2⟩
    (store.scopes.insert name address isGlobal).1.toList
    ((balanced.addReference added).perm exchanged.symm)
  refine ⟨heap, ?_, letGo⟩
  unfold bind
  rw [bind_of_ok (onHeap_of_ok (HeapM.change_of_ok added))]
  exact released

omit balanced in
theorem bind_eq_error (name : String) {address : Address} (isGlobal : Bool) {fault : Fault}
    (failed : store.heap.addReference address = .error fault) :
    bind name address isGlobal store = .error fault store :=
  bind_of_error (onHeap_of_error (HeapM.change_of_error failed))

theorem bind_cases (name : String) (address : Address) (isGlobal : Bool) :
    (∃ after, bind name address isGlobal store = .ok () after ∧
        after.heap.Balanced (after.scopes.held ++ holds)) ∨
      ∃ fault, bind name address isGlobal store = .error fault store := by
  cases added : store.heap.addReference address with
  | ok middle =>
      obtain ⟨heap, bound, letGo⟩ := bind_letGo balanced name isGlobal added
      exact Or.inl ⟨_, bound, letGo.balanced⟩
  | error fault => exact Or.inr ⟨fault, bind_eq_error name isGlobal added⟩

theorem popScope_balanced :
    ∃ heap, popScope store = .ok () ⟨heap, store.scopes.outer⟩ ∧
      heap.Balanced (store.scopes.outer.held ++ holds) := by
  obtain ⟨heap, popped, letGo⟩ := popScopeIn_letGo .listed balanced
  rw [popScope_eq]
  exact ⟨heap, popped, letGo.balanced⟩

theorem clear_balanced :
    ∃ heap, clear store = .ok () ⟨heap, .empty⟩ ∧ heap.Balanced holds := by
  obtain ⟨heap, cleared, letGo⟩ := clearIn_letGo .listed balanced
  rw [clear_eq]
  exact ⟨heap, cleared, letGo.balanced⟩

end Store
end ScriptCore
