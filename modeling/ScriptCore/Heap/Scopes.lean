import ScriptCore.Heap.Update

set_option autoImplicit false

/-! Names bound to cells. The global table lasts; each call adds a scope of its own, in
which the names of outer calls are not visible. Every binding holds its cell once. -/

namespace ScriptCore

/-- Names and their cells in the order in which the names were first bound. -/
abbrev Table := List (String × Address)

namespace Table

def find? (table : Table) (name : String) : Option Address := table.lookup name

def insert (table : Table) (name : String) (address : Address) : Table :=
  match table with
  | [] => [(name, address)]
  | (bound, old) :: rest =>
      if bound == name then (bound, address) :: rest
      else (bound, old) :: insert rest name address

/-- The cells that are held, once for each name. -/
def held (table : Table) : List Address := table.map Prod.snd

theorem find?_insert (table : Table) (name other : String) (address : Address) :
    (table.insert name address).find? other =
      if other = name then some address else table.find? other := by
  have apart (first second : String) (different : ¬ first = second) :
      (first == second) = false := by simpa using different
  induction table with
  | nil =>
      by_cases same : other = name
      · simp [insert, find?, same]
      · simp [insert, find?, List.lookup_cons, same, apart other name same]
  | cons entry rest inductionHypothesis =>
      obtain ⟨bound, old⟩ := entry
      simp only [find?] at inductionHypothesis ⊢
      by_cases taken : bound = name
      · subst taken
        by_cases same : other = bound
        · simp [insert, same]
        · simp [insert, List.lookup_cons, same, apart other bound same]
      · by_cases here : other = bound
        · subst here
          simp [insert, taken]
        · simp [insert, List.lookup_cons, apart other bound here, apart bound name taken,
            inductionHypothesis]

end Table

/-- The tables of names, the innermost scope first. -/
structure Scopes where
  globals : Table
  locals : List Table
  deriving Repr

namespace Scopes

def empty : Scopes := ⟨[], []⟩

def depth (scopes : Scopes) : Nat := scopes.locals.length

def push (scopes : Scopes) : Scopes := { scopes with locals := [] :: scopes.locals }

/-- A name of the innermost scope, or else a global one. -/
def lookup (scopes : Scopes) (name : String) : Option Address :=
  match scopes.locals.head?.bind (·.find? name) with
  | some address => some address
  | none => scopes.globals.find? name

/-- The cell of a name, which has to be bound. -/
def cellOf (scopes : Scopes) (name : String) : Except Fault Address :=
  match scopes.lookup name with
  | some address => .ok address
  | none => .error (.undefinedVariable name)

/-- Binds a name in the innermost scope, or in the global table if there is no scope or
it is asked for. The cell that the table had for the name comes along. -/
def insert (scopes : Scopes) (name : String) (address : Address) (isGlobal : Bool) :
    Option Address × Scopes :=
  match scopes.locals, isGlobal with
  | innermost :: outer, false =>
      (innermost.find? name,
        { scopes with locals := innermost.insert name address :: outer })
  | _, _ =>
      (scopes.globals.find? name,
        { scopes with globals := scopes.globals.insert name address })

end Scopes

/-- A heap and the names bound to its cells. -/
structure Store where
  heap : Heap
  scopes : Scopes

/-- Work on a store. A fault comes with the store as it was left. -/
abbrev StoreM := EStateM Fault Store

namespace StoreM

/-- Work on the heap alone. -/
def onHeap {α : Type} (work : HeapM α) : StoreM α := fun store =>
  match work store.heap with
  | .ok answer heap => .ok answer { store with heap }
  | .error fault heap => .error fault { store with heap }

/-- A change of the names alone. -/
def onScopes {α : Type} (change : Scopes → α × Scopes) : StoreM α := fun store =>
  let (answer, scopes) := change store.scopes
  .ok answer { store with scopes }

end StoreM

namespace Store

open StoreM

def empty (limits : Limits) : Store := ⟨.empty limits, .empty⟩

/-- Lets every cell of a list go once, in order. -/
def releaseAll (held : List Address) : StoreM Unit :=
  held.forM fun address => onHeap (.change (·.removeReference address))

/-- Binds a name. The new cell is held before the old one is let go, so a cell that
stays bound is held throughout. -/
def bind (name : String) (address : Address) (isGlobal : Bool) : StoreM Unit := do
  onHeap (.change (·.addReference address))
  let previous ← onScopes (·.insert name address isGlobal)
  releaseAll previous.toList

def pushScope : StoreM Unit := onScopes fun scopes => ((), scopes.push)

/-- Drops the innermost scope, if there is one, and lets its cells go. -/
def popScope : StoreM Unit := do
  let held ← onScopes fun scopes =>
    (scopes.locals.head?.toList.flatMap Table.held,
      { scopes with locals := scopes.locals.tail })
  releaseAll held

/-- Drops every scope and then the global table. -/
def clear : StoreM Unit := do
  let depth := (← get).scopes.depth
  (List.replicate depth ()).forM fun _ => popScope
  let held ← onScopes fun scopes => (scopes.globals.held, { scopes with globals := [] })
  releaseAll held

end Store
end ScriptCore
