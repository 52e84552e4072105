import ScriptCore.Heap.Basic

set_option autoImplicit false

/-! Walks over what cells own. A walk takes the last child first, and so decides which
dead address is reported when there are several. Counting paths is left to the module
on references. -/

namespace ScriptCore.Heap

/-! ### Reaching a cell -/

/-- Whether the target is among the pending cells or below one of them. A cell is
opened once, when it is taken out of the fresh ones; a cell that is live and not
fresh was opened before. -/
def search (links : Address → Option (List Address)) (target : Address)
    (fresh : AddressSet) : List Address → Except Fault Bool
  | [] => .ok false
  | address :: pending =>
      if address = target then .ok true
      else
        match links address with
        | none => .error (.dangling address)
        | some children =>
            if fresh.contains address then
              search links target (fresh.erase address) (children.reverse ++ pending)
            else search links target fresh pending
termination_by pending => (fresh.size, pending.length)
decreasing_by
  · exact Prod.Lex.left _ _ (fresh.size_erase_lt address ‹_›)
  · exact Prod.Lex.right _ (by simp)

/-- Whether `target` is `source` or owned by it over any number of steps. The target
need not be live. -/
def reaches (heap : Heap) (source target : Address) : Except Fault Bool :=
  search heap.links target heap.liveSet [source]

/-- Refuses to put a child into a parent that the child is or contains. -/
def refuseCycle (heap : Heap) (parent child : Address) : Except Fault Unit := do
  if ← heap.reaches child parent then .error (.cycle parent child) else .ok ()

/-! ### Order of ownership -/

/-- Adds a cell and all below it to a list in which every cell stands before those it
owns. The depth of the walk is bounded; a walk that goes deeper meets a cell that
owns itself. -/
def visit (links : Address → Option (List Address)) :
    Nat → List Address → Address → Except Fault (List Address)
  | 0, _, address => .error (.endless address)
  | depth + 1, order, address =>
      if address ∈ order then .ok order
      else
        match links address with
        | none => .error (.dangling address)
        | some children => do
            let below ← children.reverse.foldlM (visit links depth) order
            .ok (address :: below)

/-- A cell and all that it owns, each before those it owns itself. A path without
repetition is no longer than the number of slots. -/
def ownershipOrder (heap : Heap) (root : Address) : Except Fault (List Address) :=
  visit heap.links (heap.slots.size + 1) [] root

/-! ### Chains -/

/-- The cells of a chain from its first one on. -/
def follow (heap : Heap) : Nat → Option Address → Except Fault (List Address)
  | _, none => .ok []
  | 0, some address => .error (.endless address)
  | length + 1, some address => do
      let cell ← heap.cell address
      let rest ← follow heap length cell.next
      .ok (address :: rest)

/-- The elements that start with the given one, if there is one. A chain that does not
repeat itself is no longer than the number of slots. -/
def chain (heap : Heap) (first : Option Address) : Except Fault (List Address) :=
  heap.follow (heap.slots.size + 1) first

end ScriptCore.Heap
