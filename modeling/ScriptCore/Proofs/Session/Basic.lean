import ScriptCore.Heap.Primitive
import ScriptCore.Heap.Record
import ScriptCore.Proofs.Accounts.Bindings
import ScriptCore.Proofs.Accounts.Replacement

set_option autoImplicit false

/-! Sessions: calls on a store, one after the other, by a caller who remembers what it
holds. A disciplined caller stores values that name live cells, lets go only what it holds,
leaves the raw calls alone and stops replacing once counts have overflowed. -/

namespace ScriptCore

open Links

/-- The calls that change a store. -/
inductive Call where
  | newCell (value : Value)
  | newLiteral (literal : Literal)
  | newCollection (values : List Value)
  | newRecord (typeName : String) (names : List String)
  | primitive (name : String) (arguments : List Value)
  | replaceValue (address : Address) (value : Value)
  | setElement (address : Address) (index : Nat) (value : Value)
  | append (address : Address) (value : Value)
  | setField (address : Address) (name : String) (value : Value)
  | bindField (address : Address) (name : String) (target : Address)
  | addReference (address : Address)
  | removeReference (address : Address)
  | bind (name : String) (address : Address) (isGlobal : Bool)
  | pushScope
  | popScope
  | clear
  | sweep
  | sweepIfDue
  | setValue (address : Address) (value : Value)
  | addReferenceFrom (address parent : Address)
  | removeReferenceFrom (address parent : Address)

namespace Call

/-- Work on the heap whose answer is not needed. -/
def quietly {Answer : Type} (work : HeapM Answer) : StoreM Unit :=
  StoreM.onHeap work >>= fun _ => pure ()

def perform : Call → StoreM Unit
  | .newCell value => quietly (.always (·.allocate value none))
  | .newLiteral literal => quietly (.always (·.newLiteral literal))
  | .newCollection values => quietly (.always (·.newCollection values))
  | .newRecord typeName names => quietly (.always (·.newRecord typeName names))
  | .primitive name arguments => quietly (Catalogue.standard.call name arguments)
  | .replaceValue address value => quietly (Heap.replaceValue address value)
  | .setElement address index value => quietly (Heap.setElement address index value)
  | .append address value => quietly (Heap.append address value)
  | .setField address name value => quietly (Heap.setField address name value)
  | .bindField address name target => quietly (Heap.bindField address name target)
  | .addReference address => quietly (.change (·.addReference address))
  | .removeReference address => quietly (.change (·.removeReference address))
  | .bind name address isGlobal => Store.bind name address isGlobal
  | .pushScope => Store.pushScope
  | .popScope => Store.popScope
  | .clear => Store.clear
  | .sweep => quietly (.always Heap.sweep)
  | .sweepIfDue => quietly (.always Heap.sweepIfDue)
  | .setValue address value => quietly (.change (·.setValue address value))
  | .addReferenceFrom address parent => quietly (.change (·.addReferenceFrom address parent))
  | .removeReferenceFrom address parent =>
      quietly (.change (·.removeReferenceFrom address parent))

/-- The values that a call puts into cells as they are given. -/
def stored : Call → List Value
  | .newCell value | .replaceValue _ value | .setElement _ _ value | .append _ value
  | .setField _ _ value | .setValue _ value => [value]
  | .newCollection values => values
  | _ => []

theorem names_of_stored {heap : Heap} {call : Call} {value : Value} (names : heap.Names value)
    (stores : call.stored = [value]) (other : Value) (member : other ∈ call.stored) :
    heap.Names other := by
  rw [stores, List.mem_singleton] at member
  rw [member]
  exact names

/-- The calls that give a cell other children. -/
def Replaces : Call → Prop
  | .replaceValue _ _ | .setElement _ _ _ | .append _ _ | .setField _ _ _
  | .bindField _ _ _ => True
  | _ => False

/-- The calls that leave it to the caller to keep counts right. -/
def IsRaw : Call → Prop
  | .setValue _ _ | .addReferenceFrom _ _ | .removeReferenceFrom _ _ => True
  | _ => False

/-- What the caller holds after a call that succeeded. -/
def holdsAfter (holds : List Address) : Call → List Address
  | .addReference address => address :: holds
  | .removeReference address => holds.erase address
  | _ => holds

end Call

/-- A store, and the cells that the caller has asked to hold and has not let go. -/
structure Session where
  store : Store
  holds : List Address

namespace Session

def start (limits : Limits) : Session := ⟨.empty limits, []⟩

/-- What holds cells from outside the heap: every binding and every hold of the caller. -/
def roots (session : Session) : List Address := session.store.scopes.held ++ session.holds

/-- A call that fails leaves the store as its fault left it, and no other holds. -/
def after (session : Session) (call : Call) : Session :=
  match call.perform session.store with
  | .ok _ store => ⟨store, call.holdsAfter session.holds⟩
  | .error _ store => ⟨store, session.holds⟩

/-- What is asked of a caller before and after one call. -/
structure Allows (session : Session) (call : Call) : Prop where
  notRaw : ¬ call.IsRaw
  live : ∀ value, value ∈ call.stored → session.store.heap.Names value
  held : ∀ address, call = .removeReference address → address ∈ session.holds
  fits : call.Replaces → ∀ fault store, call.perform session.store = .error fault store →
    ¬ fault.Overflows

/-- The sessions that a disciplined caller can arrive at. -/
inductive Disciplined (limits : Limits) : Session → Prop where
  | start : Disciplined limits (.start limits)
  | call {session : Session} (call : Call) (disciplined : Disciplined limits session)
      (allows : session.Allows call) : Disciplined limits (session.after call)

end Session
end ScriptCore
