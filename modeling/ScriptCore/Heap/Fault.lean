import ScriptCore.Heap.Value

set_option autoImplicit false

/-! What can go wrong on the heap, and the wording of each report. -/

namespace ScriptCore

inductive Fault where
  /-- More references are released than the cell has. -/
  | underflow (cell : Address) (held : UInt32) (released : Nat)
  /-- The cell would have more references than can be counted. -/
  | overflow (cell : Address) (held : UInt32) (added : Nat)
  /-- The address names no live cell. -/
  | dangling (cell : Address)
  /-- The parent would become its own descendant. -/
  | cycle (parent child : Address)
  /-- The cells below this one go on without end. -/
  | endless (cell : Address)
  | notACollection (found : Kind)
  | notARecord (found : Kind)
  | outOfBounds (index length : Nat)
  | undefinedField (name : String)
  | undefinedVariable (name : String)
  | undefinedFunction (name : String)
  | wrongCount (function : String) (expected given : Nat)
  | wrongKind (function : String) (expected given : Kind)
  deriving DecidableEq, Repr

namespace Fault

/-- Whether the fault lies with the caller's use of the heap and not with the program
that is run. -/
def breaksContract : Fault → Bool
  | .underflow _ _ _ | .overflow _ _ _ | .dangling _ | .cycle _ _ | .endless _ => true
  | _ => false

def message : Fault → String
  | .underflow cell held released =>
      s!"internal error: released {released} references from {cell.display}, which holds {held}"
  | .overflow cell held added =>
      s!"internal error: adding {added} references to {cell.display}, which holds {held}, " ++
        "overflows its count"
  | .dangling cell => s!"internal error: {cell.display} is not a live apartment"
  | .cycle parent child =>
      s!"cannot store {child.display} inside {parent.display}: it already contains it"
  | .endless cell => s!"internal error: what {cell.display} contains has no end"
  | .notACollection found => s!"expected a collection, got {found.name}"
  | .notARecord found => s!"expected a struct instance, got {found.name}"
  | .outOfBounds index length => s!"index {index} out of bounds for length {length}"
  | .undefinedField name => "no field `" ++ name ++ "` on struct"
  | .undefinedVariable name => s!"undefined variable: {name}"
  | .undefinedFunction name => s!"undefined function: {name}"
  | .wrongCount function expected given =>
      s!"{function} expects {expected} " ++
        (if expected = 1 then "argument" else "arguments") ++ s!", got {given}"
  | .wrongKind function expected given =>
      s!"{function} expects a {expected.name}, got {given.name}"

end Fault
end ScriptCore
