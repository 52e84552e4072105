import ScriptCore.Heap.Collection
import ScriptCore.Number.Numeral
import ScriptCore.Number.Reading

set_option autoImplicit false

/-! Primitives: the functions that the language brings along. Each takes values and
answers with a new cell that nothing holds. -/

namespace ScriptCore

/-- A function on values that may use the heap. -/
abbrev Primitive := List Value → HeapM Address

namespace Primitive

open HeapM

/-- The only argument of a function that takes one. -/
def single (name : String) : List Value → Except Fault Value
  | [argument] => .ok argument
  | arguments => .error (.wrongCount name 1 arguments.length)

/-- The code of the argument's kind, as a character. -/
def kindOf : Primitive := fun arguments => do
  let argument ← ask fun _ => single "get_type" arguments
  always (·.allocate (.character (Char.ofNat argument.kind.code)) none)

private def numberArgument (arguments : List Value) : Except Fault Float := do
  match ← single "to_string" arguments with
  | .number value => .ok value
  | other => .error (.wrongKind "to_string" .number other.kind)

/-- A number as text with six decimal places. -/
def textOfNumber : Primitive := fun arguments => do
  let value ← ask fun _ => numberArgument arguments
  always (·.newText (Number.writeFixed 6 (.ofFloat value)))

/-- The characters of a chain up to the first cell that holds none. -/
def leadingText (heap : Heap) (chain : List Address) : List Char :=
  ((chain.map fun address => (heap.cell? address).bind (·.value.character?)).takeWhile
    Option.isSome).filterMap id

private def textArgument (arguments : List Value) (heap : Heap) :
    Except Fault (List Char) := do
  match ← single "to_numerical" arguments with
  | .collection first => return leadingText heap (← heap.chain first)
  | other => .error (.wrongKind "to_numerical" .collection other.kind)

/-- The number that a collection of characters begins with. -/
def numberOfText : Primitive := fun arguments => do
  let text ← ask (textArgument arguments)
  always (·.allocate (.number (Number.read text).toFloat) none)

theorem numberOfText_of_chain_ok {heap : Heap} {first : Option Address}
    {elements : List Address} (walked : heap.chain first = .ok elements) :
    numberOfText [.collection first] heap =
      let number : Value := .number (Number.read (leadingText heap elements)).toFloat
      .ok (heap.allocate number none).1 (heap.allocate number none).2 := by
  simp only [numberOfText, textArgument, single, ask, always, bind, EStateM.bind, Except.bind,
    walked, pure, Except.pure]

theorem numberOfText_of_chain_error {heap : Heap} {first : Option Address} {fault : Fault}
    (failed : heap.chain first = .error fault) :
    numberOfText [.collection first] heap = .error fault heap := by
  simp only [numberOfText, textArgument, single, ask, bind, EStateM.bind, Except.bind, failed]

/-- Other arguments are refused before anything is walked. -/
theorem numberOfText_of_no_collection (heap : Heap) {arguments : List Value}
    (other : ∀ first, arguments ≠ [.collection first]) :
    numberOfText arguments heap = .error (.wrongCount "to_numerical" 1 arguments.length) heap ∨
      ∃ given, numberOfText arguments heap =
        .error (.wrongKind "to_numerical" .collection given) heap := by
  cases arguments with
  | nil => exact Or.inl rfl
  | cons argument rest =>
      cases rest with
      | cons second rest => exact Or.inl rfl
      | nil =>
          right
          cases argument with
          | collection first => exact absurd rfl (other first)
          | null => exact ⟨.null, rfl⟩
          | number value => exact ⟨.number, rfl⟩
          | character value => exact ⟨.character, rfl⟩
          | record value => exact ⟨.record, rfl⟩

end Primitive

/-- Primitives by name. -/
abbrev Catalogue := List (String × Primitive)

namespace Catalogue

def empty : Catalogue := []

/-- Adds a primitive; a name that is taken goes over to it. -/
def register (catalogue : Catalogue) (name : String) (primitive : Primitive) : Catalogue :=
  (name, primitive) :: catalogue

def contains (catalogue : Catalogue) (name : String) : Bool := (catalogue.lookup name).isSome

def standard : Catalogue :=
  [("get_type", Primitive.kindOf), ("to_string", Primitive.textOfNumber),
    ("to_numerical", Primitive.numberOfText)]

def call (catalogue : Catalogue) (name : String) (arguments : List Value) : HeapM Address :=
  match catalogue.lookup name with
  | some primitive => primitive arguments
  | none => HeapM.ask fun _ => .error (.undefinedFunction name)

theorem call_to_numerical : standard.call "to_numerical" = Primitive.numberOfText := rfl

end Catalogue
end ScriptCore
