set_option autoImplicit false

/-! Values and the cells that hold them. A value names other cells by address only,
so copying a value shares what it names. -/

namespace ScriptCore

/-- The place of a cell in the heap. -/
structure Address where
  index : Nat
  deriving DecidableEq, Repr

namespace Address

def display (address : Address) : String :=
  "ApartmentId(" ++ toString address.index ++ ")"

end Address

/-- The kinds of values. -/
inductive Kind where
  | null | number | character | collection | record
  deriving DecidableEq, Repr

namespace Kind

/-- The code by which a program tells kinds apart. -/
def code : Kind → Nat
  | .null => 0
  | .number => 1
  | .character => 2
  | .collection => 3
  | .record => 4

def name : Kind → String
  | .null => "null"
  | .number => "numerical"
  | .character => "character"
  | .collection => "collection"
  | .record => "struct instance"

end Kind

/-- A named field of a record and the cell that holds its value. -/
structure Field where
  name : String
  address : Address
  deriving DecidableEq, Repr

/-- An instance of a struct: its type and its fields in order. -/
structure Record where
  typeName : String
  fields : List Field
  deriving DecidableEq, Repr

namespace Record

/-- The cell behind the first field of the given name. -/
def field? (record : Record) (name : String) : Option Address :=
  (record.fields.find? fun field => field.name == name).map Field.address

private def rebindFirst (name : String) (address : Address) : List Field → List Field
  | [] => []
  | field :: rest =>
      if field.name == name then { field with address } :: rest
      else field :: rebindFirst name address rest

/-- Lets the first field of the given name refer to another cell. -/
def rebind (record : Record) (name : String) (address : Address) : Record :=
  { record with fields := rebindFirst name address record.fields }

private theorem rebindFirst_split (name : String) (target previous : Address)
    (fields : List Field)
    (found : (fields.find? fun field => field.name == name).map Field.address = some previous) :
    ∃ earlier field later, fields = earlier ++ field :: later ∧ field.name = name ∧
      field.address = previous ∧ (∀ other, other ∈ earlier → other.name ≠ name) ∧
      rebindFirst name target fields = earlier ++ { field with address := target } :: later := by
  induction fields with
  | nil => cases found
  | cons field rest ih =>
      by_cases same : field.name = name
      · rw [List.find?_cons_of_pos (by simpa using same), Option.map_some] at found
        cases found
        refine ⟨[], field, rest, rfl, same, rfl, fun _ member => absurd member List.not_mem_nil, ?_⟩
        rw [rebindFirst, if_pos (by simpa using same), List.nil_append]
      · rw [List.find?_cons_of_neg (by simpa using same)] at found
        obtain ⟨earlier, chosen, later, split, named, held, others, rebound⟩ := ih found
        refine ⟨field :: earlier, chosen, later, ?_, named, held, ?_, ?_⟩
        · rw [split, List.cons_append]
        · intro other member
          rcases List.mem_cons.mp member with rfl | among
          · exact same
          · exact others other among
        · rw [rebindFirst, if_neg (by simpa using same), rebound, List.cons_append]

/-- Only the first field of the name refers to another cell afterwards. -/
theorem rebind_split (record : Record) (name : String) (target previous : Address)
    (found : record.field? name = some previous) :
    ∃ earlier field later, record.fields = earlier ++ field :: later ∧ field.name = name ∧
      field.address = previous ∧ (∀ other, other ∈ earlier → other.name ≠ name) ∧
      (record.rebind name target).fields =
        earlier ++ { field with address := target } :: later :=
  rebindFirst_split name target previous record.fields found

end Record

/-- A value at run time. -/
inductive Value where
  | null
  | number (value : Float)
  | character (value : Char)
  /-- A collection is known by the cell of its first element, if it has one; each
  element leads to the next. -/
  | collection (first : Option Address)
  | record (value : Record)
  deriving BEq, Repr

namespace Value

def kind : Value → Kind
  | .null => .null
  | .number _ => .number
  | .character _ => .character
  | .collection _ => .collection
  | .record _ => .record

/-- The cells that a value names itself, in order. -/
def children : Value → List Address
  | .null | .number _ | .character _ => []
  | .collection first => first.toList
  | .record value => value.fields.map Field.address

def number? : Value → Option Float
  | .number value => some value
  | _ => none

def character? : Value → Option Char
  | .character value => some value
  | _ => none

end Value

/-- One cell: its value, the element that follows it if it is one of a collection,
and how often it is held. -/
structure Cell where
  value : Value
  next : Option Address
  references : UInt32
  deriving BEq, Repr

namespace Cell

/-- The cells that a cell owns: the one that follows it, then those its value names. -/
def children (cell : Cell) : List Address :=
  cell.next.toList ++ cell.value.children

/-- Whether nothing holds the cell. -/
def isUnheld (cell : Cell) : Bool := cell.references == 0

end Cell
end ScriptCore
