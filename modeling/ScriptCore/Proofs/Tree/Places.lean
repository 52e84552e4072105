import Mathlib.Data.List.FinRange
import Mathlib.Order.SupIndep
import ScriptCore.Tree.Basic

set_option autoImplicit false

/-! The places at which a tree owns other trees directly: one for each tree that stands in it,
in a name of it, or in a branch of it. The list of children holds what is at each place, and
nothing else. -/

namespace ScriptCore

/-! ### Places -/

inductive Path.Place : Path → Node → Type where
  | step (name : String) (steps : List Node) (index : Fin steps.length) :
      Place (.stepped name steps) steps[index]

inductive Branch.Place : Branch → Node → Type where
  | condition (condition : Node) (body : List Node) (next : Branch) :
      Place (.elif condition body next) condition
  | body (condition : Node) (body : List Node) (next : Branch) (index : Fin body.length) :
      Place (.elif condition body next) body[index]
  | later (condition : Node) (body : List Node) {next : Branch} {child : Node}
      (place : Place next child) : Place (.elif condition body next) child
  | otherwise (body : List Node) (index : Fin body.length) : Place (.otherwise body) body[index]

inductive Node.Place : Node → Node → Type where
  | identifier {path : Path} {child : Node} (place : path.Place child) :
      Place (.identifier path) child
  | assigned {path : Path} {child : Node} (value : Node) (isGlobal : Bool)
      (place : path.Place child) : Place (.assignment path value isGlobal) child
  | assignedValue (path : Path) (value : Node) (isGlobal : Bool) :
      Place (.assignment path value isGlobal) value
  | called {path : Path} {child : Node} (arguments : List Node) (place : path.Place child) :
      Place (.call path arguments) child
  | argument (path : Path) (arguments : List Node) (index : Fin arguments.length) :
      Place (.call path arguments) arguments[index]
  | function {path : Path} {child : Node} (parameters body : List Node)
      (place : path.Place child) : Place (.functionDefinition path parameters body) child
  | parameter (path : Path) (parameters body : List Node) (index : Fin parameters.length) :
      Place (.functionDefinition path parameters body) parameters[index]
  | functionBody (path : Path) (parameters body : List Node) (index : Fin body.length) :
      Place (.functionDefinition path parameters body) body[index]
  | struct {path : Path} {child : Node} (properties : List Node) (place : path.Place child) :
      Place (.structDefinition path properties) child
  | structProperty (path : Path) (properties : List Node) (index : Fin properties.length) :
      Place (.structDefinition path properties) properties[index]
  | position (position : Node) : Place (.indexer position) position
  | operand (operator : Terminal) (operand : Node) : Place (.unary operator operand) operand
  | left (operator : Terminal) (left right : Node) : Place (.binary operator left right) left
  | right (operator : Terminal) (left right : Node) : Place (.binary operator left right) right
  | condition (condition : Node) (body : List Node) (branch : Branch) :
      Place (.conditional condition body branch) condition
  | conditionalBody (condition : Node) (body : List Node) (branch : Branch)
      (index : Fin body.length) : Place (.conditional condition body branch) body[index]
  | branch (condition : Node) (body : List Node) {branch : Branch} {child : Node}
      (place : branch.Place child) : Place (.conditional condition body branch) child
  | whileCondition (condition : Node) (body : List Node) :
      Place (.whileLoop condition body) condition
  | whileBody (condition : Node) (body : List Node) (index : Fin body.length) :
      Place (.whileLoop condition body) body[index]
  | iterable (iterable : Node) (iterator : Path) (body : List Node) :
      Place (.forLoop iterable iterator body) iterable
  | iterator (iterable : Node) {iterator : Path} {child : Node} (body : List Node)
      (place : iterator.Place child) : Place (.forLoop iterable iterator body) child
  | forBody (iterable : Node) (iterator : Path) (body : List Node) (index : Fin body.length) :
      Place (.forLoop iterable iterator body) body[index]
  | newStruct {path : Path} {child : Node} (place : path.Place child) :
      Place (.newStruct path) child
  | element (elements : List Node) (index : Fin elements.length) :
      Place (.newArray elements) elements[index]
  | result (value : Node) : Place (.result (some value)) value
  | reference (value : Node) : Place (.reference value) value

/-! ### All places in order -/

/-- A tree and a place at which it is owned. -/
abbrev Placed (Place : Node → Type) : Type := (child : Node) × Place child

/-- Each tree of a list at its place. -/
def placeEach {Place : Node → Type} (nodes : List Node)
    (place : (index : Fin nodes.length) → Place nodes[index]) : List (Placed Place) :=
  List.ofFn fun index => ⟨nodes[index], place index⟩

/-- The same trees at places of what the owner is part of. -/
def placeIn {Inner Outer : Node → Type} (lift : {child : Node} → Inner child → Outer child)
    (places : List (Placed Inner)) : List (Placed Outer) :=
  places.map fun placed => ⟨placed.1, lift placed.2⟩

def Path.places : (path : Path) → List (Placed path.Place)
  | .bare _ => []
  | .stepped name steps => placeEach steps (.step name steps)

def Branch.places : (branch : Branch) → List (Placed branch.Place)
  | .absent => []
  | .elif condition body next =>
      ⟨condition, .condition condition body next⟩ ::
        placeEach body (.body condition body next) ++ placeIn (.later condition body) next.places
  | .otherwise body => placeEach body (.otherwise body)

def Node.places : (node : Node) → List (Placed node.Place)
  | .literal _ | .property _ | .importFile _ => []
  | .identifier path => placeIn .identifier path.places
  | .newStruct path => placeIn .newStruct path.places
  | .assignment path value isGlobal =>
      placeIn (.assigned value isGlobal) path.places ++
        [⟨value, .assignedValue path value isGlobal⟩]
  | .call path arguments =>
      placeIn (.called arguments) path.places ++ placeEach arguments (.argument path arguments)
  | .functionDefinition path parameters body =>
      placeIn (.function parameters body) path.places ++
        placeEach parameters (.parameter path parameters body) ++
        placeEach body (.functionBody path parameters body)
  | .structDefinition path properties =>
      placeIn (.struct properties) path.places ++
        placeEach properties (.structProperty path properties)
  | .indexer position => [⟨position, .position position⟩]
  | .unary operator operand => [⟨operand, .operand operator operand⟩]
  | .binary operator left right =>
      [⟨left, .left operator left right⟩, ⟨right, .right operator left right⟩]
  | .conditional condition body branch =>
      ⟨condition, .condition condition body branch⟩ ::
        placeEach body (.conditionalBody condition body branch) ++
        placeIn (.branch condition body) branch.places
  | .whileLoop condition body =>
      ⟨condition, .whileCondition condition body⟩ :: placeEach body (.whileBody condition body)
  | .forLoop iterable iterator body =>
      ⟨iterable, .iterable iterable iterator body⟩ ::
        placeIn (.iterator iterable body) iterator.places ++
        placeEach body (.forBody iterable iterator body)
  | .newArray elements => placeEach elements (.element elements)
  | .result none => []
  | .result (some value) => [⟨value, .result value⟩]
  | .reference value => [⟨value, .reference value⟩]

section Each

variable {Place Outer : Node → Type}

@[simp] theorem map_fst_placeEach (nodes : List Node)
    (place : (index : Fin nodes.length) → Place nodes[index]) :
    (placeEach nodes place).map Sigma.fst = nodes := by
  rw [placeEach, List.map_ofFn]
  exact List.ofFn_getElem

@[simp] theorem map_fst_placeIn (lift : {child : Node} → Place child → Outer child)
    (places : List (Placed Place)) :
    (placeIn lift places).map Sigma.fst = places.map Sigma.fst := by
  rw [placeIn, List.map_map]
  rfl

theorem mem_placeEach_iff {nodes : List Node}
    {place : (index : Fin nodes.length) → Place nodes[index]} {placed : Placed Place} :
    placed ∈ placeEach nodes place ↔ ∃ index, ⟨nodes[index], place index⟩ = placed :=
  List.mem_ofFn

theorem mem_placeIn_iff {lift : {child : Node} → Place child → Outer child}
    {places : List (Placed Place)} {placed : Placed Outer} :
    placed ∈ placeIn lift places ↔ ∃ inner, inner ∈ places ∧ ⟨inner.1, lift inner.2⟩ = placed :=
  List.mem_map

theorem nodup_placeEach (nodes : List Node)
    (place : (index : Fin nodes.length) → Place nodes[index])
    (apart : ∀ first second, (⟨nodes[first], place first⟩ : Placed Place) =
      ⟨nodes[second], place second⟩ → first = second) :
    (placeEach nodes place).Nodup :=
  List.nodup_ofFn.mpr fun first second same => apart first second same

theorem nodup_placeIn (lift : {child : Node} → Place child → Outer child)
    {places : List (Placed Place)} (distinct : places.Nodup)
    (apart : ∀ first second : Placed Place, (⟨first.1, lift first.2⟩ : Placed Outer) =
      ⟨second.1, lift second.2⟩ → first = second) :
    (placeIn lift places).Nodup :=
  distinct.map fun first second same => apart first second same

end Each

/-! ### What is placed -/

theorem Path.map_fst_places (path : Path) : path.places.map Sigma.fst = path.steps := by
  cases path with
  | bare name => rfl
  | stepped name steps => exact map_fst_placeEach steps _

theorem Branch.map_fst_places :
    (branch : Branch) → branch.places.map Sigma.fst = branch.children
  | .absent => rfl
  | .elif condition body next => by
      have later := Branch.map_fst_places next
      simp [Branch.places, Branch.children, later]
  | .otherwise body => map_fst_placeEach body _

theorem Node.map_fst_places (node : Node) : node.places.map Sigma.fst = node.children := by
  cases node with
  | result value =>
      cases value with
      | none => rfl
      | some value => rfl
  | _ => simp [Node.places, Node.children, Path.map_fst_places, Branch.map_fst_places]

/-! ### Every place, once -/

theorem Path.mem_places {path : Path} {child : Node} (place : path.Place child) :
    ⟨child, place⟩ ∈ path.places := by
  cases place with
  | step name steps index => exact mem_placeEach_iff.mpr ⟨index, rfl⟩

theorem Branch.mem_places {branch : Branch} {child : Node} (place : branch.Place child) :
    ⟨child, place⟩ ∈ branch.places := by
  induction place with
  | condition condition body next => exact List.mem_cons_self ..
  | body condition body next index =>
      exact List.mem_cons_of_mem _ (List.mem_append_left _ (mem_placeEach_iff.mpr ⟨index, rfl⟩))
  | later condition body place ih =>
      exact List.mem_append_right _ (mem_placeIn_iff.mpr ⟨⟨_, place⟩, ih, rfl⟩)
  | otherwise body index => exact mem_placeEach_iff.mpr ⟨index, rfl⟩

theorem Node.mem_places {node child : Node} (place : node.Place child) :
    ⟨child, place⟩ ∈ node.places := by
  cases place with
  | identifier place | assigned _ _ place | called _ place | function _ _ place
  | struct _ place | iterator _ _ place | newStruct place =>
      have inName := Path.mem_places place
      grind [Node.places, mem_placeIn_iff]
  | branch _ _ place =>
      have inBranch := Branch.mem_places place
      grind [Node.places, mem_placeIn_iff]
  | _ => grind [Node.places, mem_placeEach_iff]

/-! ### No place twice -/

theorem Path.nodup_places (path : Path) : path.places.Nodup := by
  cases path with
  | bare name => exact List.nodup_nil
  | stepped name steps => exact nodup_placeEach steps _ (by grind)

theorem Branch.nodup_places : (branch : Branch) → branch.places.Nodup
  | .absent => List.nodup_nil
  | .elif condition body next => by
      have inBody := nodup_placeEach body (Place.body condition body next) (by grind)
      have later := nodup_placeIn (Place.later condition body) next.nodup_places (by grind)
      grind [Branch.places, List.nodup_append, mem_placeIn_iff, mem_placeEach_iff]
  | .otherwise body => nodup_placeEach body _ (by grind)

theorem Node.nodup_places (node : Node) : node.places.Nodup := by
  cases node with
  | literal value | property name | importFile file => exact List.nodup_nil
  | identifier path | newStruct path => exact nodup_placeIn _ path.nodup_places (by grind)
  | assignment path value isGlobal =>
      have inName := nodup_placeIn (Place.assigned value isGlobal) path.nodup_places (by grind)
      grind [Node.places, List.nodup_append, mem_placeIn_iff]
  | call path arguments =>
      have inName := nodup_placeIn (Place.called arguments) path.nodup_places (by grind)
      have inList := nodup_placeEach arguments (Place.argument path arguments) (by grind)
      grind [Node.places, List.nodup_append, mem_placeIn_iff, mem_placeEach_iff]
  | functionDefinition path parameters body =>
      have inName := nodup_placeIn (Place.function parameters body) path.nodup_places (by grind)
      have inList := nodup_placeEach parameters (Place.parameter path parameters body) (by grind)
      have inBody := nodup_placeEach body (Place.functionBody path parameters body) (by grind)
      grind [Node.places, List.nodup_append, mem_placeIn_iff, mem_placeEach_iff]
  | structDefinition path properties =>
      have inName := nodup_placeIn (Place.struct properties) path.nodup_places (by grind)
      have inList := nodup_placeEach properties (Place.structProperty path properties) (by grind)
      grind [Node.places, List.nodup_append, mem_placeIn_iff, mem_placeEach_iff]
  | indexer position | unary operator operand | reference value => exact List.nodup_singleton _
  | binary operator left right => grind [Node.places]
  | conditional condition body branch =>
      have inBody := nodup_placeEach body (Place.conditionalBody condition body branch) (by grind)
      have later := nodup_placeIn (Place.branch condition body) branch.nodup_places (by grind)
      grind [Node.places, List.nodup_append, mem_placeIn_iff, mem_placeEach_iff]
  | whileLoop condition body =>
      have inBody := nodup_placeEach body (Place.whileBody condition body) (by grind)
      grind [Node.places, mem_placeEach_iff]
  | forLoop iterable iterator body =>
      have inName := nodup_placeIn (Place.iterator iterable body) iterator.nodup_places (by grind)
      have inBody := nodup_placeEach body (Place.forBody iterable iterator body) (by grind)
      grind [Node.places, List.nodup_append, mem_placeIn_iff, mem_placeEach_iff]
  | newArray elements => exact nodup_placeEach elements _ (by grind)
  | result value =>
      cases value with
      | none => exact List.nodup_nil
      | some value => exact List.nodup_singleton _

end ScriptCore
