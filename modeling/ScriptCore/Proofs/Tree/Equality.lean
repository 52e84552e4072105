import Mathlib
import ScriptCore.Tree.Forest

set_option autoImplicit false

/-! What equality of trees decides: two trees are equal exactly when they are the same apart from
their numbers, and their numbers compare equal one by one. Nothing else of a node may differ, so
that trees without numbers are equal only when they are the same tree. -/

namespace ScriptCore

/-! ### Numbers that compare equal -/

/-- Two numbers that compare equal. -/
def Number.Equals (first second : Float) : Prop := (first == second) = true

namespace Number

theorem equals_self_iff (value : Float) : Equals value value ↔ value.isNaN = false := by
  rw [Equals, Float.beq_self_iff, Float.isNaN_eq_decide_eq_nan, decide_eq_false_iff_not]

theorem forall₂_trans {first second third : List Float}
    (equal : List.Forall₂ Equals first second) (next : List.Forall₂ Equals second third) :
    List.Forall₂ Equals first third := by
  induction equal generalizing third with
  | nil => exact next
  | cons head _ ih =>
      cases next with
      | cons head' next => exact .cons (BEq.trans head head') (ih next)

end Number

/-! ### Trees without their numbers -/

/-- A literal with zero in the place of its number. -/
def Literal.blank : Literal → Literal
  | .number _ => .number 0
  | other => other

def Literal.numbers : Literal → List Float
  | .number value => [value]
  | _ => []

mutual

/-- A tree with zero in the place of each number. -/
def Node.blank : Node → Node
  | .literal value => .literal value.blank
  | .identifier path => .identifier path.blank
  | .assignment path value isGlobal => .assignment path.blank value.blank isGlobal
  | .call path arguments => .call path.blank (Node.blankAll arguments)
  | .functionDefinition path parameters body =>
      .functionDefinition path.blank (Node.blankAll parameters) (Node.blankAll body)
  | .structDefinition path properties => .structDefinition path.blank (Node.blankAll properties)
  | .property name => .property name
  | .indexer position => .indexer position.blank
  | .unary operator operand => .unary operator operand.blank
  | .binary operator left right => .binary operator left.blank right.blank
  | .conditional condition body branch =>
      .conditional condition.blank (Node.blankAll body) branch.blank
  | .whileLoop condition body => .whileLoop condition.blank (Node.blankAll body)
  | .forLoop iterable iterator body =>
      .forLoop iterable.blank iterator.blank (Node.blankAll body)
  | .newStruct path => .newStruct path.blank
  | .newArray elements => .newArray (Node.blankAll elements)
  | .result none => .result none
  | .result (some value) => .result (some value.blank)
  | .reference value => .reference value.blank
  | .importFile file => .importFile file

def Path.blank : Path → Path
  | .bare name => .bare name
  | .stepped name steps => .stepped name (Node.blankAll steps)

def Branch.blank : Branch → Branch
  | .absent => .absent
  | .elif condition body next => .elif condition.blank (Node.blankAll body) next.blank
  | .otherwise body => .otherwise (Node.blankAll body)

def Node.blankAll : List Node → List Node
  | [] => []
  | node :: rest => node.blank :: Node.blankAll rest

end

mutual

/-- The numbers in a tree from the first to the last, also those in the steps of names, in bodies
and in branches. -/
def Node.numbers : Node → List Float
  | .literal value => value.numbers
  | .property _ | .importFile _ => []
  | .identifier path | .newStruct path => path.numbers
  | .assignment path value _ => path.numbers ++ value.numbers
  | .call path arguments => path.numbers ++ Node.numbersAll arguments
  | .functionDefinition path parameters body =>
      path.numbers ++ (Node.numbersAll parameters ++ Node.numbersAll body)
  | .structDefinition path properties => path.numbers ++ Node.numbersAll properties
  | .indexer position => position.numbers
  | .unary _ operand => operand.numbers
  | .binary _ left right => left.numbers ++ right.numbers
  | .conditional condition body branch =>
      condition.numbers ++ (Node.numbersAll body ++ branch.numbers)
  | .whileLoop condition body => condition.numbers ++ Node.numbersAll body
  | .forLoop iterable iterator body =>
      iterable.numbers ++ (iterator.numbers ++ Node.numbersAll body)
  | .newArray elements => Node.numbersAll elements
  | .result none => []
  | .result (some value) => value.numbers
  | .reference value => value.numbers

def Path.numbers : Path → List Float
  | .bare _ => []
  | .stepped _ steps => Node.numbersAll steps

def Branch.numbers : Branch → List Float
  | .absent => []
  | .elif condition body next => condition.numbers ++ (Node.numbersAll body ++ next.numbers)
  | .otherwise body => Node.numbersAll body

def Node.numbersAll : List Node → List Float
  | [] => []
  | node :: rest => node.numbers ++ Node.numbersAll rest

end

mutual

theorem Node.length_numbers_blank : (node : Node) →
    node.blank.numbers.length = node.numbers.length
  | .literal value => by cases value <;> rfl
  | .property _ | .importFile _ | .result none => by simp only [Node.blank]
  | .identifier path | .newStruct path => by
      simp only [Node.blank, Node.numbers, path.length_numbers_blank]
  | .assignment path value isGlobal => by
      simp only [Node.blank, Node.numbers, List.length_append, path.length_numbers_blank,
        value.length_numbers_blank]
  | .call path nodes | .structDefinition path nodes => by
      simp only [Node.blank, Node.numbers, List.length_append, path.length_numbers_blank,
        Node.length_numbersAll_blankAll nodes]
  | .functionDefinition path parameters body => by
      simp only [Node.blank, Node.numbers, List.length_append, path.length_numbers_blank,
        Node.length_numbersAll_blankAll parameters, Node.length_numbersAll_blankAll body]
  | .indexer value | .unary _ value | .result (some value) | .reference value => by
      simp only [Node.blank, Node.numbers, value.length_numbers_blank]
  | .binary operator left right => by
      simp only [Node.blank, Node.numbers, List.length_append, left.length_numbers_blank,
        right.length_numbers_blank]
  | .conditional condition body branch => by
      simp only [Node.blank, Node.numbers, List.length_append, condition.length_numbers_blank,
        Node.length_numbersAll_blankAll body, branch.length_numbers_blank]
  | .whileLoop condition body => by
      simp only [Node.blank, Node.numbers, List.length_append, condition.length_numbers_blank,
        Node.length_numbersAll_blankAll body]
  | .forLoop iterable iterator body => by
      simp only [Node.blank, Node.numbers, List.length_append, iterable.length_numbers_blank,
        iterator.length_numbers_blank, Node.length_numbersAll_blankAll body]
  | .newArray elements => by
      simp only [Node.blank, Node.numbers, Node.length_numbersAll_blankAll elements]

theorem Path.length_numbers_blank : (path : Path) →
    path.blank.numbers.length = path.numbers.length
  | .bare _ => by simp only [Path.blank]
  | .stepped _ steps => by
      simp only [Path.blank, Path.numbers, Node.length_numbersAll_blankAll steps]

theorem Branch.length_numbers_blank (branch : Branch) :
    branch.blank.numbers.length = branch.numbers.length := by
  cases branch with
  | absent => simp only [Branch.blank]
  | elif condition body next =>
      simp only [Branch.blank, Branch.numbers, List.length_append, condition.length_numbers_blank,
        Node.length_numbersAll_blankAll body, next.length_numbers_blank]
  | otherwise body =>
      simp only [Branch.blank, Branch.numbers, Node.length_numbersAll_blankAll body]

theorem Node.length_numbersAll_blankAll : (nodes : List Node) →
    (Node.numbersAll (Node.blankAll nodes)).length = (Node.numbersAll nodes).length
  | [] => by simp only [Node.blankAll]
  | node :: rest => by
      simp only [Node.blankAll, Node.numbersAll, List.length_append, node.length_numbers_blank,
        Node.length_numbersAll_blankAll rest]

end

/-! ### Agreement -/

/-- Two parts of trees are the same apart from numbers, and their numbers agree one by one. -/
def Agree {Part : Type} (blank : Part → Part) (numbers : Part → List Float)
    (same : Float → Float → Prop) (first second : Part) : Prop :=
  blank first = blank second ∧ List.Forall₂ same (numbers first) (numbers second)

section

variable (same : Float → Float → Prop)

def Literal.Agrees : Literal → Literal → Prop := Agree Literal.blank Literal.numbers same

def Node.Agrees : Node → Node → Prop := Agree Node.blank Node.numbers same

def Path.Agrees : Path → Path → Prop := Agree Path.blank Path.numbers same

def Branch.Agrees : Branch → Branch → Prop := Agree Branch.blank Branch.numbers same

def Node.AgreesAll : List Node → List Node → Prop := Agree Node.blankAll Node.numbersAll same

end

section Parts

variable {same : Float → Float → Prop}

/-- Where a first part stands in front, its numbers are split from those of the rest: a part has
as many numbers as any other that is the same apart from numbers. -/
theorem agree_append_iff {Part : Type} {blank : Part → Part} {numbers : Part → List Float}
    (length : ∀ part, (numbers (blank part)).length = (numbers part).length)
    {first first' : Part} {others : Prop} {rest rest' : List Float} :
    (blank first = blank first' ∧ others) ∧
        List.Forall₂ same (numbers first ++ rest) (numbers first' ++ rest') ↔
      Agree blank numbers same first first' ∧ others ∧ List.Forall₂ same rest rest' := by
  constructor
  · rintro ⟨⟨form, others⟩, both⟩
    have sameLength : (numbers first).length = (numbers first').length := by
      rw [← length first, form, length first']
    have leading := List.forall₂_take (numbers first).length both
    have trailing := List.forall₂_drop (numbers first).length both
    rw [List.take_left, sameLength, List.take_left] at leading
    rw [List.drop_left, sameLength, List.drop_left] at trailing
    exact ⟨⟨form, leading⟩, others, trailing⟩
  · rintro ⟨⟨form, leading⟩, others, trailing⟩
    exact ⟨⟨form, others⟩, List.rel_append leading trailing⟩

namespace Node

variable {path path' : Path} {nodes nodes' body body' : List Node} {name name' : String}
  {operator operator' : Terminal} {value value' left left' right right' : Node}

@[simp] theorem agrees_literal {literal literal' : Literal} :
    (Node.literal literal).Agrees same (.literal literal') ↔ literal.Agrees same literal' := by
  simp only [Agrees, Literal.Agrees, Agree, blank, numbers, Node.literal.injEq]

@[simp] theorem agrees_identifier :
    (identifier path).Agrees same (.identifier path') ↔ path.Agrees same path' := by
  simp only [Agrees, Path.Agrees, Agree, blank, numbers, identifier.injEq]

@[simp] theorem agrees_assignment {isGlobal isGlobal' : Bool} :
    (assignment path value isGlobal).Agrees same (.assignment path' value' isGlobal') ↔
      path.Agrees same path' ∧ value.Agrees same value' ∧ isGlobal = isGlobal' := by
  simp only [Agrees, Agree, blank, numbers, assignment.injEq]
  rw [agree_append_iff Path.length_numbers_blank]
  constructor
  · rintro ⟨paths, ⟨form, flags⟩, values⟩
    exact ⟨paths, ⟨form, values⟩, flags⟩
  · rintro ⟨paths, ⟨form, values⟩, flags⟩
    exact ⟨paths, ⟨form, flags⟩, values⟩

@[simp] theorem agrees_call : (call path nodes).Agrees same (.call path' nodes') ↔
    path.Agrees same path' ∧ AgreesAll same nodes nodes' := by
  simp only [Agrees, Agree, blank, numbers, call.injEq]
  exact agree_append_iff Path.length_numbers_blank

@[simp] theorem agrees_functionDefinition :
    (functionDefinition path nodes body).Agrees same (.functionDefinition path' nodes' body') ↔
      path.Agrees same path' ∧ AgreesAll same nodes nodes' ∧ AgreesAll same body body' := by
  simp only [Agrees, Agree, blank, numbers, functionDefinition.injEq]
  rw [agree_append_iff Path.length_numbers_blank, agree_append_iff length_numbersAll_blankAll]
  rfl

@[simp] theorem agrees_structDefinition :
    (structDefinition path nodes).Agrees same (.structDefinition path' nodes') ↔
      path.Agrees same path' ∧ AgreesAll same nodes nodes' := by
  simp only [Agrees, Agree, blank, numbers, structDefinition.injEq]
  exact agree_append_iff Path.length_numbers_blank

@[simp] theorem agrees_property :
    (property name).Agrees same (.property name') ↔ name = name' := by
  simp [Agrees, Agree, blank, numbers]

@[simp] theorem agrees_indexer :
    (indexer value).Agrees same (.indexer value') ↔ value.Agrees same value' := by
  simp only [Agrees, Agree, blank, numbers, indexer.injEq]

@[simp] theorem agrees_unary :
    (unary operator value).Agrees same (.unary operator' value') ↔
      operator = operator' ∧ value.Agrees same value' := by
  simp only [Agrees, Agree, blank, numbers, unary.injEq, and_assoc]

@[simp] theorem agrees_binary :
    (binary operator left right).Agrees same (.binary operator' left' right') ↔
      operator = operator' ∧ left.Agrees same left' ∧ right.Agrees same right' := by
  simp only [Agrees, Agree, blank, numbers, binary.injEq]
  rw [and_assoc, agree_append_iff length_numbers_blank]
  rfl

@[simp] theorem agrees_conditional {branch branch' : Branch} :
    (conditional value body branch).Agrees same (.conditional value' body' branch') ↔
      value.Agrees same value' ∧ AgreesAll same body body' ∧ branch.Agrees same branch' := by
  simp only [Agrees, Agree, blank, numbers, conditional.injEq]
  rw [agree_append_iff length_numbers_blank, agree_append_iff length_numbersAll_blankAll]
  rfl

@[simp] theorem agrees_whileLoop :
    (whileLoop value body).Agrees same (.whileLoop value' body') ↔
      value.Agrees same value' ∧ AgreesAll same body body' := by
  simp only [Agrees, Agree, blank, numbers, whileLoop.injEq]
  exact agree_append_iff length_numbers_blank

@[simp] theorem agrees_forLoop :
    (forLoop value path body).Agrees same (.forLoop value' path' body') ↔
      value.Agrees same value' ∧ path.Agrees same path' ∧ AgreesAll same body body' := by
  simp only [Agrees, Agree, blank, numbers, forLoop.injEq]
  rw [agree_append_iff length_numbers_blank, agree_append_iff Path.length_numbers_blank]
  rfl

@[simp] theorem agrees_newStruct :
    (newStruct path).Agrees same (.newStruct path') ↔ path.Agrees same path' := by
  simp only [Agrees, Path.Agrees, Agree, blank, numbers, newStruct.injEq]

@[simp] theorem agrees_newArray :
    (newArray nodes).Agrees same (.newArray nodes') ↔ AgreesAll same nodes nodes' := by
  simp only [Agrees, AgreesAll, Agree, blank, numbers, newArray.injEq]

@[simp] theorem agrees_result_none : (result none).Agrees same (.result none) := by
  simp [Agrees, Agree, blank, numbers]

@[simp] theorem agrees_result_some :
    (result (some value)).Agrees same (.result (some value')) ↔ value.Agrees same value' := by
  simp only [Agrees, Agree, blank, numbers, result.injEq, Option.some.injEq]

@[simp] theorem agrees_reference :
    (reference value).Agrees same (.reference value') ↔ value.Agrees same value' := by
  simp only [Agrees, Agree, blank, numbers, reference.injEq]

@[simp] theorem agrees_importFile :
    (importFile name).Agrees same (.importFile name') ↔ name = name' := by
  simp [Agrees, Agree, blank, numbers]

@[simp] theorem agreesAll_nil : AgreesAll same nodes [] ↔ nodes = [] := by
  cases nodes <;> simp [AgreesAll, Agree, blankAll, numbersAll]

@[simp] theorem nil_agreesAll : AgreesAll same [] nodes ↔ nodes = [] := by
  cases nodes <;> simp [AgreesAll, Agree, blankAll, numbersAll]

@[simp] theorem agreesAll_cons : AgreesAll same (value :: nodes) (value' :: nodes') ↔
    value.Agrees same value' ∧ AgreesAll same nodes nodes' := by
  simp only [AgreesAll, Agree, blankAll, numbersAll, List.cons.injEq]
  exact agree_append_iff length_numbers_blank

end Node

@[simp] theorem Path.agrees_bare {name name' : String} :
    (Path.bare name).Agrees same (.bare name') ↔ name = name' := by
  simp [Path.Agrees, Agree, Path.blank, Path.numbers]

@[simp] theorem Path.agrees_stepped {name name' : String} {steps steps' : List Node} :
    (Path.stepped name steps).Agrees same (.stepped name' steps') ↔
      name = name' ∧ Node.AgreesAll same steps steps' := by
  simp only [Path.Agrees, Node.AgreesAll, Agree, Path.blank, Path.numbers, Path.stepped.injEq,
    and_assoc]

@[simp] theorem Branch.agrees_absent : Branch.absent.Agrees same .absent := by
  simp [Branch.Agrees, Agree, Branch.blank, Branch.numbers]

@[simp] theorem Branch.agrees_elif {condition condition' : Node} {body body' : List Node}
    {next next' : Branch} :
    (Branch.elif condition body next).Agrees same (.elif condition' body' next') ↔
      condition.Agrees same condition' ∧ Node.AgreesAll same body body' ∧
        next.Agrees same next' := by
  simp only [Branch.Agrees, Agree, Branch.blank, Branch.numbers, Branch.elif.injEq]
  rw [agree_append_iff Node.length_numbers_blank, agree_append_iff Node.length_numbersAll_blankAll]
  rfl

@[simp] theorem Branch.agrees_otherwise {body body' : List Node} :
    (Branch.otherwise body).Agrees same (.otherwise body') ↔ Node.AgreesAll same body body' := by
  simp only [Branch.Agrees, Node.AgreesAll, Agree, Branch.blank, Branch.numbers,
    Branch.otherwise.injEq]

end Parts

theorem Node.shape_blank (node : Node) : node.blank.shape = node.shape := by
  cases node with
  | result value =>
      cases value with
      | none | some => simp only [blank, shape]
  | _ => simp only [blank, shape]

theorem Node.Agrees.shape_eq {same : Float → Float → Prop} {first second : Node}
    (agrees : first.Agrees same second) : first.shape = second.shape := by
  rw [← first.shape_blank, agrees.1, second.shape_blank]

/-! ### What equality decides -/

theorem Literal.beq_iff_agrees (first second : Literal) :
    (first == second) = true ↔ first.Agrees Number.Equals second := by
  cases first <;> cases second <;>
    simp [BEq.beq, instBEqLiteral.beq, Literal.Agrees, Agree, Literal.blank, Literal.numbers,
      Number.Equals]

theorem Node.shape_of_equal {first second : Node} (equal : first.equal second = true) :
    first.shape = second.shape := by
  unfold Node.equal at equal
  cases first with
  | result value =>
      cases value with
      | none | some =>
          dsimp only at equal
          split at equal
          · rfl
          · cases equal
  | _ =>
      dsimp only at equal
      split at equal
      · rfl
      · cases equal

theorem Node.equal_iff_of_shape_ne {first second : Node} (apart : first.shape ≠ second.shape)
    {same : Float → Float → Prop} : first.equal second = true ↔ first.Agrees same second :=
  iff_of_false (fun equal => apart (shape_of_equal equal)) fun agrees => apart agrees.shape_eq

mutual

theorem Node.equal_iff_agrees : (first second : Node) →
    (first.equal second = true ↔ first.Agrees Number.Equals second)
  | .literal value, second => by
      cases second with
      | literal value' => simp [Node.equal, Literal.beq_iff_agrees value value']
      | _ => exact Node.equal_iff_of_shape_ne (by nofun)
  | .identifier path, second => by
      cases second with
      | identifier path' => simp [Node.equal, path.equal_iff_agrees path']
      | _ => exact Node.equal_iff_of_shape_ne (by nofun)
  | .assignment path value isGlobal, second => by
      cases second with
      | assignment path' value' isGlobal' =>
          simp [Node.equal, path.equal_iff_agrees path', value.equal_iff_agrees value', and_assoc]
      | _ => exact Node.equal_iff_of_shape_ne (by nofun)
  | .call path arguments, second => by
      cases second with
      | call path' arguments' =>
          simp [Node.equal, path.equal_iff_agrees path',
            Node.equalAll_iff_agreesAll arguments arguments']
      | _ => exact Node.equal_iff_of_shape_ne (by nofun)
  | .functionDefinition path parameters body, second => by
      cases second with
      | functionDefinition path' parameters' body' =>
          simp [Node.equal, path.equal_iff_agrees path',
            Node.equalAll_iff_agreesAll parameters parameters',
            Node.equalAll_iff_agreesAll body body', and_assoc]
      | _ => exact Node.equal_iff_of_shape_ne (by nofun)
  | .structDefinition path properties, second => by
      cases second with
      | structDefinition path' properties' =>
          simp [Node.equal, path.equal_iff_agrees path',
            Node.equalAll_iff_agreesAll properties properties']
      | _ => exact Node.equal_iff_of_shape_ne (by nofun)
  | .property name, second => by
      cases second with
      | property name' => simp [Node.equal]
      | _ => exact Node.equal_iff_of_shape_ne (by nofun)
  | .indexer position, second => by
      cases second with
      | indexer position' => simp [Node.equal, position.equal_iff_agrees position']
      | _ => exact Node.equal_iff_of_shape_ne (by nofun)
  | .unary operator operand, second => by
      cases second with
      | unary operator' operand' => simp [Node.equal, operand.equal_iff_agrees operand']
      | _ => exact Node.equal_iff_of_shape_ne (by nofun)
  | .binary operator left right, second => by
      cases second with
      | binary operator' left' right' =>
          simp [Node.equal, left.equal_iff_agrees left', right.equal_iff_agrees right', and_assoc]
      | _ => exact Node.equal_iff_of_shape_ne (by nofun)
  | .conditional condition body branch, second => by
      cases second with
      | conditional condition' body' branch' =>
          simp [Node.equal, condition.equal_iff_agrees condition',
            Node.equalAll_iff_agreesAll body body', branch.equal_iff_agrees branch', and_assoc]
      | _ => exact Node.equal_iff_of_shape_ne (by nofun)
  | .whileLoop condition body, second => by
      cases second with
      | whileLoop condition' body' =>
          simp [Node.equal, condition.equal_iff_agrees condition',
            Node.equalAll_iff_agreesAll body body']
      | _ => exact Node.equal_iff_of_shape_ne (by nofun)
  | .forLoop iterable iterator body, second => by
      cases second with
      | forLoop iterable' iterator' body' =>
          simp [Node.equal, iterable.equal_iff_agrees iterable',
            iterator.equal_iff_agrees iterator', Node.equalAll_iff_agreesAll body body', and_assoc]
      | _ => exact Node.equal_iff_of_shape_ne (by nofun)
  | .newStruct path, second => by
      cases second with
      | newStruct path' => simp [Node.equal, path.equal_iff_agrees path']
      | _ => exact Node.equal_iff_of_shape_ne (by nofun)
  | .newArray elements, second => by
      cases second with
      | newArray elements' => simp [Node.equal, Node.equalAll_iff_agreesAll elements elements']
      | _ => exact Node.equal_iff_of_shape_ne (by nofun)
  | .result none, second => by
      cases second with
      | result value' =>
          cases value' <;> simp [Node.equal, Node.Agrees, Agree, Node.blank, Node.numbers]
      | _ => exact Node.equal_iff_of_shape_ne (by nofun)
  | .result (some value), second => by
      cases second with
      | result value' =>
          cases value' with
          | none => simp [Node.equal, Node.Agrees, Agree, Node.blank]
          | some value' => simp [Node.equal, value.equal_iff_agrees value']
      | _ => exact Node.equal_iff_of_shape_ne (by nofun)
  | .reference value, second => by
      cases second with
      | reference value' => simp [Node.equal, value.equal_iff_agrees value']
      | _ => exact Node.equal_iff_of_shape_ne (by nofun)
  | .importFile file, second => by
      cases second with
      | importFile file' => simp [Node.equal]
      | _ => exact Node.equal_iff_of_shape_ne (by nofun)
termination_by structural first => first

theorem Path.equal_iff_agrees : (first second : Path) →
    (first.equal second = true ↔ first.Agrees Number.Equals second)
  | .bare name, second => by
      cases second with
      | bare name' => simp [Path.equal]
      | stepped name' steps' => simp [Path.equal, Path.Agrees, Agree, Path.blank]
  | .stepped name steps, second => by
      cases second with
      | bare name' => simp [Path.equal, Path.Agrees, Agree, Path.blank]
      | stepped name' steps' => simp [Path.equal, Node.equalAll_iff_agreesAll steps steps']

theorem Branch.equal_iff_agrees : (first second : Branch) →
    (first.equal second = true ↔ first.Agrees Number.Equals second)
  | .absent, second => by
      cases second with
      | absent => simp [Branch.equal]
      | elif | otherwise => simp [Branch.equal, Branch.Agrees, Agree, Branch.blank]
  | .elif condition body next, second => by
      cases second with
      | elif condition' body' next' =>
          simp [Branch.equal, condition.equal_iff_agrees condition',
            Node.equalAll_iff_agreesAll body body', next.equal_iff_agrees next', and_assoc]
      | absent | otherwise => simp [Branch.equal, Branch.Agrees, Agree, Branch.blank]
  | .otherwise body, second => by
      cases second with
      | otherwise body' => simp [Branch.equal, Node.equalAll_iff_agreesAll body body']
      | absent | elif => simp [Branch.equal, Branch.Agrees, Agree, Branch.blank]

theorem Node.equalAll_iff_agreesAll : (first second : List Node) →
    (Node.equalAll first second = true ↔ Node.AgreesAll Number.Equals first second)
  | [], second => by simp [Node.equalAll]
  | node :: rest, second => by
      cases second with
      | nil => simp [Node.equalAll]
      | cons node' rest' =>
          simp [Node.equalAll, node.equal_iff_agrees node', Node.equalAll_iff_agreesAll rest rest']

end

/-! ### The same tree

Agreement with the very same numbers is identity: what is left of a tree without its numbers holds
everything else. -/

theorem Literal.eq_iff_agrees (first second : Literal) :
    first = second ↔ first.Agrees Eq second := by
  cases first <;> cases second <;> simp [Literal.Agrees, Agree, Literal.blank, Literal.numbers]

theorem Node.eq_iff_of_shape_ne {first second : Node} (apart : first.shape ≠ second.shape)
    {same : Float → Float → Prop} : first = second ↔ first.Agrees same second :=
  iff_of_false (fun equal => apart (equal ▸ rfl)) fun agrees => apart agrees.shape_eq

mutual

theorem Node.eq_iff_agrees : (first second : Node) →
    (first = second ↔ first.Agrees Eq second)
  | .literal value, second => by
      cases second with
      | literal value' => simp [Literal.eq_iff_agrees value value']
      | _ => exact Node.eq_iff_of_shape_ne (by nofun)
  | .identifier path, second => by
      cases second with
      | identifier path' => simp [path.eq_iff_agrees path']
      | _ => exact Node.eq_iff_of_shape_ne (by nofun)
  | .assignment path value isGlobal, second => by
      cases second with
      | assignment path' value' isGlobal' =>
          simp [path.eq_iff_agrees path', value.eq_iff_agrees value']
      | _ => exact Node.eq_iff_of_shape_ne (by nofun)
  | .call path arguments, second => by
      cases second with
      | call path' arguments' =>
          simp [path.eq_iff_agrees path', Node.eq_iff_agreesAll arguments arguments']
      | _ => exact Node.eq_iff_of_shape_ne (by nofun)
  | .functionDefinition path parameters body, second => by
      cases second with
      | functionDefinition path' parameters' body' =>
          simp [path.eq_iff_agrees path', Node.eq_iff_agreesAll parameters parameters',
            Node.eq_iff_agreesAll body body']
      | _ => exact Node.eq_iff_of_shape_ne (by nofun)
  | .structDefinition path properties, second => by
      cases second with
      | structDefinition path' properties' =>
          simp [path.eq_iff_agrees path', Node.eq_iff_agreesAll properties properties']
      | _ => exact Node.eq_iff_of_shape_ne (by nofun)
  | .property name, second => by
      cases second with
      | property name' => simp
      | _ => exact Node.eq_iff_of_shape_ne (by nofun)
  | .indexer position, second => by
      cases second with
      | indexer position' => simp [position.eq_iff_agrees position']
      | _ => exact Node.eq_iff_of_shape_ne (by nofun)
  | .unary operator operand, second => by
      cases second with
      | unary operator' operand' => simp [operand.eq_iff_agrees operand']
      | _ => exact Node.eq_iff_of_shape_ne (by nofun)
  | .binary operator left right, second => by
      cases second with
      | binary operator' left' right' => simp [left.eq_iff_agrees left', right.eq_iff_agrees right']
      | _ => exact Node.eq_iff_of_shape_ne (by nofun)
  | .conditional condition body branch, second => by
      cases second with
      | conditional condition' body' branch' =>
          simp [condition.eq_iff_agrees condition', Node.eq_iff_agreesAll body body',
            branch.eq_iff_agrees branch']
      | _ => exact Node.eq_iff_of_shape_ne (by nofun)
  | .whileLoop condition body, second => by
      cases second with
      | whileLoop condition' body' =>
          simp [condition.eq_iff_agrees condition', Node.eq_iff_agreesAll body body']
      | _ => exact Node.eq_iff_of_shape_ne (by nofun)
  | .forLoop iterable iterator body, second => by
      cases second with
      | forLoop iterable' iterator' body' =>
          simp [iterable.eq_iff_agrees iterable', iterator.eq_iff_agrees iterator',
            Node.eq_iff_agreesAll body body']
      | _ => exact Node.eq_iff_of_shape_ne (by nofun)
  | .newStruct path, second => by
      cases second with
      | newStruct path' => simp [path.eq_iff_agrees path']
      | _ => exact Node.eq_iff_of_shape_ne (by nofun)
  | .newArray elements, second => by
      cases second with
      | newArray elements' => simp [Node.eq_iff_agreesAll elements elements']
      | _ => exact Node.eq_iff_of_shape_ne (by nofun)
  | .result none, second => by
      cases second with
      | result value' => cases value' <;> simp [Node.Agrees, Agree, Node.blank]
      | _ => exact Node.eq_iff_of_shape_ne (by nofun)
  | .result (some value), second => by
      cases second with
      | result value' =>
          cases value' with
          | none => simp [Node.Agrees, Agree, Node.blank]
          | some value' => simp [value.eq_iff_agrees value']
      | _ => exact Node.eq_iff_of_shape_ne (by nofun)
  | .reference value, second => by
      cases second with
      | reference value' => simp [value.eq_iff_agrees value']
      | _ => exact Node.eq_iff_of_shape_ne (by nofun)
  | .importFile file, second => by
      cases second with
      | importFile file' => simp
      | _ => exact Node.eq_iff_of_shape_ne (by nofun)
termination_by structural first => first

theorem Path.eq_iff_agrees : (first second : Path) →
    (first = second ↔ first.Agrees Eq second)
  | .bare name, second => by
      cases second with
      | bare name' => simp
      | stepped name' steps' => simp [Path.Agrees, Agree, Path.blank]
  | .stepped name steps, second => by
      cases second with
      | bare name' => simp [Path.Agrees, Agree, Path.blank]
      | stepped name' steps' => simp [Node.eq_iff_agreesAll steps steps']

theorem Branch.eq_iff_agrees : (first second : Branch) →
    (first = second ↔ first.Agrees Eq second)
  | .absent, second => by
      cases second with
      | absent => simp
      | elif | otherwise => simp [Branch.Agrees, Agree, Branch.blank]
  | .elif condition body next, second => by
      cases second with
      | elif condition' body' next' =>
          simp [condition.eq_iff_agrees condition', Node.eq_iff_agreesAll body body',
            next.eq_iff_agrees next']
      | absent | otherwise => simp [Branch.Agrees, Agree, Branch.blank]
  | .otherwise body, second => by
      cases second with
      | otherwise body' => simp [Node.eq_iff_agreesAll body body']
      | absent | elif => simp [Branch.Agrees, Agree, Branch.blank]

theorem Node.eq_iff_agreesAll : (first second : List Node) →
    (first = second ↔ Node.AgreesAll Eq first second)
  | [], second => by simp
  | node :: rest, second => by
      cases second with
      | nil => simp
      | cons node' rest' =>
          simp [node.eq_iff_agrees node', Node.eq_iff_agreesAll rest rest']

end

/-! ### The number of nodes -/

mutual

theorem Node.count_blank : (node : Node) → node.blank.count = node.count
  | .literal _ | .property _ | .importFile _ | .result none => by
      simp only [Node.blank, Node.count]
  | .identifier path | .newStruct path => by
      simp only [Node.blank, Node.count, path.count_blank]
  | .assignment path value _ => by
      simp only [Node.blank, Node.count, path.count_blank, value.count_blank]
  | .call path nodes | .structDefinition path nodes => by
      simp only [Node.blank, Node.count, path.count_blank, Node.countAll_blankAll nodes]
  | .functionDefinition path parameters body => by
      simp only [Node.blank, Node.count, path.count_blank, Node.countAll_blankAll parameters,
        Node.countAll_blankAll body]
  | .indexer value | .unary _ value | .result (some value) | .reference value => by
      simp only [Node.blank, Node.count, value.count_blank]
  | .binary _ left right => by
      simp only [Node.blank, Node.count, left.count_blank, right.count_blank]
  | .conditional condition body branch => by
      simp only [Node.blank, Node.count, condition.count_blank, Node.countAll_blankAll body,
        branch.count_blank]
  | .whileLoop condition body => by
      simp only [Node.blank, Node.count, condition.count_blank, Node.countAll_blankAll body]
  | .forLoop iterable iterator body => by
      simp only [Node.blank, Node.count, iterable.count_blank, iterator.count_blank,
        Node.countAll_blankAll body]
  | .newArray elements => by
      simp only [Node.blank, Node.count, Node.countAll_blankAll elements]

theorem Path.count_blank : (path : Path) → path.blank.count = path.count
  | .bare _ => by simp only [Path.blank, Path.count]
  | .stepped _ steps => by simp only [Path.blank, Path.count, Node.countAll_blankAll steps]

theorem Branch.count_blank (branch : Branch) : branch.blank.count = branch.count := by
  cases branch with
  | absent => simp only [Branch.blank]
  | elif condition body next =>
      simp only [Branch.blank, Branch.count, condition.count_blank, Node.countAll_blankAll body,
        next.count_blank]
  | otherwise body =>
      simp only [Branch.blank, Branch.count, Node.countAll_blankAll body]

theorem Node.countAll_blankAll : (nodes : List Node) →
    Node.countAll (Node.blankAll nodes) = Node.countAll nodes
  | [] => by simp only [Node.blankAll]
  | node :: rest => by
      simp only [Node.blankAll, Node.countAll, node.count_blank, Node.countAll_blankAll rest]

end

/-! ### Equality of trees -/

namespace Node

theorem beq_iff (first second : Node) : (first == second) = true ↔
    first.blank = second.blank ∧ List.Forall₂ Number.Equals first.numbers second.numbers :=
  first.equal_iff_agrees second

theorem same_iff (first second : Node) :
    first = second ↔ first.blank = second.blank ∧ first.numbers = second.numbers := by
  rw [first.eq_iff_agrees second, Agrees, Agree, List.forall₂_eq_eq_eq]

theorem beq_symm {first second : Node} (equal : (first == second) = true) :
    (second == first) = true := by
  rw [beq_iff] at equal ⊢
  obtain ⟨form, numbers⟩ := equal
  exact ⟨form.symm, (numbers.imp fun _ _ same => BEq.symm same).flip⟩

theorem beq_trans {first second third : Node} (equal : (first == second) = true)
    (next : (second == third) = true) : (first == third) = true := by
  rw [beq_iff] at equal next ⊢
  obtain ⟨form, numbers⟩ := equal
  obtain ⟨form', numbers'⟩ := next
  exact ⟨form.trans form', Number.forall₂_trans numbers numbers'⟩

instance : PartialEquivBEq Node where
  symm := beq_symm
  trans := beq_trans

theorem beq_self_iff (node : Node) :
    (node == node) = true ↔ ∀ value ∈ node.numbers, value.isNaN = false := by
  rw [beq_iff, List.forall₂_same]
  simp only [true_and, Number.equals_self_iff]

theorem count_eq_of_beq {first second : Node} (equal : (first == second) = true) :
    first.count = second.count := by
  rw [← first.count_blank, ((beq_iff first second).mp equal).1, second.count_blank]

theorem equalAll_iff_forall₂ (first second : List Node) : equalAll first second = true ↔
    List.Forall₂ (fun node node' => (node == node') = true) first second := by
  induction first generalizing second with
  | nil => cases second <;> simp [equalAll]
  | cons node rest ih =>
      cases second with
      | nil => simp [equalAll]
      | cons node' rest' =>
          rw [equalAll, Bool.and_eq_true, ih, List.forall₂_cons]
          rfl

/-- Trees are equal exactly when they differ in nothing but numbers that compare equal. -/
theorem equality_exact :
    (∀ first second : Node, (first == second) = true ↔
      first.blank = second.blank ∧
        List.Forall₂ (fun value value' => (value == value') = true) first.numbers
          second.numbers) ∧
    (∀ first second : Node,
      first = second ↔ first.blank = second.blank ∧ first.numbers = second.numbers) ∧
    (∀ first second : Node, (first == second) = (second == first)) ∧
    (∀ first second third : Node, (first == second) = true → (second == third) = true →
      (first == third) = true) ∧
    (∀ node : Node, (node == node) = true ↔ ∀ value ∈ node.numbers, value.isNaN = false) ∧
    (∀ first second : Node, (first == second) = true →
      first.shape = second.shape ∧ first.count = second.count) ∧
    ∀ first second : Forest, (first == second) = true ↔
      List.Forall₂ (fun node node' => (node == node') = true) first.toList second.toList :=
  ⟨beq_iff, same_iff, fun _ _ => BEq.comm, fun _ _ _ => BEq.trans, beq_self_iff,
    fun _ _ equal => ⟨shape_of_equal equal, count_eq_of_beq equal⟩,
    fun first second => equalAll_iff_forall₂ first.toList second.toList⟩

/-- A step at either zero is the same step, a branch without a number has no equal, and a name
with no steps is not the name alone. -/
theorem equality_exact_zeros :
    let positive := identifier (.stepped "x" [.indexer (.literal (.number 0.0))])
    let negative := identifier (.stepped "x" [.indexer (.literal (.number (-0.0)))])
    let undefined := conditional (.literal .null) [] (.otherwise [.literal (.number (0.0 / 0.0))])
    (positive == negative) = true ∧ (negative == positive) = true ∧
      (positive == positive) = true ∧ (undefined == undefined) = false ∧
      (identifier (.bare "x") == identifier (.stepped "x" [])) = false := by
  intro positive negative undefined
  obtain ⟨decided, -, symmetric, transitive, reflexive, -⟩ := equality_exact
  have zeros : (positive == negative) = true :=
    (decided positive negative).mpr ⟨rfl, .cons (by decide) .nil⟩
  have swapped : (negative == positive) = true := by rw [symmetric, zeros]
  refine ⟨zeros, swapped, transitive positive negative positive zeros swapped, ?_, ?_⟩
  · rw [Bool.eq_false_iff, Ne, reflexive]
    intro numbers
    have defined := numbers (0.0 / 0.0) (.head _)
    revert defined
    decide
  · rw [Bool.eq_false_iff, Ne, decided]
    rintro ⟨⟨⟩, -⟩

end Node

end ScriptCore
