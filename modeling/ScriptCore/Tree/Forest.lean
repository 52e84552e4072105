import ScriptCore.Tree.Count
import ScriptCore.Tree.Equality

set_option autoImplicit false

/-! Free-standing sequences of trees. A forest is read in the order in which its
trees were pushed and is also a stack, whose top is the last of them. The room that
it keeps grows by a fixed step and never shrinks. -/

namespace ScriptCore

/-- Why a stack of trees has no answer. -/
inductive StackFault where
  | empty
  deriving DecidableEq, Repr

namespace StackFault

def message : StackFault → String
  | .empty => "internal error: node stack is empty"

end StackFault

/-- Trees in the order in which they were pushed, and the room kept for them. -/
structure Forest where
  trees : Array Node
  capacity : Nat

namespace Forest

/-- Room that a new forest keeps. -/
def initialCapacity : Nat := 5

/-- Room added when a push finds the forest full. -/
def growth : Nat := 5

def empty : Forest := ⟨#[], initialCapacity⟩

def toList (forest : Forest) : List Node := forest.trees.toList

def size (forest : Forest) : Nat := forest.trees.size

def isEmpty (forest : Forest) : Bool := forest.trees.isEmpty

def get? (forest : Forest) (index : Nat) : Option Node := forest.trees[index]?

def push (forest : Forest) (node : Node) : Forest where
  trees := forest.trees.push node
  capacity :=
    if forest.trees.size = forest.capacity then forest.capacity + growth
    else forest.capacity

def ofList (nodes : List Node) : Forest := nodes.foldl push empty

def top (forest : Forest) : Except StackFault Node :=
  match forest.trees.back? with
  | some node => .ok node
  | none => .error .empty

/-- The top and the forest below it, which keeps its room. -/
def pop (forest : Forest) : Except StackFault (Node × Forest) := do
  let node ← forest.top
  .ok (node, { forest with trees := forest.trees.pop })

/-- Puts another tree in the place of the top. -/
def replaceTop (forest : Forest) (node : Node) : Except StackFault Forest := do
  let (_, below) ← forest.pop
  .ok { forest with trees := below.trees.push node }

/-- Nodes of all trees together. -/
def count (forest : Forest) : Nat := Node.countAll forest.toList

/-- Takes every tree apart and tells how many nodes were let go. -/
def release (forest : Forest) : Nat := Node.releaseAll forest.toList

/-- Forests are equal when they hold equal trees; room plays no part. -/
def equal (first second : Forest) : Bool := Node.equalAll first.toList second.toList

instance : BEq Forest := ⟨equal⟩

/-! ### The forest as a list -/

@[simp] theorem toList_empty : empty.toList = [] := rfl

@[simp] theorem toList_push (forest : Forest) (node : Node) :
    (forest.push node).toList = forest.toList ++ [node] := by
  simp [toList, push]

theorem size_eq_length (forest : Forest) : forest.size = forest.toList.length := by
  simp [size, toList]

theorem get?_eq (forest : Forest) (index : Nat) :
    forest.get? index = forest.toList[index]? := by
  simp [get?, toList]

theorem top_eq_ok_iff (forest : Forest) (node : Node) :
    forest.top = .ok node ↔ forest.toList.getLast? = some node := by
  unfold top toList
  rw [Array.getLast?_toList]
  cases forest.trees.back? <;> simp

@[simp] theorem count_push (forest : Forest) (node : Node) :
    (forest.push node).count = forest.count + node.count := by
  rw [count, toList_push, Node.countAll_append, Node.countAll, Node.countAll, Nat.add_zero, count]

end Forest
end ScriptCore
