import Mathlib
import ScriptCore.Tree.Forest

set_option autoImplicit false

/-! Forests as stacks, over any history of several of them. The room that a forest keeps depends
on the largest size it ever had, counting what the forest that it is a clone of had before, and on
nothing else. -/

namespace ScriptCore

/-! ### Several stacks and their history -/

/-- What can be done with a stack of trees, whatever it is made of. Whatever fails leaves the
stack as it was. -/
structure StackOperations (Stack : Type) where
  empty : Stack
  push : Stack → Node → Stack
  pop : Stack → Stack
  replaceTop : Stack → Node → Stack

/-- A step in the history of stacks in a row. A stack is known by its place; a new one, one made
of a list and a clone go to the end. -/
inductive StackStep where
  | new
  | collect (nodes : List Node)
  | push (place : Nat) (node : Node)
  | pop (place : Nat)
  | replaceTop (place : Nat) (node : Node)
  | clone (place : Nat)

namespace StackOperations

section

variable {Stack : Type} (operations : StackOperations Stack)

def collect (nodes : List Node) : Stack := nodes.foldl operations.push operations.empty

/-- The row after a step. A place without a stack is passed over. -/
def perform (row : List Stack) : StackStep → List Stack
  | .new => row ++ [operations.empty]
  | .collect nodes => row ++ [operations.collect nodes]
  | .push place node => row.modify place fun stack => operations.push stack node
  | .pop place => row.modify place operations.pop
  | .replaceTop place node => row.modify place fun stack => operations.replaceTop stack node
  | .clone place => row ++ row[place]?.toList

/-- The stacks after a history that begins without any. -/
def after (history : List StackStep) : List Stack := history.foldl operations.perform []

end

section

variable {First Second : Type} {correspond : First → Second → Prop} {row : List First}
  {row' : List Second}

theorem forall₂_modify {change : First → First} {change' : Second → Second}
    (keeps : ∀ {stack stack'}, correspond stack stack' → correspond (change stack) (change' stack'))
    (rows : List.Forall₂ correspond row row') (place : Nat) :
    List.Forall₂ correspond (row.modify place change) (row'.modify place change') := by
  induction rows generalizing place with
  | nil =>
      rw [List.modify_nil, List.modify_nil]
      exact .nil
  | cons here rest ih =>
      cases place with
      | zero =>
          rw [List.modify_zero_cons, List.modify_zero_cons]
          exact .cons (keeps here) rest
      | succ place =>
          rw [List.modify_succ_cons, List.modify_succ_cons]
          exact .cons here (ih place)

theorem forall₂_getElem? (rows : List.Forall₂ correspond row row') (place : Nat) :
    List.Forall₂ correspond row[place]?.toList row'[place]?.toList := by
  induction rows generalizing place with
  | nil => exact .nil
  | cons here rest ih =>
      cases place with
      | zero => exact .cons here .nil
      | succ place =>
          rw [List.getElem?_cons_succ, List.getElem?_cons_succ]
          exact ih place

end

/-- Stacks of two kinds correspond, and each operation leads from corresponding stacks to
corresponding ones. -/
structure Simulates {First Second : Type} (first : StackOperations First)
    (second : StackOperations Second) (correspond : First → Second → Prop) : Prop where
  empty : correspond first.empty second.empty
  push : ∀ {stack stack'}, correspond stack stack' → ∀ node,
    correspond (first.push stack node) (second.push stack' node)
  pop : ∀ {stack stack'}, correspond stack stack' → correspond (first.pop stack) (second.pop stack')
  replaceTop : ∀ {stack stack'}, correspond stack stack' → ∀ node,
    correspond (first.replaceTop stack node) (second.replaceTop stack' node)

namespace Simulates

variable {First Second : Type} {first : StackOperations First} {second : StackOperations Second}
  {correspond : First → Second → Prop} (simulates : first.Simulates second correspond)

include simulates

theorem collect (nodes : List Node) : correspond (first.collect nodes) (second.collect nodes) := by
  suffices pushed : ∀ {stack stack'}, correspond stack stack' →
      correspond (nodes.foldl first.push stack) (nodes.foldl second.push stack') from
    pushed simulates.empty
  induction nodes with
  | nil => exact id
  | cons node nodes ih => exact fun here => ih (simulates.push here node)

/-- One step keeps the rows in correspondence. -/
theorem perform {row : List First} {row' : List Second} (rows : List.Forall₂ correspond row row')
    (step : StackStep) :
    List.Forall₂ correspond (first.perform row step) (second.perform row' step) := by
  cases step with
  | new => exact List.rel_append rows (.cons simulates.empty .nil)
  | collect nodes => exact List.rel_append rows (.cons (simulates.collect nodes) .nil)
  | push place node => exact forall₂_modify (fun here => simulates.push here node) rows place
  | pop place => exact forall₂_modify simulates.pop rows place
  | replaceTop place node =>
      exact forall₂_modify (fun here => simulates.replaceTop here node) rows place
  | clone place => exact List.rel_append rows (forall₂_getElem? rows place)

theorem after (history : List StackStep) :
    List.Forall₂ correspond (first.after history) (second.after history) := by
  suffices onwards : ∀ {row row'}, List.Forall₂ correspond row row' →
      List.Forall₂ correspond (history.foldl first.perform row)
        (history.foldl second.perform row') from onwards .nil
  induction history with
  | nil => exact id
  | cons step history ih => exact fun rows => ih (simulates.perform rows step)

end Simulates
end StackOperations

/-! ### What is told of a stack -/

/-- A stack as it is told: what was pushed and not popped since, the latest first, and every size
that the stack has had. -/
structure Chronicle where
  waiting : List Node
  sizes : List Nat

namespace Chronicle

/-- Other trees wait from now on, and their number is noted. -/
def note (chronicle : Chronicle) (waiting : List Node) : Chronicle :=
  ⟨waiting, waiting.length :: chronicle.sizes⟩

/-- The largest size that the stack has had. -/
def peak (chronicle : Chronicle) : Nat := chronicle.sizes.foldr max 0

def operations : StackOperations Chronicle where
  empty := ⟨[], [0]⟩
  push chronicle node := chronicle.note (node :: chronicle.waiting)
  pop chronicle := chronicle.note chronicle.waiting.tail
  replaceTop chronicle node := chronicle.note
    (match chronicle.waiting with
    | [] => []
    | _ :: below => node :: below)

theorem peak_note (chronicle : Chronicle) (waiting : List Node) :
    (chronicle.note waiting).peak = max waiting.length chronicle.peak := rfl

/-- Pushes alone lead to the largest size each time. -/
theorem peak_foldl_push (nodes : List Node) {chronicle : Chronicle}
    (highest : chronicle.peak = chronicle.waiting.length) :
    (nodes.foldl operations.push chronicle).peak = chronicle.waiting.length + nodes.length := by
  induction nodes generalizing chronicle with
  | nil => exact highest
  | cons node nodes ih =>
      have higher : (operations.push chronicle node).peak =
          (operations.push chronicle node).waiting.length := by
        change max (chronicle.waiting.length + 1) chronicle.peak = chronicle.waiting.length + 1
        omega
      rw [List.foldl_cons, ih higher, List.length_cons]
      change chronicle.waiting.length + 1 + nodes.length = _
      omega

end Chronicle

namespace Forest

def operations : StackOperations Forest where
  empty := .empty
  push := .push
  pop forest :=
    match forest.pop with
    | .ok (_, below) => below
    | .error _ => forest
  replaceTop forest node :=
    match forest.replaceTop node with
    | .ok replaced => replaced
    | .error _ => forest

/-! ### One step -/

section

variable {forest : Forest} {node : Node} {below : List Node}

theorem top_of_nothing (nothing : forest.toList = []) : forest.top = .error .empty := by
  cases found : forest.top with
  | error fault =>
      cases fault
      rfl
  | ok node =>
      rw [top_eq_ok_iff, nothing] at found
      cases found

theorem pop_of_nothing (nothing : forest.toList = []) : forest.pop = .error .empty := by
  simp only [pop, top_of_nothing nothing, bind, Except.bind]

theorem replaceTop_of_nothing (nothing : forest.toList = []) (node : Node) :
    forest.replaceTop node = .error .empty := by
  simp only [replaceTop, pop_of_nothing nothing, bind, Except.bind]

variable (ends : forest.toList = below ++ [node])

include ends

theorem top_of_ends : forest.top = .ok node := by
  rw [top_eq_ok_iff, ends, List.getLast?_concat]

theorem pop_of_ends : ∃ left, forest.pop = .ok (node, left) ∧ left.toList = below ∧
    left.capacity = forest.capacity := by
  refine ⟨{ forest with trees := forest.trees.pop }, ?_, ?_, rfl⟩
  · simp only [pop, top_of_ends ends, bind, Except.bind]
  · rw [toList, Array.toList_pop]
    change forest.toList.dropLast = below
    rw [ends, List.dropLast_concat]

theorem replaceTop_of_ends (other : Node) : ∃ replaced, forest.replaceTop other = .ok replaced ∧
    replaced.toList = below ++ [other] ∧ replaced.capacity = forest.capacity := by
  obtain ⟨left, popped, contents, _⟩ := pop_of_ends ends
  refine ⟨{ forest with trees := left.trees.push other }, ?_, ?_, rfl⟩
  · simp only [replaceTop, popped, bind, Except.bind]
  · rw [toList, Array.toList_push]
    change left.toList ++ [other] = below ++ [other]
    rw [contents]

end

/-! ### Room -/

/-- Room for `peak` trees, in steps of the given growth above what a new forest keeps. -/
def roomFor (peak : Nat) : Nat :=
  initialCapacity + growth * ((peak - initialCapacity) ⌈/⌉ growth)

theorem roomFor_eq (peak : Nat) : roomFor peak = 5 + 5 * ((peak - 5 + 4) / 5) := by
  change 5 + 5 * ((peak - 5) ⌈/⌉ 5) = _
  rw [Nat.ceilDiv_eq_add_pred_div]
  rfl

theorem le_roomFor (peak : Nat) : peak ≤ roomFor peak := by
  rw [roomFor_eq]
  omega

/-- A push finds the forest full exactly if the new size has no room yet. -/
theorem roomFor_max_succ {size peak : Nat} (within : size ≤ peak) :
    roomFor (max (size + 1) peak) =
      if size = roomFor peak then roomFor peak + growth else roomFor peak := by
  change _ = if size = roomFor peak then roomFor peak + 5 else roomFor peak
  rw [roomFor_eq, roomFor_eq]
  split
  · omega
  · omega

/-! ### Forests and what is told of them -/

/-- The forest holds the trees that wait, in the order in which they were pushed, and keeps room
for the largest size. -/
structure Told (forest : Forest) (chronicle : Chronicle) : Prop where
  contents : forest.toList = chronicle.waiting.reverse
  room : forest.capacity = roomFor chronicle.peak
  within : chronicle.waiting.length ≤ chronicle.peak

namespace Told

variable {forest : Forest} {chronicle : Chronicle} (told : Told forest chronicle)

theorem empty : Told .empty Chronicle.operations.empty where
  contents := rfl
  room := rfl
  within := Nat.le_refl 0

include told

theorem size_eq : forest.size = chronicle.waiting.length := by
  rw [size_eq_length, told.contents, List.length_reverse]

theorem ends {node : Node} {below : List Node} (waiting : chronicle.waiting = node :: below) :
    forest.toList = below.reverse ++ [node] := by
  rw [told.contents, waiting, List.reverse_cons]

theorem nothing (waiting : chronicle.waiting = []) : forest.toList = [] := by
  rw [told.contents, waiting, List.reverse_nil]

/-- Other trees, but no more than there were at most, and the same room. -/
theorem note {changed : Forest} {waiting : List Node}
    (contents : changed.toList = waiting.reverse) (same : changed.capacity = forest.capacity)
    (few : waiting.length ≤ chronicle.peak) : Told changed (chronicle.note waiting) := by
  have peak : (chronicle.note waiting).peak = chronicle.peak := Nat.max_eq_right few
  exact ⟨contents, by rw [same, told.room, peak], by rw [peak]; exact few⟩

theorem push (node : Node) :
    Told (forest.push node) (Chronicle.operations.push chronicle node) where
  contents := by
    rw [toList_push, told.contents, ← List.reverse_cons]
    rfl
  room := by
    change (if forest.size = forest.capacity then forest.capacity + growth
      else forest.capacity) = roomFor (max (chronicle.waiting.length + 1) chronicle.peak)
    rw [roomFor_max_succ told.within, told.size_eq, told.room]
  within := Nat.le_max_left ..

theorem pop : Told (operations.pop forest) (Chronicle.operations.pop chronicle) := by
  have within := told.within
  cases waiting : chronicle.waiting with
  | nil =>
      have kept : operations.pop forest = forest := by
        simp only [operations, pop_of_nothing (told.nothing waiting)]
      rw [kept]
      apply told.note
      · rw [told.contents, waiting]
        rfl
      · rfl
      · rw [waiting]
        exact Nat.zero_le _
  | cons node below =>
      rw [waiting, List.length_cons] at within
      obtain ⟨left, popped, contents, room⟩ := pop_of_ends (told.ends waiting)
      have result : operations.pop forest = left := by simp only [operations, popped]
      rw [result]
      apply told.note
      · rw [contents, waiting]
        rfl
      · exact room
      · rw [waiting]
        exact Nat.le_of_succ_le within

theorem replaceTop (other : Node) :
    Told (operations.replaceTop forest other) (Chronicle.operations.replaceTop chronicle other) := by
  have within := told.within
  cases waiting : chronicle.waiting with
  | nil =>
      have kept : operations.replaceTop forest other = forest := by
        simp only [operations, replaceTop_of_nothing (told.nothing waiting)]
      rw [kept]
      apply told.note
      · rw [told.contents, waiting]
      · rfl
      · rw [waiting]
        exact Nat.zero_le _
  | cons node below =>
      rw [waiting, List.length_cons] at within
      obtain ⟨replaced, done, contents, room⟩ := replaceTop_of_ends (told.ends waiting) other
      have result : operations.replaceTop forest other = replaced := by
        simp only [operations, done]
      rw [result]
      apply told.note
      · rw [contents, waiting, List.reverse_cons]
      · exact room
      · rw [waiting]
        exact within

/-- Pushing up to the largest size that there was adds no room. -/
theorem capacity_foldl_push (nodes : List Node)
    (again : forest.size + nodes.length ≤ chronicle.peak) :
    (nodes.foldl Forest.push forest).capacity = forest.capacity := by
  induction nodes generalizing forest chronicle with
  | nil => rfl
  | cons node nodes ih =>
      rw [List.length_cons, told.size_eq] at again
      have pushed := told.push node
      have peak : (Chronicle.operations.push chronicle node).peak = chronicle.peak :=
        (chronicle.peak_note _).trans (Nat.max_eq_right (by rw [List.length_cons]; omega))
      have same : (forest.push node).capacity = forest.capacity := by
        rw [pushed.room, told.room, peak]
      rw [List.foldl_cons, ih pushed, same]
      rw [pushed.size_eq, peak]
      change chronicle.waiting.length + 1 + nodes.length ≤ _
      omega

end Told

theorem simulates : operations.Simulates Chronicle.operations Told where
  empty := .empty
  push told node := told.push node
  pop told := told.pop
  replaceTop told node := told.replaceTop node

/-! ### Any history -/

/-- The room and the answers of a forest with this history. Its room is the one for its largest
size, and pushing up to that size again adds none. It holds what was pushed and not popped since,
in the order in which it was pushed; the latest of these is the top. Without a top it refuses, and
stays as it was. -/
structure FollowsHistory (forest : Forest) (chronicle : Chronicle) : Prop where
  capacity : forest.capacity = 5 + 5 * ((chronicle.peak - 5) ⌈/⌉ 5)
  fits : forest.size ≤ forest.capacity
  again : ∀ nodes : List Node, forest.size + nodes.length ≤ chronicle.peak →
    (nodes.foldl push forest).capacity = forest.capacity
  contents : forest.toList = chronicle.waiting.reverse
  get : ∀ index, forest.get? index = chronicle.waiting.reverse[index]?
  answers : ∀ node below, chronicle.waiting = node :: below → forest.top = .ok node ∧
    (∃ left, forest.pop = .ok (node, left) ∧ left.toList = below.reverse ∧
      left.capacity = forest.capacity) ∧
    ∀ other, ∃ replaced, forest.replaceTop other = .ok replaced ∧
      replaced.toList = (other :: below).reverse ∧ replaced.capacity = forest.capacity
  refuses : (forest.top = .error .empty ↔ chronicle.waiting = []) ∧
    (forest.pop = .error .empty ↔ chronicle.waiting = []) ∧
    ∀ other, forest.replaceTop other = .error .empty ↔ chronicle.waiting = []
  unchanged : chronicle.waiting = [] → operations.pop forest = forest ∧
    ∀ other, operations.replaceTop forest other = forest

namespace Told

variable {forest : Forest} {chronicle : Chronicle} (told : Told forest chronicle)

include told

theorem refuses_iff {Answer : Type} {answer : Except StackFault Answer}
    (refused : forest.toList = [] → answer = .error .empty)
    (answered : ∀ node below, chronicle.waiting = node :: below → ∃ found, answer = .ok found) :
    answer = .error .empty ↔ chronicle.waiting = [] := by
  constructor
  · intro failed
    cases waiting : chronicle.waiting with
    | nil => rfl
    | cons node below =>
        obtain ⟨found, same⟩ := answered node below waiting
        rw [failed] at same
        cases same
  · exact fun waiting => refused (told.nothing waiting)

theorem followsHistory : FollowsHistory forest chronicle where
  capacity := told.room
  fits := by
    rw [told.size_eq, told.room]
    exact told.within.trans (le_roomFor chronicle.peak)
  again := told.capacity_foldl_push
  contents := told.contents
  get index := by rw [get?_eq, told.contents]
  answers node below waiting := by
    refine ⟨top_of_ends (told.ends waiting), pop_of_ends (told.ends waiting), fun other => ?_⟩
    rw [List.reverse_cons]
    exact replaceTop_of_ends (told.ends waiting) other
  refuses := by
    refine ⟨told.refuses_iff top_of_nothing ?_, told.refuses_iff pop_of_nothing ?_, fun other =>
      told.refuses_iff (fun nothing => replaceTop_of_nothing nothing other) ?_⟩
    · exact fun node below waiting => ⟨node, top_of_ends (told.ends waiting)⟩
    · intro node below waiting
      obtain ⟨left, popped, _⟩ := pop_of_ends (told.ends waiting)
      exact ⟨(node, left), popped⟩
    · intro node below waiting
      obtain ⟨replaced, done, _⟩ := replaceTop_of_ends (told.ends waiting) other
      exact ⟨replaced, done⟩
  unchanged waiting := by
    have nothing := told.nothing waiting
    constructor
    · simp only [operations, pop_of_nothing nothing]
    · intro other
      simp only [operations, replaceTop_of_nothing nothing]

end Told

/-- After any history of pushing, popping, exchanging the top and cloning, each forest has the
room for the largest size in its history, and answers as a stack. Trees that are pushed one after
the other, or come from a list, get the room for their number. -/
theorem capacity_exact :
    (∀ history, List.Forall₂ FollowsHistory (operations.after history)
      (Chronicle.operations.after history)) ∧
    ∀ nodes : List Node, (nodes.foldl push empty).capacity = 5 + 5 * ((nodes.length - 5) ⌈/⌉ 5) ∧
      (ofList nodes).capacity = (nodes.foldl push empty).capacity := by
  constructor
  · intro history
    exact (simulates.after history).imp fun _ _ told => told.followsHistory
  · intro nodes
    have peak : (Chronicle.operations.collect nodes).peak = nodes.length :=
      (Chronicle.peak_foldl_push nodes rfl).trans (Nat.zero_add nodes.length)
    have room : (nodes.foldl push empty).capacity =
        roomFor (Chronicle.operations.collect nodes).peak := (simulates.collect nodes).room
    rw [peak] at room
    exact ⟨room, rfl⟩

/-- Seven trees with two of them popped, and a clone that grows to nine: both have room for ten. -/
example :
    let node := Node.null
    (operations.after [.collect (List.replicate 7 node), .pop 0, .pop 0, .clone 0, .push 1 node,
      .push 1 node, .push 1 node, .push 1 node]).map (fun forest => (forest.size, forest.capacity)) =
      [(5, 10), (9, 10)] := by
  rfl

end Forest
end ScriptCore
