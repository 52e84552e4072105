import Mathlib.Algebra.BigOperators.Group.Finset.Basic
import Mathlib.Data.Finite.Sigma
import Mathlib.Data.Finite.Sum
import Mathlib.SetTheory.Cardinal.NatCard
import ScriptCore.Proofs.Tree.Places
import ScriptCore.Tree.Forest

set_option autoImplicit false

/-! A tree that is taken apart lets go exactly the nodes that it counts: itself, the names and
branches in it, and so on below each place. -/

namespace ScriptCore

/-- Every tree has what is passed on to it from the trees that it owns. -/
theorem Node.children_induction {motive : Node → Prop}
    (step : ∀ node : Node, (∀ child, child ∈ node.children → motive child) → motive node)
    (node : Node) : motive node :=
  step node fun child _ => Node.children_induction step child
termination_by sizeOf node
decreasing_by exact Node.sizeOf_lt_of_mem_children node child ‹_›

/-! ### Counting through children -/

theorem Path.count_eq (path : Path) : path.count = 1 + Node.countAll path.steps := by
  cases path with
  | bare name => simp only [Path.count, Path.steps, Node.countAll]
  | stepped name steps => simp only [Path.count, Path.steps]

theorem Branch.count_eq :
    (branch : Branch) → branch.count = branch.chain.length + Node.countAll branch.children
  | .absent => by simp only [Branch.count, Branch.chain, Branch.children, Node.countAll]; rfl
  | .elif condition body next => by
      have later := Branch.count_eq next
      simp only [Branch.count, Branch.chain, Branch.children, List.cons_append, Node.countAll,
        Node.countAll_append, List.length_cons]
      omega
  | .otherwise body => by
      simp only [Branch.count, Branch.chain, Branch.children, List.length_singleton]

theorem Node.count_eq (node : Node) :
    node.count = 1 + node.attachments + Node.countAll node.children := by
  cases node with
  | result value =>
      cases value with
      | none => rfl
      | some value => simp only [Node.count, Node.attachments, Node.children, Option.toList_some,
          Node.countAll, Nat.add_zero]
  | _ =>
      simp only [Node.count, Node.attachments, Node.children, Node.countAll, List.cons_append,
        Node.countAll_append, Path.count_eq, Branch.count_eq] <;> omega

/-! ### Release -/

theorem Node.releaseAll_eq_countAll_of_each (nodes : List Node)
    (each : ∀ node, node ∈ nodes → node.release = node.count) :
    Node.releaseAll nodes = Node.countAll nodes := by
  induction nodes with
  | nil => rw [Node.countAll]; rfl
  | cons node nodes ih =>
      have here := each node (List.mem_cons_self ..)
      have rest := ih fun other member => each other (List.mem_cons_of_mem node member)
      rw [Node.countAll, ← here, ← rest]
      rfl

theorem Node.release_eq_count (node : Node) : node.release = node.count := by
  induction node using Node.children_induction with
  | step node ih =>
      rw [Node.release_eq, Node.count_eq, Node.releaseAll_eq_countAll_of_each node.children ih]

theorem Forest.release_eq_count (forest : Forest) : forest.release = forest.count :=
  Node.releaseAll_eq_countAll_of_each forest.toList fun node _ => node.release_eq_count

/-! ### Names and branches in a tree -/

inductive Branch.Link : Branch → Type where
  | elif (condition : Node) (body : List Node) (next : Branch) : Link (.elif condition body next)
  | later (condition : Node) (body : List Node) {next : Branch} (link : Link next) :
      Link (.elif condition body next)
  | otherwise (body : List Node) : Link (.otherwise body)

/-- A node in a tree that is no tree of its own. -/
inductive Node.Attachment : Node → Type where
  | assigned (path : Path) (value : Node) (isGlobal : Bool) :
      Attachment (.assignment path value isGlobal)
  | called (path : Path) (arguments : List Node) : Attachment (.call path arguments)
  | function (path : Path) (parameters body : List Node) :
      Attachment (.functionDefinition path parameters body)
  | struct (path : Path) (properties : List Node) : Attachment (.structDefinition path properties)
  | iterator (iterable : Node) (path : Path) (body : List Node) :
      Attachment (.forLoop iterable path body)
  | newStruct (path : Path) : Attachment (.newStruct path)
  | branch (condition : Node) (body : List Node) {branch : Branch} (link : branch.Link) :
      Attachment (.conditional condition body branch)

def Branch.links : (branch : Branch) → List branch.Link
  | .absent => []
  | .elif condition body next =>
      .elif condition body next :: next.links.map (.later condition body)
  | .otherwise body => [.otherwise body]

def Node.attached : (node : Node) → List node.Attachment
  | .assignment path value isGlobal => [.assigned path value isGlobal]
  | .call path arguments => [.called path arguments]
  | .functionDefinition path parameters body => [.function path parameters body]
  | .structDefinition path properties => [.struct path properties]
  | .forLoop iterable path body => [.iterator iterable path body]
  | .newStruct path => [.newStruct path]
  | .conditional condition body branch => branch.links.map (.branch condition body)
  | .literal _ | .identifier _ | .property _ | .indexer _ | .unary _ _ | .binary _ _ _
  | .whileLoop _ _ | .newArray _ | .result _ | .reference _ | .importFile _ => []

theorem Branch.length_links : (branch : Branch) → branch.links.length = branch.chain.length
  | .absent => rfl
  | .elif condition body next => by
      have later := Branch.length_links next
      simp only [Branch.links, Branch.chain, List.length_cons, List.length_map, later]
  | .otherwise body => rfl

theorem Node.length_attached (node : Node) : node.attached.length = node.attachments := by
  cases node with
  | conditional condition body branch =>
      simp only [Node.attached, Node.attachments, List.length_map, Branch.length_links]
  | _ => rfl

theorem Branch.mem_links {branch : Branch} (link : branch.Link) : link ∈ branch.links := by
  induction link with
  | elif condition body next => exact List.mem_cons_self ..
  | later condition body link ih =>
      exact List.mem_cons_of_mem _ (List.mem_map.mpr ⟨link, ih, rfl⟩)
  | otherwise body => exact List.mem_cons_self ..

theorem Node.mem_attached {node : Node} (attachment : node.Attachment) :
    attachment ∈ node.attached := by
  cases attachment with
  | branch condition body link => exact List.mem_map.mpr ⟨link, Branch.mem_links link, rfl⟩
  | _ => exact List.mem_cons_self ..

theorem Branch.nodup_links : (branch : Branch) → branch.links.Nodup
  | .absent => List.nodup_nil
  | .elif condition body next => by
      have later : (next.links.map (Link.later condition body)).Nodup :=
        next.nodup_links.map (by grind [Function.Injective])
      grind [Branch.links]
  | .otherwise body => List.nodup_singleton _

theorem Node.nodup_attached (node : Node) : node.attached.Nodup := by
  cases node with
  | conditional condition body branch =>
      exact branch.nodup_links.map (by grind [Function.Injective])
  | assignment | call | functionDefinition | structDefinition | forLoop | newStruct =>
      exact List.nodup_singleton _
  | _ => exact List.nodup_nil

/-! ### All parts of a tree -/

/-- A node of a tree at any depth: the tree itself, a name or a branch in it, or a part of a
tree that it owns. -/
inductive Node.Part : Node → Type where
  | self (node : Node) : Part node
  | attached {node : Node} (attachment : node.Attachment) : Part node
  | owned {node child : Node} (place : node.Place child) (part : Part child) : Part node

def Node.Part.split (node : Node) :
    node.Part ≃ Option (node.Attachment ⊕ (placed : Placed node.Place) × placed.1.Part) where
  toFun
    | .self _ => none
    | .attached attachment => some (.inl attachment)
    | .owned place part => some (.inr ⟨⟨_, place⟩, part⟩)
  invFun
    | none => .self node
    | some (.inl attachment) => .attached attachment
    | some (.inr ⟨placed, part⟩) => .owned placed.2 part
  left_inv := by
    intro part
    cases part with
    | self => rfl
    | attached => rfl
    | owned => rfl
  right_inv := by
    intro place
    rcases place with _ | _ | ⟨⟨_, _⟩, _⟩
    · rfl
    · rfl
    · rfl

theorem Node.releaseAll_eq_sum (nodes : List Node) :
    Node.releaseAll nodes = (nodes.map Node.release).sum := by
  induction nodes with
  | nil => rfl
  | cons node nodes ih =>
      rw [List.map_cons, List.sum_cons, ← ih]
      rfl

/-- What is let go is one for each part of the tree. -/
theorem Node.card_part (node : Node) : Finite node.Part ∧ Nat.card node.Part = node.release := by
  induction node using Node.children_induction with
  | step node ih =>
      have listed (placed : Placed node.Place) : placed.1 ∈ node.children := by
        rw [← node.map_fst_places]
        exact List.mem_map.mpr ⟨placed, node.mem_places placed.2, rfl⟩
      have finite (placed : Placed node.Place) : Finite placed.1.Part :=
        (ih placed.1 (listed placed)).1
      have counted (placed : Placed node.Place) : Nat.card placed.1.Part = placed.1.release :=
        (ih placed.1 (listed placed)).2
      let _ : Fintype (Placed node.Place) :=
        ⟨⟨node.places, node.nodup_places⟩, fun placed => node.mem_places placed.2⟩
      let _ : Fintype node.Attachment :=
        ⟨⟨node.attached, node.nodup_attached⟩, Node.mem_attached⟩
      have attachments : Nat.card node.Attachment = node.attachments := by
        rw [Nat.card_eq_fintype_card, ← node.length_attached]
        rfl
      have owned : ∑ placed : Placed node.Place, Nat.card placed.1.Part =
          Node.releaseAll node.children := by
        simp only [counted]
        rw [Node.releaseAll_eq_sum, ← node.map_fst_places, List.map_map]
        rfl
      have split := Part.split node
      refine ⟨Finite.of_equiv _ split.symm, ?_⟩
      rw [Nat.card_congr split, Finite.card_option, Nat.card_sum, Nat.card_sigma, attachments,
        owned, node.release_eq]
      omega

/-- Taking a tree apart lets go one node for each part of it, which are as many as it counts,
and so does a forest. The trees handed on are those at the places of the tree, each place
once. -/
theorem release_exact :
    (∀ node : Node, node.release = node.count ∧ Nat.card node.Part = node.count) ∧
      (∀ forest : Forest, forest.release = forest.count) ∧
      ∀ node : Node, ∃ places : List (Placed node.Place),
        places.Nodup ∧ (∀ placed, placed ∈ places) ∧ places.map Sigma.fst = node.children := by
  refine ⟨?_, Forest.release_eq_count, ?_⟩
  · intro node
    exact ⟨node.release_eq_count, node.card_part.2.trans node.release_eq_count⟩
  · intro node
    exact ⟨node.places, node.nodup_places, fun placed => node.mem_places placed.2,
      node.map_fst_places⟩

end ScriptCore
