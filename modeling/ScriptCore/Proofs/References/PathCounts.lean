import ScriptCore.Heap.References
import ScriptCore.Proofs.Ownership.Order

set_option autoImplicit false

/-! The walk in order of ownership counts paths: what is put on a cell at the start
arrives at every cell below it once for each path. -/

namespace ScriptCore.Heap

open Links

variable {links : Links}

/-- What an array of numbers says about an address. -/
def weight (paths : Array Nat) (address : Address) : Nat := paths.getD address.index 0

private theorem weight_modify (weights : Array Nat) (address other : Address) (added : Nat)
    (inside : address.index < weights.size) :
    weight (weights.modify address.index (· + added)) other =
      weight weights other + if other = address then added else 0 := by
  unfold weight
  rw [Array.getD_eq_getD_getElem?, Array.getD_eq_getD_getElem?, Array.getElem?_modify]
  by_cases same : other = address
  · subst same
    rw [if_pos rfl, if_pos rfl, Array.getElem?_eq_getElem inside]
    rfl
  · have apart : address.index ≠ other.index := by
      intro equal
      cases address
      cases other
      exact same (congrArg Address.mk equal.symm)
    rw [if_neg same, if_neg apart, Nat.add_zero]

private theorem weight_pass (owned : List Address) (weights : Array Nat) (passed : Nat)
    (inside : ∀ child, child ∈ owned → child.index < weights.size) (other : Address) :
    (owned.foldl (fun weights child => weights.modify child.index (· + passed)) weights).size =
        weights.size ∧
      weight (owned.foldl (fun weights child => weights.modify child.index (· + passed)) weights)
          other = weight weights other + passed * owned.count other := by
  induction owned generalizing weights with
  | nil => simp
  | cons child rest ih =>
      have here := weight_modify weights child other passed
        (inside child (List.mem_cons_self ..))
      have later := ih (weights.modify child.index (· + passed)) (by
        intro next member
        rw [Array.size_modify]
        exact inside next (List.mem_cons_of_mem child member))
      rw [List.foldl_cons]
      refine ⟨?_, ?_⟩
      · rw [later.1, Array.size_modify]
      · rw [later.2, here, List.count_cons]
        by_cases same : other = child
        · subst same
          simp only [if_true, beq_self_eq_true, Nat.mul_add, Nat.mul_one]
          omega
        · have apart : (child == other) = false := by
            simpa using fun equal => same equal.symm
          simp only [if_neg same, apart, Bool.false_eq_true, if_false, Nat.add_zero]

private theorem sum_map_ite_of_mem (order : List Address) (chosen : Address)
    (value : Address → Nat) (distinct : order.Nodup) (member : chosen ∈ order) :
    (order.map fun address => if chosen = address then value address else 0).sum =
      value chosen := by
  induction order with
  | nil => exact absurd member List.not_mem_nil
  | cons first rest ih =>
      obtain ⟨fresh, restDistinct⟩ := List.nodup_cons.mp distinct
      rw [List.map_cons, List.sum_cons]
      by_cases same : chosen = first
      · subst same
        have none : (rest.map fun address =>
            if chosen = address then value address else 0).sum = 0 := by
          apply List.sum_eq_zero
          intro number inSum
          obtain ⟨address, inRest, rfl⟩ := List.mem_map.mp inSum
          apply if_neg
          intro equal
          rw [equal] at fresh
          exact fresh inRest
        rw [if_pos rfl, none, Nat.add_zero]
      · rw [if_neg same, Nat.zero_add]
        exact ih restDistinct ((List.mem_cons.mp member).resolve_left same)

/-- A sum over a list can be taken address by address, each as often as it occurs. -/
private theorem sum_map_eq_sum_count (owned order : List Address) (value : Address → Nat)
    (distinct : order.Nodup) (inOrder : ∀ child, child ∈ owned → child ∈ order) :
    (owned.map value).sum = (order.map fun address => owned.count address * value address).sum := by
  induction owned with
  | nil => simp
  | cons child rest ih =>
      have later := ih fun other member => inOrder other (List.mem_cons_of_mem child member)
      have here := sum_map_ite_of_mem order child value distinct
        (inOrder child (List.mem_cons_self ..))
      rw [List.map_cons, List.sum_cons, later, ← here, ← List.sum_map_add]
      congr 1
      apply List.map_congr_left
      intro address _
      rw [List.count_cons]
      by_cases same : child = address
      · simp only [same, if_true, beq_self_eq_true, Nat.add_mul, Nat.one_mul]
        omega
      · simp [same]

private theorem pathsFrom_eq_count_add (owned : List Address)
    (founded : ∀ child, child ∈ owned → Founded links child) (target : Address) :
    pathsFrom links owned target = owned.count target +
      (owned.map fun child => pathsFrom links (children links child) target).sum := by
  induction owned with
  | nil => rfl
  | cons child rest ih =>
      have later := ih fun other member => founded other (List.mem_cons_of_mem child member)
      rw [pathsFrom_cons, later, paths_eq (founded child (List.mem_cons_self ..)),
        List.map_cons, List.sum_cons, List.count_cons]
      simp only [beq_iff_eq]
      omega

theorem weight_spreadPaths (order : List Address) (weights : Array Nat)
    (ordered : Ordered links order)
    (inside : ∀ address, address ∈ order → address.index < weights.size) (target : Address) :
    weight (spreadPaths links order weights) target =
      weight weights target + (order.map fun address =>
        weight weights address * pathsFrom links (children links address) target).sum := by
  induction ordered generalizing weights with
  | nil => rfl
  | cons first owned order found later fresh rest ih =>
      have inOrder (child : Address) (member : child ∈ owned) : child.index < weights.size :=
        inside child (List.mem_cons_of_mem first (later child member))
      have passed (other : Address) :=
        weight_pass owned weights (weight weights first) inOrder other
      have spread := ih (owned.foldl
          (fun weights' child => weights'.modify child.index (· + weight weights first)) weights) (by
        intro address member
        rw [(passed first).1]
        exact inside address (List.mem_cons_of_mem first member))
      have children_first : children links first = owned := children_eq found
      have through : pathsFrom links owned target =
          owned.count target + (order.map fun address =>
            owned.count address * pathsFrom links (children links address) target).sum := by
        rw [← sum_map_eq_sum_count owned order _ rest.nodup later]
        exact pathsFrom_eq_count_add owned
          (fun child member => rest.founded child (later child member)) target
      have each : (order.map fun address => (weight weights address +
            weight weights first * owned.count address) *
              pathsFrom links (children links address) target).sum =
          (order.map fun address =>
            weight weights address * pathsFrom links (children links address) target).sum +
          weight weights first * (order.map fun address =>
            owned.count address * pathsFrom links (children links address) target).sum := by
        rw [← List.sum_map_mul_left, ← List.sum_map_add]
        congr 1
        apply List.map_congr_left
        intro address _
        ring
      unfold spreadPaths
      rw [found, Option.getD_some]
      change weight (spreadPaths links order (owned.foldl
        (fun weights' child => weights'.modify child.index (· + weight weights first)) weights))
          target = _
      rw [spread, List.map_cons, List.sum_cons, children_first, through]
      simp only [fun other => (passed other).2]
      rw [each, Nat.mul_add]
      omega

/-- The numbers that the walk starts with: one path to the root and none elsewhere. -/
private def rootWeights (heap : Heap) (root : Address) : Array Nat :=
  (Array.replicate heap.slots.size 0).modify root.index (· + 1)

private theorem weight_rootWeights (heap : Heap) (root : Address)
    (inside : root.index < heap.slots.size) (address : Address) :
    weight (rootWeights heap root) address = if root = address then 1 else 0 := by
  have zero : weight (Array.replicate heap.slots.size 0) address = 0 := by
    unfold weight
    rw [Array.getD_eq_getD_getElem?, Array.getElem?_replicate]
    split
    · rfl
    · rfl
  unfold rootWeights
  rw [weight_modify _ root address 1 (by rw [Array.size_replicate]; exact inside), zero,
    Nat.zero_add]
  simp only [eq_comm]

private theorem weight_spread_rootWeights (heap : Heap) (root : Address) (order : List Address)
    (ordered : Ordered heap.links order) (member : root ∈ order) (target : Address) :
    weight (spreadPaths heap.links order (rootWeights heap root)) target =
      paths heap.links root target := by
  have inside (address : Address) (inOrder : address ∈ order) :
      address.index < heap.slots.size :=
    heap.index_lt_of_live address (ordered.live address inOrder)
  have size : (rootWeights heap root).size = heap.slots.size := by
    rw [rootWeights, Array.size_modify, Array.size_replicate]
  rw [weight_spreadPaths order _ ordered fun address inOrder => size.symm ▸ inside address inOrder]
  simp only [weight_rootWeights heap root (inside root member), ite_mul, Nat.one_mul,
    Nat.zero_mul]
  rw [sum_map_ite_of_mem order root _ ordered.nodup member,
    paths_eq (ordered.founded root member)]

/-- Every cell at or below the root, with the number of paths from the root to it. -/
theorem pathCounts_eq (heap : Heap) (root : Address) (order : List Address)
    (walked : heap.ownershipOrder root = .ok order) (ordered : Ordered heap.links order)
    (member : root ∈ order) :
    heap.pathCounts root =
      .ok (order.map fun address => (address, paths heap.links root address)) := by
  unfold pathCounts
  rw [walked]
  change Except.ok (order.map fun address =>
    (address, weight (spreadPaths heap.links order (rootWeights heap root)) address)) = _
  simp only [weight_spread_rootWeights heap root order ordered member]

end ScriptCore.Heap
