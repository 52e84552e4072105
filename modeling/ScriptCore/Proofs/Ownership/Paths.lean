import Mathlib.Algebra.BigOperators.Fin
import Mathlib.Algebra.Order.BigOperators.Group.List
import Mathlib.Data.Finite.Sigma
import Mathlib.Data.Finite.Sum
import Mathlib.SetTheory.Cardinal.Finite
import Mathlib.Tactic.Ring
import ScriptCore.Proofs.Ownership.Basic

set_option autoImplicit false

/-! Paths of ownership and how many of them there are. The number satisfies a recursion
over what the first cell owns, and a change of what one cell owns moves it by a product
of two numbers of paths. -/

namespace ScriptCore.Links

/-- A way down along ownership. Each step names the place of the child that it takes, so
two links to one child make two ways. -/
inductive Trail (links : Links) : Address → Address → Type where
  | stay (address : Address) : Trail links address address
  | step (source target : Address) (place : Fin (children links source).length)
      (rest : Trail links (children links source)[place.val] target) : Trail links source target

/-- The number of ways down from one address to another. -/
noncomputable def paths (links : Links) (source target : Address) : Nat :=
  Nat.card (Trail links source target)

/-- The number of ways down from any of the addresses, each counted as often as it is
listed. -/
noncomputable def pathsFrom (links : Links) (sources : List Address) (target : Address) : Nat :=
  (sources.map fun source => paths links source target).sum

variable {links : Links}

/-! ### The recursion over children -/

def Trail.split (links : Links) (source target : Address) :
    Trail links source target ≃
      PLift (source = target) ⊕
        (place : Fin (children links source).length) ×
          Trail links (children links source)[place.val] target where
  toFun
    | .stay _ => .inl ⟨rfl⟩
    | .step _ _ place rest => .inr ⟨place, rest⟩
  invFun
    | .inl same => same.down ▸ .stay source
    | .inr ⟨place, rest⟩ => .step source target place rest
  left_inv := by
    intro trail
    cases trail with
    | stay => rfl
    | step place rest => rfl
  right_inv := by
    intro first
    rcases first with ⟨⟨same⟩⟩ | ⟨place, rest⟩
    · subst same
      rfl
    · rfl

theorem Founded.finite_trail {source : Address} (founded : Founded links source)
    (target : Address) : Finite (Trail links source target) := by
  induction founded with
  | intro source _ ih =>
      have finite (place : Fin (children links source).length) :
          Finite (Trail links (children links source)[place.val] target) :=
        ih _ (List.getElem_mem place.isLt)
      exact Finite.of_equiv _ (Trail.split links source target).symm

theorem paths_eq {source : Address} (founded : Founded links source) (target : Address) :
    paths links source target =
      (if source = target then 1 else 0) +
        pathsFrom links (children links source) target := by
  have finite (place : Fin (children links source).length) :
      Finite (Trail links (children links source)[place.val] target) :=
    (founded.of_owns (List.getElem_mem place.isLt)).finite_trail target
  have here : Nat.card (PLift (source = target)) = if source = target then 1 else 0 := by
    by_cases same : source = target
    · simp [same]
    · have none : IsEmpty (PLift (source = target)) := ⟨fun equal => same equal.down⟩
      rw [if_neg same, Nat.card_of_isEmpty]
  rw [paths, Nat.card_congr (Trail.split links source target), Nat.card_sum, here,
    Nat.card_sigma]
  congr 1
  exact Fin.sum_univ_fun_getElem (children links source)
    fun child => paths links child target

theorem nonempty_trail_iff (source target : Address) :
    Nonempty (Trail links source target) ↔ Below links source target := by
  constructor
  · rintro ⟨trail⟩
    induction trail with
    | stay address => exact Relation.ReflTransGen.refl
    | step source target place rest ih =>
        exact Relation.ReflTransGen.head (List.getElem_mem place.isLt) ih
  · intro below
    induction below using Relation.ReflTransGen.head_induction_on with
    | refl => exact ⟨.stay target⟩
    | @head parent child owns _ ih =>
        obtain ⟨rest⟩ := ih
        obtain ⟨place, inside, here⟩ := List.mem_iff_getElem.mp owns
        subst here
        exact ⟨.step parent target ⟨place, inside⟩ rest⟩

theorem paths_pos_iff {source : Address} (founded : Founded links source) (target : Address) :
    0 < paths links source target ↔ Below links source target := by
  have finite := founded.finite_trail target
  rw [← nonempty_trail_iff, paths, Nat.card_pos_iff]
  constructor
  · exact And.left
  · intro trail
    exact ⟨trail, finite⟩

theorem paths_eq_zero {source target : Address} (apart : ¬ Below links source target) :
    paths links source target = 0 := by
  have none : IsEmpty (Trail links source target) :=
    ⟨fun trail => apart ((nonempty_trail_iff source target).mp ⟨trail⟩)⟩
  exact Nat.card_of_isEmpty

/-! ### Several sources -/

@[simp] theorem pathsFrom_nil (target : Address) : pathsFrom links [] target = 0 := rfl

@[simp] theorem pathsFrom_cons (source : Address) (sources : List Address) (target : Address) :
    pathsFrom links (source :: sources) target =
      paths links source target + pathsFrom links sources target := by
  simp only [pathsFrom, List.map_cons, List.sum_cons]

@[simp] theorem pathsFrom_append (first second : List Address) (target : Address) :
    pathsFrom links (first ++ second) target =
      pathsFrom links first target + pathsFrom links second target := by
  simp only [pathsFrom, List.map_append, List.sum_append]

theorem pathsFrom_perm {first second : List Address} (same : first.Perm second)
    (target : Address) : pathsFrom links first target = pathsFrom links second target :=
  (same.map _).sum_eq

theorem pathsFrom_congr {links' : Links} (sources : List Address) (target : Address)
    (same : ∀ source, source ∈ sources →
      paths links' source target = paths links source target) :
    pathsFrom links' sources target = pathsFrom links sources target := by
  unfold pathsFrom
  rw [List.map_congr_left same]

theorem le_pathsFrom_of_mem {source : Address} {sources : List Address}
    (member : source ∈ sources) (target : Address) :
    paths links source target ≤ pathsFrom links sources target :=
  List.le_sum_of_mem (List.mem_map.mpr ⟨source, member, rfl⟩)

theorem pathsFrom_eq_zero {sources : List Address} {target : Address}
    (apart : ∀ source, source ∈ sources → ¬ Below links source target) :
    pathsFrom links sources target = 0 := by
  apply List.sum_eq_zero
  intro ways member
  obtain ⟨source, inSources, rfl⟩ := List.mem_map.mp member
  exact paths_eq_zero (apart source inSources)

theorem pathsFrom_pos_iff {sources : List Address}
    (founded : ∀ source, source ∈ sources → Founded links source) (target : Address) :
    0 < pathsFrom links sources target ↔
      ∃ source, source ∈ sources ∧ Below links source target := by
  constructor
  · intro positive
    by_contra none
    have zero := pathsFrom_eq_zero fun source member below => none ⟨source, member, below⟩
    omega
  · rintro ⟨source, member, below⟩
    exact Nat.lt_of_lt_of_le ((paths_pos_iff (founded source member) target).mpr below)
      (le_pathsFrom_of_mem member target)

theorem paths_self {address : Address} (founded : Founded links address) :
    paths links address address = 1 := by
  have none : pathsFrom links (children links address) address = 0 := by
    apply pathsFrom_eq_zero
    intro child owns back
    exact founded.not_strictlyBelow (StrictlyBelow.of_owns_below owns back)
  rw [paths_eq founded, if_pos rfl, none]

theorem paths_leaf {address : Address} (founded : Founded links address)
    (none : children links address = []) (target : Address) :
    paths links address target = if address = target then 1 else 0 := by
  rw [paths_eq founded, none, pathsFrom_nil, Nat.add_zero]

/-! ### Another set of links -/

theorem Founded.congr {links' : Links} {root : Address} (founded : Founded links root)
    (same : ∀ address, Below links root address →
      children links' address = children links address) : Founded links' root := by
  induction founded with
  | intro root _ ih =>
      apply Acc.intro root
      intro child owns
      have owned : Owns links root child := by
        rw [Owns, ← same root Relation.ReflTransGen.refl]
        exact owns
      exact ih child owned fun address below =>
        same address ((Below.of_owns owned).trans below)

theorem below_congr_iff {links' : Links} {root : Address}
    (same : ∀ address, Below links root address →
      children links' address = children links address) (target : Address) :
    Below links' root target ↔ Below links root target := by
  constructor
  · intro below
    induction below with
    | refl => exact Relation.ReflTransGen.refl
    | tail _ owns ih =>
        rw [Owns, same _ ih] at owns
        exact ih.tail owns
  · intro below
    induction below with
    | refl => exact Relation.ReflTransGen.refl
    | tail earlier owns ih =>
        rw [Owns, ← same _ earlier] at owns
        exact ih.tail owns

theorem paths_congr {links' : Links} {source : Address} (founded : Founded links source)
    (same : ∀ address, Below links source address →
      children links' address = children links address) (target : Address) :
    paths links' source target = paths links source target := by
  have founded' := founded.congr same
  induction founded with
  | intro source accessible ih =>
      rw [paths_eq founded', paths_eq (Acc.intro source accessible),
        same source Relation.ReflTransGen.refl]
      congr 1
      apply pathsFrom_congr _ target
      intro child owns
      have sameBelow (address : Address) (below : Below links child address) :
          children links' address = children links address :=
        same address ((Below.of_owns owns).trans below)
      exact ih child owns sameBelow (Founded.congr (accessible child owns) sameBelow)

section Relink

/-- Two ways to count agree on a list of sources if they agree on each of them. -/
private theorem pathsFrom_exchange {links' : Links} (owner target : Address)
    (through through' : Nat) (sources : List Address)
    (each : ∀ source, source ∈ sources →
      paths links' source target + paths links source owner * through =
        paths links source target + paths links source owner * through') :
    pathsFrom links' sources target + pathsFrom links sources owner * through =
      pathsFrom links sources target + pathsFrom links sources owner * through' := by
  induction sources with
  | nil => simp only [pathsFrom_nil, Nat.zero_mul]
  | cons source rest ih =>
      have first := each source (List.mem_cons_self ..)
      have later := ih fun other member => each other (List.mem_cons_of_mem source member)
      simp only [pathsFrom_cons, Nat.add_mul]
      omega

variable {links' : Links} {owner : Address}
  (elsewhere : ∀ address, address ≠ owner → children links' address = children links address)

include elsewhere

theorem children_eq_of_apart {root : Address} (apart : ¬ Below links root owner)
    (address : Address) (below : Below links root address) :
    children links' address = children links address := by
  apply elsewhere address
  intro same
  subst same
  exact apart below

theorem founded_relink (founded : ∀ address, Founded links address)
    (apart : ∀ child, Owns links' owner child → ¬ Below links child owner)
    (address : Address) : Founded links' address := by
  have atOwner : Founded links' owner := by
    apply Acc.intro owner
    intro child owns
    exact (founded child).congr (children_eq_of_apart elsewhere (apart child owns))
  induction founded address with
  | intro address _ ih =>
      by_cases same : address = owner
      · rw [same]
        exact atOwner
      · apply Acc.intro address
        intro child owns
        apply ih child
        rw [Owns, ← elsewhere address same]
        exact owns

/-- The paths through the old links of the owner are replaced by those through its new
ones, as often as there are paths to the owner. -/
theorem paths_relink (founded : ∀ address, Founded links address)
    (apart : ∀ child, Owns links' owner child → ¬ Below links child owner)
    (source target : Address) :
    paths links' source target +
        paths links source owner * pathsFrom links (children links owner) target =
      paths links source target +
        paths links source owner * pathsFrom links (children links' owner) target := by
  have founded' := founded_relink elsewhere founded apart
  induction founded source with
  | intro source _ ih =>
      by_cases same : source = owner
      · subst same
        have sameBelow : pathsFrom links' (children links' source) target =
            pathsFrom links (children links' source) target :=
          pathsFrom_congr _ target fun child owns =>
            paths_congr (founded child) (children_eq_of_apart elsewhere (apart child owns)) target
        rw [paths_eq (founded' source), sameBelow, paths_eq (founded source) target,
          paths_self (founded source)]
        omega
      · have below := pathsFrom_exchange owner target _ _ (children links source) ih
        rw [paths_eq (founded' source), elsewhere source same, paths_eq (founded source) target,
          paths_eq (founded source) owner, if_neg same, Nat.zero_add]
        omega

theorem pathsFrom_relink (founded : ∀ address, Founded links address)
    (apart : ∀ child, Owns links' owner child → ¬ Below links child owner)
    (sources : List Address) (target : Address) :
    pathsFrom links' sources target +
        pathsFrom links sources owner * pathsFrom links (children links owner) target =
      pathsFrom links sources target +
        pathsFrom links sources owner * pathsFrom links (children links' owner) target :=
  pathsFrom_exchange owner target _ _ sources fun source _ =>
    paths_relink elsewhere founded apart source target

end Relink

/-- Every path to an owner goes on through each of its links. -/
theorem pathsFrom_mul_le (founded : ∀ address, Founded links address)
    (sources : List Address) (owner target : Address) :
    pathsFrom links sources owner * pathsFrom links (children links owner) target ≤
      pathsFrom links sources target := by
  let cut : Links := fun address => if address = owner then none else links address
  have elsewhere (address : Address) (apart : address ≠ owner) :
      children cut address = children links address := by
    simp only [children, cut, if_neg apart]
  have atOwner : children cut owner = [] := by
    simp only [children, cut, if_pos, Option.getD_none]
  have apart (child : Address) (owns : Owns cut owner child) : ¬ Below links child owner := by
    rw [Owns, atOwner] at owns
    exact absurd owns List.not_mem_nil
  have exchanged := pathsFrom_relink elsewhere founded apart sources target
  rw [atOwner, pathsFrom_nil, Nat.mul_zero, Nat.add_zero] at exchanged
  omega

end ScriptCore.Links
