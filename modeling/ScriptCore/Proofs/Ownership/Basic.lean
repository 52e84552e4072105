import Mathlib.Data.List.Nodup
import Mathlib.Data.List.Perm.Subperm
import Mathlib.Logic.Relation
import ScriptCore.Heap.Walk

set_option autoImplicit false

/-! Ownership as a relation between addresses: what lies below an address, when nothing
below it owns itself, and how deep the cells below it can then lie. Nothing here looks
at references. -/

namespace ScriptCore

/-- What each live cell owns, in order; dead addresses have no answer. -/
abbrev Links := Address → Option (List Address)

namespace Links

variable (links : Links)

def children (address : Address) : List Address := (links address).getD []

def Live (address : Address) : Prop := ∃ owned, links address = some owned

def Owns (parent child : Address) : Prop := child ∈ children links parent

/-- The second address is the first one or owned by it over any number of steps. -/
def Below : Address → Address → Prop := Relation.ReflTransGen (Owns links)

/-- The same over at least one step. -/
def StrictlyBelow : Address → Address → Prop := Relation.TransGen (Owns links)

def CycleFree (root : Address) : Prop :=
  ∀ address, Below links root address → ¬ StrictlyBelow links address address

def Acyclic : Prop := ∀ address, ¬ StrictlyBelow links address address

def Closed : Prop := ∀ parent child, Owns links parent child → Live links child

/-- Every way down from the address comes to an end. -/
def Founded (address : Address) : Prop :=
  Acc (fun child parent => Owns links parent child) address

/-- Every way down from the address takes fewer steps than the depth. -/
def Shallow : Nat → Address → Prop
  | 0, _ => False
  | depth + 1, address => ∀ child, Owns links address child → Shallow depth child

instance decidableShallow :
    (depth : Nat) → (address : Address) → Decidable (Shallow links depth address)
  | 0, _ => isFalse id
  | depth + 1, address =>
      have (child : Address) := decidableShallow depth child
      inferInstanceAs (Decidable (∀ child ∈ children links address, Shallow links depth child))

variable {links}

theorem live_of_owns {parent child : Address} (owns : Owns links parent child) :
    Live links parent := by
  unfold Owns children at owns
  cases found : links parent with
  | none =>
      rw [found] at owns
      exact absurd owns List.not_mem_nil
  | some owned => exact ⟨owned, found⟩

theorem children_eq {address : Address} {owned : List Address}
    (found : links address = some owned) : children links address = owned := by
  rw [children, found, Option.getD_some]

theorem live_of_closed {root address : Address} (closed : Closed links)
    (live : Live links root) (below : Below links root address) : Live links address := by
  cases Relation.ReflTransGen.cases_tail below with
  | inl same =>
      rw [same]
      exact live
  | inr last =>
      obtain ⟨parent, _, owns⟩ := last
      exact closed parent address owns

theorem Below.trans {first second third : Address} (upper : Below links first second)
    (lower : Below links second third) : Below links first third :=
  Relation.ReflTransGen.trans upper lower

theorem Below.of_owns {parent child : Address} (owns : Owns links parent child) :
    Below links parent child := Relation.ReflTransGen.single owns

theorem StrictlyBelow.of_owns_below {parent child address : Address}
    (owns : Owns links parent child) (below : Below links child address) :
    StrictlyBelow links parent address := Relation.TransGen.head' owns below

theorem CycleFree.of_owns {parent child : Address} (cycleFree : CycleFree links parent)
    (owns : Owns links parent child) : CycleFree links child := by
  intro address below
  exact cycleFree address ((Below.of_owns owns).trans below)

/-! ### Depth -/

theorem length_le_of_nodup (addresses : List Address) (size : Nat)
    (distinct : addresses.Nodup) (inside : ∀ address, address ∈ addresses → address.index < size) :
    addresses.length ≤ size := by
  have indices : (addresses.map Address.index).Nodup := by
    apply distinct.map
    intro first second same
    cases first
    cases second
    exact congrArg Address.mk same
  have inRange : addresses.map Address.index ⊆ List.range size := by
    intro index member
    obtain ⟨address, inAddresses, rfl⟩ := List.mem_map.mp member
    exact List.mem_range.mpr (inside address inAddresses)
  have bounded := (List.subperm_of_subset indices inRange).length_le
  simpa only [List.length_map, List.length_range] using bounded

/-- The addresses on the way down to a cell are distinct when no cell owns itself, so
there are never more of them than slots. -/
private theorem shallow_of_above (size depth : Nat) (above : List Address) (address : Address)
    (inside : ∀ parent, Live links parent → parent.index < size)
    (distinct : above.Nodup) (live : ∀ parent, parent ∈ above → Live links parent)
    (onTheWay : ∀ parent, parent ∈ above → StrictlyBelow links parent address)
    (cycleFree : CycleFree links address) (enough : size < depth + above.length) :
    Shallow links depth address := by
  induction depth generalizing above address with
  | zero =>
      have bounded := length_le_of_nodup above size distinct
        (fun parent member => inside parent (live parent member))
      omega
  | succ depth ih =>
      intro child owns
      have fresh : address ∉ above := fun member =>
        cycleFree address Relation.ReflTransGen.refl (onTheWay address member)
      refine ih (address :: above) child (List.nodup_cons.mpr ⟨fresh, distinct⟩) ?_ ?_
        (cycleFree.of_owns owns) ?_
      · intro parent member
        rcases List.mem_cons.mp member with rfl | higher
        · exact live_of_owns owns
        · exact live parent higher
      · intro parent member
        rcases List.mem_cons.mp member with rfl | higher
        · exact Relation.TransGen.single owns
        · exact Relation.TransGen.tail (onTheWay parent higher) owns
      · rw [List.length_cons]
        omega

theorem CycleFree.shallow {root : Address} (cycleFree : CycleFree links root) (size : Nat)
    (inside : ∀ parent, Live links parent → parent.index < size) :
    Shallow links (size + 1) root := by
  refine shallow_of_above size (size + 1) [] root inside List.nodup_nil ?_ ?_ cycleFree ?_
  · intro parent member
    exact absurd member List.not_mem_nil
  · intro parent member
    exact absurd member List.not_mem_nil
  · exact Nat.lt_succ_self size

theorem Shallow.founded {depth : Nat} {address : Address}
    (shallow : Shallow links depth address) : Founded links address := by
  induction depth generalizing address with
  | zero => exact shallow.elim
  | succ depth ih => exact Acc.intro address fun child owns => ih (shallow child owns)

/-! ### Ways down that end -/

theorem Founded.of_owns {parent child : Address} (founded : Founded links parent)
    (owns : Owns links parent child) : Founded links child := founded.inv owns

theorem Founded.of_below {root address : Address} (founded : Founded links root)
    (below : Below links root address) : Founded links address := by
  induction below with
  | refl => exact founded
  | tail _ owns ih => exact ih.of_owns owns

theorem Founded.not_strictlyBelow {address : Address} (founded : Founded links address) :
    ¬ StrictlyBelow links address address := by
  induction founded with
  | intro address _ ih =>
      intro cycle
      obtain ⟨child, owns, back⟩ := Relation.TransGen.head'_iff.mp cycle
      exact ih child owns (Relation.TransGen.tail' back owns)

theorem Founded.cycleFree {root : Address} (founded : Founded links root) :
    CycleFree links root := by
  intro address below
  exact (founded.of_below below).not_strictlyBelow

theorem acyclic_of_founded (founded : ∀ address, Founded links address) : Acyclic links :=
  fun address => (founded address).not_strictlyBelow

end Links

namespace Heap

variable (heap : Heap)

theorem live_links_iff (address : Address) :
    Links.Live heap.links address ↔ ∃ cell, heap.cell? address = some cell := by
  simp only [Links.Live, links, Option.map_eq_some_iff]
  constructor
  · rintro ⟨_, cell, found, _⟩
    exact ⟨cell, found⟩
  · rintro ⟨cell, found⟩
    exact ⟨cell.children, cell, found, rfl⟩

theorem links_of_cell? (address : Address) (cell : Cell)
    (found : heap.cell? address = some cell) : heap.links address = some cell.children := by
  rw [links, found, Option.map_some]

theorem index_lt_of_live (address : Address) (live : Links.Live heap.links address) :
    address.index < heap.slots.size := by
  obtain ⟨cell, found⟩ := (heap.live_links_iff address).mp live
  exact heap.index_lt_size_of_cell? address cell found

theorem shallow_of_cycleFree (root : Address) (cycleFree : Links.CycleFree heap.links root) :
    Links.Shallow heap.links (heap.slots.size + 1) root :=
  cycleFree.shallow heap.slots.size heap.index_lt_of_live

theorem founded_of_cycleFree (root : Address) (cycleFree : Links.CycleFree heap.links root) :
    Links.Founded heap.links root := (heap.shallow_of_cycleFree root cycleFree).founded

theorem founded_of_acyclic (acyclic : Links.Acyclic heap.links) (root : Address) :
    Links.Founded heap.links root :=
  heap.founded_of_cycleFree root fun address _ => acyclic address

end Heap
end ScriptCore
