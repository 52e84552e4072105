import ScriptCore.Heap.Value

set_option autoImplicit false

/-! Finite sets of addresses, from which addresses are taken one by one. -/

namespace ScriptCore

/-- For each address below a bound, whether it belongs to the set. -/
structure AddressSet where
  members : Array Bool

namespace AddressSet

def contains (set : AddressSet) (address : Address) : Bool :=
  set.members[address.index]?.getD false

/-- Takes an address out of the set. -/
def erase (set : AddressSet) (address : Address) : AddressSet :=
  ⟨set.members.setIfInBounds address.index false⟩

def size (set : AddressSet) : Nat := set.members.count true

theorem contains_erase (set : AddressSet) (address other : Address) :
    (set.erase address).contains other = (set.contains other && decide (other ≠ address)) := by
  by_cases same : other = address
  · subst same
    by_cases inside : other.index < set.members.size
    · simp [contains, erase, inside]
    · simp [contains, erase, inside]
  · have apart : address.index ≠ other.index := fun equal =>
      same (by cases address; cases other; simp_all)
    simp [contains, erase, apart, same]

/-- Taking a member out makes the set smaller. -/
theorem size_erase_lt (set : AddressSet) (address : Address)
    (member : set.contains address = true) : (set.erase address).size < set.size := by
  by_cases inside : address.index < set.members.size
  · have held : set.members[address.index] = true := by
      simpa [contains, inside] using member
    have positive : 0 < set.members.count true :=
      Array.count_pos_iff.mpr (held ▸ Array.getElem_mem inside)
    have smaller : (set.members.set address.index false inside).count true =
        set.members.count true - 1 := by simp [Array.count_set, held]
    simp only [size, erase, Array.setIfInBounds, dif_pos inside, smaller]
    omega
  · simp [contains, inside] at member

end AddressSet
end ScriptCore
