import ScriptCore.Heap.Update
import ScriptCore.Proofs.Heap.Work
import ScriptCore.Proofs.References.Moved
import ScriptCore.Proofs.References.PathCounts

set_option autoImplicit false

/-! An adjustment moves the count of each cell below its root by the number of paths to
it, or it fails and changes nothing. Exact counts are integers; a count that a cell can
hold lies in the range of its word. -/

namespace ScriptCore.Heap

open Links

def Adjustment.sign : Adjustment → Int
  | .retain => 1
  | .release => -1

/-- The report of a count that cannot move by the given change. -/
def Adjustment.fault (adjustment : Adjustment) (cell : Address) (held : UInt32)
    (change : Nat) : Fault :=
  match adjustment with
  | .retain => .overflow cell held (min change largestChange)
  | .release => .underflow cell held (min change largestChange)

/-- A cell can hold this count. -/
def InRange (count : Int) : Prop := 0 ≤ count ∧ count < UInt32.size

theorem inRange_toNat (count : UInt32) : InRange count.toNat :=
  ⟨Int.natCast_nonneg _, by exact_mod_cast count.toNat_lt_size⟩

/-- The word for a count that it can hold. -/
def countWord (count : Int) : UInt32 := UInt32.ofNat count.toNat

theorem toNat_countWord (count : Int) (inRange : InRange count) :
    ((countWord count).toNat : Int) = count := by
  obtain ⟨notBelow, notAbove⟩ := inRange
  have fits : count.toNat < UInt32.size := by omega
  rw [countWord, UInt32.toNat_ofNat_of_lt' fits]
  exact Int.toNat_of_nonneg notBelow

theorem Adjustment.apply_of_inRange (adjustment : Adjustment) (cell : Address) (held : UInt32)
    (change : Nat) (inRange : InRange (held.toNat + adjustment.sign * change)) :
    adjustment.apply cell held change =
      .ok (countWord (held.toNat + adjustment.sign * change)) := by
  obtain ⟨notBelow, notAbove⟩ := inRange
  cases adjustment with
  | retain =>
      simp only [Adjustment.sign, Int.one_mul] at notBelow notAbove ⊢
      have fits : held.toNat + change < UInt32.size := by omega
      have same : ((held.toNat : Int) + change).toNat = held.toNat + change := by omega
      simp only [Adjustment.apply, if_pos fits, countWord, same]
  | release =>
      simp only [Adjustment.sign] at notBelow notAbove ⊢
      have fits : change ≤ held.toNat := by omega
      have same : ((held.toNat : Int) + -1 * change).toNat = held.toNat - change := by omega
      simp only [Adjustment.apply, if_pos fits, countWord, same]

theorem Adjustment.apply_of_not_inRange (adjustment : Adjustment) (cell : Address)
    (held : UInt32) (change : Nat)
    (outOfRange : ¬ InRange (held.toNat + adjustment.sign * change)) :
    adjustment.apply cell held change = .error (adjustment.fault cell held change) := by
  have small := held.toNat_lt_size
  cases adjustment with
  | retain =>
      simp only [InRange, Adjustment.sign, Int.one_mul, not_and_or] at outOfRange
      have large : ¬ held.toNat + change < UInt32.size := by omega
      simp only [Adjustment.apply, if_neg large, Adjustment.fault]
  | release =>
      simp only [InRange, Adjustment.sign, not_and_or] at outOfRange
      have large : ¬ change ≤ held.toNat := by omega
      simp only [Adjustment.apply, if_neg large, Adjustment.fault]

/-! ### Counts worked out before they are written -/

/-- The new count of one cell, beside its address. -/
private def newCount (heap : Heap) (adjustment : Adjustment) (amount : UInt32)
    (entry : Address × Nat) : Except Fault (Address × UInt32) := do
  let cell ← heap.cell entry.1
  let count ← adjustment.apply entry.1 cell.references (entry.2 * amount.toNat)
  .ok (entry.1, count)

private theorem adjust_eq (heap : Heap) (adjustment : Adjustment) (root : Address)
    (amount : UInt32) (nonzero : amount ≠ 0) :
    heap.adjust adjustment root amount = (do
      let entries ← heap.pathCounts root
      let counts ← entries.mapM (newCount heap adjustment amount)
      .ok (heap.writeCounts counts)) := by
  unfold adjust
  rw [if_neg nonzero]
  rfl

private theorem newCount_eq (heap : Heap) (adjustment : Adjustment) (amount : UInt32)
    (address : Address) (ways : Nat) (cell : Cell) (found : heap.cell? address = some cell) :
    newCount heap adjustment amount (address, ways) =
      (adjustment.apply address cell.references (ways * amount.toNat)).map
        fun count => (address, count) := by
  unfold newCount Heap.cell
  rw [found]
  change (do
    let count ← adjustment.apply address cell.references (ways * amount.toNat)
    Except.ok (address, count)) = _
  cases adjustment.apply address cell.references (ways * amount.toNat) with
  | ok count => rfl
  | error fault => rfl

/-- By how much an adjustment moves a count, as an integer. -/
noncomputable def movement (heap : Heap) (adjustment : Adjustment) (root : Address)
    (amount : UInt32) (address : Address) : Int :=
  adjustment.sign * (paths heap.links root address * amount.toNat : Nat)

private theorem movement_eq_zero (heap : Heap) (adjustment : Adjustment) (root : Address)
    (amount : UInt32) (address : Address) (apart : ¬ Below heap.links root address) :
    heap.movement adjustment root amount address = 0 := by
  rw [movement, paths_eq_zero apart, Nat.zero_mul, Int.natCast_zero, Int.mul_zero]

/-- The count that an adjustment gives a cell. -/
private noncomputable def movedCount (heap : Heap) (adjustment : Adjustment) (root : Address)
    (amount : UInt32) (address : Address) : UInt32 :=
  (heap.cell? address).elim 0 fun cell =>
    countWord (cell.references.toNat + heap.movement adjustment root amount address)

private theorem moved_of_inRange (heap : Heap) (adjustment : Adjustment) (root : Address)
    (amount : UInt32) (order : List Address) (ordered : Ordered heap.links order)
    (listed : ∀ address, address ∈ order ↔ Below heap.links root address)
    (inRange : ∀ address cell, heap.cell? address = some cell →
      InRange (cell.references.toNat + heap.movement adjustment root amount address)) :
    Moved (heap.movement adjustment root amount) heap (heap.writeCounts
      (order.map fun address => (address, heap.movedCount adjustment root amount address))) := by
  have addresses : (order.map fun address =>
      (address, heap.movedCount adjustment root amount address)).map Prod.fst = order := by
    rw [List.map_map]
    exact List.map_id order
  obtain ⟨frame, kept, set⟩ := cell?_writeCounts _ heap (addresses.symm ▸ ordered.nodup)
  rw [addresses] at kept
  refine ⟨frame, ?_, ?_⟩
  · intro address dead
    by_cases member : address ∈ order
    · obtain ⟨cell, found⟩ := (heap.live_links_iff address).mp (ordered.live address member)
      rw [dead] at found
      cases found
    · rw [kept address member, dead]
  · intro address cell found
    by_cases member : address ∈ order
    · refine ⟨heap.movedCount adjustment root amount address, ?_, ?_⟩
      · rw [set address _ (List.mem_map.mpr ⟨address, member, rfl⟩), found, Option.map_some]
      · rw [movedCount, found]
        exact toNat_countWord _ (inRange address cell found)
    · have unmoved := heap.movement_eq_zero adjustment root amount address
        fun below => member ((listed address).mpr below)
      refine ⟨cell.references, ?_, ?_⟩
      · rw [kept address member, found]
      · rw [unmoved, Int.add_zero]

/-- The cells below a root in order, each with the number of paths to it. -/
private noncomputable def entries (heap : Heap) (root : Address) (order : List Address) :
    List (Address × Nat) := order.map fun address => (address, paths heap.links root address)

section Ordered

variable (heap : Heap) (adjustment : Adjustment) (root : Address) (amount : UInt32)
  (order : List Address) (ordered : Ordered heap.links order)

include ordered

private theorem counts_of_inRange
    (inRange : ∀ address cell, heap.cell? address = some cell →
      InRange (cell.references.toNat + heap.movement adjustment root amount address)) :
    (heap.entries root order).mapM (newCount heap adjustment amount) =
      .ok (order.map fun address => (address, heap.movedCount adjustment root amount address)) := by
  rw [entries, mapM_eq_ok_iff, List.forall₂_map_left_iff, List.forall₂_map_right_iff,
    List.forall₂_same]
  intro address inOrder
  obtain ⟨cell, found⟩ := (heap.live_links_iff address).mp (ordered.live address inOrder)
  rw [newCount_eq heap adjustment amount address _ cell found,
    adjustment.apply_of_inRange address _ _ (inRange address cell found)]
  simp only [movedCount, found, Option.elim_some, movement]
  rfl

private theorem fault_of_not_inRange
    (listed : ∀ address, address ∈ order ↔ Below heap.links root address)
    (address : Address) (cell : Cell) (found : heap.cell? address = some cell)
    (outOfRange : ¬ InRange (cell.references.toNat +
      heap.movement adjustment root amount address)) :
    ∃ named namedCell, heap.cell? named = some namedCell ∧
      ¬ InRange (namedCell.references.toNat + heap.movement adjustment root amount named) ∧
      (heap.entries root order).mapM (newCount heap adjustment amount) =
        .error (adjustment.fault named namedCell.references
          (paths heap.links root named * amount.toNat)) := by
  have inOrder : address ∈ order := by
    by_contra absent
    have unmoved := heap.movement_eq_zero adjustment root amount address
      fun below => absent ((listed address).mpr below)
    rw [unmoved, Int.add_zero] at outOfRange
    exact outOfRange (inRange_toNat cell.references)
  have refused (named : Address) (namedCell : Cell) (namedFound : heap.cell? named = some namedCell)
      (namedOut : ¬ InRange (namedCell.references.toNat +
        heap.movement adjustment root amount named)) :
      newCount heap adjustment amount (named, paths heap.links root named) =
        .error (adjustment.fault named namedCell.references
          (paths heap.links root named * amount.toNat)) := by
    rw [newCount_eq heap adjustment amount named _ namedCell namedFound,
      adjustment.apply_of_not_inRange named _ _ namedOut]
    rfl
  cases mapped : (heap.entries root order).mapM (newCount heap adjustment amount) with
  | ok counts =>
      obtain ⟨count, counted⟩ :=
        exists_of_mapM_eq_ok mapped (List.mem_map.mpr ⟨address, inOrder, rfl⟩)
      rw [refused address cell found outOfRange] at counted
      cases counted
  | error fault =>
      obtain ⟨earlier, entry, later, split, _, failed⟩ := mapM_eq_error_iff.mp mapped
      have inEntries : entry ∈ heap.entries root order :=
        split ▸ List.mem_append_right _ (List.mem_cons_self ..)
      obtain ⟨named, namedInOrder, rfl⟩ := List.mem_map.mp inEntries
      obtain ⟨namedCell, namedFound⟩ :=
        (heap.live_links_iff named).mp (ordered.live named namedInOrder)
      by_cases namedInRange : InRange (namedCell.references.toNat +
          heap.movement adjustment root amount named)
      · rw [newCount_eq heap adjustment amount named _ namedCell namedFound,
          adjustment.apply_of_inRange named _ _ namedInRange] at failed
        cases failed
      · rw [refused named namedCell namedFound namedInRange] at failed
        cases failed
        exact ⟨named, namedCell, namedFound, namedInRange, rfl⟩

end Ordered

/-- How an adjustment ends where no cycle lies below its root. It fails on a dead address
below the root, or else on an exact count that no cell can hold, and in no other case. -/
theorem adjust_cases (heap : Heap) (adjustment : Adjustment) (root : Address)
    (amount : UInt32) (nonzero : amount ≠ 0) (cycleFree : CycleFree heap.links root) :
    (∃ dead, Below heap.links root dead ∧ ¬ Live heap.links dead ∧
        heap.adjust adjustment root amount = .error (.dangling dead)) ∨
      (∀ address, Below heap.links root address → Live heap.links address) ∧
        ((∃ address cell, heap.cell? address = some cell ∧
            ¬ InRange (cell.references.toNat + heap.movement adjustment root amount address) ∧
            heap.adjust adjustment root amount = .error (adjustment.fault address
              cell.references (paths heap.links root address * amount.toNat))) ∨
          ∃ after, heap.adjust adjustment root amount = .ok after ∧
            Moved (heap.movement adjustment root amount) heap after) := by
  rw [adjust_eq heap adjustment root amount nonzero]
  rcases heap.ownershipOrder_cases root cycleFree with
    ⟨order, walked, ordered, listed⟩ | ⟨dead, walked, below, notLive⟩
  · have member : root ∈ order := (listed root).mpr Relation.ReflTransGen.refl
    have live (address : Address) (below : Below heap.links root address) :
        Live heap.links address := ordered.live address ((listed address).mpr below)
    rw [pathCounts_eq heap root order walked ordered member]
    refine Or.inr ⟨live, ?_⟩
    change (∃ address cell, _ ∧ _ ∧ (do
        let counts ← (heap.entries root order).mapM (newCount heap adjustment amount)
        Except.ok (heap.writeCounts counts)) = _) ∨
      ∃ after, (do
        let counts ← (heap.entries root order).mapM (newCount heap adjustment amount)
        Except.ok (heap.writeCounts counts)) = _ ∧ _
    by_cases inRange : ∀ address cell, heap.cell? address = some cell →
      InRange (cell.references.toNat + heap.movement adjustment root amount address)
    · rw [counts_of_inRange heap adjustment root amount order ordered inRange]
      exact Or.inr
        ⟨_, rfl, moved_of_inRange heap adjustment root amount order ordered listed inRange⟩
    · simp only [not_forall] at inRange
      obtain ⟨address, cell, found, outOfRange⟩ := inRange
      obtain ⟨named, namedCell, namedFound, namedOut, failed⟩ := fault_of_not_inRange heap
        adjustment root amount order ordered listed address cell found outOfRange
      rw [failed]
      exact Or.inl ⟨named, namedCell, namedFound, namedOut, rfl⟩
  · refine Or.inl ⟨dead, below, notLive, ?_⟩
    unfold pathCounts
    rw [walked]
    rfl

theorem adjust_zero (heap : Heap) (adjustment : Adjustment) (root : Address) :
    heap.adjust adjustment root 0 = .ok heap := by
  unfold adjust
  rw [if_pos rfl]

theorem moved_zero (heap : Heap) (adjustment : Adjustment) (root : Address) :
    Moved (heap.movement adjustment root 0) heap heap := by
  apply (Moved.refl heap).congr
  intro address
  simp [movement]

/-- An adjustment succeeds if all below its root is live, or nothing is asked for, and the
counts can move as they should. -/
theorem adjust_eq_ok_iff {heap after : Heap} {adjustment : Adjustment} {root : Address}
    {amount : UInt32} (cycleFree : CycleFree heap.links root) :
    heap.adjust adjustment root amount = .ok after ↔
      (amount ≠ 0 → ∀ address, Below heap.links root address → Live heap.links address) ∧
        Moved (heap.movement adjustment root amount) heap after := by
  by_cases zero : amount = 0
  · subst zero
    rw [heap.adjust_zero]
    constructor
    · intro same
      cases same
      exact ⟨fun nonzero => absurd rfl nonzero, heap.moved_zero adjustment root⟩
    · rintro ⟨_, moved⟩
      rw [(heap.moved_zero adjustment root).unique moved]
  · rcases heap.adjust_cases adjustment root amount zero cycleFree with
      ⟨dead, below, notLive, failed⟩ |
        ⟨live, ⟨address, cell, found, out, failed⟩ | ⟨done, adjusted, moved⟩⟩
    · rw [failed]
      constructor
      · intro impossible
        cases impossible
      · rintro ⟨live, _⟩
        exact absurd (live zero dead below) notLive
    · rw [failed]
      constructor
      · intro impossible
        cases impossible
      · rintro ⟨_, moved⟩
        obtain ⟨count, _, counted⟩ := moved.live address cell found
        rw [← counted] at out
        exact absurd (inRange_toNat count) out
    · rw [adjusted]
      constructor
      · intro same
        cases same
        exact ⟨fun _ => live, moved⟩
      · rintro ⟨_, moved'⟩
        rw [moved.unique moved']

/-! ### Adjustments below which all is live -/

section Live

variable (heap : Heap) (root : Address) (amount : UInt32)
  (founded : Founded heap.links root)
  (live : ∀ address, Below heap.links root address → Live heap.links address)

include founded live

private theorem adjust_of_live (adjustment : Adjustment) :
    (∃ address cell, heap.cell? address = some cell ∧
        ¬ InRange (cell.references.toNat + heap.movement adjustment root amount address) ∧
        heap.adjust adjustment root amount = .error (adjustment.fault address
          cell.references (paths heap.links root address * amount.toNat))) ∨
      ∃ after, heap.adjust adjustment root amount = .ok after ∧
        Moved (heap.movement adjustment root amount) heap after := by
  by_cases zero : amount = 0
  · subst zero
    exact Or.inr ⟨heap, heap.adjust_zero adjustment root, heap.moved_zero adjustment root⟩
  · rcases heap.adjust_cases adjustment root amount zero founded.cycleFree with
      ⟨dead, below, notLive, _⟩ | ⟨_, ends⟩
    · exact absurd (live dead below) notLive
    · exact ends

theorem release_of_le
    (enough : ∀ address cell, heap.cell? address = some cell →
      paths heap.links root address * amount.toNat ≤ cell.references.toNat) :
    ∃ after, heap.release root amount = .ok after ∧
      Moved (heap.movement .release root amount) heap after := by
  rcases heap.adjust_of_live root amount founded live .release with
    ⟨address, cell, found, out, _⟩ | done
  · have fits := enough address cell found
    have small := cell.references.toNat_lt_size
    simp only [InRange, movement, Adjustment.sign, not_and_or] at out
    omega
  · exact done

theorem retain_cases :
    (∃ after, heap.retain root amount = .ok after ∧
        Moved (heap.movement .retain root amount) heap after) ∨
      ∃ address cell added, heap.cell? address = some cell ∧
        UInt32.size ≤ cell.references.toNat + paths heap.links root address * amount.toNat ∧
        heap.retain root amount = .error (.overflow address cell.references added) := by
  rcases heap.adjust_of_live root amount founded live .retain with
    ⟨address, cell, found, out, failed⟩ | done
  · simp only [InRange, movement, Adjustment.sign, not_and_or] at out
    exact Or.inr ⟨address, cell, _, found, by omega, failed⟩
  · exact Or.inl done

end Live

end ScriptCore.Heap
