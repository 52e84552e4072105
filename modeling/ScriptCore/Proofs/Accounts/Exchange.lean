import Mathlib.Tactic.Ring
import ScriptCore.Proofs.Accounts.Basic
import ScriptCore.Proofs.Ownership.Search

set_option autoImplicit false

/-! A cell exchanges some of its children for others. What it held is let go first, which
never takes a count below zero, since every path to the cell went on to each old child.
The new children are held afterwards, and only there a count may become too large. -/

namespace ScriptCore.Heap

open Links

/-- Paths from several cells, each as often as their owner is held. -/
noncomputable def share (heap : Heap) (held : UInt32) (owned : List Address)
    (address : Address) : Nat := pathsFrom heap.links owned address * held.toNat

/-- Holding the new children of an owner stopped at the first that is too much. The old ones
are let go and those before it are held; with all of them held, some exact count would be too
large. -/
structure Overflowed (heap : Heap) (held : UInt32) (old new : List Address)
    (start after : Heap) (fault : Fault) : Prop where
  reported : fault.Overflows
  stopped : ∃ earlier child later, new = earlier ++ child :: later ∧
    Moved (fun address => heap.share held earlier address - heap.share held old address)
      start after
  large : ∃ address cell, start.cell? address = some cell ∧
    UInt32.size + heap.share held old address ≤
      cell.references.toNat + heap.share held new address

/-! ### Letting go and holding one by one -/

section Each

variable (heap : Heap) (held : UInt32) (owned : List Address)
  (founded : ∀ child, child ∈ owned → Founded heap.links child)
  (live : ∀ child, child ∈ owned → ∀ address, Below heap.links child address →
    Live heap.links address)

private theorem share_nil (address : Address) : heap.share held [] address = 0 := by
  rw [share, pathsFrom_nil, Nat.zero_mul]

private theorem share_cons (child : Address) (address : Address) :
    heap.share held (child :: owned) address =
      paths heap.links child address * held.toNat + heap.share held owned address := by
  rw [share, pathsFrom_cons, Nat.add_mul]
  rfl

private theorem share_of_moved {heap : Heap} {change : Address → Int} {after : Heap}
    (moved : Moved change heap after) : after.share held owned = heap.share held owned := by
  funext address
  rw [share, moved.links_eq]
  rfl

include founded live

theorem releaseEach
    (enough : ∀ address cell, heap.cell? address = some cell →
      heap.share held owned address ≤ cell.references.toNat) :
    ∃ after, (owned.forM fun child => HeapM.change (·.release child held)) heap =
        .ok () after ∧ Moved (fun address => -(heap.share held owned address : Int)) heap after := by
  induction owned generalizing heap with
  | nil =>
      refine ⟨heap, rfl, (Moved.refl heap).congr ?_⟩
      intro address
      simp [share]
  | cons child rest ih =>
      obtain ⟨middle, released, first⟩ := heap.release_of_le child held
        (founded child (List.mem_cons_self ..)) (live child (List.mem_cons_self ..)) (by
          intro address cell found
          have both := enough address cell found
          rw [share_cons] at both
          omega)
      obtain ⟨after, done, later⟩ := ih middle
        (fun other member => by
          rw [first.links_eq]
          exact founded other (List.mem_cons_of_mem child member))
        (fun other member => by
          rw [first.links_eq]
          exact live other (List.mem_cons_of_mem child member))
        (by
          intro address cell' found'
          obtain ⟨cell, found, _, counted⟩ := first.of_after address cell' found'
          have both := enough address cell found
          rw [share_cons] at both
          rw [share_of_moved held rest first]
          simp only [movement, Adjustment.sign] at counted
          omega)
      refine ⟨after, ?_, (first.trans later).congr ?_⟩
      · rw [forM_cons, bind_of_ok (HeapM.change_of_ok released)]
        exact done
      · intro address
        rw [share_of_moved held rest first, share_cons, movement, Adjustment.sign]
        omega

theorem retainEach :
    (∃ after, (owned.forM fun child => HeapM.change (·.retain child held)) heap =
        .ok () after ∧ Moved (fun address => (heap.share held owned address : Int)) heap after) ∨
      ∃ fault after, (owned.forM fun child => HeapM.change (·.retain child held)) heap =
        .error fault after ∧ Overflowed heap held [] owned heap after fault := by
  induction owned generalizing heap with
  | nil =>
      refine Or.inl ⟨heap, rfl, (Moved.refl heap).congr ?_⟩
      intro address
      simp [share]
  | cons child rest ih =>
      rw [forM_cons]
      rcases heap.retain_cases child held (founded child (List.mem_cons_self ..))
          (live child (List.mem_cons_self ..)) with
        ⟨middle, retained, first⟩ | ⟨address, cell, added, found, large, failed⟩
      · rw [bind_of_ok (HeapM.change_of_ok retained)]
        have sameShare (listed : List Address) := share_of_moved held listed first
        rcases ih middle
            (fun other member => by
              rw [first.links_eq]
              exact founded other (List.mem_cons_of_mem child member))
            (fun other member => by
              rw [first.links_eq]
              exact live other (List.mem_cons_of_mem child member)) with
          ⟨after, done, later⟩ | ⟨fault, after, failed, overflowed⟩
        · refine Or.inl ⟨after, done, (first.trans later).congr ?_⟩
          intro address
          rw [sameShare rest, share_cons, movement, Adjustment.sign]
          omega
        · obtain ⟨earlier, stop, later, split, moved⟩ := overflowed.stopped
          obtain ⟨address, cell', found', large⟩ := overflowed.large
          obtain ⟨cell, found, _, counted⟩ := first.of_after address cell' found'
          refine Or.inr ⟨fault, after, failed, overflowed.reported,
            ⟨child :: earlier, stop, later, ?_, (first.trans moved).congr ?_⟩,
            address, cell, found, ?_⟩
          · rw [split, List.cons_append]
          · intro address
            rw [sameShare earlier, sameShare [], share_cons, movement, Adjustment.sign]
            omega
          · rw [sameShare rest, sameShare []] at large
            rw [share_cons]
            simp only [movement, Adjustment.sign] at counted
            omega
      · refine Or.inr ⟨_, heap, bind_of_error (HeapM.change_of_error failed), ⟨_, _, _, rfl⟩,
          ⟨[], child, rest, rfl, (Moved.refl heap).congr ?_⟩, address, cell, found, ?_⟩
        · intro address
          exact (Int.sub_self _).symm
        · rw [share_cons, share_nil]
          omega

end Each

/-- References move from what an owner had to what it has now. -/
theorem moveReferences_cases (heap : Heap) (held : UInt32) (old new : List Address)
    (founded : ∀ address, Founded heap.links address)
    (live : ∀ child, child ∈ old ++ new → ∀ address, Below heap.links child address →
      Live heap.links address)
    (enough : ∀ address cell, heap.cell? address = some cell →
      heap.share held old address ≤ cell.references.toNat) :
    (∃ after, moveReferences held old new heap = .ok () after ∧
        Moved (fun address => heap.share held new address - heap.share held old address)
          heap after) ∨
      ∃ fault after, moveReferences held old new heap = .error fault after ∧
        Overflowed heap held old new heap after fault := by
  unfold moveReferences
  obtain ⟨middle, released, first⟩ := releaseEach heap held old (fun child _ => founded child)
    (fun child member => live child (List.mem_append_left new member)) enough
  rw [bind_of_ok released]
  have sameShare (listed : List Address) := share_of_moved held listed first
  rcases retainEach middle held new
      (fun child _ => by
        rw [first.links_eq]
        exact founded child)
      (fun child member => by
        rw [first.links_eq]
        exact live child (List.mem_append_right old member)) with
    ⟨after, retained, later⟩ | ⟨fault, after, failed, overflowed⟩
  · refine Or.inl ⟨after, retained, (first.trans later).congr ?_⟩
    intro address
    rw [sameShare new]
    omega
  · obtain ⟨earlier, stop, later, split, moved⟩ := overflowed.stopped
    obtain ⟨address, cell', found', large⟩ := overflowed.large
    obtain ⟨cell, found, _, counted⟩ := first.of_after address cell' found'
    refine Or.inr ⟨fault, after, failed, overflowed.reported,
      ⟨earlier, stop, later, split, (first.trans moved).congr ?_⟩, address, cell, found, ?_⟩
    · intro address
      rw [sameShare earlier, sameShare [], share_nil]
      omega
    · rw [sameShare new, sameShare [], share_nil] at large
      omega

/-! ### Exchanging children -/

/-- An owner gets some new children for old ones and keeps the rest and its count. No new
child contains the owner, and all below the new children is live. -/
structure Exchange (heap : Heap) (owner : Address) (cell : Cell) (change : Cell → Cell)
    (old new : List Address) : Prop where
  found : heap.cell? owner = some cell
  references : (change cell).references = cell.references
  children : ∃ rest, cell.children.Perm (rest ++ old) ∧
    (change cell).children.Perm (rest ++ new)
  apart : ∀ child, child ∈ new → ¬ Below heap.links child owner
  live : ∀ child, child ∈ new → Live heap.links child

namespace Exchange

variable {heap : Heap} {owner : Address} {cell : Cell} {change : Cell → Cell}
  {old new : List Address} (exchange : Exchange heap owner cell change old new)

include exchange

theorem cell?_owner : (heap.modifyCell owner change).cell? owner = some (change cell) := by
  rw [cell?_modifyCell, if_pos rfl, exchange.found, Option.map_some]

theorem children_before : Links.children heap.links owner = cell.children :=
  children_eq (heap.links_of_cell? owner cell exchange.found)

theorem children_after :
    Links.children (heap.modifyCell owner change).links owner = (change cell).children :=
  children_eq (links_of_cell? _ owner _ exchange.cell?_owner)

omit exchange in
theorem children_elsewhere (address : Address) (apart : address ≠ owner) :
    Links.children (heap.modifyCell owner change).links address =
      Links.children heap.links address := by
  unfold Links.children links
  rw [cell?_modifyCell, if_neg apart]

omit exchange in
theorem live_iff (address : Address) :
    Live (heap.modifyCell owner change).links address ↔ Live heap.links address := by
  rw [live_links_iff, live_links_iff, cell?_modifyCell]
  by_cases same : address = owner
  · simp only [if_pos same, Option.map_eq_some_iff]
    exact ⟨fun ⟨_, cell, found, _⟩ => ⟨cell, found⟩, fun ⟨cell, found⟩ => ⟨_, cell, found, rfl⟩⟩
  · rw [if_neg same]

/-- The count of a cell is not touched by the change itself. -/
theorem of_cell?_changed (address : Address) (cell' : Cell)
    (found' : (heap.modifyCell owner change).cell? address = some cell') :
    ∃ before, heap.cell? address = some before ∧ cell'.references = before.references := by
  rw [cell?_modifyCell] at found'
  by_cases same : address = owner
  · subst same
    rw [if_pos rfl, exchange.found] at found'
    cases found'
    exact ⟨cell, exchange.found, exchange.references⟩
  · rw [if_neg same] at found'
    exact ⟨cell', found', rfl⟩

theorem owns_of_mem_old {child : Address} (member : child ∈ old) :
    Owns heap.links owner child := by
  obtain ⟨rest, before, _⟩ := exchange.children
  rw [Owns, exchange.children_before]
  exact before.mem_iff.mpr (List.mem_append_right rest member)

theorem of_owns_after {child : Address}
    (owns : Owns (heap.modifyCell owner change).links owner child) :
    Owns heap.links owner child ∨ child ∈ new := by
  obtain ⟨rest, before, after⟩ := exchange.children
  rw [Owns, exchange.children_after] at owns
  rcases List.mem_append.mp (after.mem_iff.mp owns) with kept | added
  · left
    rw [Owns, exchange.children_before]
    exact before.mem_iff.mpr (List.mem_append_left old kept)
  · exact Or.inr added

variable {roots : List Address} (accounted : Accounted heap roots)

include accounted

omit exchange in
theorem not_below_of_owns {child : Address} (owns : Owns heap.links owner child) :
    ¬ Below heap.links child owner := fun back =>
  (accounted.founded owner).not_strictlyBelow (StrictlyBelow.of_owns_below owns back)

theorem apart_after (child : Address)
    (owns : Owns (heap.modifyCell owner change).links owner child) :
    Live heap.links child ∧ ¬ Below heap.links child owner := by
  rcases exchange.of_owns_after owns with kept | added
  · exact ⟨accounted.closed owner child kept, not_below_of_owns accounted kept⟩
  · exact ⟨exchange.live child added, exchange.apart child added⟩

theorem founded_after (address : Address) :
    Founded (heap.modifyCell owner change).links address :=
  founded_relink children_elsewhere accounted.founded
    (fun child owns => (exchange.apart_after accounted child owns).2) address

theorem closed_after : Closed (heap.modifyCell owner change).links := by
  intro parent child owns
  rw [live_iff]
  by_cases same : parent = owner
  · subst same
    exact (exchange.apart_after accounted child owns).1
  · rw [Owns, children_elsewhere parent same] at owns
    exact accounted.closed parent child owns

/-- Nothing below an old or a new child has changed. -/
theorem share_after {owned : List Address} (held : UInt32)
    (among : ∀ child, child ∈ owned → child ∈ old ++ new) :
    (heap.modifyCell owner change).share held owned = heap.share held owned := by
  funext address
  unfold share
  rw [pathsFrom_congr owned address]
  intro child member
  have apart : ¬ Below heap.links child owner := by
    rcases List.mem_append.mp (among child member) with released | retained
    · exact not_below_of_owns accounted (exchange.owns_of_mem_old released)
    · exact exchange.apart child retained
  exact paths_congr (accounted.founded child)
    (children_eq_of_apart children_elsewhere apart) address

/-- The count of a cell covers what reaches it through the old children. -/
theorem share_old_le (address : Address) (before : Cell)
    (found : heap.cell? address = some before) :
    heap.share cell.references old address ≤ before.references.toNat := by
  obtain ⟨rest, children, _⟩ := exchange.children
  have through := pathsFrom_mul_le accounted.founded roots owner address
  rw [exchange.children_before, pathsFrom_perm children, pathsFrom_append, Nat.mul_add] at through
  rw [share, accounted.counted owner cell exchange.found,
    accounted.counted address before found, Nat.mul_comm]
  omega

/-- Once the counts have moved along, the exchange is accounted for. -/
theorem accounted_after {after : Heap}
    (moved : Moved (fun address => heap.share cell.references new address -
      heap.share cell.references old address) (heap.modifyCell owner change) after) :
    Accounted after roots := by
  obtain ⟨rest, before, afterwards⟩ := exchange.children
  have sameLinks := moved.links_eq
  refine Accounted.relink owner accounted ?_ ?_ ?_ ?_
  · intro address apart
    rw [sameLinks]
    exact children_elsewhere address apart
  · intro address live
    rw [sameLinks, live_iff]
    exact live
  · intro child owns
    rw [sameLinks] at owns ⊢
    rw [live_iff]
    exact exchange.apart_after accounted child owns
  · intro address cell' found'
    obtain ⟨changed, foundChanged, _, counted⟩ := moved.of_after address cell' found'
    obtain ⟨first, found, same⟩ := exchange.of_cell?_changed address changed foundChanged
    have here := accounted.counted address first found
    have covered := exchange.share_old_le accounted address first found
    rw [sameLinks, exchange.children_after, exchange.children_before,
      ← accounted.counted owner cell exchange.found, pathsFrom_perm before,
      pathsFrom_perm afterwards, pathsFrom_append, pathsFrom_append, Nat.mul_add, Nat.mul_add]
    simp only [share, Nat.mul_comm _ cell.references.toNat] at counted covered
    rw [same] at counted
    omega

/-- The references of the owner move along, unless a count that a cell cannot hold would
come out in the end. -/
theorem moveReferences_cases :
    (∃ after, moveReferences cell.references old new (heap.modifyCell owner change) =
          .ok () after ∧
        Moved (fun address => heap.share cell.references new address -
          heap.share cell.references old address) (heap.modifyCell owner change) after) ∨
      ∃ fault after, moveReferences cell.references old new (heap.modifyCell owner change) =
          .error fault after ∧
        Overflowed heap cell.references old new (heap.modifyCell owner change) after fault := by
  have sameShare {owned : List Address} (among : ∀ child, child ∈ owned → child ∈ old ++ new) :=
    exchange.share_after accounted cell.references among
  have shareOld := sameShare fun child member => List.mem_append_left new member
  have shareNew := sameShare fun child member => List.mem_append_right old member
  have live (child : Address) (member : child ∈ old ++ new) : Live heap.links child := by
    rcases List.mem_append.mp member with released | retained
    · exact accounted.closed owner child (exchange.owns_of_mem_old released)
    · exact exchange.live child retained
  rcases Heap.moveReferences_cases (heap.modifyCell owner change) cell.references old new
      (exchange.founded_after accounted)
      (fun child member address below =>
        live_of_closed (exchange.closed_after accounted) ((live_iff child).mpr (live child member))
          below)
      (by
        intro address changed found
        obtain ⟨first, foundBefore, same⟩ := exchange.of_cell?_changed address changed found
        rw [shareOld, same]
        exact exchange.share_old_le accounted address first foundBefore) with
    ⟨after, done, moved⟩ | ⟨fault, after, failed, overflowed⟩
  · rw [shareOld, shareNew] at moved
    exact Or.inl ⟨after, done, moved⟩
  · obtain ⟨earlier, child, later, split, moved⟩ := overflowed.stopped
    have large := overflowed.large
    have among (other : Address) (member : other ∈ earlier) : other ∈ old ++ new := by
      rw [split]
      exact List.mem_append_right old (List.mem_append_left _ member)
    have shareEarlier := sameShare among
    rw [shareOld, shareEarlier] at moved
    rw [shareOld, shareNew] at large
    exact Or.inr ⟨fault, after, failed, overflowed.reported,
      ⟨earlier, child, later, split, moved⟩, large⟩

end Exchange

end ScriptCore.Heap
