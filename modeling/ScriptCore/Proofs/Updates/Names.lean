import ScriptCore.Proofs.Accounts.Bindings
import ScriptCore.Proofs.Updates.Outcomes

set_option autoImplicit false

/-! What binding a name does. The new cell is held, the table changed and the old cell let go,
one after the other, and only the first of these can fail. However the two cells share what lies
below them, the counts move once by the difference. -/

namespace ScriptCore

open Links

/-! ### The table of a name -/

theorem Table.mem_held_insert (table : Table) (name : String) (address : Address) :
    address ∈ (table.insert name address).held := by
  induction table with
  | nil => exact List.mem_singleton.mpr rfl
  | cons entry rest ih =>
      obtain ⟨bound, old⟩ := entry
      by_cases same : (bound == name) = true
      · rw [insert, if_pos same]
        exact List.mem_cons_self ..
      · rw [insert, if_neg same]
        exact List.mem_cons_of_mem old ih

namespace Scopes

/-- The table in which a name is bound: the innermost scope, unless there is none or the global
table is asked for. -/
def selected (scopes : Scopes) (isGlobal : Bool) : Table :=
  match scopes.locals, isGlobal with
  | innermost :: _, false => innermost
  | _, _ => scopes.globals

/-- Another table in its place, and all others as they are. -/
def withSelected (scopes : Scopes) (isGlobal : Bool) (table : Table) : Scopes :=
  match scopes.locals, isGlobal with
  | _ :: outer, false => { scopes with locals := table :: outer }
  | _, _ => { scopes with globals := table }

theorem insert_eq (scopes : Scopes) (name : String) (address : Address) (isGlobal : Bool) :
    scopes.insert name address isGlobal =
      ((scopes.selected isGlobal).find? name,
        scopes.withSelected isGlobal ((scopes.selected isGlobal).insert name address)) := by
  obtain ⟨globals, locals⟩ := scopes
  cases locals with
  | nil => rfl
  | cons innermost outer =>
      cases isGlobal with
      | true => rfl
      | false => rfl

theorem mem_held_withSelected (scopes : Scopes) (isGlobal : Bool) {table : Table}
    {address : Address} (member : address ∈ table.held) :
    address ∈ (scopes.withSelected isGlobal table).held := by
  obtain ⟨globals, locals⟩ := scopes
  cases locals with
  | nil => exact List.mem_append_left _ member
  | cons innermost outer =>
      cases isGlobal with
      | true => exact List.mem_append_left _ member
      | false => exact List.mem_append_right _ (List.mem_append_left _ member)

/-- One name is bound to the cell in its table; no other name and no other table has changed. -/
def Rebound (before after : Scopes) (name : String) (address : Address) (isGlobal : Bool) : Prop :=
  ∃ table, after = before.withSelected isGlobal table ∧ ∀ other,
    table.find? other = if other = name then some address
      else (before.selected isGlobal).find? other

theorem rebound_insert (scopes : Scopes) (name : String) (address : Address) (isGlobal : Bool) :
    Rebound scopes (scopes.insert name address isGlobal).2 name address isGlobal := by
  rw [insert_eq]
  exact ⟨_, rfl, fun other => Table.find?_insert _ name other address⟩

end Scopes

namespace Heap

/-- By how much the exact count of a cell changes when a name goes over from one cell, if it had
one, to another. -/
noncomputable def rebound (heap : Heap) (previous : Option Address) (address other : Address) :
    Int :=
  (paths heap.links address other : Int) - pathsFrom heap.links previous.toList other

theorem rebound_same (heap : Heap) (address other : Address) :
    heap.rebound (some address) address other = 0 := by
  rw [rebound, Option.toList_some, pathsFrom_cons, pathsFrom_nil, Nat.add_zero, Int.sub_self]

/-! ### Holding a cell once more -/

section Holding

variable {heap : Heap} {roots : List Address} (accounted : Accounted heap roots)
  {address : Address}

include accounted

theorem addReference_of_dead (dead : heap.cell? address = none) :
    heap.addReference address = .error (.dangling address) := by
  have notLive : ¬ Live heap.links address := by
    rw [live_links_iff, dead]
    rintro ⟨_, impossible⟩
    cases impossible
  rcases heap.adjust_cases .retain address 1 (by decide)
      (accounted.founded address).cycleFree with ⟨lower, below, _, failed⟩ | ⟨live, _⟩
  · rw [eq_of_below_of_not_live notLive below] at failed
    exact failed
  · exact absurd (live address Relation.ReflTransGen.refl) notLive

/-- A live cell can be held once more unless some exact count would be too large. -/
theorem addReference_of_live (live : Live heap.links address) :
    (¬ heap.Exceeds (fun other => paths heap.links address other) ∧
        ∃ after, heap.addReference address = .ok after) ∨
      heap.Exceeds (fun other => paths heap.links address other) ∧
        ∃ fault, fault.Overflows ∧ heap.addReference address = .error fault := by
  rcases heap.retain_cases address 1 (accounted.founded address)
      (fun lower below => accounted.live_below live below) with
    ⟨after, done, moved⟩ | ⟨other, cell, added, found, large, failed⟩
  · refine Or.inl ⟨?_, after, done⟩
    rintro ⟨other, cell, found, large⟩
    obtain ⟨count, _, counted⟩ := moved.live other cell found
    have bounded := count.toNat_lt_size
    rw [movement, Adjustment.sign] at counted
    change (count.toNat : Int) = _ + 1 * ((_ * 1 : Nat) : Int) at counted
    dsimp only at large
    omega
  · refine Or.inr ⟨⟨other, cell, found, ?_⟩, _, ⟨other, cell.references, added, rfl⟩, failed⟩
    change UInt32.size ≤ _ + _ * 1 at large
    dsimp only
    omega

end Holding
end Heap

/-! ### Binding a name -/

namespace Store

open Heap

/-- A name is bound to another cell. Counts have moved from below its previous cell to below the
new one, and between the two steps and after them all that the new cell contains is held. -/
structure Bound (before after : Store) (name : String) (address : Address) (isGlobal : Bool)
    (previous : Option Address) : Prop where
  scopes : before.scopes.Rebound after.scopes name address isGlobal
  moved : Moved (before.heap.rebound previous address) before.heap after.heap
  again : previous = some address → after.heap = before.heap
  held : ∃ between, before.heap.addReference address = .ok between ∧
    ∀ heap lower cell, heap = between ∨ heap = after.heap →
      Below before.heap.links address lower → heap.cell? lower = some cell → cell.references ≠ 0

/-- Binding a name ends in one of three ways, each under its own condition. The first two leave
the store as it was. -/
structure BindsExactly (store : Store) (name : String) (address : Address) (isGlobal : Bool) :
    Prop where
  dead : store.heap.cell? address = none →
    bind name address isGlobal store = .error (.dangling address) store
  tooLarge : Live store.heap.links address →
    store.heap.Exceeds (fun other => paths store.heap.links address other) →
      ∃ fault, fault.Overflows ∧ bind name address isGlobal store = .error fault store
  bound : Live store.heap.links address →
    ¬ store.heap.Exceeds (fun other => paths store.heap.links address other) →
      ∃ after, bind name address isGlobal store = .ok () after ∧
        Bound store after name address isGlobal ((store.scopes.selected isGlobal).find? name)

variable {store : Store} {holds : List Address}
  (balanced : store.heap.Balanced (store.scopes.held ++ holds))

include balanced

theorem exists_bound (name : String) {address : Address} (isGlobal : Bool) {between : Heap}
    (added : store.heap.addReference address = .ok between) :
    ∃ after, bind name address isGlobal store = .ok () after ∧
      Bound store after name address isGlobal ((store.scopes.selected isGlobal).find? name) := by
  obtain ⟨heap, bound, letGo⟩ := bind_letGo balanced name isGlobal added
  have previous : (store.scopes.insert name address isGlobal).1 =
      (store.scopes.selected isGlobal).find? name := by
    rw [Scopes.insert_eq]
  rw [previous] at letGo
  obtain ⟨retained, _⟩ := balanced.toAccounted.addReference added
  have moved : Moved (store.heap.rebound ((store.scopes.selected isGlobal).find? name) address)
      store.heap heap := by
    apply (retained.trans letGo.moved).congr
    intro other
    rw [retained.links_eq, movement, Adjustment.sign, rebound]
    change 1 * ((_ * 1 : Nat) : Int) + _ = _
    omega
  refine ⟨_, bound, store.scopes.rebound_insert name address isGlobal, moved, ?_, between, added,
    ?_⟩
  · intro same
    rw [same] at moved
    exact moved.unique ((Moved.refl store.heap).congr fun other =>
      (rebound_same store.heap address other).symm)
  · -- a root in both heaps: first beside all that was bound, then as what the name is bound to
    intro later lower cell which below found
    rcases which with rfl | rfl
    · rw [← (balanced.addReference added).reached_iff found]
      refine ⟨address, List.mem_cons_self .., ?_⟩
      rw [retained.links_eq]
      exact below
    · rw [← letGo.balanced.reached_iff found]
      refine ⟨address, List.mem_append_left _ ?_, ?_⟩
      · rw [Scopes.insert_eq]
        exact store.scopes.mem_held_withSelected isGlobal (Table.mem_held_insert _ name address)
      · rw [moved.links_eq]
        exact below

end Store
end ScriptCore
