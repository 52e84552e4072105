import Mathlib.Data.List.Infix
import ScriptCore.Proofs.Heap.Edits
import ScriptCore.Proofs.Session.Basic

set_option autoImplicit false

/-! Scopes that are opened and closed again. Between the two, what a name stands for is told by
the calls made since: it is the latest binding in the scope that is innermost now, or else the
latest global one. Afterwards the global bindings are all that is left of those calls. -/

namespace ScriptCore

open StoreM

/-! ### What a call does to the names -/

namespace Store

/-- Work on a store that leaves all names as they were, however it ends. -/
abbrev KeepsScopes {Answer : Type} (work : StoreM Answer) : Prop :=
  Keeps (fun before after : Store => after.scopes = before.scopes) work

theorem keepsScopes_onHeap {Answer : Type} (work : HeapM Answer) : KeepsScopes (onHeap work) := by
  intro store
  cases worked : work store.heap with
  | ok answer heap =>
      rw [onHeap_of_ok worked]
      rfl
  | error fault heap =>
      rw [onHeap_of_error worked]
      rfl

theorem keepsScopes_releaseAll (held : List Address) : KeepsScopes (releaseAll held) := by
  unfold releaseAll
  apply keeps_forM
  · intro store
    rfl
  · intro first second third now later
    exact later.trans now
  · intro address
    exact keepsScopes_onHeap _

theorem KeepsScopes.of_ok {Answer : Type} {work : StoreM Answer} (keeps : KeepsScopes work)
    {store after : Store} {answer : Answer} (done : work store = .ok answer after) :
    after.scopes = store.scopes := by
  have kept := keeps store
  rw [done] at kept
  exact kept

/-- The innermost scope is gone also when letting its cells go has failed. -/
theorem scopes_popScope (store : Store) :
    (stateLeft (popScope store)).scopes = store.scopes.outer :=
  keepsScopes_releaseAll _ ⟨store.heap, store.scopes.outer⟩

theorem scopes_of_bind {store after : Store} {name : String} {address : Address} {isGlobal : Bool}
    (done : bind name address isGlobal store = .ok () after) :
    after.scopes = (store.scopes.insert name address isGlobal).2 := by
  unfold bind at done
  obtain ⟨_, middle, held, bound⟩ := bind_eq_ok_iff.mp done
  change releaseAll (middle.scopes.insert name address isGlobal).1.toList
    ⟨middle.heap, (middle.scopes.insert name address isGlobal).2⟩ = _ at bound
  rw [← (keepsScopes_onHeap _).of_ok held]
  exact (keepsScopes_releaseAll _).of_ok bound

end Store

namespace Call

/-- The names after a call that succeeds and is not `clear`. -/
def rescope (scopes : Scopes) : Call → Scopes
  | .bind name address isGlobal => (scopes.insert name address isGlobal).2
  | .pushScope => scopes.push
  | .popScope => scopes.outer
  | _ => scopes

theorem keepsScopes_quietly {Answer : Type} (work : HeapM Answer) :
    Store.KeepsScopes (quietly work) := by
  intro store
  rw [quietly, stateLeft_bind_pure]
  exact Store.keepsScopes_onHeap work store

theorem scopes_of_perform {call : Call} {store after : Store} (notClear : call ≠ .clear)
    (done : call.perform store = .ok () after) : after.scopes = call.rescope store.scopes := by
  cases call with
  | bind name address isGlobal => exact Store.scopes_of_bind done
  | pushScope =>
      cases done
      rfl
  | popScope =>
      have popped := store.scopes_popScope
      rw [perform] at done
      rw [done] at popped
      exact popped
  | clear => exact absurd rfl notClear
  | _ => exact (keepsScopes_quietly _).of_ok done

theorem scopes_of_forM {calls : List Call} {store after : Store} (notClear : .clear ∉ calls)
    (done : calls.forM perform store = .ok () after) :
    after.scopes = calls.foldl rescope store.scopes := by
  induction calls generalizing store with
  | nil =>
      cases done
      rfl
  | cons call calls ih =>
      rw [forM_cons] at done
      obtain ⟨_, middle, now, later⟩ := bind_eq_ok_iff.mp done
      have one : call ≠ .clear := fun same => notClear (same ▸ List.mem_cons_self ..)
      rw [List.foldl_cons, ← scopes_of_perform one now]
      exact ih (fun member => notClear (List.mem_cons_of_mem call member)) later

/-! ### Calls read backwards -/

def opens : Call → Bool
  | .pushScope => true
  | _ => false

def closes : Call → Bool
  | .popScope => true
  | _ => false

/-- The cell that a call binds the name to in the global table, because it asks for that. -/
def bindsGlobally? (name : String) : Call → Option Address
  | .bind other address true => if other = name then some address else none
  | _ => none

/-- The latest binding of a name that asks for the global table. -/
def latestGlobal (calls : List Call) (name : String) : Option Address :=
  calls.reverse.findSome? (bindsGlobally? name)

/-- The latest binding of a name in one of the open scopes, since that scope was opened. Calls are
read from the latest back, and `outward` counts the scopes between the innermost one and the one
in question: one more before a call that closes a scope, one fewer before one that opens one. -/
def latestWithin (name : String) (outward : Nat) : List Call → Option Address
  | [] => none
  | .popScope :: earlier => latestWithin name (outward + 1) earlier
  | .pushScope :: earlier =>
      match outward with
      | 0 => none
      | outer + 1 => latestWithin name outer earlier
  | .bind other address false :: earlier =>
      if outward = 0 ∧ other = name then some address else latestWithin name outward earlier
  | _ :: earlier => latestWithin name outward earlier

/-- The latest binding of a name in the scope that is innermost after the calls. -/
def latestLocal (calls : List Call) (name : String) : Option Address :=
  latestWithin name 0 calls.reverse

/-- Scopes are opened and closed in pairs: calls never close more scopes than they have opened,
and in the end as many. -/
structure Nested (calls : List Call) : Prop where
  notClear : .clear ∉ calls
  neverOutside : ∀ earlier, earlier <+: calls → earlier.countP closes ≤ earlier.countP opens
  paired : calls.countP closes = calls.countP opens

end Call

/-! ### Inside a scope -/

namespace Scopes

open Call

/-- What calls have led to since a scope was opened: tables of their own on top of those outside,
each with what they last bound in it. -/
structure Inside (outside : Scopes) (calls : List Call) (tables : List Table) (now : Scopes) :
    Prop where
  locals : now.locals = tables ++ outside.locals
  depth : tables.length + calls.countP closes = 1 + calls.countP opens
  within : ∀ outward table, tables[outward]? = some table →
    ∀ name, table.find? name = latestWithin name outward calls.reverse
  globals : ∀ name, now.globals.find? name =
    (latestGlobal calls name).or (outside.globals.find? name)

theorem inside_push (outside : Scopes) : Inside outside [] [[]] outside.push where
  locals := rfl
  depth := rfl
  within := by
    intro outward table found name
    cases outward with
    | zero =>
        cases found
        rfl
    | succ outward => cases found
  globals := by
    intro name
    rfl

private theorem latestGlobal_concat (calls : List Call) (call : Call) (name : String) :
    latestGlobal (calls ++ [call]) name =
      (call.bindsGlobally? name).or (latestGlobal calls name) := by
  rw [latestGlobal, List.reverse_concat, List.findSome?_cons]
  cases call.bindsGlobally? name with
  | none => rfl
  | some address => rfl

namespace Inside

variable {outside now : Scopes} {calls : List Call} {tables : List Table}

theorem push (inside : Inside outside calls tables now) :
    Inside outside (calls ++ [.pushScope]) ([] :: tables) now.push where
  locals := by
    rw [Scopes.push, inside.locals]
    rfl
  depth := by
    have depth := inside.depth
    simp only [List.countP_append, List.countP_singleton, opens, closes, List.length_cons]
    simp only [if_true, Bool.false_eq_true, if_false]
    omega
  within := by
    intro outward table found name
    rw [List.reverse_concat]
    cases outward with
    | zero =>
        cases found
        rfl
    | succ outward => exact inside.within outward table found name
  globals := by
    intro name
    rw [latestGlobal_concat]
    exact inside.globals name

theorem pop {first : Table} (inside : Inside outside calls (first :: tables) now) :
    Inside outside (calls ++ [.popScope]) tables now.outer where
  locals := by
    rw [outer, inside.locals]
    rfl
  depth := by
    have depth := inside.depth
    simp only [List.countP_append, List.countP_singleton, opens, closes, List.length_cons]
      at depth ⊢
    simp only [if_true, Bool.false_eq_true, if_false]
    omega
  within := by
    intro outward table found name
    rw [List.reverse_concat]
    exact inside.within (outward + 1) table found name
  globals := by
    intro name
    rw [latestGlobal_concat]
    exact inside.globals name

theorem bindLocal {first : Table} (inside : Inside outside calls (first :: tables) now)
    (name : String) (address : Address) :
    Inside outside (calls ++ [.bind name address false]) (first.insert name address :: tables)
      (now.insert name address false).2 := by
  obtain ⟨globals, locals⟩ := now
  obtain rfl := inside.locals
  constructor
  case locals => rfl
  case depth =>
    rw [List.countP_append, List.countP_append]
    exact inside.depth
  case within =>
    intro outward table found other
    rw [List.reverse_concat]
    cases outward with
    | zero =>
        cases found
        rw [Table.find?_insert]
        change _ = if 0 = 0 ∧ name = other then some address else latestWithin other 0 calls.reverse
        by_cases same : other = name
        · rw [if_pos same, if_pos ⟨rfl, same.symm⟩]
        · rw [if_neg same, if_neg fun both => same both.2.symm]
          exact inside.within 0 first rfl other
    | succ outward =>
        change _ = if outward + 1 = 0 ∧ name = other then some address
          else latestWithin other (outward + 1) calls.reverse
        rw [if_neg fun both => Nat.succ_ne_zero outward both.1]
        exact inside.within (outward + 1) table found other
  case globals =>
    intro other
    rw [latestGlobal_concat]
    exact inside.globals other

theorem bindGlobal (inside : Inside outside calls tables now) (name : String)
    (address : Address) :
    Inside outside (calls ++ [.bind name address true]) tables
      (now.insert name address true).2 := by
  have inserted : (now.insert name address true).2 =
      { now with globals := now.globals.insert name address } := by
    obtain ⟨globals, locals⟩ := now
    cases locals with
    | nil => rfl
    | cons first rest => rfl
  rw [inserted]
  constructor
  case locals => exact inside.locals
  case depth =>
    rw [List.countP_append, List.countP_append]
    exact inside.depth
  case within =>
    intro outward table found other
    rw [List.reverse_concat]
    exact inside.within outward table found other
  case globals =>
    intro other
    rw [latestGlobal_concat, Table.find?_insert, bindsGlobally?]
    by_cases same : other = name
    · rw [if_pos same, if_pos same.symm]
      rfl
    · rw [if_neg same, if_neg (Ne.symm same)]
      exact inside.globals other

/-- A name of the scope that is innermost now, or else a global one; the tables outside play no
part. -/
theorem lookup_eq {first : Table} (inside : Inside outside calls (first :: tables) now)
    (name : String) :
    now.lookup name = (latestLocal calls name).or
      ((latestGlobal calls name).or (outside.globals.find? name)) := by
  have innermost : now.locals.head? = some first := by
    rw [inside.locals]
    rfl
  rw [lookup, innermost, Option.bind_some, inside.within 0 first rfl name, inside.globals name]
  unfold latestLocal
  cases latestWithin name 0 calls.reverse with
  | none => rfl
  | some address => rfl

/-- A call that neither opens nor closes a scope nor binds a name changes nothing. -/
theorem other (inside : Inside outside calls tables now) {call : Call}
    (opensNone : call.opens = false) (closesNone : call.closes = false)
    (bindsNone : ∀ name, call.bindsGlobally? name = none)
    (skipped : ∀ name outward earlier,
      latestWithin name outward (call :: earlier) = latestWithin name outward earlier) :
    Inside outside (calls ++ [call]) tables now where
  locals := inside.locals
  depth := by
    have depth := inside.depth
    simp only [List.countP_append, List.countP_singleton, opensNone, closesNone]
    exact depth
  within := by
    intro outward table found name
    rw [List.reverse_concat, skipped]
    exact inside.within outward table found name
  globals := by
    intro name
    rw [latestGlobal_concat, bindsNone]
    exact inside.globals name

theorem rescope {first : Table} (inside : Inside outside calls (first :: tables) now) {call : Call}
    (notClear : call ≠ .clear)
    (room : (calls ++ [call]).countP closes ≤ (calls ++ [call]).countP opens) :
    ∃ first' tables', Inside outside (calls ++ [call]) (first' :: tables') (call.rescope now) := by
  cases call with
  | pushScope => exact ⟨_, _, inside.push⟩
  | popScope =>
      cases tables with
      | nil =>
          have depth := inside.depth
          simp only [List.countP_append, List.countP_singleton, opens, closes] at room
          simp only [if_true, Bool.false_eq_true, if_false] at room
          rw [List.length_singleton] at depth
          omega
      | cons second tables => exact ⟨_, _, inside.pop⟩
  | bind name address isGlobal =>
      cases isGlobal with
      | true => exact ⟨_, _, inside.bindGlobal name address⟩
      | false => exact ⟨_, _, inside.bindLocal name address⟩
  | clear => exact absurd rfl notClear
  | _ => exact ⟨_, _, inside.other rfl rfl (fun _ => rfl) fun _ _ _ => rfl⟩

end Inside

/-- Calls that close no scope but those that they open stay inside. -/
theorem exists_inside (outside : Scopes) {calls : List Call} (notClear : .clear ∉ calls)
    (room : ∀ earlier, earlier <+: calls → earlier.countP closes ≤ earlier.countP opens) :
    ∃ first tables, Inside outside calls (first :: tables)
      (calls.foldl Call.rescope outside.push) := by
  -- from the end of the list: the latest call is what the invariant is kept by
  induction calls using List.reverseRecOn with
  | nil => exact ⟨_, _, inside_push outside⟩
  | append_singleton calls call ih =>
      have shorter : calls <+: calls ++ [call] := List.prefix_append calls [call]
      obtain ⟨first, tables, inside⟩ := ih (fun member => notClear (shorter.mem member))
        (fun earlier begins => room earlier (begins.trans shorter))
      have one : call ≠ .clear := by
        intro same
        exact notClear (same ▸ List.mem_append_right calls (List.mem_cons_self ..))
      rw [List.foldl_concat]
      exact inside.rescope one (room _ (List.prefix_refl _))

end Scopes

/-! ### Pairs of calls -/

namespace Call

open Scopes

private theorem exists_forM_of_prefix {earlier calls : List Call} {before after : Store}
    (shorter : earlier <+: calls) (done : calls.forM perform before = .ok () after) :
    ∃ now, earlier.forM perform before = .ok () now := by
  obtain ⟨later, rfl⟩ := shorter
  rw [List.forM_eq_forM, List.forM_append] at done
  obtain ⟨_, now, reached, _⟩ := bind_eq_ok_iff.mp done
  exact ⟨now, reached⟩

/-- Whatever is bound, opened and closed between opening a scope and closing it again: afterwards
the other scopes are as before, and a global name stands for what was last bound to it globally.
In between, a name stands for what was last bound to it in the innermost scope, or else globally;
what the scopes outside bind plays no part. -/
theorem Nested.names_exact {calls : List Call} (nested : Nested calls) (before inner : Store)
    (done : (Call.pushScope :: calls).forM perform before = .ok () inner) :
    let after := stateLeft (Store.popScope inner)
    after.scopes.locals = before.scopes.locals ∧
      (∀ name, after.scopes.globals.find? name =
        (latestGlobal calls name).or (before.scopes.globals.find? name)) ∧
      ∀ earlier, earlier <+: calls →
        ∃ now, (Call.pushScope :: earlier).forM perform before = .ok () now ∧
          ∀ name, now.scopes.lookup name = (latestLocal earlier name).or
            ((latestGlobal earlier name).or (before.scopes.globals.find? name)) := by
  intro after
  have reached {earlier : List Call} {now : Store} (shorter : earlier <+: calls)
      (led : (Call.pushScope :: earlier).forM perform before = .ok () now) :
      ∃ first tables, Inside before.scopes earlier (first :: tables) now.scopes := by
    have notClear : .clear ∉ earlier := fun member => nested.notClear (shorter.mem member)
    have opened : .clear ∉ Call.pushScope :: earlier := by
      simp only [List.mem_cons, reduceCtorEq, false_or]
      exact notClear
    rw [scopes_of_forM opened led]
    exact exists_inside before.scopes notClear fun other begins =>
      nested.neverOutside other (begins.trans shorter)
  refine ⟨?_, ?_, ?_⟩
  · obtain ⟨first, tables, inside⟩ := reached (List.prefix_refl calls) done
    have alone : tables = [] := by
      have depth := inside.depth
      rw [nested.paired, List.length_cons] at depth
      exact List.eq_nil_of_length_eq_zero (by omega)
    rw [alone] at inside
    rw [Store.scopes_popScope, outer, inside.locals]
    rfl
  · intro name
    obtain ⟨first, tables, inside⟩ := reached (List.prefix_refl calls) done
    rw [Store.scopes_popScope]
    exact inside.globals name
  · intro earlier shorter
    have longer : Call.pushScope :: earlier <+: Call.pushScope :: calls :=
      List.cons_prefix_cons.mpr ⟨rfl, shorter⟩
    obtain ⟨now, led⟩ := exists_forM_of_prefix longer done
    obtain ⟨first, tables, inside⟩ := reached shorter led
    exact ⟨now, led, inside.lookup_eq⟩

/-- Inside a call with a local of its own, another one binds the same name for itself and for all.
The caller's own local is back after each of them, and was not visible inside. -/
theorem names_exact_shadowed :
    let before := stateLeft ([newCell .null, newCell (.character 'b'), .bind "v" ⟨0⟩ true,
      pushScope, .bind "w" ⟨1⟩ false].forM perform (.empty {}))
    let calls := [.bind "v" ⟨1⟩ false, pushScope, .bind "v" ⟨0⟩ false, .bind "v" ⟨1⟩ true, popScope]
    let inner := stateLeft ((pushScope :: calls).forM perform before)
    let after := stateLeft (Store.popScope inner)
    Nested calls ∧ (pushScope :: calls).forM perform before = .ok () inner ∧
      after.scopes.locals = [[("w", ⟨1⟩)]] ∧ after.scopes.globals.find? "v" = some ⟨1⟩ ∧
      ∃ now, (pushScope :: calls.take 3).forM perform before = .ok () now ∧
        now.scopes.lookup "v" = some ⟨0⟩ ∧ now.scopes.lookup "w" = none := by
  intro before calls inner after
  have nested : Nested calls := by
    constructor
    case notClear => simp [calls]
    case neverOutside =>
      have each : ∀ earlier, earlier ∈ calls.inits →
          earlier.countP closes ≤ earlier.countP opens := by decide
      intro earlier begins
      exact each earlier ((List.mem_inits earlier calls).mpr begins)
    case paired => rfl
  have done : (pushScope :: calls).forM perform before = .ok () inner :=
    eq_ok_of_run' (by decide +kernel)
  obtain ⟨locals, globals, between⟩ := nested.names_exact before inner done
  obtain ⟨now, led, names⟩ := between _ (List.take_prefix 3 calls)
  refine ⟨nested, done, ?_, ?_, now, led, ?_, ?_⟩
  · rw [locals]
    decide +kernel
  · rw [globals]
    decide +kernel
  · rw [names]
    decide +kernel
  · rw [names]
    decide +kernel

end Call
end ScriptCore
