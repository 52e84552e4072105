import ScriptCore.Heap.Primitive
import ScriptCore.Heap.Record
import ScriptCore.Heap.Scopes
import ScriptCore.Proofs.Expression.Assembly
import ScriptCore.Proofs.Expression.Feeding
import ScriptCore.Proofs.Expression.Outcomes
import ScriptCore.Proofs.Expression.Bounds
import ScriptCore.Proofs.Expression.Contents
import ScriptCore.Source.SyntaxError
import ScriptCore.Tree.Assembly
import ScriptCore.Tree.Forest
import ScriptCore.Tree.Outline
import ScriptCore.Proofs.Ownership.Basic
import ScriptCore.Proofs.Ownership.Paths
import ScriptCore.Proofs.Ownership.Order
import ScriptCore.Proofs.References.PathCounts
import ScriptCore.Proofs.References.Adjustment
import ScriptCore.Proofs.Ownership.Search
import ScriptCore.Proofs.References.Exactness
import ScriptCore.Proofs.Accounts.Basic
import ScriptCore.Proofs.Heap.FreeSlots
import ScriptCore.Proofs.Accounts.Exchange
import ScriptCore.Proofs.Accounts.Balanced
import ScriptCore.Proofs.Accounts.Building
import ScriptCore.Proofs.Accounts.Replacement
import ScriptCore.Proofs.Accounts.Bindings
import ScriptCore.Proofs.Session.Balance
import ScriptCore.Proofs.Session.Sweep
import ScriptCore.Proofs.Heap.Chains
import ScriptCore.Proofs.Ownership.Cycles
import ScriptCore.Proofs.Updates.Appending
import ScriptCore.Proofs.Updates.Exchanges
import ScriptCore.Proofs.Updates.Cycles
import ScriptCore.Proofs.Updates.Outcomes
import ScriptCore.Proofs.Updates.Failures
import ScriptCore.Proofs.Session.Failures
import ScriptCore.Proofs.Session.Releases
import ScriptCore.Proofs.Heap.Edits
import ScriptCore.Proofs.Heap.Works
import ScriptCore.Proofs.Heap.Allotment
import ScriptCore.Proofs.History.Basic
import ScriptCore.Proofs.History.Slots
import ScriptCore.Proofs.History.Chains
import ScriptCore.Proofs.Updates.ByHand
import ScriptCore.Proofs.Tree.Places
import ScriptCore.Proofs.Tree.Release
import ScriptCore.Proofs.Heap.Readers
import ScriptCore.Proofs.Updates.InPlace
import ScriptCore.Proofs.Updates.Rebinding
import ScriptCore.Proofs.Updates.Elements
import ScriptCore.Proofs.Updates.Names
import ScriptCore.Proofs.Session.Effects
import ScriptCore.Proofs.Session.Nesting
import ScriptCore.Proofs.Number.Doubles
import ScriptCore.Proofs.Number.Rounding
import ScriptCore.Proofs.Number.Numerals
import ScriptCore.Proofs.Number.Beginnings
import ScriptCore.Proofs.Number.FixedPlaces
import ScriptCore.Proofs.Number.Hexadecimal
import ScriptCore.Proofs.Primitive.Texts
import ScriptCore.Proofs.Primitive.Effects
import ScriptCore.Proofs.Primitive.Reading
import ScriptCore.Proofs.Primitive.RoundTrip
import ScriptCore.Proofs.Heap.Collections
import ScriptCore.Proofs.Source.Slices
import ScriptCore.Proofs.Tree.Growth
import ScriptCore.Proofs.Tree.Equality
import ScriptCore.Proofs.Number.Shortest
import ScriptCore.Proofs.Ownership.Turns
import ScriptCore.Proofs.Text.Quoted
import ScriptCore.Proofs.Tree.Polish
