import ObjectModel.Kind
import ObjectModel.Operator
import ObjectModel.Config
import ObjectModel.Fault
import ObjectModel.Text.Quoted
import ObjectModel.Float64.Basic
import ObjectModel.Float64.Decimal
import ObjectModel.Float64.Rounding
import ObjectModel.Float64.Text
import ObjectModel.Digest
import ObjectModel.Slice
import ObjectModel.Table
import ObjectModel.Value
import ObjectModel.Store
import ObjectModel.Number
import ObjectModel.Store.Equality
import ObjectModel.Store.Order
import ObjectModel.Store.Text
import ObjectModel.Effect
import ObjectModel.Sequence
import ObjectModel.Store.Keys
import ObjectModel.Store.Membership
import ObjectModel.Arithmetic
import ObjectModel.Builtin
import ObjectModel.Method
import ObjectModel.Subscript
import ObjectModel.Proofs.Table.Slots
import ObjectModel.Proofs.Table.Index
import ObjectModel.Proofs.Table.Association
import ObjectModel.Proofs.Table.Chronicle
import ObjectModel.Proofs.Outcome
import ObjectModel.Proofs.Table.Traversal
import ObjectModel.Proofs.Table.Succession
import ObjectModel.Proofs.Float64.Integral
import ObjectModel.Proofs.Digest
import ObjectModel.Proofs.Number
import ObjectModel.Proofs.Store.Hash
import ObjectModel.Proofs.Store.Keyed
import ObjectModel.Proofs.Store.Soundness
import ObjectModel.Proofs.Store.KeyEquality
import ObjectModel.Proofs.Store.Coherence
import ObjectModel.Proofs.Store.Representation
import ObjectModel.Proofs.Float64.Rounding
import ObjectModel.Proofs.Float64.Place
import ObjectModel.Proofs.Order
import ObjectModel.Proofs.Store.Nesting
import ObjectModel.Proofs.Store.ValueEquality
import ObjectModel.Proofs.Store.Copies
import ObjectModel.Proofs.Store.Duality
import ObjectModel.Proofs.Store.Lexicographic
import ObjectModel.Proofs.Store.Stability
import ObjectModel.Proofs.SetAlgebra
import ObjectModel.Proofs.SetLaws
import ObjectModel.Proofs.Store.Insertion
import ObjectModel.Proofs.SetInPlace
import ObjectModel.Proofs.Slice
import ObjectModel.Proofs.Signal
import ObjectModel.Proofs.Store.Spares
import ObjectModel.Proofs.Store.Advances
import ObjectModel.Proofs.Store.Cursors
import ObjectModel.Proofs.Store.Undisturbed
import ObjectModel.Proofs.Store.Course
import ObjectModel.Proofs.Effect.Cursor
import ObjectModel.Proofs.Effect.Unbounded
import ObjectModel.Proofs.Effect.Routine
import ObjectModel.Proofs.Effect.Call
import ObjectModel.Proofs.Effect.Relation
import ObjectModel.Proofs.Effect.Agreement
import ObjectModel.Proofs.Effect.Loop
import ObjectModel.Proofs.Effect.Approach
import ObjectModel.Proofs.Operation.Basic
import ObjectModel.Proofs.Effect.Change
import ObjectModel.Proofs.Operation.Routine
import ObjectModel.Proofs.Operation.Signal
import ObjectModel.Proofs.Operation.Advancing
import ObjectModel.Proofs.Operation.Evolving
import ObjectModel.Proofs.Iterator.Step
import ObjectModel.Proofs.Iterator.Sharing
import ObjectModel.Proofs.Iterator.Chain
import ObjectModel.Proofs.Iterator.Ending
import ObjectModel.Proofs.Store.Layers
import ObjectModel.Proofs.Effect.Settling
import ObjectModel.Proofs.Iterator.Draining
import ObjectModel.Proofs.Iterator.Settling
import ObjectModel.Proofs.Iterator.Collecting
import ObjectModel.Proofs.Iterator.Image
import ObjectModel.Proofs.Iterator.Emptying
import ObjectModel.Proofs.Operation.Configuration
import ObjectModel.Proofs.Effect.Sparing
import ObjectModel.Proofs.Effect.Novelty
import ObjectModel.Proofs.Effect.Failure
import ObjectModel.Proofs.Operation.Frame
import ObjectModel.Proofs.Selection
import ObjectModel.Proofs.Session.Stage
import ObjectModel.Proofs.Session.Yield
import ObjectModel.Proofs.Session.Protocol
import ObjectModel.Proofs.Session.Call
import ObjectModel.Proofs.Session.Basic
import ObjectModel.Proofs.Session.Frame
import ObjectModel.Proofs.Session.Atomicity
import ObjectModel.Proofs.Iterator.LiveList
import ObjectModel.Proofs.Iterator.Extent
import ObjectModel.Proofs.Iterator.Construction
import ObjectModel.Proofs.Repetition
import ObjectModel.Proofs.InPlace
import ObjectModel.Proofs.Session.InPlace
import ObjectModel.Proofs.Text.Quoted
import ObjectModel.Proofs.Store.Strictness
import ObjectModel.Proofs.Addition
import ObjectModel.Proofs.Layout
import ObjectModel.Proofs.Iterator.Summing
import ObjectModel.Proofs.Store.Hashability
import ObjectModel.Proofs.Operation.Keys
import ObjectModel.Proofs.HostObject
