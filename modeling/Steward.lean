import Steward.Console.Caches
import Steward.Console.Changes
import Steward.Console.Scripts
import Steward.Console.Servers
import Steward.Console.Tables
import Steward.Data.SortedMap.Lemmas
import Steward.Proofs.Cache.Values
import Steward.Proofs.Catalog.Coverage
import Steward.Proofs.Catalog.Part
import Steward.Proofs.Catalog.Removal
import Steward.Proofs.Constraint.Definition
import Steward.Proofs.Constraint.Removal
import Steward.Proofs.Constraint.Admission
import Steward.Proofs.Engine.Owner
import Steward.Proofs.Ledger.Call
import Steward.Proofs.Ledger.Commit
import Steward.Proofs.Ledger.Counters
import Steward.Proofs.Ledger.Growth
import Steward.Proofs.Ledger.Merge
import Steward.Proofs.Ledger.Optimistic
import Steward.Proofs.Runaway.Balance
import Steward.Proofs.Runaway.Cluster
import Steward.Proofs.Runaway.Diary
import Steward.Proofs.Runaway.Isolation
import Steward.Proofs.Runaway.Population
import Steward.Proofs.Runaway.Precedence
import Steward.Proofs.Runaway.Shift
import Steward.Proofs.Runaway.Tables
import Steward.Proofs.Step.Act
import Steward.Proofs.Step.Agreement
import Steward.Proofs.Step.ForeignKeys
import Steward.Proofs.Step.Integrity
import Steward.Proofs.Step.Outcome
import Steward.Proofs.Step.Parts
import Steward.Proofs.Step.Safety
import Steward.Proofs.Step.Tables
import Steward.Proofs.Step.Walk
import Steward.Proofs.View
import Steward.Proofs.World.Agreement
import Steward.Proofs.World.Basic
import Steward.Proofs.World.Commit
import Steward.Proofs.World.Integrity
import Steward.Proofs.World.Line
import Steward.Proofs.World.Move
import Steward.Proofs.World.Node
import Steward.Proofs.World.Plan
import Steward.Proofs.World.Queue
import Steward.Proofs.World.Serial
import Steward.Proofs.World.Turns
import Steward.Proofs.World.Course
import Steward.Proofs.Step.Versions
import Steward.Proofs.World.Versions
import Steward.Proofs.Step.Undo
import Steward.Proofs.World.Undo
import Steward.Proofs.Step.Budget
import Steward.Proofs.Step.Deed
import Steward.Proofs.World.Chronicle
import Steward.Proofs.World.Frame
import Steward.Proofs.World.Verdict
import Steward.Proofs.Constraint.Refusal
import Steward.Proofs.Step.Lasting
import Steward.Proofs.Step.Progress
import Steward.Proofs.World.Progress
import Steward.Proofs.World.Replay
import Steward.Proofs.Step.Descent
import Steward.Proofs.World.KeyNames
import Steward.Proofs.Step.Renewal
import Steward.Proofs.World.Sight
import Steward.Proofs.Ledger.Twins
import Steward.Proofs.View.Twins
import Steward.Proofs.Constraint.Twins
import Steward.Proofs.Step.Twins
import Steward.Proofs.Step.Lockstep
import Steward.Proofs.Step.Names
import Steward.Proofs.World.Solo
import Steward.Proofs.World.Abreast
import Steward.Proofs.World.Commute
import Steward.Proofs.Runaway.Hits
import Steward.Proofs.Runaway.Arrival
import Steward.Proofs.Runaway.Conservation
import Steward.Proofs.Cache.Roll
import Steward.Proofs.Cache.Refinement
import Steward.Proofs.Runaway.Standing
import Steward.Proofs.Runaway.Whole
import Steward.Proofs.Runaway.Cleanup
import Steward.Proofs.Runaway.Life
import Steward.Proofs.Json.Number
import Steward.Proofs.Json.Legible
import Steward.Proofs.Json.Shape
import Steward.Proofs.Catalog.Encoding
import Steward.Proofs.Change.Encoding
import Steward.Proofs.Ledger.Encoding
import Steward.Proofs.Constraint.Quoted
import Steward.Proofs.View.Scan
import Steward.Proofs.View.Fold
import Steward.Proofs.Constraint.Fold
import Steward.Proofs.World.KeyIds
import Steward.Proofs.Cache.Hooks
import Steward.Proofs.Cache.Crowding
import Steward.Proofs.Step.Order
import Steward.Proofs.Runaway.Judgement
import Steward.Proofs.Runaway.Sweep
import Steward.Proofs.Text.Decimal
import Steward.Proofs.Runaway.Rows
