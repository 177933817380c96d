import NestedWords.Arithmetic
import NestedWords.Configuration
import NestedWords.Json.Tagged
import NestedWords.Main
import NestedWords.Reachable.Automaton
import NestedWords.Proofs.Arena.View
import NestedWords.Proofs.Runs
import NestedWords.Proofs.Arena.Region
import NestedWords.Proofs.Arena.WellFormed
import NestedWords.Proofs.Arena.Update
import NestedWords.Proofs.Arena.Chart
import NestedWords.Proofs.Exploration.Soundness
import NestedWords.Proofs.Exploration.Invariant
import NestedWords.Proofs.Arena.Moves
import NestedWords.Proofs.Exploration.Reconcile
import NestedWords.Proofs.Exploration.Discovery
import NestedWords.Proofs.Exploration.Transitions
import NestedWords.Proofs.Exploration.Items
import NestedWords.Proofs.Exploration.Run
import NestedWords.Proofs.Exploration.Exact
import NestedWords.Proofs.Liveness.Predecessors
import NestedWords.Proofs.Liveness.Saturation
import NestedWords.Proofs.Liveness.Exact
import NestedWords.Proofs.Reachable
import NestedWords.Proofs.Liveness.Result
import NestedWords.Proofs.Liveness.Contexts
import NestedWords.Proofs.Reachable.Transitions
import NestedWords.Proofs.Automaton
import NestedWords.Proofs.Reachable.Language
import NestedWords.Proofs.Reachable.Emptiness
import NestedWords.Proofs.Exploration.Components
import NestedWords.Proofs.Exploration.Obligations
import NestedWords.Proofs.Exploration.Bookkeeping
import NestedWords.Proofs.Renaming
import NestedWords.Proofs.Reachable.Entries
import NestedWords.Proofs.Reachable.Renaming
import NestedWords.Proofs.Alongside
import NestedWords.Proofs.Arena.Plain
import NestedWords.Proofs.Letters
import NestedWords.Proofs.Arena.Twins
import NestedWords.Proofs.Exploration.Twins
import NestedWords.Proofs.Arena.Checks
import NestedWords.Proofs.Exploration.Checks
import NestedWords.Proofs.Exploration.Simulation
import NestedWords.Proofs.CrossValidation
import NestedWords.Proofs.Liveness.Plain
import NestedWords.Proofs.Reachable.Answers
import NestedWords.Proofs.Reachable.Letters
import NestedWords.Proofs.Exploration.Turns
import NestedWords.Proofs.Exploration.Growth
import NestedWords.Proofs.Arena.Inquiries
import NestedWords.Proofs.Exploration.Questions
import NestedWords.Proofs.Reachable.Questions
import NestedWords.Proofs.Exploration.Migration
import NestedWords.Proofs.Exploration.Termination
import NestedWords.Proofs.Reachable.Termination
import NestedWords.Proofs.Exploration.Cancellation
import NestedWords.Proofs.Reachable.Cancellation
import NestedWords.Proofs.Liveness.Promotion
import NestedWords.Proofs.Exploration.Settings
import NestedWords.Proofs.Exploration.Bounds
import NestedWords.Proofs.Reachable.Rebuilt
import NestedWords.Proofs.Reachable.Settings
import NestedWords.Proofs.Reachable.Faults
import NestedWords.Proofs.Liveness.Views
import NestedWords.Proofs.Automaton.Description
import NestedWords.Proofs.CrossValidation.Agreement
import NestedWords.Proofs.Lists
import NestedWords.Proofs.Table
import NestedWords.Proofs.Automaton.Denotation
import NestedWords.Proofs.Exploration.Reconciled
import NestedWords.Proofs.Reachable.Ends
import NestedWords.Proofs.Text.Quotes
import NestedWords.Proofs.Render.Dot
