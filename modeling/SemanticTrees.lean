import SemanticTrees.Analysis
import SemanticTrees.LogFormat
import SemanticTrees.Program.Draft
import SemanticTrees.Rendering.Divergence
import SemanticTrees.Text.Difference
import SemanticTrees.Proofs.Lowering.Tree
import SemanticTrees.Proofs.Operation.Taint
import SemanticTrees.Proofs.Source.Order
import SemanticTrees.Proofs.Correlation.Attachment
import SemanticTrees.Proofs.Correlation.Invalidity
import SemanticTrees.Proofs.Analysis.Dispatch
import SemanticTrees.Proofs.Lowering.Reporting
import SemanticTrees.Proofs.Analysis.Order
import SemanticTrees.Proofs.Lowering.Jumps
import SemanticTrees.Proofs.Lowering.Closure
import SemanticTrees.Proofs.Lowering.Calls
import SemanticTrees.Proofs.Program.RoundTrip
import SemanticTrees.Proofs.Analysis.Termination
import SemanticTrees.Proofs.Analysis.Agreement
import SemanticTrees.Proofs.Rendering.Reordering
import SemanticTrees.Proofs.Rendering.Parentheses
import SemanticTrees.Proofs.Program.Excerpts
import SemanticTrees.Proofs.Rendering.Reading
import SemanticTrees.Proofs.Rendering.Places
import SemanticTrees.Proofs.Rendering.Elision
import SemanticTrees.Proofs.Program.DraftingCalls
import SemanticTrees.Proofs.Lowering.Choices
import SemanticTrees.Proofs.Analysis.Coverage
import SemanticTrees.Proofs.Lowering.RootKinds
import SemanticTrees.Proofs.Operation.Closing
import SemanticTrees.Proofs.Lowering.Gathering
import SemanticTrees.Proofs.Analysis.Queries
import SemanticTrees.Proofs.Lowering.Materialization
import SemanticTrees.Proofs.Rendering.FirstDivergence
import SemanticTrees.Proofs.Rendering.Ellipses
import SemanticTrees.Proofs.Lowering.Structure
import SemanticTrees.Proofs.Lowering.LateCalls
import SemanticTrees.Proofs.Program.Bindings
import SemanticTrees.Proofs.Rendering.Occurrences
import SemanticTrees.Proofs.Text.Difference
import SemanticTrees.Proofs.Correlation.Accounts
import SemanticTrees.Proofs.Operation.Children
import SemanticTrees.Proofs.Graph.Turns
import SemanticTrees.Proofs.Lowering.Labels
import SemanticTrees.Proofs.Rendering.Constants
