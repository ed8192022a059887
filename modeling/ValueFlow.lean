import ValueFlow.Command.Arguments
import ValueFlow.Command.Error
import ValueFlow.Command.Invocation
import ValueFlow.Command.Policy
import ValueFlow.Command.Report
import ValueFlow.Command.Run
import ValueFlow.CompilationUnit
import ValueFlow.ControlFlow
import ValueFlow.Decimal.Double
import ValueFlow.Decimal.Shortest
import ValueFlow.Draft
import ValueFlow.Draft.Json
import ValueFlow.Files
import ValueFlow.Flow.Cache
import ValueFlow.Flow.Compiled
import ValueFlow.Flow.Error
import ValueFlow.Flow.Explore
import ValueFlow.Flow.Global
import ValueFlow.Flow.Graph
import ValueFlow.Flow.Local
import ValueFlow.Flow.Marks
import ValueFlow.Flow.Matching
import ValueFlow.Flow.Node
import ValueFlow.Flow.Prune
import ValueFlow.Flow.Reaching
import ValueFlow.Flow.Resolve
import ValueFlow.Flow.Scan
import ValueFlow.Flow.Selector
import ValueFlow.Flow.Selector.Json
import ValueFlow.Flow.Spec
import ValueFlow.Hierarchy
import ValueFlow.Json.Basic
import ValueFlow.Json.Decode
import ValueFlow.Json.Parser
import ValueFlow.Json.Shape
import ValueFlow.Loading
import ValueFlow.Main
import ValueFlow.Model.ArgumentRange
import ValueFlow.Model.Bundled
import ValueFlow.Model.Csv
import ValueFlow.Model.Error
import ValueFlow.Model.Row
import ValueFlow.Model.Store
import ValueFlow.Pattern.Basic
import ValueFlow.Pattern.Parser
import ValueFlow.Proofs.Acceptance
import ValueFlow.Proofs.ArgumentPassing
import ValueFlow.Proofs.Barriers
import ValueFlow.Proofs.CallContexts
import ValueFlow.Proofs.ControlFlow
import ValueFlow.Proofs.Csv
import ValueFlow.Proofs.DraftedUnits
import ValueFlow.Proofs.Except
import ValueFlow.Proofs.Explore
import ValueFlow.Proofs.FlowConstruction
import ValueFlow.Proofs.FlowGraph
import ValueFlow.Proofs.GraphOperations
import ValueFlow.Proofs.Hierarchy
import ValueFlow.Proofs.JsonText
import ValueFlow.Proofs.LocalInGlobal
import ValueFlow.Proofs.LocalPaths
import ValueFlow.Proofs.ModelGrowth
import ValueFlow.Proofs.ModelStore
import ValueFlow.Proofs.ModelsInUse
import ValueFlow.Proofs.ParentChains
import ValueFlow.Proofs.Prune
import ValueFlow.Proofs.ScanOrder
import ValueFlow.Proofs.Search
import ValueFlow.Proofs.Sorted
import ValueFlow.Proofs.SourceOrder
import ValueFlow.Proofs.Stitching
import ValueFlow.Proofs.StoreContents
import ValueFlow.Proofs.TaintFlows
import ValueFlow.Proofs.Tree
import ValueFlow.Proofs.TreeJson
import ValueFlow.Search
import ValueFlow.Signature
import ValueFlow.Sorted
import ValueFlow.Source
import ValueFlow.Syntax.Json
import ValueFlow.Syntax.Kind
import ValueFlow.Syntax.Tree
import ValueFlow.Text.Decimal
import ValueFlow.Text.Digraph
import ValueFlow.Text.Invisible
import ValueFlow.Text.Quoted
import ValueFlow.Text.Split
import ValueFlow.Proofs.StructuredFlow
import ValueFlow.Proofs.ListedPaths
import ValueFlow.Proofs.NearestStatement
import ValueFlow.Proofs.ReachingReads
import ValueFlow.Proofs.SharedExploration
import ValueFlow.Proofs.Reassignment
import ValueFlow.Proofs.ModelShapes
import ValueFlow.Proofs.SinkSearch
import ValueFlow.Proofs.Participants
import ValueFlow.Proofs.Widening
import ValueFlow.Proofs.MatchedReturns
import ValueFlow.Proofs.InheritedCalls
import ValueFlow.Proofs.TypeVariables
import ValueFlow.Proofs.Supertypes
import ValueFlow.Proofs.CsvCells
import ValueFlow.Proofs.Decimal
import ValueFlow.Proofs.ArgumentRanges
import ValueFlow.Proofs.ReachableExpressions
import ValueFlow.Proofs.MarkedSource
