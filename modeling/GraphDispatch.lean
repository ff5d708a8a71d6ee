import GraphDispatch.CommandLine.Arguments
import GraphDispatch.CommandLine.Command
import GraphDispatch.CommandLine.Run
import GraphDispatch.DataType
import GraphDispatch.Decimal.Layout
import GraphDispatch.Decimal.Precision
import GraphDispatch.Decimal.Reading
import GraphDispatch.Decimal.Shortest
import GraphDispatch.Dispatch.Crossing
import GraphDispatch.Dispatch.Error
import GraphDispatch.Dispatch.MainPath
import GraphDispatch.Dispatch.Override
import GraphDispatch.Dispatch.Proposal
import GraphDispatch.Dispatch.Quantizer
import GraphDispatch.Dispatch.Run
import GraphDispatch.Dispatch.Shape
import GraphDispatch.Dispatch.Strategy
import GraphDispatch.Dispatch.Table
import GraphDispatch.Event
import GraphDispatch.Files.Graph
import GraphDispatch.Files.Output
import GraphDispatch.Files.Setting
import GraphDispatch.Files.Tree
import GraphDispatch.Graph.Basic
import GraphDispatch.Graph.Consistency
import GraphDispatch.Graph.Document
import GraphDispatch.Graph.Edit
import GraphDispatch.Graph.Encoding
import GraphDispatch.Graph.Example
import GraphDispatch.Graph.FreshName
import GraphDispatch.Graph.Order
import GraphDispatch.Graph.Reach
import GraphDispatch.Graph.Scalar
import GraphDispatch.Graph.Switch
import GraphDispatch.Graph.Tensor
import GraphDispatch.Json.Decode
import GraphDispatch.Json.DecodeError
import GraphDispatch.Json.Fault
import GraphDispatch.Json.Found
import GraphDispatch.Json.Lexer
import GraphDispatch.Json.Outline
import GraphDispatch.Json.Position
import GraphDispatch.Json.Printer
import GraphDispatch.Json.Reading
import GraphDispatch.Json.Record
import GraphDispatch.Json.Token
import GraphDispatch.Json.Value
import GraphDispatch.Main
import GraphDispatch.NameMap
import GraphDispatch.Pipeline.Error
import GraphDispatch.Pipeline.Load
import GraphDispatch.Pipeline.Quantize
import GraphDispatch.Platform
import GraphDispatch.Proofs.Acyclic
import GraphDispatch.Proofs.Agreement
import GraphDispatch.Proofs.Dispatch.Blind
import GraphDispatch.Proofs.Dispatch.Failure
import GraphDispatch.Proofs.Dispatch.Outline
import GraphDispatch.Proofs.Dispatch.Rerun
import GraphDispatch.Proofs.Dispatch.Runs
import GraphDispatch.Proofs.Dispatch.Structure
import GraphDispatch.Proofs.Dispatch.SwitchPlatforms
import GraphDispatch.Proofs.Dispatch.Tables
import GraphDispatch.Proofs.Dispatch.Traces
import GraphDispatch.Proofs.Dispatch.Written
import GraphDispatch.Proofs.Documents.Buildable
import GraphDispatch.Proofs.Documents.RoundTrip
import GraphDispatch.Proofs.Documents.SingleSourced
import GraphDispatch.Proofs.Documents.Texts
import GraphDispatch.Proofs.Files.Export
import GraphDispatch.Proofs.Files.Output
import GraphDispatch.Proofs.Files.Paths
import GraphDispatch.Proofs.Files.Tree
import GraphDispatch.Proofs.FreshName
import GraphDispatch.Proofs.Interface
import GraphDispatch.Proofs.Json.Decoding
import GraphDispatch.Proofs.Json.Lexing
import GraphDispatch.Proofs.Json.Numbers
import GraphDispatch.Proofs.Json.Parsing
import GraphDispatch.Proofs.Json.Printing
import GraphDispatch.Proofs.Json.Values
import GraphDispatch.Proofs.Links.Built
import GraphDispatch.Proofs.Links.Consumers
import GraphDispatch.Proofs.Links.Content
import GraphDispatch.Proofs.Links.Edits
import GraphDispatch.Proofs.Links.Effects
import GraphDispatch.Proofs.Links.Insertion
import GraphDispatch.Proofs.Links.Interposed
import GraphDispatch.Proofs.Links.Live
import GraphDispatch.Proofs.Links.Operations
import GraphDispatch.Proofs.Links.Refusals
import GraphDispatch.Proofs.Links.Relink
import GraphDispatch.Proofs.Links.Runs
import GraphDispatch.Proofs.Links.Slots
import GraphDispatch.Proofs.Links.Stable
import GraphDispatch.Proofs.Links.Undone
import GraphDispatch.Proofs.Lists
import GraphDispatch.Proofs.MainPath
import GraphDispatch.Proofs.NameMap
import GraphDispatch.Proofs.Order
import GraphDispatch.Proofs.Ordered
import GraphDispatch.Proofs.Outcomes
import GraphDispatch.Proofs.Pipeline.Backend
import GraphDispatch.Proofs.Program
import GraphDispatch.Proofs.Reach
import GraphDispatch.Proofs.Rewrite.Again
import GraphDispatch.Proofs.Rewrite.Basic
import GraphDispatch.Proofs.Rewrite.BatchNorms
import GraphDispatch.Proofs.Rewrite.Bounds
import GraphDispatch.Proofs.Rewrite.Canonical
import GraphDispatch.Proofs.Rewrite.Chains
import GraphDispatch.Proofs.Rewrite.Cleared
import GraphDispatch.Proofs.Rewrite.Constants
import GraphDispatch.Proofs.Rewrite.Descent
import GraphDispatch.Proofs.Rewrite.Faults
import GraphDispatch.Proofs.Rewrite.Flaws
import GraphDispatch.Proofs.Rewrite.Folds
import GraphDispatch.Proofs.Rewrite.Formatted
import GraphDispatch.Proofs.Rewrite.Idle
import GraphDispatch.Proofs.Rewrite.Isolated
import GraphDispatch.Proofs.Rewrite.NormalForm
import GraphDispatch.Proofs.Rewrite.Operands
import GraphDispatch.Proofs.Rewrite.Retained
import GraphDispatch.Proofs.Rewrite.Settled
import GraphDispatch.Proofs.Rewrite.SharedParameters
import GraphDispatch.Proofs.Rewrite.Sites
import GraphDispatch.Proofs.Rewrite.Stops
import GraphDispatch.Proofs.Rewrite.Supplied
import GraphDispatch.Proofs.Scaling
import GraphDispatch.Proofs.Settings.Expanded
import GraphDispatch.Proofs.Settings.Reading
import GraphDispatch.Proofs.Settings.SinglePrecision
import GraphDispatch.Proofs.Settings.Survival
import GraphDispatch.Proofs.Settings.Unknown
import GraphDispatch.Proofs.Shapes
import GraphDispatch.Proofs.Sorting
import GraphDispatch.Proofs.Success
import GraphDispatch.Proofs.Switches.Boundary
import GraphDispatch.Proofs.Switches.Completed
import GraphDispatch.Proofs.Switches.Crossings
import GraphDispatch.Proofs.Switches.Distinct
import GraphDispatch.Proofs.Switches.Dropped
import GraphDispatch.Proofs.Switches.Extended
import GraphDispatch.Proofs.Switches.Fitting
import GraphDispatch.Proofs.Switches.Grown
import GraphDispatch.Proofs.Switches.Handed
import GraphDispatch.Proofs.Switches.Insert
import GraphDispatch.Proofs.Switches.Origin
import GraphDispatch.Proofs.Switches.Progress
import GraphDispatch.Proofs.Switches.Relay
import GraphDispatch.Proofs.Switches.Rest
import GraphDispatch.Proofs.Switches.Returned
import GraphDispatch.Proofs.Switches.Reworked
import GraphDispatch.Proofs.Switches.Served
import GraphDispatch.Proofs.Switches.Splice
import GraphDispatch.Proofs.Switches.Stale
import GraphDispatch.Proofs.Tensors
import GraphDispatch.Proofs.Values.Basic
import GraphDispatch.Proofs.Values.Folding
import GraphDispatch.Proofs.Values.Gemm
import GraphDispatch.Proofs.Values.Rewrites
import GraphDispatch.Rewrite.Basic
import GraphDispatch.Rewrite.BatchNorm
import GraphDispatch.Rewrite.Cast
import GraphDispatch.Rewrite.Clip
import GraphDispatch.Rewrite.Command
import GraphDispatch.Rewrite.Constant
import GraphDispatch.Rewrite.Format
import GraphDispatch.Rewrite.Isolated
import GraphDispatch.Rewrite.Message
import GraphDispatch.Rewrite.SharedParameter
import GraphDispatch.Rewrite.Slice
import GraphDispatch.Setting.Basic
import GraphDispatch.Setting.Encoding
import GraphDispatch.Setting.Simple
import GraphDispatch.Setting.Unknown
import GraphDispatch.Task
import GraphDispatch.Text.Case
import GraphDispatch.Text.Hidden
import GraphDispatch.Text.Quoted
