import CompiledViews.Main
import CompiledViews.Proofs.Cache.Operations
import CompiledViews.Proofs.Cache.Move
import CompiledViews.Proofs.Cache.Effect
import CompiledViews.Proofs.Cache.Run
import CompiledViews.Proofs.Cache.Coherence
import CompiledViews.Proofs.Cache.Batches
import CompiledViews.Proofs.Cache.Compiles
import CompiledViews.Proofs.Cache.Delivery
import CompiledViews.Proofs.Cache.Periods
import CompiledViews.Proofs.Cache.Release
import CompiledViews.Proofs.Cache.SingleFlight
import CompiledViews.Proofs.Text.Lines
import CompiledViews.Proofs.Naming
import CompiledViews.Proofs.Naming.Segment
import CompiledViews.Proofs.Directive.Reading
import CompiledViews.Proofs.Directive.Shape
import CompiledViews.Proofs.Directive.Block
import CompiledViews.Proofs.Directive.Composition
import CompiledViews.Proofs.Directive.Declared
import CompiledViews.Proofs.Directive.Cutting
import CompiledViews.Proofs.Directive.Faults
import CompiledViews.Proofs.Code.Header
import CompiledViews.Proofs.Code.Translation
import CompiledViews.Proofs.Code.Grammar
import CompiledViews.Proofs.Environment.Sequence
import CompiledViews.Proofs.Environment.Loading
import CompiledViews.Proofs.Config.Templates
import CompiledViews.Proofs.Config.Expansion
import CompiledViews.Proofs.Path.Component
import CompiledViews.Proofs.Path.Lexical
import CompiledViews.Proofs.Path.Logical
import CompiledViews.Proofs.Path.Below
import CompiledViews.Proofs.Files.Discovery
import CompiledViews.Proofs.Watch.Watcher
import CompiledViews.Proofs.Watch.Routing
import CompiledViews.Proofs.Watch.Pool
import CompiledViews.Proofs.Watch.Provider
import CompiledViews.Proofs.Watch.Lifetime
import CompiledViews.Proofs.Watch.Coverage
import CompiledViews.Proofs.Source.Registration
import CompiledViews.Proofs.Source.Contents
import CompiledViews.Proofs.Source.Distinct
import CompiledViews.Proofs.Json.Writing
import CompiledViews.Proofs.Template.Position
import CompiledViews.Proofs.Module.Image
import CompiledViews.Proofs.Module.Loading
import CompiledViews.Proofs.Cache.Tally
import CompiledViews.Proofs.Cache.Termination
import CompiledViews.Proofs.Cache.Separation
import CompiledViews.Proofs.Cache.Balance
import CompiledViews.Proofs.Cache.Accounts
import CompiledViews.Proofs.Cache.Alone
import CompiledViews.Proofs.Cache.Snapshots
import CompiledViews.Proofs.Cache.Refinement
import CompiledViews.Proofs.Cache.Scripts
import CompiledViews.Proofs.Template.Rule
import CompiledViews.Proofs.Template.Hole
import CompiledViews.Proofs.Template.Interpolation
import CompiledViews.Proofs.Template.Nodes
import CompiledViews.Proofs.Template.Rendering
import CompiledViews.Proofs.Module.Printing
import CompiledViews.Proofs.Module.Names
import CompiledViews.Proofs.Cache.Mirrors
import CompiledViews.Proofs.Cache.Projection
import CompiledViews.Proofs.Cache.Verdicts
import CompiledViews.Proofs.Source.Subscriptions
import CompiledViews.Proofs.Cache.Rendering
import CompiledViews.Proofs.Cache.Refusals
import CompiledViews.Proofs.Cache.Failure
import CompiledViews.Proofs.CommandLine.Check
import CompiledViews.Proofs.Path.Canonical
import CompiledViews.Proofs.Path.Normal
import CompiledViews.Proofs.Code.Storage
import CompiledViews.Proofs.Files.Following
import CompiledViews.Proofs.Files.Listing
