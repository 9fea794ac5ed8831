import Tatara.Lisp.RoundTrip
import Tatara.Lisp.Strategies
import Tatara.Lisp.Compiler
import Tatara.Lisp.DefinedOnce
import Tatara.Lisp.Settled
import Tatara.Lisp.JsonRoundTrip
import Tatara.Cluster.Agreement
import Tatara.Cluster.Scheduling
import Tatara.Cluster.Observation
import Tatara.Cluster.Recovery
import Tatara.Cluster.Holders
import Tatara.Cluster.Transfer
import Tatara.Cluster.History
import Tatara.Convergence.Gate
import Tatara.Reconciler.Verified
import Tatara.Reconciler.Deletion
import Tatara.Reconciler.StableNames
import Tatara.Reconciler.TimeToLive
import Tatara.Reconciler.Exports
import Tatara.Reconciler.Pids
import Tatara.Pool.Settling
import Tatara.Pool.Supply
import Tatara.Allocation.Binding
import Tatara.Allocation.Release
import Tatara.Convergence.Attestation
import Tatara.Crd.Attestation
import Tatara.Reconciler.Receipts
import Tatara.Domain.Allocation
import Tatara.Scheduling.Evaluator
import Tatara.Scheduling.Reconciler
import Tatara.Scheduling.Placement
import Tatara.Lib.Machine
import Tatara.Engine.StateStore
import Tatara.Engine.Durability
import Tatara.Engine.PortAllocator
import Tatara.Engine.PortRuns
import Tatara.P2p.Cache
import Tatara.P2p.Transfer
import Tatara.P2p.Chunk
import Tatara.Rust.MergePatch
import Tatara.Crd.Lifetime
import Tatara.Allocation.Handover
import Tatara.Lib.Agreement
import Tatara.Lattices.Classification
import Tatara.Lattices.Laws
import Tatara.Lib.Writes
import Tatara.Nix.OverlayCompose
import Tatara.Rust.JsonPath
import Tatara.Nix.Resolution
import Tatara.Nix.ModuleOrder
import Tatara.Lib.Bits
import Tatara.Matrix.Expansion
import Tatara.Matrix.Names
import Tatara.Kube.Prune
import Tatara.Kube.Revisions
import Tatara.Cluster.Propagation
import Tatara.Eval.Begin
import Tatara.Cluster.Membership
import Tatara.Engine.Executor
import Tatara.Engine.Tracking
import Tatara.Engine.ExecutorRuns
import Tatara.Operator.NixBuild
import Tatara.Operator.BuildOutcomes
import Tatara.Operator.Completions
import Tatara.Operator.Flakes
import Tatara.Operator.FlakeOrg
import Tatara.Operator.FlakeSource
import Tatara.Reconciler.EdgeNames
import Tatara.Watcher.Handler
import Tatara.Init.Supervisor
import Tatara.Init.Supervision
import Tatara.Init.Boot
import Tatara.Nix.Store
import Tatara.Os.Config
import Tatara.Os.Closure
import Tatara.Lisp.Templates
import Tatara.Lisp.Depth
import Tatara.Lisp.Registry
import Tatara.Lib.Delimited
import Tatara.Lisp.CacheKey
import Tatara.Lib.Consecutive
import Tatara.Cluster.LogRefinement
import Tatara.Convergence.Chaining
import Tatara.Convergence.ContentAddress
import Tatara.Lib.Digraph
import Tatara.Convergence.Closure
import Tatara.Lib.Kahn
import Tatara.Domain.Dag
import Tatara.Convergence.Planner
import Tatara.Convergence.Oscillation
import Tatara.Lisp.Kwargs
import Tatara.Pool.Draining
import Tatara.Allocation.Deadline
import Tatara.Reconciler.ExportCounts
import Tatara.Scheduling.Evaluation
import Tatara.Scheduling.Overcommit
import Tatara.Scheduling.JobStatuses
import Tatara.Scheduling.CountPass
import Tatara.Scheduling.Layout
import Tatara.Lib.Fallible
import Tatara.Engine.SourcePass
import Tatara.Engine.SourceSync
import Tatara.Rust.JsonWriter
import Tatara.Domain.ContentHash
import Tatara.Domain.SpecTexts
import Tatara.Domain.SpecHash
import Tatara.Engine.Catalog
import Tatara.Nix.Nesting
import Tatara.Lib.Lockstep
import Tatara.Eval.Respect
import Tatara.Eval.Thunks
import Tatara.Eval.Forcing
import Tatara.Eval.Quasiquote
import Tatara.Eval.Arithmetic
import Tatara.Eval.Derivations
import Tatara.Eval.Attributes
import Tatara.Nix.Literals
import Tatara.Nix.Indented
import Tatara.Nix.Survival
import Tatara.Allocation.Routing
import Tatara.Kube.Deletion
import Tatara.Operator.StatusPatch
import Tatara.Crd.Identity
import Tatara.Wasm.Ceiling
import Tatara.Engine.Oci
import Tatara.Export.Worker
import Tatara.Watcher.Names
import Tatara.Operator.Webhooks
import Tatara.Lib.Shell
import Tatara.Os.Profile
import Tatara.Os.Etc
import Tatara.Lib.Script
import Tatara.Vm.Rootfs
import Tatara.Engine.Saga
import Tatara.Cluster.Journal
import Tatara.Convergence.Substrates
import Tatara.Domain.Idempotency
import Tatara.Lib.EditDistance
import Tatara.Lisp.Concatenation
import Tatara.Lisp.Suggestions
import Tatara.P2p.Disk
import Tatara.P2p.Durability
