import EntityResolution.Reconcile.Matching
import EntityResolution.Reconcile.PlanSpec
import EntityResolution.Reconcile.Outcome
import EntityResolution.Reconcile.Permanence
import EntityResolution.Reconcile.Replay
import EntityResolution.Foundations.MergeForest
import EntityResolution.Reconcile.History
import EntityResolution.Reconcile.Redirects
import EntityResolution.Foundations.UnionFind
import EntityResolution.Foundations.BreadthFirst
import EntityResolution.NeverCut.Fixpoint
import EntityResolution.NeverCut.Connectivity
import EntityResolution.NeverCut.Soundness
import EntityResolution.Foundations.PairView
import EntityResolution.Foundations.Runs
import EntityResolution.Foundations.Tables
import EntityResolution.Match.Lake
import EntityResolution.Match.Passes
import EntityResolution.Match.StatementSpec
import EntityResolution.Match.Scoring
import EntityResolution.Match.PassSpec
import EntityResolution.Match.Incremental
import EntityResolution.Match.Interruption
import EntityResolution.Match.Departures
import EntityResolution.NeverCut.RowOrder
import EntityResolution.Match.Cascade
import EntityResolution.Reconcile.Clustering
import EntityResolution.Reconcile.Lake
import EntityResolution.Reconcile.Rules
import EntityResolution.Reconcile.Membership
import EntityResolution.Reconcile.Settled
import EntityResolution.Reconcile.Crash
import EntityResolution.Reconcile.AlwaysRules
import EntityResolution.Reconcile.Departed
import EntityResolution.Executor.Ledger
import EntityResolution.Foundations.Histories
import EntityResolution.Executor.ControlPlane
import EntityResolution.Executor.Changes
import EntityResolution.Executor.Tries
import EntityResolution.Executor.Sweep
import EntityResolution.Foundations.StackSearch
import EntityResolution.Executor.Assembly
import EntityResolution.Executor.GraphRuns
import EntityResolution.Executor.Archived
import EntityResolution.Executor.Deadlock
import EntityResolution.Executor.Reporter
import EntityResolution.Executor.RowSteps
import EntityResolution.Executor.Budgets
import EntityResolution.Executor.Fencing
import EntityResolution.Executor.WriteAhead
import EntityResolution.Executor.Dispatch
import EntityResolution.Executor.WriterLock
import EntityResolution.Executor.Cancellation
import EntityResolution.Blocking.Rules
import EntityResolution.Blocking.Chunks
import EntityResolution.Blocking.Exactness
import EntityResolution.Blocking.FirstRule
import EntityResolution.Blocking.Incremental
import EntityResolution.Steward.Reviews
import EntityResolution.Match.Borrowed
import EntityResolution.Run.Guard
import EntityResolution.Match.Provenance
import EntityResolution.Run.Promotion
import EntityResolution.Run.Closing
import EntityResolution.Steward.Approval
import EntityResolution.Steward.Ticks
import EntityResolution.Steward.Corrections
import EntityResolution.Executor.Upstream
import EntityResolution.Executor.WorkOrders
import EntityResolution.Executor.ClearScope
import EntityResolution.Golden.Groups
import EntityResolution.Executor.Classify
import EntityResolution.Executor.Ladder
import EntityResolution.Foundations.DepthFirst
import EntityResolution.Schema.Catalog
import EntityResolution.Schema.Planning
import EntityResolution.Schema.Ledger
import EntityResolution.Foundations.Joins
import EntityResolution.Ingest.ContentHash
import EntityResolution.Foundations.Versions
import EntityResolution.Ingest.Landing
import EntityResolution.Foundations.Grouping
import EntityResolution.Golden.Survivorship
import EntityResolution.Golden.Records
import EntityResolution.Golden.MergePlans
import EntityResolution.Compile.Expressions
import EntityResolution.Compile.Prefixes
import EntityResolution.Dedupe.BestLinks
import EntityResolution.Dedupe.BestLinksSpec
import EntityResolution.Dedupe.Components
import EntityResolution.Dedupe.DuplicateFree
import EntityResolution.Dedupe.IncrementalClusters
import EntityResolution.Dedupe.WholeClusters
import EntityResolution.Executor.ExitCodes
import EntityResolution.Foundations.LeastRoots
import EntityResolution.Foundations.LeastWalks
import EntityResolution.Foundations.Ranking
import EntityResolution.Golden.Elections
import EntityResolution.NeverCut.Rounds
import EntityResolution.Reconcile.Contradictions
import EntityResolution.Reconcile.Labels
import EntityResolution.Reconcile.RoundBound
import EntityResolution.Compile.Conditions
import EntityResolution.Compile.Levels
import EntityResolution.Compile.SymmetricLevels
import EntityResolution.Compile.Weights
import EntityResolution.Executor.TerminalRecords
import EntityResolution.Identity.StampRoundTrip
import EntityResolution.Ingest.Receipts
import EntityResolution.Schedule.Cron
import EntityResolution.Schedule.CronDenotation
import EntityResolution.Foundations.Patterns
import EntityResolution.Standardize.Account
import EntityResolution.Standardize.Addresses
import EntityResolution.Standardize.Person
import EntityResolution.Executor.Confluence
import EntityResolution.Foundations.AddressBlocks
import EntityResolution.Foundations.FixedWidth
import EntityResolution.Identity.MintedText
import EntityResolution.Identity.Resolution
import EntityResolution.Schedule.CronLoop
import EntityResolution.Server.UrlGuard
import EntityResolution.Webhooks.Ledger
import EntityResolution.Webhooks.Draining
import EntityResolution.ReadApi.Scores
import EntityResolution.Ingest.Deliveries
