import TxLifecycle.Main
import TxLifecycle.Proofs.Coverage
import TxLifecycle.Proofs.Effects
import TxLifecycle.Proofs.Flow
import TxLifecycle.Proofs.Frame
import TxLifecycle.Proofs.Limits
import TxLifecycle.Proofs.States
import TxLifecycle.Proofs.Walks
import TxLifecycle.Proofs.Path
import TxLifecycle.Proofs.Following
import TxLifecycle.Proofs.PathCoverage
import TxLifecycle.Proofs.LeakingReturns
import TxLifecycle.Proofs.Parts
import TxLifecycle.Proofs.Untouched
import TxLifecycle.Proofs.Grounds
import TxLifecycle.Proofs.Ancestry
import TxLifecycle.Proofs.Amendments
import TxLifecycle.Proofs.Registers
import TxLifecycle.Proofs.Table
import TxLifecycle.Proofs.Arms
import TxLifecycle.Proofs.Prepared
import TxLifecycle.Proofs.Inside
import TxLifecycle.Proofs.Arena
import TxLifecycle.Proofs.SafetyNet
import TxLifecycle.Proofs.Lists
import TxLifecycle.Proofs.DeferredRollback
import TxLifecycle.Proofs.Demand
import TxLifecycle.Proofs.FunctionEnd
import TxLifecycle.Proofs.RenamedSyntax
import TxLifecycle.Proofs.ScopeMaps
import TxLifecycle.Proofs.Renaming
import TxLifecycle.Proofs.Projection
import TxLifecycle.Proofs.OneVariable
import TxLifecycle.Proofs.OtherMethods
import TxLifecycle.Proofs.Reacquisition
import TxLifecycle.Proofs.Judgement
import TxLifecycle.Proofs.PlainCommits
import TxLifecycle.Proofs.LiteralBodies
import TxLifecycle.Proofs.InitClauses
import TxLifecycle.Proofs.Captures
import TxLifecycle.Proofs.Branches
import TxLifecycle.Proofs.Exclusion
import TxLifecycle.Proofs.Sites
import TxLifecycle.Proofs.ExitEvents
import TxLifecycle.Proofs.SilentMerges
import TxLifecycle.Proofs.Unaltered
import TxLifecycle.Proofs.SiblingAcquisitions
import TxLifecycle.Proofs.Sorting
import TxLifecycle.Proofs.Scheduling
import TxLifecycle.Proofs.Subtrees
import TxLifecycle.Proofs.Readers
import TxLifecycle.Proofs.NestingLimit
import TxLifecycle.Proofs.Spans
import TxLifecycle.Proofs.CommitCoverage
import TxLifecycle.Proofs.ElseBlocks
import TxLifecycle.Proofs.DeferredLocals
import TxLifecycle.Proofs.Renewals
import TxLifecycle.Proofs.FieldStores
import TxLifecycle.Proofs.LoopDepths
import TxLifecycle.Proofs.ErrorChecks
import TxLifecycle.Proofs.DiscardedErrors
import TxLifecycle.Proofs.EventPlaces
import TxLifecycle.Proofs.LinePositions
import TxLifecycle.Proofs.HandedOff
import TxLifecycle.Proofs.Entrypoints
import TxLifecycle.Proofs.OperandChains
import TxLifecycle.Proofs.NearestScopes
import TxLifecycle.Proofs.ScopeDepths
import TxLifecycle.Proofs.DeferredHelpers
