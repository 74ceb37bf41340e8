import SpecBlock.Foundation.Autoregressive
import SpecBlock.Foundation.BudgetClosure
import SpecBlock.Foundation.CausalNetwork
import SpecBlock.Foundation.ChildSibling
import SpecBlock.Foundation.Compaction
import SpecBlock.Foundation.Dictionary
import SpecBlock.Foundation.FilledRows
import SpecBlock.Foundation.FiniteLaw
import SpecBlock.Foundation.FloatBits
import SpecBlock.Foundation.Ieee
import SpecBlock.Foundation.LivePrefix
import SpecBlock.Foundation.Merging
import SpecBlock.Foundation.OnlineSoftmax
import SpecBlock.Foundation.Overwrites
import SpecBlock.Foundation.ParentChain
import SpecBlock.Foundation.Regex
import SpecBlock.Foundation.Rejection
import SpecBlock.Foundation.RepeatedMax
import SpecBlock.Foundation.Rows
import SpecBlock.Foundation.Runs
import SpecBlock.Foundation.Segments
import SpecBlock.Foundation.SlotLedger
import SpecBlock.Foundation.SortedGroups
import SpecBlock.Foundation.StableSort
import SpecBlock.Foundation.Stores
import SpecBlock.Building.BatchedBlock1
import SpecBlock.Building.BatchedTree
import SpecBlock.Building.BfsKernels
import SpecBlock.Building.CoveragePrune
import SpecBlock.Building.CudaTree
import SpecBlock.Building.CudaTriton
import SpecBlock.Building.Dedup
import SpecBlock.Building.DedupAgreement
import SpecBlock.Building.DedupBranches
import SpecBlock.Building.DedupReference
import SpecBlock.Building.FixedSelection
import SpecBlock.Building.FlatScatter
import SpecBlock.Building.FusedPrune
import SpecBlock.Building.GpuPrune
import SpecBlock.Building.HostExpand
import SpecBlock.Building.LinearChain
import SpecBlock.Building.NumpyTree
import SpecBlock.Building.PaddedBuild
import SpecBlock.Building.PolicyAgreement
import SpecBlock.Building.RowDedup
import SpecBlock.Building.RowMerging
import SpecBlock.Building.SlotPolicy
import SpecBlock.Building.StrictLinear
import SpecBlock.Building.TreeBuffers
import SpecBlock.Building.TreeEncoding
import SpecBlock.Building.TreePrune
import SpecBlock.Building.TreeRows
import SpecBlock.Building.TreeShape
import SpecBlock.Building.TritonTree
import SpecBlock.Single.Exactness
import SpecBlock.Single.Generation
import SpecBlock.Single.SampledLaw
import SpecBlock.Single.SampledVerify
import SpecBlock.Single.TreeVerify
import SpecBlock.Batch.Acceptance
import SpecBlock.Batch.CacheInvariant
import SpecBlock.Batch.CacheOperations
import SpecBlock.Batch.CachedRun
import SpecBlock.Batch.Capacity
import SpecBlock.Batch.Eagle3Batch
import SpecBlock.Batch.Eagle3Drafts
import SpecBlock.Batch.Eagle3Greedy
import SpecBlock.Batch.Eagle3Law
import SpecBlock.Batch.Eagle3Lossless
import SpecBlock.Batch.Eagle3Rounds
import SpecBlock.Batch.Eagle3Sampling
import SpecBlock.Batch.Generation
import SpecBlock.Batch.GreedyPath
import SpecBlock.Batch.Lossless
import SpecBlock.Batch.NgramTable
import SpecBlock.Batch.Proposals
import SpecBlock.Batch.Sampling
import SpecBlock.Batch.SamplingLaw
import SpecBlock.Batch.SamplingRow
import SpecBlock.Batch.ScalarAgreement
import SpecBlock.Batch.ScalarSampling
import SpecBlock.Batch.TargetCache
import SpecBlock.Batch.TreeVisibility
import SpecBlock.Batch.Trees
import SpecBlock.Batch.Verification
import SpecBlock.Draft.AttentionKeys
import SpecBlock.Draft.BatchCache
import SpecBlock.Draft.BatchRows
import SpecBlock.Draft.BatchedRounds
import SpecBlock.Draft.CacheBounds
import SpecBlock.Draft.CacheLoop
import SpecBlock.Draft.CacheRounds
import SpecBlock.Draft.CapacityRuns
import SpecBlock.Draft.ChainMask
import SpecBlock.Draft.CommittedContext
import SpecBlock.Draft.ContextSlots
import SpecBlock.Draft.CrossCache
import SpecBlock.Draft.DraftNet
import SpecBlock.Draft.GraphReplay
import SpecBlock.Draft.InitialDrafts
import SpecBlock.Draft.InitialForward
import SpecBlock.Draft.InitialOutputs
import SpecBlock.Draft.PagedContext
import SpecBlock.Draft.PagedRounds
import SpecBlock.Draft.PagedRun
import SpecBlock.Draft.Prefill
import SpecBlock.Draft.RaggedForward
import SpecBlock.Draft.ReplayAgreement
import SpecBlock.Draft.RotaryTables
import SpecBlock.Draft.SameContext
import SpecBlock.Draft.SameRounds
import SpecBlock.Draft.ScalarRounds
import SpecBlock.Draft.SnapCompaction
import SpecBlock.Draft.StreamCache
import SpecBlock.Draft.StreamWindow
import SpecBlock.Draft.TrainingLoss
import SpecBlock.Draft.TrainingMasks
import SpecBlock.Conversations.Messages
import SpecBlock.Conversations.Refill
import SpecBlock.Conversations.TurnWaves
import SpecBlock.Kernels.PackedProjections
import SpecBlock.Attention.PagedKernels
import SpecBlock.Attention.PlanCache
import SpecBlock.Attention.RaggedKernels
import SpecBlock.Attention.TargetKernel
import SpecBlock.Attention.Tiles
import SpecBlock.Serving.Alignment
import SpecBlock.Serving.FinaliseAlignment
import SpecBlock.Serving.FixedFinaliser
import SpecBlock.Serving.FixedTopology
import SpecBlock.Serving.GraphRunners
import SpecBlock.Serving.KvPool
import SpecBlock.Serving.OverlapCommit
import SpecBlock.Serving.OverlapPacking
import SpecBlock.Serving.OverlapRounds
import SpecBlock.Serving.OverlapRun
import SpecBlock.Serving.OverlapSlots
import SpecBlock.Serving.OverlapWorker
import SpecBlock.Serving.Ownership
import SpecBlock.Serving.PoolAccounting
import SpecBlock.Serving.PoolCapacity
import SpecBlock.Serving.RefreshAgreement
import SpecBlock.Serving.RefreshAppend
import SpecBlock.Serving.RefreshFailure
import SpecBlock.Serving.RefreshPlan
import SpecBlock.Serving.RequestFinalise
import SpecBlock.Serving.ScheduleBatch
import SpecBlock.Serving.Scheduler
import SpecBlock.Serving.SlotRelease
import SpecBlock.Serving.SpecInfo
import SpecBlock.Serving.StopCheck
import SpecBlock.Serving.TreeLinks
import SpecBlock.Serving.Worker
import SpecBlock.Scoring.MathAnswers
import SpecBlock.Scoring.MathExtraction
import SpecBlock.Scoring.MathIntroductions
import SpecBlock.Scoring.MathNormalForm
import SpecBlock.Scoring.MathReference
import SpecBlock.Scoring.MathTrimming
import SpecBlock.Scoring.MathUnwrapping
