import CbpSim.Foundation.Run
import CbpSim.Foundation.Ring
import CbpSim.Foundation.Recency
import CbpSim.Foundation.Tiling
import CbpSim.Common.Abort
import CbpSim.Lanes.ResourceSchedule
import CbpSim.Lanes.Refinement
import CbpSim.Lanes.Search
import CbpSim.Lanes.Probe
import CbpSim.Memory.Cache
import CbpSim.Memory.Lru
import CbpSim.Memory.TrueLru
import CbpSim.Common.Structs
import CbpSim.Foundation.Bytes
import CbpSim.Trace.Reader
import CbpSim.Trace.Decode
import CbpSim.Trace.RoundTrip
import CbpSim.Trace.Cracking
import CbpSim.Trace.LoadPieces
import CbpSim.Trace.StorePieces
import CbpSim.Trace.Destinations
import CbpSim.Trace.Pieces
import CbpSim.Trace.Records
import CbpSim.Trace.MadeUp
import CbpSim.Trace.CutRecord
import CbpSim.Common.Parameters
import CbpSim.Predictor.History
import CbpSim.Predictor.LoopPredictor
import CbpSim.Predictor.Tables
import CbpSim.Predictor.Tage
import CbpSim.Predictor.Training
import CbpSim.Predictor.TageScL
import CbpSim.Predictor.Interface
import CbpSim.Predictor.LoadTracking
import CbpSim.Predictor.Calls
import CbpSim.Predictor.LoopRepair
import CbpSim.Core.State
import CbpSim.Core.Pipeline
import CbpSim.Core.Step
import CbpSim.Foundation.Outcome
import CbpSim.Core.Sites
import CbpSim.Core.Phases
import CbpSim.Core.Dependences
import CbpSim.Core.Window
import CbpSim.Core.FetchLimits
import CbpSim.Core.Queues
import CbpSim.Core.Hearing
import CbpSim.Core.Delivery
import CbpSim.Core.Predictors
import CbpSim.Core.Checkpoints
import CbpSim.Foundation.Ranks
import CbpSim.Memory.PrefetchQueue
import CbpSim.Memory.PrefetchTable
import CbpSim.Memory.Backlog
import CbpSim.Memory.Strides
import CbpSim.Memory.Timing
import CbpSim.Memory.Traffic
import CbpSim.Memory.Fills
import CbpSim.Core.OnTime
import CbpSim.Core.Upkeep
import CbpSim.Core.Course
import CbpSim.Core.Epochs
import CbpSim.Core.Redirects
import CbpSim.Core.WrongPath
import CbpSim.Core.Directions
import CbpSim.Core.Forwarding
import CbpSim.Predictor.Indices
import CbpSim.Predictor.Ranges
import CbpSim.Foundation.Clip
import CbpSim.Predictor.Representation
import CbpSim.Predictor.Footprint
import CbpSim.Foundation.Folding
import CbpSim.Predictor.FoldedHistories
import CbpSim.Predictor.Interleaving
import CbpSim.Predictor.Allocation
import CbpSim.Predictor.Ageing
import CbpSim.Predictor.ConstantLoops
import CbpSim.Predictor.Corrector
import CbpSim.Trace.Truncation
import CbpSim.Core.EpochEnds
import CbpSim.Core.Bundles
import CbpSim.Foundation.Search
import CbpSim.Memory.Geometry
import CbpSim.Predictor.DependencyClosure
import CbpSim.Foundation.Accumulate
import CbpSim.Core.Report
import CbpSim.Core.ReportWindows
import CbpSim.Predictor.Ittage
import CbpSim.Predictor.IttageHistories
import CbpSim.Trace.PieceCounts
import CbpSim.Core.PieceNumbers
import CbpSim.Core.Guise
import CbpSim.Core.Twins
import CbpSim.Core.Transparency
import CbpSim.Core.Answers
import CbpSim.Core.Shipped
import CbpSim.Core.ArraySizes
import CbpSim.Core.CacheTraffic
import CbpSim.Core.IndirectTargets
import CbpSim.Foundation.Scan
import CbpSim.Common.Options
import CbpSim.Common.CommandLine
import CbpSim.Core.Main
import CbpSim.Foundation.Slots
import CbpSim.Core.IlpLimits
import CbpSim.Foundation.Amortised
import CbpSim.Predictor.Majority
import CbpSim.Predictor.Remembering
import CbpSim.Core.Speculation
