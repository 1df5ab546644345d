import Ece552.Library.TransitionSystem
import Ece552.Library.FifoNetwork
import Ece552.Library.Removal
import Ece552.Msi.Messages
import Ece552.Msi.L1Cache
import Ece552.Msi.Directory
import Ece552.Msi.System
import Ece552.Msi.Block
import Ece552.Msi.Accounting
import Ece552.Msi.Writeback
import Ece552.Msi.Downgrade
import Ece552.Msi.Authority
import Ece552.Msi.Readers
import Ece552.Msi.DataValue
import Ece552.Msi.SharerList
import Ece552.Msi.View
import Ece552.Msi.CacheRefinement
import Ece552.Msi.DirectoryRefinement
import Ece552.Msi.Refinement
import Ece552.Msi.Census
import Ece552.Msi.Conservation
import Ece552.Msi.DirectoryLists
import Ece552.Msi.Arrival
import Ece552.Msi.Completeness
import Ece552.Msi.Coherence
import Ece552.Library.WaitGraph
import Ece552.Msi.Waiting
import Ece552.Msi.Deadlock
import Ece552.Library.SlotArray
import Ece552.Library.SetAssociative
import Ece552.Msi.CacheMemory
import Ece552.Msi.Allocation
import Ece552.Msi.Bookkeeping
import Ece552.Msi.Controllers
import Ece552.Library.RingBuffer
import Ece552.Tomasulo.Instr
import Ece552.Tomasulo.Machine
import Ece552.Tomasulo.Stages
import Ece552.Tomasulo.Timeline
import Ece552.Tomasulo.Timing
import Ece552.Tomasulo.Occupancy
import Ece552.Tomasulo.Progress
import Ece552.Tomasulo.Completion
import Ece552.Tomasulo.Starting
import Ece552.Tomasulo.Arbitration
import Ece552.Tomasulo.Queue
import Ece552.Tomasulo.TraceStore
import Ece552.Library.Renaming
import Ece552.Tomasulo.Values
import Ece552.Tomasulo.Limits
import Ece552.Library.Outcome
import Ece552.Library.PointerList
import Ece552.Library.EventLog
import Ece552.Library.Recency
import Ece552.Cache.Geometry
import Ece552.Cache.Sets
import Ece552.Cache.Machine
import Ece552.Cache.Access
import Ece552.Cache.Runs
import Ece552.Cache.Lookup
import Ece552.Cache.WriteBack
import Ece552.Cache.Lru
import Ece552.Cache.Prediction
import Ece552.Cache.MissQueue
import Ece552.Cache.Prefetching
import Ece552.Cache.Occupancy
import Ece552.Cache.Strides
import Ece552.Cache.Victims
import Ece552.Cache.Safety
import Ece552.Cache.Timing
import Ece552.Cache.Span
import Ece552.Library.Paging
import Ece552.Cache.Competitive
import Ece552.Library.WriteBackStore
import Ece552.Cache.Reads
import Ece552.Cache.Hierarchy
import Ece552.Library.SaturatingCounter
import Ece552.Library.TwoLevelPrediction
import Ece552.Predictor.Machine
import Ece552.Predictor.TwoLevel
import Ece552.Predictor.Tournament
import Ece552.Predictor.TwoBitSat
import Ece552.Predictor.PrivateHistory
import Ece552.Predictor.GlobalHistory
import Ece552.Library.MistakeBound
import Ece552.Predictor.Mistakes
import Ece552.Library.InOrderIssue
import Ece552.Pipeline.Hazards
import Ece552.Pipeline.Bubbles
import Ece552.Pipeline.Distances
import Ece552.Pipeline.StallEvents
import Ece552.Library.LeastWalks
import Ece552.Library.HopNetwork
import Ece552.Library.Holdings
import Ece552.Ruby.ShortestPaths
import Ece552.Ruby.Topology
import Ece552.Ruby.MessageBuffer
import Ece552.Ruby.SimpleNetwork
import Ece552.Ruby.Moves
import Ece552.Ruby.Routing
import Ece552.Ruby.Effects
import Ece552.Ruby.Ordering
import Ece552.Ruby.Conservation
import Ece552.Ruby.PendingCounts
import Ece552.Ruby.Awake
import Ece552.Ruby.Draining
import Ece552.Ruby.Transfers
import Ece552.Ruby.Wakeups
import Ece552.Ruby.Faults
import Ece552.Ruby.Delivery
import Ece552.Ruby.Capacity
import Ece552.Library.RenamedNetwork
import Ece552.Ruby.Channels
import Ece552.Msi.Networked
import Ece552.Msi.Transparency
