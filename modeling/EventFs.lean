import EventFs.Library.Program
import EventFs.Library.Text
import EventFs.Protocol.Basic
import EventFs.Protocol.FileNames
import EventFs.Protocol.Json
import EventFs.Protocol.Path
import EventFs.Protocol.MountPath
import EventFs.Protocol.Plan
import EventFs.Transport.MemoryStorage
import EventFs.Transport.Writeback
import EventFs.Transport.QueueEffect
import EventFs.Transport.ReplayOnce
import EventFs.Fuse.QueuedOverlay
import EventFs.Protocol.Invalidation
import EventFs.Transport.Cache
import EventFs.Fuse.Mount
import EventFs.Fuse.Projection
import EventFs.Protocol.PathFacts
import EventFs.Transport.ReplayEval
import EventFs.Library.LatestChange
import EventFs.Transport.PendingValue
import EventFs.Fuse.PendingReads
import EventFs.Transport.Nats.Broker
import EventFs.Transport.Nats.Core
import EventFs.Transport.Nats.Kv
import EventFs.Transport.Nats.BrokerFacts
import EventFs.Transport.Nats.KvOnce
import EventFs.Transport.Nats.Objects
import EventFs.Library.Pool
import EventFs.Transport.Nats.ObjectState
import EventFs.Transport.Nats.ObjectChunks
import EventFs.Fuse.Looking
import EventFs.Library.Answers
import EventFs.Transport.ReplayOrder
import EventFs.Transport.QueueRecords
import EventFs.Transport.QueueDisk
import EventFs.Fuse.StreamReads
import EventFs.Fuse.LineProgress
import EventFs.Transport.Nats.StreamOnce
import EventFs.Transport.Nats.StreamLog
import EventFs.Transport.Nats.Watch
import EventFs.Transport.LineQueue
import EventFs.Fuse.PendingLines
import EventFs.Fuse.Filesystem
import EventFs.Fuse.Operations
import EventFs.Transport.ReplayCalls
import EventFs.Fuse.WriteGate
import EventFs.Protocol.RoundTrip
import EventFs.Protocol.OwnPaths
import EventFs.Transport.OwnWrites
import EventFs.Library.Tokens
import EventFs.Protocol.PlannedKeys
import EventFs.Transport.Nats.MountNames
import EventFs.Library.Generations
import EventFs.Transport.MemoryRuns
import EventFs.Library.Inverse
import EventFs.Transport.QueueRuns
import EventFs.Fuse.InodeTable
import EventFs.Fuse.Logs
import EventFs.Library.FileBytes
import EventFs.Fuse.CommitLog
import EventFs.Fuse.HandleSteps
import EventFs.Fuse.HandleRuns
import EventFs.Library.History
import EventFs.Transport.Nats.KvDelete
import EventFs.Transport.Nats.KvDeleteRuns
import EventFs.Fuse.UnlinkReports
import EventFs.Protocol.PlannedFacts
import EventFs.Protocol.SubjectPaths
import EventFs.Protocol.PathAlgebra
import EventFs.Fuse.StalePaths
import EventFs.Fuse.OverlayDepth
import EventFs.Fuse.ChildPaths
import EventFs.Transport.Nats.Subjects
import EventFs.Transport.ImmediateChildren
import EventFs.Transport.Nats.Children
import EventFs.Fuse.DynamicKinds
import EventFs.Transport.PublishedLines
import EventFs.Fuse.PublishedContent
import EventFs.Fuse.StoredKinds
import EventFs.Protocol.AffectedSets
import EventFs.Fuse.InvalidationCover
import EventFs.Fuse.GateRuns
import EventFs.Library.Framing
import EventFs.Library.Threads
import EventFs.Transport.Nats.LedgerKeys
import EventFs.Transport.Nats.LedgerCalls
import EventFs.Transport.Nats.LedgerRuns
import EventFs.Fuse.RenameCapture
import EventFs.Fuse.RenameRuns
import EventFs.Fuse.RenameSessions
import EventFs.Library.Durable
import EventFs.Transport.Settled
import EventFs.Transport.Overlaid
import EventFs.Fuse.FileContents
import EventFs.Protocol.RenameEnds
import EventFs.Fuse.CachedValues
import EventFs.Fuse.CommitOutcomes
import EventFs.Fuse.OperationOutcomes
import EventFs.Fuse.UnspentSeeds
import EventFs.Fuse.FileRuns
import EventFs.Fuse.FileReads
import EventFs.Transport.Nats.KvRefinement
