import PowerFS.Wal.TruncatedSegment
import PowerFS.Wal.CkptCoverage
import PowerFS.V1.Accounting
import PowerFS.V1.FailedChange
import PowerFS.V1.ByteMap
import PowerFS.V1.Restarts
import PowerFS.Filer.PosixLocks
import PowerFS.Filer.Handover
import PowerFS.Filer.Quiesce
import PowerFS.Filer.CapTokens
import PowerFS.Filer.ApplyLoop
import PowerFS.Lease.LeasedWrites
import PowerFS.Filer.DerivedState
import PowerFS.Filer.Truncation
import PowerFS.Filer.LinkCounts
import PowerFS.Filer.Replicas
import PowerFS.Filer.Faults
import PowerFS.Filer.Replay
import PowerFS.Filer.Rmdir
import PowerFS.Filer.CrossRename
import PowerFS.Allocator.ScaleOut
import PowerFS.Layout.Untrusted
import PowerFS.Filer.Projection
import PowerFS.Filer.InodeNumbers
import PowerFS.OrSet.DeltaSync
import PowerFS.OrSet.ServerDir
import PowerFS.OrSet.ConflictDirs
import PowerFS.Wal.PurgeMarkers
import PowerFS.Wal.RecordSizes
import PowerFS.Wal.ExpiredPurges
import PowerFS.Lease.Persistence
import PowerFS.Allocator.StripePicks
