import EigenOS.Signals.Sigreturn
import EigenOS.Net.ReceiveBounds
import EigenOS.Gui.WindowBuffers
import EigenOS.Persist.SyncSteps
import EigenOS.Syscalls.DirtyTree
import EigenOS.Persist.DecodeSafety
import EigenOS.Tasking.PtyCounts
import EigenOS.Scheduling.Consistency
import EigenOS.Scheduling.Fairness
import EigenOS.Scheduling.FutexAccounting
import EigenOS.Scheduling.TimedWaits
import EigenOS.Tasking.ForkFrame
import EigenOS.Descriptors.EpollAgreement
import EigenOS.Syscalls.StoreConfinement
import EigenOS.Descriptors.LineDiscipline
import EigenOS.Net.Stack
import EigenOS.Net.DhcpExchange
import EigenOS.Memory.HeapLock
import EigenOS.Pthread.RecursiveRelease
import EigenOS.Pthread.Semaphore
import EigenOS.Pthread.RwlockExclusion
import EigenOS.Descriptors.StaleHandles
import EigenOS.Pthread.Once
import EigenOS.Pthread.BarrierCycles
import EigenOS.Terminal.EmulatorBounds
import EigenOS.Clock.Agreement
import EigenOS.Libc.ReadStream
import EigenOS.Pthread.ConditionWakeups
import EigenOS.Syscalls.EnumerationRuns
import EigenOS.Tasking.Wait
import EigenOS.Filesystem.Releases
import EigenOS.Filesystem.Copies
import EigenOS.Filesystem.PathCreation
import EigenOS.Descriptors.FileContents
import EigenOS.Descriptors.PipeDirection
import EigenOS.Programs.ElfMemory
import EigenOS.Descriptors.PtyOutput
import EigenOS.Memory.PhysicalPages
import EigenOS.Memory.HeapRequests
import EigenOS.Net.Sending
import EigenOS.Memory.OwnerRelease
import EigenOS.Paging.CloneIndependence
import EigenOS.Programs.ExecveBlock
import EigenOS.Pthread.ThreadKeys
import EigenOS.Pthread.Join
import EigenOS.Net.DnsResolve
import EigenOS.Libc.Environment
import EigenOS.Libc.Reallocation
import EigenOS.Libc.NumberText
import EigenOS.Gui.RestoredGeometry
import EigenOS.Gui.ResizePicture
import EigenOS.Libc.Sorting
import EigenOS.Persist.RestoredTree
