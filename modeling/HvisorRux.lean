import HvisorRux.Bridge.ConfigAnswer
import HvisorRux.Bridge.Wakeup
import HvisorRux.Bridge.ResponseRing
import HvisorRux.Gic.ListRegister
import HvisorRux.Zones.IvcAccess
import HvisorRux.Trap.DataAbort
import HvisorRux.Tool.QueueOrder
import HvisorRux.Tool.Notify
import HvisorRux.Tool.Isolation
import HvisorRux.Tool.Gpu.Framebuffers
import HvisorRux.Tool.Gpu.Completion
import HvisorRux.Tool.Gpu.Announce
import HvisorRux.Tool.Blk.Completion
import HvisorRux.Tool.Blk.Announce
import HvisorRux.Rux.Mmap.Calls
import HvisorRux.Rux.Mmap.Swap
import HvisorRux.Rux.Paging.Refine
import HvisorRux.Rux.Task.Condvar
import HvisorRux.Rux.Task.Futex
import HvisorRux.Rux.Task.TimedWait
import HvisorRux.Rux.Fd.Pipe
import HvisorRux.Rux.Alloc.Align
import HvisorRux.Rux.Fs.RamfsTree
import HvisorRux.Rux.Fs.Canonical
import HvisorRux.Rux.Fs.FileArray
import HvisorRux.Rux.Fs.Open
import HvisorRux.Tool.ScatterGather
import HvisorRux.Tool.Gpu.Copy
import HvisorRux.Tool.QueueAddresses
import HvisorRux.Rux.Fd.Vectored
import HvisorRux.Zones.StreamTable
import HvisorRux.Tool.Net
import HvisorRux.Rux.Mmap.Exact
import HvisorRux.Rux.Task.Partition
import HvisorRux.Stage2.Frame
import HvisorRux.Rux.Ratio
