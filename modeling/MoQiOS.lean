import MoQiOS.CowFrames
import MoQiOS.Credentials
import MoQiOS.ElfImage
import MoQiOS.EpollRuns
import MoQiOS.Ext2Addressing
import MoQiOS.Ext2DirectoryMaps
import MoQiOS.Ext2TruncatePaths
import MoQiOS.Fat32Directory
import MoQiOS.Fat32Files
import MoQiOS.Fat32ShortNames
import MoQiOS.Fat32Unlink
import MoQiOS.FileLocks
import MoQiOS.FutexRuns
import MoQiOS.IpcCallRuns
import MoQiOS.JobControl
import MoQiOS.KmsgRing
import MoQiOS.LibcHeapRuns
import MoQiOS.PageAllocatorRuns
import MoQiOS.PageCacheFlushRuns
import MoQiOS.PageMoves
import MoQiOS.PathRules
import MoQiOS.PipeReaders
import MoQiOS.PosixMqPhases
import MoQiOS.PosixMqRuns
import MoQiOS.PthreadMutex
import MoQiOS.PthreadReapRuns
import MoQiOS.RunQueueSystem
import MoQiOS.SlabRuns
import MoQiOS.SleepLock
import MoQiOS.StdioSeek
import MoQiOS.TcpAcceptRuns
import MoQiOS.TcpAckProgress
import MoQiOS.TcpMachine
import MoQiOS.TcpSynNumbers
import MoQiOS.TimerFd
import MoQiOS.TmpfsMkdir
import MoQiOS.VmaSealRuns
import MoQiOS.WritebackFlightRuns
