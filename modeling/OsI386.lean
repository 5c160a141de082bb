import OsI386.TransitionSystem
import OsI386.Bitmap
import OsI386.Scheduler
import OsI386.ReadyQueue
import OsI386.SchedulerRuns
import OsI386.MutexExclusion
import OsI386.IoQueue
import OsI386.IoQueueHistory
import OsI386.IoQueueWaiters
import OsI386.IoQueueDeadlock
import OsI386.Frames
import OsI386.FrameRuns
import OsI386.Memory
import OsI386.MemoryRuns
import OsI386.PageFrames
import OsI386.PageTables
import OsI386.MappingRuns
import OsI386.AddressSpace
import OsI386.MallocRuns
import OsI386.LoaderTables
import OsI386.MallocFailure
import OsI386.MutexHandover
import OsI386.PriorityOrder
import OsI386.Starvation
import OsI386.SyncSystem
import OsI386.SyncSections
import OsI386.IdleThread
import OsI386.ProgramLogic
import OsI386.CallEffects
import OsI386.ProcessEffects
import OsI386.TargetMalloc
import OsI386.Directories
import OsI386.OsRuns
import OsI386.EntryStores
import OsI386.DirectoryProtocol
import OsI386.DirectoryCalls
import OsI386.DirectorySharing
import OsI386.DirectoryRuns
import OsI386.FrameOwners
import OsI386.ProcessIsolation
import OsI386.Keyboard
import OsI386.KeyboardModifiers
import OsI386.Print
import OsI386.PoolLayout
import OsI386.KernelPages
import OsI386.ProcessDirectory
import OsI386.ProcessFailure
import OsI386.ContextSwitch
import OsI386.Syscall
import OsI386.ProcessStack
import OsI386.ThreadRunPreempted
import OsI386.Interference
import OsI386.SharedMaps
import OsI386.MemoryRaces
import OsI386.LoneCalls
import OsI386.PidTable
import OsI386.TimeSlices
import OsI386.SubRegisters
import OsI386.AddressRanges
import OsI386.PrintRoutines
import OsI386.PrintNumbers
import OsI386.PageWalk
import OsI386.TableFrames
import OsI386.InterruptFlag
import OsI386.InterruptSystem
import OsI386.MallocContents
import OsI386.ZeroedPages
import OsI386.CMemory
import OsI386.BitmapMemory
import OsI386.CStrings
import OsI386.Itoa
import OsI386.Lists
import OsI386.LoaderPaging
import OsI386.MappedMemory
import OsI386.LoaderKernel
import OsI386.PrintBuffer
import OsI386.Segments
import OsI386.Refinement
import OsI386.LinkedScheduler
import OsI386.DescriptorTables
import OsI386.InterruptTables
import OsI386.LinkedSchedulerRuns
import OsI386.TickAccounting
import OsI386.CriticalSections
import OsI386.Console
import OsI386.Typing
import OsI386.TypedCharacters
import OsI386.SystemCalls
import OsI386.AtaDrive
import OsI386.LoaderDisk
import OsI386.Boot
