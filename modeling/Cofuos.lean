import Cofuos.Lib.Align
import Cofuos.Lib.Bisect
import Cofuos.Lib.Escape
import Cofuos.Lib.Fault
import Cofuos.Lib.HashSet
import Cofuos.Lib.Intrusive
import Cofuos.Lib.Linked
import Cofuos.Lib.Logged
import Cofuos.Lib.Machine
import Cofuos.Lib.Refinement
import Cofuos.Lib.RingBuffer
import Cofuos.Lib.Tally
import Cofuos.Memory.PageTable
import Cofuos.Memory.Runs
import Cofuos.Memory.FreeList
import Cofuos.Memory.Reservation
import Cofuos.Memory.Integrity
import Cofuos.Memory.Vspace
import Cofuos.Memory.Space
import Cofuos.Memory.SpaceReserve
import Cofuos.Memory.SpaceRelease
import Cofuos.Memory.Granted
import Cofuos.Memory.Requests
import Cofuos.Memory.Placement
import Cofuos.Memory.PageMap
import Cofuos.Memory.Reachable
import Cofuos.Memory.Above
import Cofuos.Memory.Addresses
import Cofuos.Memory.KernelSpace
import Cofuos.Memory.Lifetime
import Cofuos.Memory.PhysicalMemory
import Cofuos.Memory.Bitmap
import Cofuos.Memory.Frames
import Cofuos.Disk.Cache
import Cofuos.Disk.Slots
import Cofuos.Disk.Moves
import Cofuos.Disk.SingleCopy
import Cofuos.Disk.Provenance
import Cofuos.Disk.FailedRequest
import Cofuos.Disk.Masks
import Cofuos.Disk.Transparent
import Cofuos.FileSystem.Fat
import Cofuos.FileSystem.Allocation
import Cofuos.FileSystem.FatChain
import Cofuos.FileSystem.ClusterChain
import Cofuos.FileSystem.ClusterCache
import Cofuos.FileSystem.FatSlots
import Cofuos.FileSystem.Expansion
import Cofuos.FileSystem.FileOffset
import Cofuos.FileSystem.Names
import Cofuos.FileSystem.Instances
import Cofuos.FileSystem.InstanceTable
import Cofuos.FileSystem.OneInstance
import Cofuos.FileSystem.FolderTree
import Cofuos.FileSystem.OpenPath
import Cofuos.FileSystem.FilePath
import Cofuos.FileSystem.Worker
import Cofuos.FileSystem.Completion
import Cofuos.FileSystem.ThreadPool
import Cofuos.FileSystem.Shutdown
import Cofuos.FileSystem.Writable
import Cofuos.Process.Waitable
import Cofuos.Process.Spawn
import Cofuos.Process.Collector
import Cofuos.Process.Scheduler
import Cofuos.Process.Places
import Cofuos.Process.Dispatch
import Cofuos.Process.OnePlace
import Cofuos.Process.ContextSwitch
import Cofuos.Process.FpuSwitch
import Cofuos.Process.HandleTable
import Cofuos.Process.FreeHandles
import Cofuos.Process.UserStack
import Cofuos.Process.LoadedImage
import Cofuos.Process.ImageBounds
import Cofuos.Util.HashSet
import Cofuos.Util.Iteration
import Cofuos.Util.BucketReads
import Cofuos.Util.BuddyHeap
import Cofuos.Util.BuddyGrowth
import Cofuos.Device.Timer
import Cofuos.Sync.Pipe
import Cofuos.Sync.Event
import Cofuos.Sync.PipeWait
import Cofuos.Sync.Semaphore
import Cofuos.Sync.RwLock
import Cofuos.Sync.SpinLock
import Cofuos.Memory.MapView
import Cofuos.Memory.MapFrames
import Cofuos.Sync.Polling
import Cofuos.Interface.Service
import Cofuos.Interface.CreateObject
import Cofuos.Interface.CreateProcess
import Cofuos.Interface.CreateThread
import Cofuos.Interface.Locks
import Cofuos.Interface.ObjectManager
import Cofuos.Interface.UserBuffer
import Cofuos.Interface.UserMemory
import Cofuos.Interface.UserFrames
import Cofuos.Interface.ProcessMemory
import Cofuos.FileSystem.ReadFile
import Cofuos.FileSystem.Records
import Cofuos.FileSystem.FolderReader
import Cofuos.FileSystem.Enumeration
import Cofuos.Disk.Pages
import Cofuos.FileSystem.FileSectors
import Cofuos.FileSystem.WriteFile
import Cofuos.FileSystem.Written
import Cofuos.FileSystem.Durable
import Cofuos.FileSystem.ShortWrite
import Cofuos.App.Stdio
import Cofuos.Boot.Sectors
import Cofuos.Boot.MakeBoot
import Cofuos.Boot.Volume
import Cofuos.Boot.Header
import Cofuos.Boot.RootDirectory
import Cofuos.FileSystem.DamagedChain
import Cofuos.FileSystem.UpdateRecord
import Cofuos.Sync.DebugOutput
import Cofuos.Device.Display
import Cofuos.Device.Acpi
import Cofuos.Device.Apic
import Cofuos.Lib.Calendar
import Cofuos.Device.Rtc
import Cofuos.Boot.ClusterTable
import Cofuos.Device.Ps2
import Cofuos.Boot.KernelStack
import Cofuos.App.Strings
import Cofuos.App.CommandLine
import Cofuos.App.TextBuffer
import Cofuos.App.Malloc
import Cofuos.App.EndOfFile
import Cofuos.Exception.DebugFraming
import Cofuos.Exception.DebugPackets
import Cofuos.Exception.Breakpoints
import Cofuos.Util.MemoryRoutines
import Cofuos.App.Printf
import Cofuos.Boot.KernelSections
import Cofuos.Memory.Construction
import Cofuos.Util.LinkedList
import Cofuos.Util.ListContents
import Cofuos.Util.ListRuns
import Cofuos.Util.LargestBlock
import Cofuos.FileSystem.Letters
import Cofuos.FileSystem.NameLookup
