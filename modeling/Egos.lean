import Egos.Library.Program
import Egos.Library.Transition
import Egos.Block.Store
import Egos.Block.Fatdisk
import Egos.Block.Clockdisk
import Egos.Proofs.FatdiskView
import Egos.Proofs.FatdiskAlloc
import Egos.Library.Links
import Egos.Proofs.FatdiskOps
import Egos.Proofs.FatdiskFormat
import Egos.Proofs.FatdiskChains
import Egos.Proofs.FatdiskFiles
import Egos.Proofs.FatdiskRestart
import Egos.Library.Ensures
import Egos.Library.Tally
import Egos.Grass.Process
import Egos.Grass.Machine
import Egos.Proofs.GrassQueues
import Egos.Proofs.GrassMail
import Egos.Proofs.GrassWake
import Egos.Proofs.GrassSend
import Egos.Proofs.GrassDeath
import Egos.Proofs.GrassCalls
import Egos.Proofs.GrassYield
import Egos.Proofs.GrassRuns
import Egos.Grass.Paging
import Egos.Proofs.PagingClock
import Egos.Proofs.PagingMoves
import Egos.Proofs.PagingFrames
import Egos.Proofs.PagingRuns
import Egos.Proofs.PagingSerial
import Egos.Proofs.PagingBlocks
import Egos.Proofs.PagingCache
import Egos.Proofs.PagingContents
import Egos.Proofs.PagingCoherence
import Egos.Proofs.ClockdiskCache
import Egos.Apps.Threads
import Egos.Proofs.ThreadsQueues
import Egos.Proofs.ThreadsSema
import Egos.Grass.UserCopy
import Egos.Proofs.UserCopyRange
import Egos.Block.Treedisk
import Egos.Library.RefTree
import Egos.Library.Leaves
import Egos.Proofs.TreediskFree
import Egos.Proofs.TreediskLevels
import Egos.Proofs.TreediskTrees
import Egos.Proofs.TreediskGrow
import Egos.Proofs.TreediskOps
import Egos.Proofs.TreediskWrite
import Egos.Proofs.TreediskFormat
import Egos.Proofs.TreediskRuns
import Egos.Proofs.TreediskAborts
import Egos.Block.Tracedisk
import Egos.Proofs.TreediskFiles
import Egos.Proofs.TracediskContents
import Egos.Block.TreediskCheck
import Egos.Proofs.TreediskPasses
import Egos.Apps.Malloc
import Egos.Proofs.MallocCalls
import Egos.Proofs.MallocRuns
import Egos.Grass.FileServer
import Egos.Grass.Blkfile
import Egos.Grass.Ramfile
import Egos.Grass.FileClients
import Egos.Proofs.FileSenders
import Egos.Library.Chain
import Egos.P0.Queue
import Egos.Proofs.QueueLists
import Egos.Block.Raid1disk
import Egos.Proofs.Raid1diskMirrors
import Egos.Block.Partdisk
import Egos.Proofs.PartdiskIsolation
import Egos.Proofs.ThreadsPlaces
import Egos.Grass.Dirsvr
import Egos.Proofs.DirsvrMaps
import Egos.Proofs.PagingStock
import Egos.Proofs.GrassLives
import Egos.Proofs.GrassObserved
import Egos.Proofs.GrassPriorities
import Egos.Grass.Ttysvr
import Egos.Proofs.GrassKill
import Egos.Proofs.TtyLines
import Egos.Proofs.ClockdiskSweep
import Egos.Proofs.FatdiskLayout
import Egos.Proofs.FatdiskSearch
import Egos.Proofs.FatdiskTargets
import Egos.Block.FatdiskSteps
import Egos.Library.Faults
import Egos.Proofs.FatdiskSteps
import Egos.Proofs.FatdiskFaults
import Egos.Block.TreediskSteps
import Egos.Proofs.TreediskSteps
import Egos.Proofs.TreediskReformat
import Egos.Proofs.FatdiskReformat
import Egos.Proofs.TreediskLimits
import Egos.Library.Verdict
import Egos.Proofs.TreediskCheckBounds
import Egos.Proofs.TreediskCheckSound
import Egos.Grass.InodeStore
import Egos.Proofs.BlkfileBlocks
import Egos.Proofs.BlkfileContents
import Egos.Proofs.BlkfileStrings
import Egos.Library.Twins
import Egos.Proofs.BlkfileAccess
import Egos.Proofs.BlkfilePrivacy
import Egos.Block.Checkdisk
import Egos.Proofs.CheckdiskReads
import Egos.Proofs.Raid1diskBounds
import Egos.Grass.Suspend
import Egos.Proofs.GrassSuspend
import Egos.Proofs.GrassQuanta
import Egos.Grass.RamfileSession
import Egos.Proofs.RamfileContents
import Egos.Grass.Blocksvr
import Egos.Proofs.InodeTables
import Egos.Grass.BlockFailures
import Egos.Proofs.BlkfileCalls
import Egos.Proofs.BlkfileErrors
import Egos.Proofs.BlkfileOffsets
import Egos.Grass.BlkfileSession
import Egos.Proofs.BlkfileTruncation
import Egos.Proofs.BlkfileCreation
import Egos.Proofs.TtyQueues
import Egos.Apps.Shell
import Egos.Proofs.ShellWords
import Egos.Apps.Ed
import Egos.Proofs.EdLines
import Egos.Proofs.MallocBytes
import Egos.Apps.Pwdsvr
import Egos.Proofs.PwdsvrSplit
import Egos.Proofs.PwdsvrFile
import Egos.Grass.SpawnArgs
import Egos.Proofs.SpawnFrames
import Egos.Apps.Creation
import Egos.Proofs.CreationEntries
import Egos.Proofs.StringOrder
import Egos.Library.Places
import Egos.Shared.Queue
import Egos.Proofs.SharedQueueChains
import Egos.Earth.Myalloc
import Egos.Proofs.MyallocLists
import Egos.Proofs.MyallocRuns
import Egos.Apps.Stdlib
import Egos.Apps.Memchan
import Egos.Proofs.StdlibNumerals
import Egos.Proofs.MemchanNumbers
import Egos.Grass.Spawnsvr
import Egos.Proofs.SpawnStarts
import Egos.Library.Rpc
import Egos.Library.RpcFair
import Egos.Library.RpcProgress
import Egos.Grass.Servers
import Egos.Proofs.ServerAnswers
import Egos.Proofs.ServerEnds
import Egos.Proofs.ServerReplies
import Egos.Grass.Spawning
import Egos.Proofs.GrassAges
import Egos.Proofs.SpawnUids
import Egos.Proofs.GrassTurns
import Egos.Proofs.SpawnPids
import Egos.Proofs.SpawnWraps
import Egos.Library.Services
import Egos.Grass.Disksvr
import Egos.Proofs.DisksvrReplies
import Egos.Grass.BlockClient
import Egos.Block.Layers
import Egos.Block.Raid0disk
import Egos.Block.Cachedisk
import Egos.Proofs.BlockLayers
import Egos.Grass.BlockStack
import Egos.Proofs.BlockBytes
import Egos.Proofs.BlockServed
import Egos.Proofs.BlockVolume
import Egos.Proofs.BlockDisk
import Egos.Proofs.BlockInodes
import Egos.Proofs.BlockTrees
import Egos.Proofs.BlockFiles
import Egos.Proofs.BlkfileDisk
import Egos.Proofs.BlockPages
import Egos.Proofs.Raid0diskStripes
import Egos.Proofs.CachediskMisses
