import KrFs.Kernel
import KrFs.Superblock
import KrFs.InodeTable
import KrFs.Inode
import KrFs.InodeCodec
import KrFs.Lib.SearchTree
import KrFs.Lib.Bitmap
import KrFs.Lib.PtrTree
import KrFs.Reservation
import KrFs.ReservationRun
import KrFs.Balloc
import KrFs.BlockOwner
import KrFs.NewBlocks
import KrFs.BlockMap
import KrFs.Truncate
import KrFs.FileTree
import KrFs.TruncateTree
import KrFs.TreeOwner
import KrFs.GetBlocks
import KrFs.Consistency
import KrFs.BlockBits
import KrFs.LogicalBlock
import KrFs.Groups
import KrFs.SystemZone
import KrFs.Reserve
import KrFs.RsvGoal
import KrFs.WindowBound
import KrFs.InodeNumbers
import KrFs.BranchSnapshot
import KrFs.NoSpace
import KrFs.NewBlocksEnd
import KrFs.TruncateMap
import KrFs.MaximalRun
import KrFs.AllocReservation
import KrFs.Lib.Gap
import KrFs.WindowSearch
import KrFs.Lib.Tries
import KrFs.GroupTry
import KrFs.FirstRun
import KrFs.NewBlocksFail
import KrFs.AllocCalls
import KrFs.LookUp
import KrFs.GetBlocksRace
import KrFs.GetBlocksMap
import KrFs.Lib.Flags
import KrFs.MatchToken
import KrFs.Options
import KrFs.SuperState
import KrFs.Lib.Bytes
import KrFs.Lib.Tiling
import KrFs.Lib.Slots
import KrFs.Dir
import KrFs.DirWalk
import KrFs.DirSafe
import KrFs.DirGrammar
import KrFs.DirFind
import KrFs.DirRecord
import KrFs.DirEmpty
import KrFs.DirMap
import KrFs.DirOps
import KrFs.Rename
import KrFs.RenameMap
import KrFs.Remount
import KrFs.Statfs
import KrFs.FindGroup
import KrFs.Ialloc
import KrFs.BitmapRefs
import KrFs.BlockPath
import KrFs.MaxSize
import KrFs.FreeRun
import KrFs.Lib.Interference
import KrFs.TryInterleaved
import KrFs.AddLinkWide
import KrFs.Setattr
import KrFs.Lib.Trace
import KrFs.Lib.ByteFile
import KrFs.QuotaFile
import KrFs.InodeCounts
import KrFs.EvictInode
import KrFs.Namei
import KrFs.Lib.Sweep
import KrFs.Readdir
import KrFs.DirGrowth
import KrFs.DataBlocks
import KrFs.Lib.KeyCount
import KrFs.DirEntries
import KrFs.Lib.LinkGraph
import KrFs.Lib.LinkTree
import KrFs.NameLinks
import KrFs.LinkCalls
import KrFs.LinkRename
import KrFs.LinkCount
import KrFs.Lib.Threads
import KrFs.BlockThreads
import KrFs.InodeThreads
import KrFs.WritePath
import KrFs.NamePaths
import KrFs.DirBlocks
import KrFs.FileHandles
import KrFs.InodeChanges
import KrFs.ChainRefs
