import VoxiUtil.Limits
import VoxiUtil.Runs
import VoxiUtil.DoublyLinked
import VoxiUtil.Representatives
import VoxiUtil.Hash
import VoxiUtil.HashSet
import VoxiUtil.HashCursor
import VoxiUtil.HashCursorRecords
import VoxiUtil.HashCursorLists
import VoxiUtil.HashCursorRuns
import VoxiUtil.CString
import VoxiUtil.Stdio
import VoxiUtil.File
import VoxiUtil.Sock
import VoxiUtil.SockReader
import VoxiUtil.Err
import VoxiUtil.SockSend
import VoxiUtil.Strbuf
import VoxiUtil.StrbufCalls
import VoxiUtil.StrbufWrites
import VoxiUtil.StrbufQuoting
import VoxiUtil.TextRpc
import VoxiUtil.TextRpcLines
import VoxiUtil.TextRpcFraming
import VoxiUtil.TextRpcCalls
import VoxiUtil.TextRpcReplies
import VoxiUtil.TextRpcEndings
import VoxiUtil.TextRpcNegotiation
import VoxiUtil.TextRpcConnecting
import VoxiUtil.TextRpcDialog
import VoxiUtil.TextRpcServed
import VoxiUtil.ErrToString
import VoxiUtil.BlockHeap
import VoxiUtil.BlockLedger
import VoxiUtil.ErrCopy
import VoxiUtil.ErrLife
import VoxiUtil.Ring
import VoxiUtil.ByteQueueC
import VoxiUtil.ByteQueueFifo
import VoxiUtil.ByteQueueStreams
import VoxiUtil.ByteQueueThreads
import VoxiUtil.Tally
import VoxiUtil.Tickets
import VoxiUtil.SinglyLinked
import VoxiUtil.Queue
import VoxiUtil.QueueThreads
import VoxiUtil.Exclusion
import VoxiUtil.Threading
import VoxiUtil.ThreadingMoves
import VoxiUtil.ThreadingMutex
import VoxiUtil.ThreadPool
import VoxiUtil.ThreadPoolLists
import VoxiUtil.ThreadPoolJobs
import VoxiUtil.ThreadPoolStates
import VoxiUtil.ThreadPoolShutdown
import VoxiUtil.ThreadPoolBookkeeping
import VoxiUtil.SockServer
import VoxiUtil.ThreadPoolJoins
import VoxiUtil.HashTraversal
import VoxiUtil.WordMap
import VoxiUtil.WordMapDeletes
import VoxiUtil.WordMapFiles
import VoxiUtil.WordMapReaders
import VoxiUtil.WordMapRoundTrip
import VoxiUtil.WordMapStrings
import VoxiUtil.FreeList
import VoxiUtil.IdTable
import VoxiUtil.IdTableFiles
import VoxiUtil.Memory
import VoxiUtil.ThreadingCalls
import VoxiUtil.ThreadingDeadlines
import VoxiUtil.Vector
import VoxiUtil.VectorList
import VoxiUtil.VectorRuns
import VoxiUtil.VectorLife
import VoxiUtil.Path
import VoxiUtil.CircularBuffer
import VoxiUtil.CircularBufferFifo
import VoxiUtil.CircularBufferOwnership
import VoxiUtil.Blocks
import VoxiUtil.Bag
import VoxiUtil.BagMultiset
import VoxiUtil.SearchTree
import VoxiUtil.Bt
import VoxiUtil.BtShape
import VoxiUtil.BtTraversal
import VoxiUtil.BtAdds
import VoxiUtil.Event
import VoxiUtil.EventRing
import VoxiUtil.EventLife
import VoxiUtil.Timer
import VoxiUtil.TimerLists
import VoxiUtil.TimerQueue
import VoxiUtil.TimerEarly
import VoxiUtil.TimerSurvival
import VoxiUtil.TimerTick
import VoxiUtil.TimerRandom
import VoxiUtil.StateMachine
import VoxiUtil.StateMachineRuns
import VoxiUtil.StateMachineTeardown
import VoxiUtil.FileBuffer
import VoxiUtil.FileHex
import VoxiUtil.ErrText
import VoxiUtil.Shlib
import VoxiUtil.Drivers
import VoxiUtil.ShiftRegister
import VoxiUtil.Checksums
import VoxiUtil.Geometry
import VoxiUtil.GeometryRange
import VoxiUtil.Tcpip
import VoxiUtil.TanClient
import VoxiUtil.QueueCalls
import VoxiUtil.StrbufStringList
import VoxiUtil.TextRpcLifeCycle
import VoxiUtil.TextRpcExceptions
import VoxiUtil.License
import VoxiUtil.HashCursorPointers
import VoxiUtil.HashEnumeration
import VoxiUtil.Logging
import VoxiUtil.LoggingEntries
import VoxiUtil.LoggingPaths
import VoxiUtil.LoggingRotation
import VoxiUtil.LoggingRenames
import VoxiUtil.LoggingLines
import VoxiUtil.IdTablePlaces
import VoxiUtil.MemoryLocks
import VoxiUtil.BtRemoval
import VoxiUtil.BtLife
import VoxiUtil.BtDup
import VoxiUtil.BagAdds
import VoxiUtil.BagFilters
import VoxiUtil.BagAppend
import VoxiUtil.BagCrossProd
import VoxiUtil.BagCalls
import VoxiUtil.BagDuplicate
import VoxiUtil.EventListeners
import VoxiUtil.EventHandling
import VoxiUtil.EventDispatch
import VoxiUtil.IdTableBytes
import VoxiUtil.IdTableSlots
import VoxiUtil.IdTableWalk
import VoxiUtil.ChecksumBursts
import VoxiUtil.HashLife
import VoxiUtil.LoggingThreads
import VoxiUtil.LoggingStreams
import VoxiUtil.TimerSleep
import VoxiUtil.SockClient
import VoxiUtil.MemoryOverruns
