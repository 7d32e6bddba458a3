import Sysprog.AddressSpace
import Sysprog.AsciiLetters
import Sysprog.AsciiModel
import Sysprog.AsciiScan
import Sysprog.BitSlicedCounter
import Sysprog.BlockScan
import Sysprog.BuddyCanonical
import Sysprog.BuddyExhaustion
import Sysprog.BuddyFrames
import Sysprog.BuddyGrowth
import Sysprog.BuddyHeap
import Sysprog.BuddyHistory
import Sysprog.BuddyMemory
import Sysprog.BuddyModel
import Sysprog.BuddyOperations
import Sysprog.BuddyRequests
import Sysprog.BuddyRoundTrip
import Sysprog.BuddyTree
import Sysprog.ByteMemory
import Sysprog.CStrings
import Sysprog.CircularList
import Sysprog.ContentionFinish
import Sysprog.ContentionModel
import Sysprog.ContentionOrder
import Sysprog.ContentionProgress
import Sysprog.CoroutineDelivery
import Sysprog.CoroutineModel
import Sysprog.CountedLoop
import Sysprog.DeferMacros
import Sysprog.DescriptorTable
import Sysprog.DyadicBlocks
import Sysprog.EvDescriptors
import Sysprog.EvDispatch
import Sysprog.EvEntries
import Sysprog.EvModel
import Sysprog.EvOwnership
import Sysprog.EvWatch
import Sysprog.Execution
import Sysprog.FastDivision
import Sysprog.FuelLoop
import Sysprog.HeldCells
import Sysprog.HexString
import Sysprog.KvAccesses
import Sysprog.KvAttachHistory
import Sysprog.KvAttachModel
import Sysprog.KvCache
import Sysprog.KvClients
import Sysprog.KvHash
import Sysprog.KvHistory
import Sysprog.KvInterleavings
import Sysprog.KvKeys
import Sysprog.KvModel
import Sysprog.KvReads
import Sysprog.KvSession
import Sysprog.LinkedHeap
import Sysprog.ListHeadCalls
import Sysprog.ListHeadHistory
import Sysprog.ListHeadModel
import Sysprog.LockedSections
import Sysprog.LogDevice
import Sysprog.LogHistory
import Sysprog.LogShow
import Sysprog.MachineWord
import Sysprog.MirroredBuffer
import Sysprog.MmapAlloc
import Sysprog.MmapHistory
import Sysprog.MmapTests
import Sysprog.MutualExclusion
import Sysprog.PackedBytes
import Sysprog.PairedSweep
import Sysprog.PayloadLoader
import Sysprog.Potential
import Sysprog.ProxyBatch
import Sysprog.ProxyBuffers
import Sysprog.ProxyConnections
import Sysprog.ProxyExpiry
import Sysprog.ProxyFailures
import Sysprog.ProxyIndependence
import Sysprog.ProxyInvariant
import Sysprog.ProxyMemory
import Sysprog.ProxyModel
import Sysprog.ProxyPeers
import Sysprog.ProxyStream
import Sysprog.ProxyTransfers
import Sysprog.QueueAccesses
import Sysprog.QueueHistory
import Sysprog.QueueMapping
import Sysprog.QueueMirrors
import Sysprog.QueueModel
import Sysprog.QueueRoom
import Sysprog.QueueUnittest
import Sysprog.QueueWakeups
import Sysprog.ReferenceCounts
import Sysprog.ReleaseAcquire
import Sysprog.RingFamilies
import Sysprog.RingbufHistory
import Sysprog.RingbufLayout
import Sysprog.RingbufMaximum
import Sysprog.RingbufModel
import Sysprog.RingbufOrders
import Sysprog.RingbufRaces
import Sysprog.RingbufRelaxed
import Sysprog.RingbufRequests
import Sysprog.RingbufSizes
import Sysprog.RoundRobin
import Sysprog.RoundedReciprocal
import Sysprog.SelectionShuffle
import Sysprog.SingleNumber
import Sysprog.StringBuffer
import Sysprog.SwapPairsCalls
import Sysprog.SwapPairsHistory
import Sysprog.SwapPairsModel
import Sysprog.SwapPairsRewrite
import Sysprog.SwapPairsShuffle
import Sysprog.TaskHistory
import Sysprog.TaskModel
import Sysprog.TaskTurns
import Sysprog.XorChain
import Sysprog.XorListAccesses
import Sysprog.XorListCalls
import Sysprog.XorListHistory
import Sysprog.XorListInsertion
import Sysprog.XorListMerge
import Sysprog.XorListModel
import Sysprog.XorListSort
import Sysprog.XorListTests
import Sysprog.XsCalls
import Sysprog.XsCapacity
import Sysprog.XsConcat
import Sysprog.XsCounts
import Sysprog.XsGrowth
import Sysprog.XsLifetimes
import Sysprog.XsModel
import Sysprog.XsOperations
import Sysprog.XsOwnership
import Sysprog.XsSharing
import Sysprog.XsStrings
import Sysprog.XsTokenTexts
import Sysprog.XsTokenisation
import Sysprog.XsTokens
import Sysprog.XsTrimming
import Sysprog.XsUnion
import Sysprog.XvecCapacity
import Sysprog.XvecErase
import Sysprog.XvecModel
import Sysprog.XvecRefinement
import Sysprog.XvecReserve
