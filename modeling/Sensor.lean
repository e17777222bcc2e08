import Sensor.Core.TransitionSystem
import Sensor.Core.LinkedChain
import Sensor.Core.ReadersWriterLock
import Sensor.Core.LockedObject
import Sensor.Core.Linearizability
import Sensor.Core.HeapForest
import Sensor.Core.Region
import Sensor.Core.BoundedFifo
import Sensor.Core.BucketMap
import Sensor.Core.Logged
import Sensor.Core.SharedOwnership
import Sensor.Queue.IntMpscQueue
import Sensor.Queue.IntMpscInvariant
import Sensor.Queue.IntMpscFifo
import Sensor.Queue.IntMpscPop
import Sensor.Queue.Eventcount
import Sensor.Queue.EventcountTokens
import Sensor.Queue.MessageQueue
import Sensor.Queue.MessageQueueDelivery
import Sensor.Queue.MpscQueue
import Sensor.Queue.MpscInvariant
import Sensor.Queue.MpscReclaim
import Sensor.Queue.MpscPipe
import Sensor.Service.AsyncQueue
import Sensor.Service.AsyncQueueDelivery
import Sensor.Service.AsyncQueueStop
import Sensor.Base.SizeT
import Sensor.Base.CircularBuffer
import Sensor.Base.CircularBufferFifo
import Sensor.Base.CircularBufferSafety
import Sensor.Base.CircularBufferRegions
import Sensor.Base.TsHashTable
import Sensor.Base.TsHashTableMemory
import Sensor.Base.TsHashTableMap
import Sensor.Base.TsHashTableWalks
import Sensor.Base.TsHashTableThreads
import Sensor.Reactor.Buffer
import Sensor.Reactor.StreamLink
import Sensor.Reactor.LinkFrame
import Sensor.Reactor.InboundStream
import Sensor.Reactor.WatchedLink
import Sensor.Reactor.OutboundStream
import Sensor.Service.SensorService
import Sensor.Service.ChannelOwnership
import Sensor.Core.ByteOrder
import Sensor.Net.ArpUtil
import Sensor.Net.Subnet
import Sensor.Net.Poluter
import Sensor.Net.PacketExtract
import Sensor.Service.ServiceStart
import Sensor.Service.SensorMain
import Sensor.Cmd.Future
import Sensor.Cmd.FutureHandover
import Sensor.Queue.SignaledQueue
import Sensor.Queue.SignaledQueueCounter
import Sensor.Base.InternetAddress
import Sensor.Core.SearchMap
import Sensor.Service.NegotiationModel
import Sensor.Frontend.Kvset
import Sensor.Frontend.KvsetLine
import Sensor.Frontend.KvsetLoad
import Sensor.Frontend.KvsetWrite
import Sensor.Frontend.Sensord
import Sensor.Reactor.LinkEnding
import Sensor.Reactor.LinkReports
import Sensor.Reactor.SocketMain
import Sensor.Reactor.SocketOwnership
import Sensor.Service.ServiceCallbacks
import Sensor.Net.PacketFrames
import Sensor.Net.ArpReply
import Sensor.Frontend.KvsetSection
import Sensor.Frontend.KvsetPieces
import Sensor.Frontend.KvsetStores
import Sensor.Frontend.KvsetComments
import Sensor.Frontend.KvsetKeyValue
import Sensor.Base.AddressLaws
import Sensor.Cmd.FutureTimed
import Sensor.Queue.SignaledQueueReceive
import Sensor.Base.UtilBuffer
import Sensor.Base.UtilBufferFrame
import Sensor.Net.RouteTable
import Sensor.Net.InterfaceAddress
import Sensor.Net.SocketUtils
import Sensor.Net.PgmSocket
import Sensor.Base.TsHashTableDestroy
import Sensor.Base.HandlePool
import Sensor.Core.Overwriting
import Sensor.Frontend.Arguments
import Sensor.Frontend.SensordMain
import Sensor.Core.XorShift
import Sensor.Base.SpreadHash
import Sensor.Core.DigitSums
import Sensor.Net.Bitcount
import Sensor.Net.HostOrder
import Sensor.Base.TsHashTableExpand
import Sensor.Service.AsyncQueueOrder
import Sensor.Service.AsyncRequest
import Sensor.Service.AsyncRequestAnswers
import Sensor.Service.SensorThreads
