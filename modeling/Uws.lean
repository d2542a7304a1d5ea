import Uws.Library.PackedWord
import Uws.Library.Machine
import Uws.Library.Runs
import Uws.Library.LinkedList
import Uws.Library.ListWalks
import Uws.Library.Utf8
import Uws.Library.AddressTexts
import Uws.Library.Sha1
import Uws.Library.Base64
import Uws.Library.QueryStrings
import Uws.Library.TextSearch
import Uws.Library.WordScan
import Uws.Library.WordLanes
import Uws.Crypto.SniTree
import Uws.Crypto.SniLookup
import Uws.Crypto.SniMatching
import Uws.Crypto.ServerNames
import Uws.Sweep.SocketLists
import Uws.Sweep.ListInvariant
import Uws.Sweep.ListOperations
import Uws.Sweep.ListSteps
import Uws.Sweep.TimerSweep
import Uws.Sweep.SweepInvariant
import Uws.Sweep.SocketOwners
import Uws.Sweep.SweepRuns
import Uws.Sweep.SweepVisits
import Uws.Sweep.SocketTimers
import Uws.Sweep.TimerWheel
import Uws.Sweep.TimerDeadlines
import Uws.Connect.ConnectRequests
import Uws.Connect.RequestStages
import Uws.Connect.RequestSteps
import Uws.Connect.RequestCallbacks
import Uws.Connect.RequestContexts
import Uws.Connect.RequestRuns
import Uws.Connect.AttemptLogs
import Uws.Connect.AttemptRuns
import Uws.Client.ClientSlots
import Uws.Client.SlotStages
import Uws.Client.ClientRuns
import Uws.Client.ClientSteps
import Uws.Client.ClientQueue
import Uws.Client.ClientOutcomes
import Uws.PubSub.TopicTree
import Uws.PubSub.TopicMachine
import Uws.PubSub.TopicMembers
import Uws.PubSub.TopicMoves
import Uws.PubSub.TopicRuns
import Uws.PubSub.SubscriberWishes
import Uws.PubSub.DrainList
import Uws.PubSub.OpenFrames
import Uws.PubSub.KeptTopics
import Uws.PubSub.DeadPointers
import Uws.PubSub.SubscriberCounts
import Uws.Http.ChunkedEncoding
import Uws.Http.ChunkState
import Uws.Http.ChunkPhases
import Uws.Http.ChunkDecoding
import Uws.Http.ChunkFraming
import Uws.Http.ChunkRoundTrip
import Uws.Http.BloomFilter
import Uws.Http.ProxyParser
import Uws.Http.Headers
import Uws.Http.BodyCollection
import Uws.Http.HttpRouter
import Uws.Http.RouterTree
import Uws.Http.RouterRuns
import Uws.Http.RouteMatching
import Uws.Http.RouteIsolation
import Uws.Http.RouteOrder
import Uws.Http.RouteRemoval
import Uws.Http.RouteParameters
import Uws.Http.HeaderScan
import Uws.Http.ByteScanners
import Uws.Http.QueryParser
import Uws.Http.QueryLookups
import Uws.Http.Multipart
import Uws.Http.MultipartParts
import Uws.Http.MultipartViews
import Uws.Http.MultipartRoundTrip
import Uws.Http.HttpParser
import Uws.Http.TrailerFraming
import Uws.Http.HeaderFraming
import Uws.Http.HeaderChecks
import Uws.Http.StreamPhases
import Uws.Http.StreamDecoding
import Uws.Http.StreamReads
import Uws.Http.ProxyConnections
import Uws.Http.FixedBodies
import Uws.Socket.AddressText
import Uws.Socket.ByteStream
import Uws.Socket.Polling
import Uws.Socket.WritableRuns
import Uws.Socket.DeferQueues
import Uws.Http.HttpResponse
import Uws.Http.DeclarativeResponse
import Uws.Http.ResponseWriting
import Uws.Http.ResponseFraming
import Uws.Http.ResponseCalls
import Uws.Http.ResponseRuns
import Uws.Http.ResponseSlices
import Uws.Http.ResponseEnds
import Uws.Http.HandlerRules
import Uws.Http.HttpContext
import Uws.Http.ConnectionBytes
import Uws.Http.ConnectionRuns
import Uws.Http.BodyOwners
import Uws.WebSocket.WebSocketExtensions
import Uws.WebSocket.CompressionNegotiation
import Uws.WebSocket.WebSocketClientHandshake
import Uws.WebSocket.CompressionAcceptance
import Uws.WebSocket.WebSocketClientContext
import Uws.WebSocket.HandshakeReads
import Uws.WebSocket.WebSocketHandshake
import Uws.WebSocket.AcceptValues
import Uws.WebSocket.ClientApp
import Uws.WebSocket.UrlAuthority
import Uws.WebSocket.ExtensionWords
import Uws.WebSocket.ExtensionOffers
import Uws.WebSocket.ClearOffers
import Uws.WebSocket.UpgradeRequest
import Uws.WebSocket.Masking
import Uws.WebSocket.WebSocketContext
import Uws.WebSocket.WebSocketProtocol
import Uws.WebSocket.FragmentHandling
import Uws.WebSocket.FramePhases
import Uws.WebSocket.FrameParsing
import Uws.WebSocket.FrameReads
import Uws.WebSocket.UnmaskedReads
import Uws.WebSocket.PayloadBounds
import Uws.WebSocket.FrameCuts
import Uws.WebSocket.Frames
import Uws.WebSocket.FrameSequences
import Uws.WebSocket.FrameLegality
import Uws.WebSocket.CompressedFrames
import Uws.WebSocket.MessageFormat
import Uws.WebSocket.FrameRoundTrip
import Uws.WebSocket.Compression
import Uws.WebSocket.FragmentedSends
import Uws.WebSocket.ClosePayload
import Uws.WebSocket.Utf8Validation
