import DanWs.WireTypes
import DanWs.BigEndianBytes
import DanWs.BinaryFloat
import DanWs.DecimalRendering
import DanWs.Leb128
import DanWs.ScalarBytes
import DanWs.VarFloats
import DanWs.CompactDecimals
import DanWs.NearestValues
import DanWs.ShortDecimals
import DanWs.ValueSpacing
import DanWs.Serializer
import DanWs.SerializerRoundTrip
import DanWs.PathValidation
import DanWs.ZigzagIntegers
import DanWs.ByteStuffing
import DanWs.Codec
import DanWs.CodecRoundTrip
import DanWs.StreamParsing
import DanWs.StreamDelivery
import DanWs.StreamRecovery
import DanWs.ParserBounds
import DanWs.DecoderAgreement
import DanWs.CanonicalWire
import DanWs.Strings
import DanWs.FiniteMaps
import DanWs.InverseMaps
import DanWs.KeyPaths
import DanWs.FlatStates
import DanWs.TopicParsing
import DanWs.TopicOrder
import DanWs.ClientTopics
import DanWs.TopicSync
import DanWs.TopicPaths
import DanWs.TopicTables
import DanWs.TopicSyncRoundTrip
import DanWs.StepRuns
import DanWs.Principals
import DanWs.KeyFrameCache
import DanWs.Sessions
import DanWs.TopicAgreement
import DanWs.SessionStanding
import DanWs.Servers
import DanWs.ServerConditions
import DanWs.ServerMoves
import DanWs.ServerTurns
import DanWs.ServerSteps
import DanWs.ServerCalls
import DanWs.Registration
import DanWs.PrincipalIsolation
import DanWs.SeparateCloses
import DanWs.ConnectionLimits
import DanWs.IndexMembership
import DanWs.OutboundPaths
import DanWs.SessionReadiness
import DanWs.AuthorizationGate
import DanWs.ConnectionTeardown
import DanWs.FrameDispatch
import DanWs.Links
import DanWs.Allocations
import DanWs.Replicas
import DanWs.Clients
import DanWs.KeyStores
import DanWs.ClientStanding
import DanWs.WireRows
import DanWs.Replication
import DanWs.SessionRows
import DanWs.SessionCalls
import DanWs.SessionReplication
import DanWs.ClientProgress
import DanWs.SessionResync
import DanWs.PrincipalReplication
import DanWs.SteadySync
import DanWs.KeyRequests
import DanWs.Settlement
import DanWs.Handshakes
import DanWs.RequestedResync
import DanWs.KeyAcceptance
import DanWs.SessionAnswers
import DanWs.AcceptedRegistrations
import DanWs.ClientCalls
import DanWs.ClientLifecycle
import DanWs.ReconnectAgreement
import DanWs.ClientReception
import DanWs.CleanStarts
import DanWs.CallbackCalls
import DanWs.TornDownClients
import DanWs.SyncCompletion
import DanWs.Resubscription
import DanWs.LeftoverKeys
import DanWs.Reconvergence
import DanWs.RegistryCalls
import DanWs.ClientMaps
import DanWs.TopicRouting
import DanWs.TopicKeys
import DanWs.PendingValues
import DanWs.Unsubscription
import DanWs.HeartbeatRestarts
import DanWs.LiveHeartbeats
import DanWs.LostHeartbeats
import DanWs.ArrayShifts
import DanWs.TopicIndices
import DanWs.ResyncAnswers
import DanWs.TopicCallbacks
import DanWs.ReconnectThreads
import DanWs.TimerAttempts
import DanWs.Ratchets
import DanWs.ServerActions
import DanWs.EmptyAnswers
import DanWs.FixedWindows
import DanWs.CountedFrames
import DanWs.EntryCounts
import DanWs.ExactCounts
import DanWs.TypedValues
import DanWs.StateFamilies
import DanWs.SessionFamilies
import DanWs.RoutedHistories
import DanWs.SilentReferences
import DanWs.NumberReadback
import DanWs.ReceivedValues
import DanWs.ReceivedFrames
import DanWs.FanOut
import DanWs.ReceivedStores
import DanWs.ByteReaders
import DanWs.StockedStates
import DanWs.SessionStreams
import DanWs.EventActions
import DanWs.ConnectionOwners
import DanWs.PrincipalContents
import DanWs.Bystanders
import DanWs.PrincipalTraffic
import DanWs.ServedSessions
import DanWs.ServerStreams
import DanWs.UpdateLogs
import DanWs.ServedUpdates
import DanWs.SessionArrivals
import DanWs.ServedArrivals
import DanWs.TopicReads
import DanWs.GuardedRuns
