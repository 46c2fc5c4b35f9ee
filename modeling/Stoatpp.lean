import Stoatpp.Library.Process
import Stoatpp.Voice.Reader
import Stoatpp.Voice.BinaryMessage
import Stoatpp.Voice.FieldWalk
import Stoatpp.Voice.ParserWalk
import Stoatpp.Cluster.Cache
import Stoatpp.Cluster.CacheWrites
import Stoatpp.Cluster.CommandGate
import Stoatpp.Cluster.Dispatcher
import Stoatpp.Cluster.EventThreads
import Stoatpp.Cluster.MemberRoles
import Stoatpp.Cluster.MessageListener
import Stoatpp.Cluster.Messaging
import Stoatpp.Gateway.Connection
import Stoatpp.Gateway.Disconnect
import Stoatpp.Gateway.Handshake
import Stoatpp.Rest.Spacing
import Stoatpp.Voice.ParserSafety
import Stoatpp.Rest.Attempts
import Stoatpp.Gateway.Dispatched
import Stoatpp.Cluster.CacheRuns
import Stoatpp.Cluster.PendingErasures
import Stoatpp.Cluster.ServerRemoval
import Stoatpp.Cluster.Resync
import Stoatpp.Cluster.ServerDocuments
import Stoatpp.Cluster.ServerRoles
import Stoatpp.Cluster.PartialUpdates
import Stoatpp.Cluster.UserCache
import Stoatpp.Cluster.Operations
import Stoatpp.Voice.Publishing
import Stoatpp.Voice.Sending
import Stoatpp.Gateway.Malformed
import Stoatpp.Gateway.Bulk
import Stoatpp.Rest.Targets
import Stoatpp.Cluster.Ignoring
import Stoatpp.Model.RoundTrip
import Stoatpp.Voice.ReadBack
import Stoatpp.Cluster.AwaitMessage
import Stoatpp.Cluster.CacheKeys
import Stoatpp.Cluster.Permissions
import Stoatpp.Cluster.Suggestions
import Stoatpp.Cluster.CommandText
import Stoatpp.Cluster.Ownership
import Stoatpp.Cluster.Cooldowns
import Stoatpp.Cluster.HelpPages
import Stoatpp.Cluster.TimerSpacing
import Stoatpp.Cluster.Paginator
import Stoatpp.Cluster.MemberFrames
import Stoatpp.Cluster.UserFetch
import Stoatpp.Library.RetryLoop
import Stoatpp.Rest.LimitHistory
import Stoatpp.Rest.Upload
import Stoatpp.Rest.RetryDelay
import Stoatpp.Rest.Reporting
import Stoatpp.Rest.Categories
import Stoatpp.Voice.Varints
import Stoatpp.Voice.Framing
import Stoatpp.Voice.IceServers
import Stoatpp.Rest.UrlEncode
import Stoatpp.Model.Ulid
import Stoatpp.Model.FileIds
import Stoatpp.Cluster.Disabled
import Stoatpp.Cluster.ServerResolution
import Stoatpp.Voice.SignalStream
import Stoatpp.Voice.Pacing
import Stoatpp.Voice.StopThread
import Stoatpp.Gateway.EventQueue
import Stoatpp.Cluster.EventHandlers
import Stoatpp.Rest.UploadFromUrl
import Stoatpp.Gateway.WatchdogTimes
import Stoatpp.Voice.ConnectWait
import Stoatpp.Cluster.SentBodies
import Stoatpp.Rest.Routes
import Stoatpp.Gateway.ThreadSlots
import Stoatpp.Cluster.RoleEdits
import Stoatpp.Rest.CategoryMoves
import Stoatpp.Cluster.TimerLoop
import Stoatpp.Voice.PulseStreams
import Stoatpp.Voice.Signalling
