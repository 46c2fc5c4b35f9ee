import Stoatpp.Cluster.EventThreads
import Stoatpp.Library.Listeners

/-!
# The handlers of an event

`event_dispatcher` keeps a vector of handlers for each kind of event. A dispatch copies the vector
under the mutex and calls the copies outside it. The constructor of the cluster registers its own
handlers before anybody else can, that of the default help among them unless it is turned off.
-/

namespace Stoatpp.Cluster
open Stoatpp.Library

inductive EventKind where
  | raw
  | error
  | logout
  | ready
  | message
  | messageUpdate
  | messageDelete
  | messageReact
  | messageUnreact
  | channelCreate
  | channelUpdate
  | channelDelete
  | serverCreate
  | serverUpdate
  | serverDelete
  | serverMemberJoin
  | serverMemberLeave
  | serverMemberUpdate
  | userUpdate
  | channelStartTyping
  | channelStopTyping
  | serverRoleCreate
  | serverRoleUpdate
  | serverRoleDelete
  | userSettingsUpdate
  | userPresenceUpdate
  | webhookUpdate
  | voiceStateUpdate
  deriving DecidableEq

/-- The listener of the default help, a cache listener, the message listener, the listener for edits,
or a handler of the user. -/
inductive Handler where
  | help
  | cache
  | messages
  | edits
  | user (n : ℕ)
  deriving DecidableEq

def setupDefaultHelp : List (EventKind × Handler) := [(.messageReact, .help)]

def setupMessageListener : List (EventKind × Handler) :=
  [(.message, .messages), (.messageUpdate, .edits)]

def setupCacheListeners : List (EventKind × Handler) :=
  [.serverMemberJoin, .serverMemberLeave, .ready, .channelCreate, .channelDelete, .serverCreate,
    .serverDelete, .serverUpdate, .serverRoleCreate, .serverRoleUpdate, .serverRoleDelete].map (·, .cache)

/-- What the constructor registers, in its order; `enable_default_help` is set unless the configuration
says otherwise. -/
def ownHandlers (enableDefaultHelp : Bool) : List (EventKind × Handler) :=
  (if enableDefaultHelp then setupDefaultHelp else []) ++ setupMessageListener ++ setupCacheListeners

abbrev DispatchTurn := DeskTurn EventKind Handler Event

def construct (enableDefaultHelp : Bool) : List DispatchTurn :=
  (ownHandlers enableDefaultHelp).map fun x => .register x.1 x.2

end Stoatpp.Cluster
