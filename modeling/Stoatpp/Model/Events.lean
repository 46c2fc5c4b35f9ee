import Stoatpp.Model.Entities

/-!
# Gateway events

The typed events the gateway makes of its frames, and the message event, which is also made
of the messages the REST interface returns.
-/

namespace Stoatpp

/-- The bytes of a string that comes out of a JSON document. -/
def bytes (s : String) : List UInt8 := s.toByteArray.data.toList

namespace Events

structure Ready where
  user : User := {}
  users : List User := []
  servers : List Server := []
  channels : List Channel := []
  members : List Member := []
  emojis : List Emoji := []

/-- `content` and `cmdPrefix` are byte strings: the preprocessor and the prefix resolver may put
anything into them. -/
structure Message where
  id : String := ""
  channelId : String := ""
  serverId : String := ""
  author : User := {}
  content : List UInt8 := []
  nonce : String := ""
  edited : Bool := false
  cmdPrefix : List UInt8 := []
  replies : List String := []
  mentions : List String := []
  attachments : List String := []
  raw : Json := .null

namespace Message

def serverOf (j : Json) : Option String :=
  j.text? "server" <|>
    ((((j.get? "member").bind Json.object?).bind (·.get? "_id")).bind Json.object?).bind
      (·.text? "server")

def authorOf (j : Json) : User :=
  match (j.get? "user").bind Json.object?, j.get? "author" with
  | some user, _ => User.fromJson user
  | none, some (.obj fields) => User.fromJson (.obj fields)
  | none, some (.str id) => { id := id }
  | none, _ => {}

def attachmentId : Json → Option String
  | .str s => some s
  | j => j.text? "id" <|> j.text? "_id"

def fromJson (j : Json) : Message where
  id := ownId j
  channelId := (j.text? "channel" <|> j.text? "channel_id").getD ""
  serverId := (serverOf j).getD ""
  author :=
    match ((j.get? "webhook").bind Json.object?).bind (·.text? "name") with
    | some name => { authorOf j with username := name }
    | none => authorOf j
  content := bytes ((j.text? "content").getD "")
  nonce := (j.text? "nonce").getD ""
  edited := ((j.get? "edited").bind Json.bool?).getD false
  replies := (((j.get? "replies").bind Json.array?).getD []).filterMap Json.string?
  mentions := (((j.get? "mentions").bind Json.array?).getD []).filterMap Json.string?
  attachments := (((j.get? "attachments").bind Json.array?).getD []).filterMap attachmentId
  raw := j

end Message

structure MessageUpdate where
  id : String
  channelId : String
  data : Json

structure MessageDelete where
  id : String
  channelId : String

structure MessageReact where
  id : String
  channelId : String
  userId : String
  emojiId : String

structure ChannelCreate where
  channel : Channel
  raw : Json

structure ServerCreate where
  server : Server
  raw : Json

structure Update where
  id : String
  data : Json
  clear : List String

structure ServerMemberJoin where
  serverId : String
  userId : String
  member : Member

structure ServerMemberUpdate where
  serverId : String
  userId : String
  data : Json
  clear : List String

structure ServerRoleCreate where
  serverId : String
  roleId : String
  role : Role

structure ServerRoleUpdate where
  serverId : String
  roleId : String
  data : Json
  clear : List String

structure UserSettingsUpdate where
  id : String
  key : String
  value : Json

structure UserPresenceUpdate where
  id : String
  status : String
  text : Option String

structure WebhookUpdate where
  channelId : String
  webhookId : String
  type : String

structure VoiceStateUpdate where
  channelId : String
  userId : String
  joined : Bool

end Events

inductive Event where
  | raw (type : String) (data : Json)
  | error (errorId : String)
  | ready (e : Events.Ready)
  | message (e : Events.Message)
  | messageUpdate (e : Events.MessageUpdate)
  | messageDelete (e : Events.MessageDelete)
  | messageReact (e : Events.MessageReact)
  | messageUnreact (e : Events.MessageReact)
  | channelCreate (e : Events.ChannelCreate)
  | channelUpdate (e : Events.Update)
  | channelDelete (id : String)
  | serverCreate (e : Events.ServerCreate)
  | serverUpdate (e : Events.Update)
  | serverDelete (id : String)
  | serverMemberJoin (e : Events.ServerMemberJoin)
  | serverMemberLeave (serverId userId : String)
  | serverMemberUpdate (e : Events.ServerMemberUpdate)
  | userUpdate (e : Events.Update)
  | channelStartTyping (channelId userId : String)
  | channelStopTyping (channelId userId : String)
  | serverRoleCreate (e : Events.ServerRoleCreate)
  | serverRoleUpdate (e : Events.ServerRoleUpdate)
  | serverRoleDelete (serverId roleId : String)
  | userSettingsUpdate (e : Events.UserSettingsUpdate)
  | userPresenceUpdate (e : Events.UserPresenceUpdate)
  | webhookUpdate (e : Events.WebhookUpdate)
  | voiceStateUpdate (e : Events.VoiceStateUpdate)

end Stoatpp
