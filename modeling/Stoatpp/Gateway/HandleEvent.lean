import Stoatpp.Library.Process
import Stoatpp.Model.Events

/-!
# `gateway::handle_event`

What a frame makes the gateway do, up to the first exception of its own. A Bulk frame is
handled element by element in the thread of the frame, to any depth.
-/

namespace Stoatpp.Gateway
open Stoatpp.Library

inductive Action where
  | dispatch (e : Event)
  /-- the flag is set, a ping is sent and the heartbeat scheduled -/
  | authenticated
  | pong (data : Option Json)
  /-- the latency is set from the instant the server sent back -/
  | latency (sent : ℤ)

abbrev Handling := Outcome Unit Action

namespace Handling

def dispatch (e : Event) : Handling Unit := .emit [.dispatch e]

def ofOption {α : Type} : Option α → Handling α
  | some a => return a
  | none => .throw ()

end Handling

/-! ## Fields -/

def textOf (j : Json) (key : String) : String := (j.text? key).getD ""

def dataOf (j : Json) : Json := (j.get? "data").getD .null

def clearOf (j : Json) : List String :=
  (((j.get? "clear").bind Json.array?).getD []).filterMap Json.string?

def channelOf (j : Json) : String := (j.text? "channel_id" <|> j.text? "channel").getD ""

def serverOf (j : Json) : String :=
  (j.text? "id" <|> j.text? "server_id" <|> j.text? "server").getD ""

def listOf (j : Json) (key : String) : List Json := ((j.get? key).bind Json.array?).getD []

def updateOf (j : Json) : Events.Update where
  id := textOf j "id"
  data := dataOf j
  clear := clearOf j

/-- `if (j.contains(key)) field = j[key].get<std::string>();`, which throws for other values. -/
def mandatory (j : Json) (key : String) : Handling String :=
  match j.get? key with
  | none => return ""
  | some value => Handling.ofOption value.string?

/-! ## The events -/

def readyUser (self : User) (j : Json) : User :=
  match j.get? "user" with
  | some user => User.fromJson user
  | none =>
    if self.id = "" then self
    else (((listOf j "users").find? (ownId · = self.id)).map User.fromJson).getD self

def readyOf (self : User) (j : Json) : Option Events.Ready := do
  let servers ← (listOf j "servers").mapM Server.fromJson
  return {
    user := readyUser self j
    users := (listOf j "users").map User.fromJson
    servers := servers
    channels := (listOf j "channels").map Channel.fromJson
    members := (listOf j "members").map Member.fromJson
    emojis := (listOf j "emojis").map Emoji.fromJson }

def messageUpdateOf (j : Json) : Events.MessageUpdate where
  id := textOf j "id"
  channelId := channelOf j
  data := dataOf j

def messageDeleteOf (j : Json) : Events.MessageDelete where
  id := textOf j "id"
  channelId := channelOf j

def messageReactOf (j : Json) : Events.MessageReact where
  id := textOf j "id"
  channelId := channelOf j
  userId := textOf j "user_id"
  emojiId := textOf j "emoji_id"

def channelCreateOf (j : Json) : Events.ChannelCreate where
  channel := Channel.fromJson (((j.get? "channel").bind Json.object?).getD j)
  raw := j

def serverCreateOf (j : Json) : Option Events.ServerCreate :=
  (Server.fromJson (((j.get? "server").bind Json.object?).getD j)).map fun server =>
    { server := server, raw := j }

def serverMemberJoinOf (j : Json) : Events.ServerMemberJoin where
  serverId := textOf j "id"
  userId := textOf j "user"
  member := Member.fromJson ((j.get? "member").getD j)

def serverMemberUpdateOf (j : Json) : Events.ServerMemberUpdate where
  serverId := textOf ((j.get? "id").getD .null) "server"
  userId := textOf ((j.get? "id").getD .null) "user"
  data := dataOf j
  clear := clearOf j

def roleOf (j : Json) (roleId : String) : Option Role :=
  match j.get? "role" with
  | none => some {}
  | some role =>
    (if roleId = "" then some role else role.set? "id" (.str roleId)).map fun role =>
      let role := Role.fromJson role
      if role.id = "" ∧ roleId ≠ "" then { role with id := roleId } else role

def serverRoleCreateOf (j : Json) : Option Events.ServerRoleCreate :=
  (roleOf j (textOf j "role_id")).map fun role =>
    { serverId := serverOf j, roleId := textOf j "role_id", role := role }

def serverRoleUpdateOf (j : Json) : Events.ServerRoleUpdate where
  serverId := serverOf j
  roleId := textOf j "role_id"
  data := dataOf j
  clear := clearOf j

def userSettingsUpdateOf (j : Json) : Handling Events.UserSettingsUpdate := do
  let id ← mandatory j "id"
  let key ← mandatory j "key"
  return { id := id, key := key, value := (j.get? "value").getD .null }

def userPresenceUpdateOf (j : Json) : Handling Events.UserPresenceUpdate := do
  let id ← mandatory j "id"
  let status ← mandatory j "status"
  return { id := id, status := status, text := j.text? "text" }

def webhookUpdateOf (j : Json) : Handling Events.WebhookUpdate := do
  let channelId ← mandatory j "channel_id"
  let webhookId ← mandatory j "webhook_id"
  let type ← mandatory j "type"
  return { channelId := channelId, webhookId := webhookId, type := type }

def voiceStateUpdateOf (j : Json) : Handling Events.VoiceStateUpdate := do
  let channelId ← mandatory j "channel_id"
  let userId ← mandatory j "user_id"
  return {
    channelId := channelId
    userId := userId
    joined := ((j.get? "joined").bind Json.bool?).getD false }

/-! ## One frame -/

/-- A frame of the given type, other than a Bulk frame. -/
def handleTyped (self : User) (type : String) (j : Json) : Handling Unit :=
  match type with
  | "Authenticated" => .emit [.authenticated]
  | "Ping" => .emit [.pong (j.get? "data")]
  | "Pong" =>
    match (j.get? "data").bind Json.number? with
    | some sent => .emit [.latency sent]
    | none => return ()
  | "Error" => .dispatch (.error ((j.text? "error" <|> j.text? "error_id").getD ""))
  | "Ready" => do .dispatch (.ready (← Handling.ofOption (readyOf self j)))
  | "Message" => .dispatch (.message (Events.Message.fromJson j))
  | "MessageUpdate" => .dispatch (.messageUpdate (messageUpdateOf j))
  | "MessageDelete" => .dispatch (.messageDelete (messageDeleteOf j))
  | "MessageReact" => .dispatch (.messageReact (messageReactOf j))
  | "MessageUnreact" => .dispatch (.messageUnreact (messageReactOf j))
  | "ChannelCreate" => .dispatch (.channelCreate (channelCreateOf j))
  | "ChannelUpdate" => .dispatch (.channelUpdate (updateOf j))
  | "ChannelDelete" => .dispatch (.channelDelete (textOf j "id"))
  | "ServerCreate" => do .dispatch (.serverCreate (← Handling.ofOption (serverCreateOf j)))
  | "ServerUpdate" => .dispatch (.serverUpdate (updateOf j))
  | "ServerDelete" => .dispatch (.serverDelete (textOf j "id"))
  | "ServerMemberJoin" => .dispatch (.serverMemberJoin (serverMemberJoinOf j))
  | "ServerMemberLeave" => .dispatch (.serverMemberLeave (textOf j "id") (textOf j "user"))
  | "ServerMemberUpdate" => .dispatch (.serverMemberUpdate (serverMemberUpdateOf j))
  | "UserUpdate" => .dispatch (.userUpdate (updateOf j))
  | "ChannelStartTyping" => .dispatch (.channelStartTyping (textOf j "id") (textOf j "user"))
  | "ChannelStopTyping" => .dispatch (.channelStopTyping (textOf j "id") (textOf j "user"))
  | "ServerRoleCreate" => do
    .dispatch (.serverRoleCreate (← Handling.ofOption (serverRoleCreateOf j)))
  | "ServerRoleUpdate" => .dispatch (.serverRoleUpdate (serverRoleUpdateOf j))
  | "ServerRoleDelete" => .dispatch (.serverRoleDelete (serverOf j) (textOf j "role_id"))
  | "UserSettingsUpdate" => do .dispatch (.userSettingsUpdate (← userSettingsUpdateOf j))
  | "UserPresenceUpdate" => do .dispatch (.userPresenceUpdate (← userPresenceUpdateOf j))
  | "WebhookUpdate" => do .dispatch (.webhookUpdate (← webhookUpdateOf j))
  | "VoiceStateUpdate" => do .dispatch (.voiceStateUpdate (← voiceStateUpdateOf j))
  | _ => return ()

mutual

def handleEvent (self : User) : Json → Handling Unit
  | .obj fields =>
    match (Json.obj fields).text? "type" with
    | none => return ()
    | some type => do
      -- the raw handlers see every frame, also those inside a Bulk frame
      .dispatch (.raw type (.obj fields))
      if type = "Bulk" then handleV self fields else handleTyped self type (.obj fields)
  | _ => return ()

def handleV (self : User) : List (String × Json) → Handling Unit
  | [] => return ()
  | (key, value) :: rest => if key = "v" then handleArray self value else handleV self rest

def handleArray (self : User) : Json → Handling Unit
  | .arr items => handleAll self items
  | _ => return ()

def handleAll (self : User) : List Json → Handling Unit
  | [] => return ()
  | j :: rest => do
    handleEvent self j
    handleAll self rest

end

def frameType (j : Json) : String := (j.text? "type").getD ""

/-- Frames of these types the worker handles itself; all others go to a thread of their own. -/
def Inline (j : Json) : Prop := frameType j ∈ ["Ping", "Pong", "Authenticated", "Ready"]

instance (j : Json) : Decidable (Inline j) := inferInstanceAs (Decidable (_ ∈ _))

end Stoatpp.Gateway
