import Stoatpp.Model.Json

/-!
# The models and their `from_json`

Every field is read only if it is there with the right type and keeps its default otherwise.
The one parser that can throw is the one of servers, which sets the id inside each value of a
role object.
-/

namespace Stoatpp

/-- The id of an Autumn file, given as a string or as an object with one of two keys. -/
def fileId (key other : String) : Json → Option String
  | .str s => some s
  | j => j.text? key <|> j.text? other

/-- `id`, or `_id` where there is no string `id`. -/
def ownId (j : Json) : String := (j.text? "id" <|> j.text? "_id").getD ""

def Json.int32? (j : Json) : Option ℤ := j.number?.map Stoatpp.int32

structure User where
  id : String := ""
  username : String := ""
  discriminator : String := ""
  displayName : Option String := none
  avatar : Option String := none
  banner : Option String := none
  bio : Option String := none
  statusText : Option String := none
  presence : Option String := none
  bot : Bool := false
  botOwner : Option String := none
  flags : ℤ := 0
  raw : Json := .null

namespace User

/-- A string background is taken as it stands, an object for its id. -/
def background (profile : Json) : Option String := (profile.get? "background").bind (fileId "id" "_id")

def fromJson (j : Json) : User :=
  let profile := ((j.get? "profile").bind Json.object?).getD .null
  let status := ((j.get? "status").bind Json.object?).getD .null
  { id := ownId j
    username := (j.text? "username").getD ""
    discriminator := (j.text? "discriminator").getD ""
    displayName := j.text? "display_name"
    avatar := (j.get? "avatar").bind (fileId "id" "_id")
    banner := background profile
    bio := profile.text? "content"
    statusText := status.text? "text"
    presence := status.text? "presence"
    bot := match j.get? "bot" with
      | some (.obj _) => true
      | some (.bool b) => b
      | _ => false
    botOwner := ((j.get? "bot").bind Json.object?).bind (·.text? "owner")
    flags := ((j.get? "flags").bind Json.int32?).getD 0
    raw := j }

end User

structure Role where
  id : String := ""
  name : String := ""
  colour : Option String := none
  rank : ℤ := 0
  permissions : Json := .null
  raw : Json := .null

namespace Role

def fromJson (j : Json) : Role where
  id := ownId j
  name := (j.text? "name").getD ""
  colour := j.text? "colour"
  rank := ((j.get? "rank").bind Json.int32?).getD 0
  permissions := (j.get? "permissions").getD .null
  raw := j

def mask? (j : Json) (key : String) : Option (BitVec 64) :=
  ((j.get? key).bind Json.number?).map (BitVec.ofInt 64)

def allowedPermissions (r : Role) : BitVec 64 :=
  match r.permissions.number? with
  | some n => BitVec.ofInt 64 n
  | none => (mask? r.permissions "a" <|> mask? r.permissions "allow" <|>
      mask? r.permissions "server").getD 0

end Role

structure Member where
  id : String := ""
  serverId : String := ""
  nickname : Option String := none
  avatar : Option String := none
  roles : List String := []
  joinedAt : String := ""
  timeout : Option String := none
  raw : Json := .null

namespace Member

/-- The identifier the member object carries, before `user_id` and `server_id` are looked at. -/
def key (j : Json) : Json := ((j.get? "id") <|> (j.get? "_id")).getD .null

def keyUser : Json → String
  | .str s => s
  | k => (k.text? "user").getD ""

def fromJson (j : Json) : Member where
  id := (j.text? "user_id").getD (keyUser (key j))
  serverId := (j.text? "server_id").getD (((key j).text? "server").getD "")
  nickname := j.text? "nickname"
  avatar := (j.get? "avatar").bind (fileId "id" "_id")
  roles := (((j.get? "roles").bind Json.array?).getD []).filterMap Json.string?
  joinedAt := (j.text? "joined_at").getD ""
  timeout := j.text? "timeout"
  raw := j

end Member

structure Server where
  id : String
  owner : String
  name : String
  description : Option String
  channels : List String
  roles : List Role
  icon : Option String
  banner : Option String
  flags : ℤ
  raw : Json

namespace Server

/-- The roles of a server document; `none` when a value of a role object is neither an object
nor null. -/
def rolesFromJson : Json → Option (List Role)
  | .arr items => some (items.map Role.fromJson)
  | .obj fields =>
    fields.mapM fun x => (x.2.set? "id" (.str x.1)).map Role.fromJson
  | _ => some []

def fromJson (j : Json) : Option Server := do
  let roles ← rolesFromJson ((j.get? "roles").getD .null)
  return {
    id := ownId j
    owner := (j.text? "owner").getD ""
    name := (j.text? "name").getD ""
    description := j.text? "description"
    channels := (((j.get? "channels").bind Json.array?).getD []).filterMap Json.string?
    roles := roles
    icon := (j.get? "icon").bind (fileId "_id" "id")
    banner := (j.get? "banner").bind (fileId "_id" "id")
    flags := ((j.get? "flags").bind Json.int32?).getD 0
    raw := j }

end Server

structure Channel where
  id : String
  channelType : String
  server : Option String
  name : Option String
  description : Option String
  icon : Option String
  nsfw : Bool
  defaultPermissions : Option Json
  rolePermissions : Option Json
  raw : Json

/-- The icon of a channel is looked up under `id` only. -/
def Channel.fromJson (j : Json) : Channel where
  id := ownId j
  channelType := (j.text? "channel_type").getD ""
  server := j.text? "server"
  name := j.text? "name"
  description := j.text? "description"
  icon := (j.get? "icon").bind (fileId "id" "id")
  nsfw := ((j.get? "nsfw").bind Json.bool?).getD false
  defaultPermissions := j.get? "default_permissions"
  rolePermissions := j.get? "role_permissions"
  raw := j

structure Emoji where
  id : String
  name : String
  serverId : Option String
  creatorId : String
  animated : Bool
  raw : Json

def Emoji.fromJson (j : Json) : Emoji where
  id := ownId j
  name := (j.text? "name").getD ""
  serverId := j.text? "server_id"
  creatorId := (j.text? "creator_id").getD ""
  animated := ((j.get? "animated").bind Json.bool?).getD false
  raw := j

/-- `models::Message`, the message a REST reply describes. -/
structure Message where
  id : String := ""
  channel : String := ""
  author : String := ""
  content : Option String := none
  editedAt : Option String := none
  mentions : List String := []
  replies : List String := []
  embeds : Json := .null
  attachments : Json := .null
  raw : Json := .null

def Message.fromJson (j : Json) : Message where
  id := ownId j
  channel := (j.text? "channel").getD ""
  author := (j.text? "author").getD ""
  content := j.text? "content"
  editedAt := j.text? "edited_at"
  mentions := (((j.get? "mentions").bind Json.array?).getD []).filterMap Json.string?
  replies := (((j.get? "replies").bind Json.array?).getD []).filterMap Json.string?
  embeds := (j.get? "embeds").getD (.arr [])
  attachments := (j.get? "attachments").getD (.arr [])
  raw := j

namespace MessagePayload

structure Reply where
  id : String
  mention : Bool

structure Masquerade where
  name : Option String
  avatar : Option String
  colour : Option String

structure Interactions where
  reactions : List String
  restrictReactions : Bool

end MessagePayload

structure MessagePayload where
  content : String
  nonce : Option String := none
  replies : List MessagePayload.Reply := []
  masquerade : Option MessagePayload.Masquerade := none
  embeds : List Json := []
  attachments : List String := []
  interactions : Option MessagePayload.Interactions := none
  deleteAfter : ℤ := 0

namespace MessagePayload

def object (fields : List (String × Option Json)) : Json :=
  .obj (fields.filterMap fun x => x.2.map (x.1, ·))

def texts (items : List String) : Json := .arr (items.map .str)

def nonempty (items : List Json) : Option Json := if items = [] then none else some (.arr items)

/-- Embeds without a text in any of these fields are not sent. -/
def hasContent (embed : Json) : Bool :=
  ["title", "description", "media", "image", "url", "icon_url"].any fun key =>
    match embed.text? key with
    | some s => s ≠ ""
    | none => false

def Reply.toJson (r : Reply) : Json := .obj [("id", .str r.id), ("mention", .bool r.mention)]

def Masquerade.toJson (m : Masquerade) : Json :=
  object [("avatar", m.avatar.map .str), ("colour", m.colour.map .str), ("name", m.name.map .str)]

def Interactions.toJson (i : Interactions) : Json :=
  object [("reactions", if i.reactions = [] then none else some (texts i.reactions)),
    ("restrict_reactions", some (.bool i.restrictReactions))]

def toJson (p : MessagePayload) : Json :=
  object [("attachments", if p.attachments = [] then none else some (texts p.attachments)),
    ("content", if p.content = "" then none else some (.str p.content)),
    ("embeds", nonempty (p.embeds.filter hasContent)),
    ("interactions", p.interactions.map Interactions.toJson),
    ("masquerade", p.masquerade.map Masquerade.toJson),
    ("nonce", p.nonce.map .str),
    ("replies", nonempty (p.replies.map Reply.toJson))]

end MessagePayload

end Stoatpp
