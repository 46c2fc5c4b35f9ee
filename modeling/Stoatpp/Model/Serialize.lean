import Stoatpp.Model.Entities

/-!
# `to_json`

The typed fields are written over the document a model was read from, in the order the source
assigns them; what is not there is not written. A document that is no object can throw.
-/

namespace Stoatpp

namespace Json

/-- `j[key] = value;` one by one, for the values that are there. -/
def overlay (j : Json) (fields : List (String × Option Json)) : Option Json :=
  fields.foldlM (fun j x => match x.2 with
    | some value => j.set? x.1 value
    | none => some j) j

/-- An object of the values that are there, if any is. -/
def present (fields : List (String × Option Json)) : Option Json :=
  match fields.filterMap fun x => x.2.map (x.1, ·) with
  | [] => none
  | fs => some (.obj fs)

def texts (items : List String) : Json := .arr (items.map .str)

end Json

open Json

def User.toJson (u : User) : Option Json :=
  u.raw.overlay [("id", some (.str u.id)), ("username", some (.str u.username)),
    ("discriminator", some (.str u.discriminator)), ("display_name", u.displayName.map .str),
    ("avatar", u.avatar.map .str),
    ("bot", some (if u.bot then .obj ((u.botOwner.map fun o => ("owner", Json.str o)).toList) else .null)),
    ("flags", some (.int u.flags)),
    ("profile", present [("background", u.banner.map .str), ("content", u.bio.map .str)]),
    ("status", present [("presence", u.presence.map .str), ("text", u.statusText.map .str)])]

def Member.toJson (m : Member) : Option Json :=
  m.raw.overlay [("user_id", some (.str m.id)), ("server_id", some (.str m.serverId)),
    ("nickname", m.nickname.map .str), ("avatar", m.avatar.map .str), ("roles", some (texts m.roles)),
    ("joined_at", if m.joinedAt ≠ "" then some (.str m.joinedAt) else none),
    ("timeout", m.timeout.map .str)]

def Role.toJson (r : Role) : Option Json :=
  r.raw.overlay [("id", some (.str r.id)), ("name", some (.str r.name)), ("colour", r.colour.map .str),
    ("rank", some (.int r.rank)), ("permissions", some r.permissions)]

def Channel.toJson (c : Channel) : Option Json :=
  c.raw.overlay [("id", some (.str c.id)), ("channel_type", some (.str c.channelType)),
    ("server", c.server.map .str), ("name", c.name.map .str), ("description", c.description.map .str),
    ("icon", c.icon.map .str), ("nsfw", some (.bool c.nsfw)),
    ("default_permissions", c.defaultPermissions), ("role_permissions", c.rolePermissions)]

def Emoji.toJson (e : Emoji) : Option Json :=
  e.raw.overlay [("id", some (.str e.id)), ("name", some (.str e.name)),
    ("server_id", e.serverId.map .str), ("creator_id", some (.str e.creatorId)),
    ("animated", some (.bool e.animated))]

structure Webhook where
  id : String
  name : String
  channelId : String
  avatar : Option String
  token : Option String
  raw : Json

/-- The avatar of a webhook is read as a string only. -/
def Webhook.fromJson (j : Json) : Webhook where
  id := ownId j
  name := (j.text? "name").getD ""
  channelId := (j.text? "channel_id").getD ""
  avatar := j.text? "avatar"
  token := j.text? "token"
  raw := j

def Webhook.toJson (w : Webhook) : Option Json :=
  w.raw.overlay [("id", some (.str w.id)), ("name", some (.str w.name)),
    ("channel_id", some (.str w.channelId)), ("avatar", w.avatar.map .str), ("token", w.token.map .str)]

def Message.toJson (m : Message) : Option Json :=
  m.raw.overlay [("id", some (.str m.id)), ("channel", some (.str m.channel)),
    ("author", some (.str m.author)), ("content", m.content.map .str),
    ("edited_at", m.editedAt.map .str), ("mentions", some (texts m.mentions)),
    ("replies", some (texts m.replies)), ("embeds", some m.embeds),
    ("attachments", some m.attachments)]

/-- `roles_json[r.id] = r.to_json();` for one role after the other. -/
def Server.rolesToJson (roles : List Role) : Option Json :=
  roles.foldlM (fun j r => do j.set? r.id (← r.toJson)) (.obj [])

/-- The document with `roles_json` and the other fields over it. -/
def Server.withRoles (s : Server) (roles : Json) : Option Json :=
  s.raw.overlay [("id", some (.str s.id)), ("owner", some (.str s.owner)), ("name", some (.str s.name)),
    ("description", s.description.map .str), ("channels", some (texts s.channels)), ("roles", some roles),
    ("icon", s.icon.map .str), ("banner", s.banner.map .str), ("flags", some (.int s.flags))]

def Server.toJson (s : Server) : Option Json := do s.withRoles (← rolesToJson s.roles)

end Stoatpp
