import Mathlib.Data.Finmap
import Stoatpp.Model.Events

/-!
# The caches of the cluster

The tables the listeners keep and the accessors read. Each listener runs under
`cache_mutex_` and is one step. Servers, channels and members form the `Store`; the users a
Ready event brings are kept beside it.
-/

namespace Stoatpp.Cluster

abbrev Table (α : Type) := Finmap fun _ : String => α

structure Store where
  server : Table Server := ∅
  channel : Table Channel := ∅
  member : Table (Table Member) := ∅

structure Caches extends Store where
  user : Table User := ∅
  currentUser : User := {}

/-! ## Accessors -/

namespace Store

def getServer (c : Store) (id : String) : Option Server := c.server.lookup id

def getChannel (c : Store) (id : String) : Option Channel := c.channel.lookup id

def getMember (c : Store) (serverId userId : String) : Option Member :=
  (c.member.lookup serverId).bind (·.lookup userId)

def getMemberCountSync (c : Store) (serverId : String) : ℕ :=
  ((c.member.lookup serverId).map (·.keys.card)).getD 0

/-- The values of an unordered map, in whatever order. -/
def getServers (c : Store) : Multiset Server := c.server.entries.map Sigma.snd

def getChannels (c : Store) : Multiset Channel := c.channel.entries.map Sigma.snd

def getTotalMemberCount (c : Store) : ℕ := (c.member.entries.map fun kv => kv.2.keys.card).sum

/-! ## Writing one entry -/

def putServer (c : Store) (s : Server) : Store := { c with server := c.server.insert s.id s }

def putChannel (c : Store) (ch : Channel) : Store := { c with channel := c.channel.insert ch.id ch }

/-- `member_cache_[s]`, which makes an empty table where there is none. -/
def membersOf (c : Store) (serverId : String) : Table Member := (c.member.lookup serverId).getD ∅

def putMember (c : Store) (m : Member) : Store :=
  if m.serverId ≠ "" ∧ m.id ≠ "" then
    { c with member := c.member.insert m.serverId ((c.membersOf m.serverId).insert m.id m) }
  else c

def eraseMember (c : Store) (serverId userId : String) : Store :=
  if serverId ≠ "" ∧ userId ≠ "" then
    { c with member := c.member.insert serverId ((c.membersOf serverId).erase userId) }
  else c

/-! ## Partial updates -/

/-- `for (auto& [key, val] : data.items()) raw[key] = val;`, and whether it got through. -/
def setFields : List (String × Json) → Json → Json × Bool
  | [], raw => (raw, true)
  | (key, value) :: rest, raw =>
    match raw.set? key value with
    | some raw => setFields rest raw
    | none => (raw, false)

/-- `for (const auto& field : clear) raw.erase(field);`, and whether it got through. -/
def clearFields : List String → Json → Json × Bool
  | [], raw => (raw, true)
  | field :: rest, raw =>
    match raw.erase? field with
    | some raw => clearFields rest raw
    | none => (raw, false)

def updateRaw (data : Json) (clear : List String) (raw : Json) : Json × Bool :=
  match setFields data.items raw with
  | (raw, true) => clearFields clear raw
  | (raw, false) => (raw, false)

def updateServer (e : Events.Update) (s : Server) : Server × Bool :=
  let raw := updateRaw e.data e.clear s.raw
  ({ s with
      name := (e.data.text? "name").getD s.name
      owner := (e.data.text? "owner").getD s.owner
      raw := raw.1 }, raw.2)

def newRole (e : Events.ServerRoleCreate) : Role :=
  if e.role.id = "" ∧ e.roleId ≠ "" then { e.role with id := e.roleId } else e.role

/-- The first role with the id is replaced, or the new one comes last. -/
def addRole (e : Events.ServerRoleCreate) : List Role → List Role
  | [] => [newRole e]
  | r :: rest =>
    if r.id = (newRole e).id ∨ r.id ≠ "" ∧ r.id = e.roleId then newRole e :: rest
    else r :: addRole e rest

def updateRole (e : Events.ServerRoleUpdate) (r : Role) : Role × Bool :=
  let raw := updateRaw e.data e.clear r.raw
  ({ r with
      name := (e.data.text? "name").getD r.name
      colour := e.data.text? "colour" <|> r.colour
      rank := ((e.data.get? "rank").bind Json.int32?).getD r.rank
      permissions := (e.data.get? "permissions").getD r.permissions
      raw := raw.1 }, raw.2)

def updateRoles (e : Events.ServerRoleUpdate) : List Role → List Role × Bool
  | [] => ([], true)
  | r :: rest =>
    if r.id = e.roleId then ((updateRole e r).1 :: rest, (updateRole e r).2)
    else (r :: (updateRoles e rest).1, (updateRoles e rest).2)

/-- A change of a cached server; `false` stands for an exception on the way. -/
def modifyServer (c : Store) (id : String) (f : Server → Server × Bool) : Store × Bool :=
  match c.server.lookup id with
  | some s => ({ c with server := c.server.insert id (f s).1 }, (f s).2)
  | none => (c, true)

/-! ## The listeners -/

def onReady (e : Events.Ready) (c : Store) : Store :=
  let c := e.servers.foldl putServer c
  let c := e.channels.foldl putChannel c
  e.members.foldl putMember c

def listedChannels (raw : Json) : List Channel :=
  (((raw.get? "channels").bind Json.array?).getD []).map Channel.fromJson

def onServerCreate (e : Events.ServerCreate) (c : Store) : Store :=
  (listedChannels e.raw).foldl putChannel (c.putServer e.server)

def eraseServer (id : String) (c : Store) : Store := { c with server := c.server.erase id }

/-- What the listener of an event does to the store at once; a deleted server is erased later,
by a thread of its own. -/
def listen : Event → Store → Store × Bool
  | .serverMemberJoin e, c => (c.putMember e.member, true)
  | .serverMemberLeave serverId userId, c => (c.eraseMember serverId userId, true)
  | .ready e, c => (c.onReady e, true)
  | .channelCreate e, c => (c.putChannel e.channel, true)
  | .channelDelete id, c => ({ c with channel := c.channel.erase id }, true)
  | .serverCreate e, c => (c.onServerCreate e, true)
  | .serverUpdate e, c => c.modifyServer e.id (updateServer e)
  | .serverRoleCreate e, c =>
    c.modifyServer e.serverId fun s => ({ s with roles := addRole e s.roles }, true)
  | .serverRoleUpdate e, c =>
    c.modifyServer e.serverId fun s =>
      ({ s with roles := (updateRoles e s.roles).1 }, (updateRoles e s.roles).2)
  | .serverRoleDelete serverId roleId, c =>
    c.modifyServer serverId fun s => ({ s with roles := s.roles.filter (·.id ≠ roleId) }, true)
  | _, c => (c, true)

end Store

namespace Caches

def getUser (c : Caches) (id : String) : Option User := c.user.lookup id

def putUser (c : Caches) (u : User) : Caches := { c with user := c.user.insert u.id u }

/-- The users of a Ready event: the client itself, then all others that have an id. -/
def readyUsers (e : Events.Ready) (c : Caches) : Caches :=
  (e.users.filter (·.id ≠ "")).foldl putUser ({ c with currentUser := e.user }.putUser e.user)

def listen (e : Event) (c : Caches) : Caches × Bool :=
  let store := Store.listen e c.toStore
  match e with
  | .ready r => ({ readyUsers r c with toStore := store.1 }, store.2)
  | _ => ({ c with toStore := store.1 }, store.2)

end Caches

end Stoatpp.Cluster
