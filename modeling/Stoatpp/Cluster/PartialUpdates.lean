import Stoatpp.Cluster.CacheRuns
import Stoatpp.Cluster.MessageListener

/-!
# Partial updates of channels, members and users

The gateway dispatches ChannelUpdate, ServerMemberUpdate and UserUpdate, and no listener of the
client takes them up. What the cache says afterwards is what it said before.
-/

namespace Stoatpp.Cluster
open Stoatpp.Library Stoatpp.Gateway

/-! ## What an update gives -/

/-- If the data gives the field with the right type, the value is the one that is cached. -/
def Gives {α : Type} (given : Option α) (cached : α) : Prop := ∀ v, given = some v → cached = v

structure ChannelShows (data : Json) (ch : Channel) : Prop where
  channelType : Gives (data.text? "channel_type") ch.channelType
  server : Gives ((data.text? "server").map some) ch.server
  name : Gives ((data.text? "name").map some) ch.name
  description : Gives ((data.text? "description").map some) ch.description
  icon : Gives (((data.get? "icon").bind (fileId "id" "id")).map some) ch.icon
  nsfw : Gives ((data.get? "nsfw").bind Json.bool?) ch.nsfw
  defaultPermissions : Gives ((data.get? "default_permissions").map some) ch.defaultPermissions
  rolePermissions : Gives ((data.get? "role_permissions").map some) ch.rolePermissions

structure MemberShows (data : Json) (m : Member) : Prop where
  nickname : Gives ((data.text? "nickname").map some) m.nickname
  avatar : Gives (((data.get? "avatar").bind (fileId "id" "_id")).map some) m.avatar
  roles : Gives (((data.get? "roles").bind Json.array?).map (·.filterMap Json.string?)) m.roles
  joinedAt : Gives (data.text? "joined_at") m.joinedAt
  timeout : Gives ((data.text? "timeout").map some) m.timeout

structure UserShows (data : Json) (u : User) : Prop where
  username : Gives (data.text? "username") u.username
  discriminator : Gives (data.text? "discriminator") u.discriminator
  displayName : Gives ((data.text? "display_name").map some) u.displayName
  avatar : Gives (((data.get? "avatar").bind (fileId "id" "_id")).map some) u.avatar
  banner : Gives (((data.get? "profile").bind User.background).map some) u.banner
  bio : Gives (((data.get? "profile").bind (·.text? "content")).map some) u.bio
  statusText : Gives (((data.get? "status").bind (·.text? "text")).map some) u.statusText
  presence : Gives (((data.get? "status").bind (·.text? "presence")).map some) u.presence
  bot : Gives ((data.get? "bot").bind Json.bool?) u.bot
  botOwner : Gives ((((data.get? "bot").bind Json.object?).bind (·.text? "owner")).map some) u.botOwner
  botObject : Gives (((data.get? "bot").bind Json.object?).map fun _ => true) u.bot
  flags : Gives ((data.get? "flags").bind Json.int32?) u.flags

/-- The cached entity the event names, if there is one, shows what its data gives. -/
def Shows (c : Caches) : Event → Prop
  | .channelUpdate e => ∀ ch, c.getChannel e.id = some ch → ChannelShows e.data ch
  | .serverMemberUpdate e => ∀ m, c.getMember e.serverId e.userId = some m → MemberShows e.data m
  | .userUpdate e => ∀ u, c.getUser e.id = some u → UserShows e.data u
  | _ => True

/-! ## Events one at a time -/

/-- An event with the surroundings of a command it may lead to, and whether the other handlers
of the event return. -/
structure Incoming where
  event : Event
  env : Surroundings
  others : Bool

def deliver (u : Setup) (b : Bot) (t : Incoming) : Option Bot :=
  some (act u t.env t.others (.dispatch t.event) b).1

variable {u : Setup} {b : Bot} {t : Incoming}

theorem deliver_shows (b' : Bot) (h : deliver u b t = some b') :
    Shows b'.shared.caches t.event ↔ Shows b.shared.caches t.event := by
  obtain ⟨e, env, others⟩ := t
  obtain rfl := Option.some.inj h
  simp only [act, dispatch]
  split_ifs
  · exact Iff.rfl
  · cases e <;> exact Iff.rfl

/-- In a run of events one at a time every update shows in the cache behind it if and only if each
gives only values that are cached already. -/
theorem updates_shown_iff (u : Setup) (b : Bot) (turns : List Incoming) :
    Along (deliver u) (fun b t => ∀ b', deliver u b t = some b' → Shows b'.shared.caches t.event)
      b turns ↔ Along (deliver u) (fun b t => Shows b.shared.caches t.event) b turns := by
  refine along_congr (P := fun _ => True) (fun b t _ => ⟨fun h => ?_, fun h b' hb' => ?_⟩)
    (fun _ _ _ _ _ _ => trivial) trivial
  · exact (deliver_shows _ rfl).mp (h _ rfl)
  · exact (deliver_shows b' hb').mpr h

def renameFrame : Json := .obj [("data", .obj [("name", .str "new")]), ("id", .str "general"),
  ("type", .str "ChannelUpdate")]

def renamed : List Incoming :=
  (frameEvents {} createFrame ++ frameEvents {} renameFrame).map fun e =>
    { event := e, env := { now := 0, memberReply := none, later := {} }, others := true }

theorem rename_not_shown : ¬ ∀ (u : Setup) (b : Bot) (turns : List Incoming),
    Along (deliver u) (fun b t => ∀ b', deliver u b t = some b' → Shows b'.shared.caches t.event)
      b turns := by
  intro h
  obtain ⟨-, h⟩ := h {} (Bot.start {} []) renamed
  obtain ⟨-, h⟩ := h _ rfl
  obtain ⟨-, h⟩ := h _ rfl
  obtain ⟨hshows, -⟩ := h _ rfl
  have hname := (hshows _ rfl _ rfl).name (some "new") rfl
  cases hname

end Stoatpp.Cluster
