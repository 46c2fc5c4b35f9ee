import Stoatpp.Library.Template
import Stoatpp.Rest.Targets

/-!
# The requests of the helpers

Each helper of the client has a method and a path with holes for its arguments. The request tells
which helper made it and with which arguments, apart from a few arguments that spell a word which
another helper has in the same place.
-/

namespace Stoatpp.Rest
open Stoatpp.Library

inductive Verb where
  | get
  | post
  | patch
  | put
  | del
  deriving DecidableEq

/-- An argument is written as it is or through `url_encode`. -/
inductive Hole where
  | plain
  | encoded
  deriving DecidableEq

def Hole.write : Hole → Bytes → Bytes
  | plain, a => a
  | encoded, a => urlEncode a

abbrev Segment := Slot String Hole

instance : Coe String Segment := ⟨.word⟩

structure Route where
  verb : Verb
  path : List Segment

inductive Endpoint where
  | getNodeInfo | getStats | getGateway | createReport | createWebhook | getChannelWebhooks | deleteWebhook
  | executeWebhook | getAttachmentMetadata | getUserSettings | updateUserSettings | getUnreadChannels
  | getMessages | getMessage | searchMessages | deleteMessagesBulk | removeReaction | getPinnedMessages
  | pinMessage | unpinMessage | createServer | editServer | leaveServer | getServerInvites | getServerBans
  | banUser | unbanUser | getServerMembers | editMember | kickMember | createRole | editRole | deleteRole
  | getServerChannels | createChannel | editChannel | deleteChannel | getChannelInvites | createChannelInvite
  | getChannelPermissions | setChannelPermission | deleteChannelPermission | addGroupRecipient
  | removeGroupRecipient | getUserProfile | getMutualFriendsAndServers | editCurrentUser | getRelationships
  | setRelationship | deleteRelationship | createCustomEmoji | getCustomEmoji | deleteCustomEmoji
  | loginSession | logoutSession | getAllSessions | deleteSession | createAccount | verifyAccount
  | resetPassword | deleteAccount | verifyTotp | useMfaTicket | getActiveDms | openDm | getVoiceCallInfo
  | createBot | getBot | editBot | deleteBot | inviteBot | getWebhook | editWebhook | clearReactions
  | acknowledgeMessage | acknowledgeChannel | getServer | getServerMember | getServerEmojis | getChannel
  | getUser | getUserDefaultAvatar | resetPasswordApply | changePassword | changeEmail | deleteAllSessions
  | getMfaMethods | getMfaRecoveryCodes | regenerateMfaRecoveryCodes | getInvite | acceptInvite
  | getOnboardingStatus | completeOnboarding | executeWebhookWithToken | getWebhookWithToken
  | editWebhookWithToken | deleteWebhookWithToken | editWebhookMessage | deleteWebhookMessage
  | executeGithubWebhook | addReaction | setChannelDefaultPermission | getUserFlags | changeUsername
  | createGroup | getGroupMembers | joinVoiceCall | endVoiceRing | getOwnedBots | getBotInviteInfo
  | createMessage | editMessage | deleteMessage | editRoleRanks | searchUsers
  deriving DecidableEq

namespace Endpoint

def arg : Segment := .hole .plain

def encoded : Segment := .hole .encoded

def route : Endpoint → Route
  | getNodeInfo => ⟨.get, [""]⟩
  | getStats => ⟨.get, ["stats"]⟩
  | getGateway => ⟨.get, ["gateway"]⟩
  | createReport => ⟨.post, ["safety", "report"]⟩
  | createWebhook => ⟨.post, ["channels", arg, "webhooks"]⟩
  | getChannelWebhooks => ⟨.get, ["channels", arg, "webhooks"]⟩
  | deleteWebhook => ⟨.del, ["webhooks", arg]⟩
  | executeWebhook => ⟨.post, ["webhooks", arg, arg]⟩
  | getAttachmentMetadata => ⟨.get, ["attachments", arg]⟩
  | getUserSettings => ⟨.get, ["sync", "settings"]⟩
  | updateUserSettings => ⟨.post, ["sync", "settings"]⟩
  | getUnreadChannels => ⟨.get, ["sync", "unreads"]⟩
  | getMessages => ⟨.get, ["channels", arg, "messages"]⟩
  | getMessage => ⟨.get, ["channels", arg, "messages", arg]⟩
  | searchMessages => ⟨.post, ["channels", arg, "search"]⟩
  | deleteMessagesBulk => ⟨.del, ["channels", arg, "messages", "bulk"]⟩
  | removeReaction => ⟨.del, ["channels", arg, "messages", arg, "reactions", encoded]⟩
  | getPinnedMessages => ⟨.get, ["channels", arg, "pins"]⟩
  | pinMessage => ⟨.post, ["channels", arg, "messages", arg, "pin"]⟩
  | unpinMessage => ⟨.del, ["channels", arg, "messages", arg, "pin"]⟩
  | createServer => ⟨.post, ["servers"]⟩
  | editServer => ⟨.patch, ["servers", arg]⟩
  | leaveServer => ⟨.del, ["servers", arg]⟩
  | getServerInvites => ⟨.get, ["servers", arg, "invites"]⟩
  | getServerBans => ⟨.get, ["servers", arg, "bans"]⟩
  | banUser => ⟨.put, ["servers", arg, "bans", arg]⟩
  | unbanUser => ⟨.del, ["servers", arg, "bans", arg]⟩
  | getServerMembers => ⟨.get, ["servers", arg, "members"]⟩
  | editMember => ⟨.patch, ["servers", arg, "members", arg]⟩
  | kickMember => ⟨.del, ["servers", arg, "members", arg]⟩
  | createRole => ⟨.post, ["servers", arg, "roles"]⟩
  | editRole => ⟨.patch, ["servers", arg, "roles", arg]⟩
  | deleteRole => ⟨.del, ["servers", arg, "roles", arg]⟩
  | getServerChannels => ⟨.get, ["servers", arg, "channels"]⟩
  | createChannel => ⟨.post, ["servers", arg, "channels"]⟩
  | editChannel => ⟨.patch, ["channels", arg]⟩
  | deleteChannel => ⟨.del, ["channels", arg]⟩
  | getChannelInvites => ⟨.get, ["channels", arg, "invites"]⟩
  | createChannelInvite => ⟨.post, ["channels", arg, "invites"]⟩
  | getChannelPermissions => ⟨.get, ["channels", arg, "permissions"]⟩
  | setChannelPermission => ⟨.put, ["channels", arg, "permissions", arg]⟩
  | deleteChannelPermission => ⟨.del, ["channels", arg, "permissions", arg]⟩
  | addGroupRecipient => ⟨.put, ["channels", arg, "recipients", arg]⟩
  | removeGroupRecipient => ⟨.del, ["channels", arg, "recipients", arg]⟩
  | getUserProfile => ⟨.get, ["users", arg, "profile"]⟩
  | getMutualFriendsAndServers => ⟨.get, ["users", arg, "mutual"]⟩
  | editCurrentUser => ⟨.patch, ["users", "@me"]⟩
  | getRelationships => ⟨.get, ["users", "relationships"]⟩
  | setRelationship => ⟨.put, ["users", arg, "relationship"]⟩
  | deleteRelationship => ⟨.del, ["users", arg, "relationship"]⟩
  | createCustomEmoji => ⟨.put, ["custom", "emoji", arg]⟩
  | getCustomEmoji => ⟨.get, ["custom", "emoji", arg]⟩
  | deleteCustomEmoji => ⟨.del, ["custom", "emoji", arg]⟩
  | loginSession => ⟨.post, ["auth", "session", "login"]⟩
  | logoutSession => ⟨.post, ["auth", "session", "logout"]⟩
  | getAllSessions => ⟨.get, ["auth", "session", "all"]⟩
  | deleteSession => ⟨.del, ["auth", "session", arg]⟩
  | createAccount => ⟨.post, ["auth", "account", "create"]⟩
  | verifyAccount => ⟨.post, ["auth", "account", "verify"]⟩
  | resetPassword => ⟨.post, ["auth", "account", "password", "reset"]⟩
  | deleteAccount => ⟨.post, ["auth", "account", "delete"]⟩
  | verifyTotp => ⟨.post, ["auth", "mfa", "totp"]⟩
  | useMfaTicket => ⟨.post, ["auth", "mfa", "ticket"]⟩
  | getActiveDms => ⟨.get, ["users", "dms"]⟩
  | openDm => ⟨.get, ["users", arg, "dm"]⟩
  | getVoiceCallInfo => ⟨.get, ["channels", arg, "call"]⟩
  | createBot => ⟨.post, ["bots"]⟩
  | getBot => ⟨.get, ["bots", arg]⟩
  | editBot => ⟨.patch, ["bots", arg]⟩
  | deleteBot => ⟨.del, ["bots", arg]⟩
  | inviteBot => ⟨.post, ["bots", arg, "invite"]⟩
  | getWebhook => ⟨.get, ["webhooks", arg]⟩
  | editWebhook => ⟨.patch, ["webhooks", arg]⟩
  | clearReactions => ⟨.del, ["channels", arg, "messages", arg, "reactions"]⟩
  | acknowledgeMessage => ⟨.put, ["channels", arg, "ack", arg]⟩
  | acknowledgeChannel => ⟨.put, ["channels", arg, "ack"]⟩
  | getServer => ⟨.get, ["servers", arg]⟩
  | getServerMember => ⟨.get, ["servers", arg, "members", arg]⟩
  | getServerEmojis => ⟨.get, ["servers", arg, "emojis"]⟩
  | getChannel => ⟨.get, ["channels", arg]⟩
  | getUser => ⟨.get, ["users", arg]⟩
  | getUserDefaultAvatar => ⟨.get, ["users", arg, "default_avatar"]⟩
  | resetPasswordApply => ⟨.patch, ["auth", "account", "reset_password"]⟩
  | changePassword => ⟨.patch, ["auth", "account", "change", "password"]⟩
  | changeEmail => ⟨.patch, ["auth", "account", "change", "email"]⟩
  | deleteAllSessions => ⟨.del, ["auth", "session", "all"]⟩
  | getMfaMethods => ⟨.get, ["auth", "mfa", "methods"]⟩
  | getMfaRecoveryCodes => ⟨.get, ["auth", "mfa", "recovery"]⟩
  | regenerateMfaRecoveryCodes => ⟨.post, ["auth", "mfa", "recovery"]⟩
  | getInvite => ⟨.get, ["invites", arg]⟩
  | acceptInvite => ⟨.post, ["invites", arg]⟩
  | getOnboardingStatus => ⟨.get, ["onboard", "hello"]⟩
  | completeOnboarding => ⟨.post, ["onboard", "complete"]⟩
  | executeWebhookWithToken => ⟨.post, ["webhooks", arg, arg]⟩
  | getWebhookWithToken => ⟨.get, ["webhooks", arg, arg]⟩
  | editWebhookWithToken => ⟨.patch, ["webhooks", arg, arg]⟩
  | deleteWebhookWithToken => ⟨.del, ["webhooks", arg, arg]⟩
  | editWebhookMessage => ⟨.patch, ["webhooks", arg, arg, arg]⟩
  | deleteWebhookMessage => ⟨.del, ["webhooks", arg, arg, arg]⟩
  | executeGithubWebhook => ⟨.post, ["webhooks", arg, arg, "github"]⟩
  | addReaction => ⟨.put, ["channels", arg, "messages", arg, "reactions", encoded]⟩
  | setChannelDefaultPermission => ⟨.put, ["channels", arg, "permissions", "default"]⟩
  | getUserFlags => ⟨.get, ["users", arg, "flags"]⟩
  | changeUsername => ⟨.patch, ["users", "@me", "username"]⟩
  | createGroup => ⟨.post, ["channels", "create"]⟩
  | getGroupMembers => ⟨.get, ["channels", arg, "members"]⟩
  | joinVoiceCall => ⟨.post, ["channels", arg, "join_call"]⟩
  | endVoiceRing => ⟨.put, ["channels", arg, "end_ring", arg]⟩
  | getOwnedBots => ⟨.get, ["bots", "@me"]⟩
  | getBotInviteInfo => ⟨.get, ["bots", arg, "invite"]⟩
  | createMessage => ⟨.post, ["channels", arg, "messages"]⟩
  | editMessage => ⟨.patch, ["channels", arg, "messages", arg]⟩
  | deleteMessage => ⟨.del, ["channels", arg, "messages", arg]⟩
  | editRoleRanks => ⟨.patch, ["servers", arg, "roles", "ranks"]⟩
  | searchUsers => ⟨.get, ["users", "search"]⟩

def endpoints : List Endpoint := [
  .getNodeInfo, .getStats, .getGateway, .createReport, .createWebhook, .getChannelWebhooks, .deleteWebhook,
  .executeWebhook, .getAttachmentMetadata, .getUserSettings, .updateUserSettings, .getUnreadChannels,
  .getMessages, .getMessage, .searchMessages, .deleteMessagesBulk, .removeReaction, .getPinnedMessages,
  .pinMessage, .unpinMessage, .createServer, .editServer, .leaveServer, .getServerInvites, .getServerBans,
  .banUser, .unbanUser, .getServerMembers, .editMember, .kickMember, .createRole, .editRole, .deleteRole,
  .getServerChannels, .createChannel, .editChannel, .deleteChannel, .getChannelInvites, .createChannelInvite,
  .getChannelPermissions, .setChannelPermission, .deleteChannelPermission, .addGroupRecipient,
  .removeGroupRecipient, .getUserProfile, .getMutualFriendsAndServers, .editCurrentUser, .getRelationships,
  .setRelationship, .deleteRelationship, .createCustomEmoji, .getCustomEmoji, .deleteCustomEmoji, .loginSession,
  .logoutSession, .getAllSessions, .deleteSession, .createAccount, .verifyAccount, .resetPassword,
  .deleteAccount, .verifyTotp, .useMfaTicket, .getActiveDms, .openDm, .getVoiceCallInfo, .createBot, .getBot,
  .editBot, .deleteBot, .inviteBot, .getWebhook, .editWebhook, .clearReactions, .acknowledgeMessage,
  .acknowledgeChannel, .getServer, .getServerMember, .getServerEmojis, .getChannel, .getUser,
  .getUserDefaultAvatar, .resetPasswordApply, .changePassword, .changeEmail, .deleteAllSessions, .getMfaMethods,
  .getMfaRecoveryCodes, .regenerateMfaRecoveryCodes, .getInvite, .acceptInvite, .getOnboardingStatus,
  .completeOnboarding, .executeWebhookWithToken, .getWebhookWithToken, .editWebhookWithToken,
  .deleteWebhookWithToken, .editWebhookMessage, .deleteWebhookMessage, .executeGithubWebhook, .addReaction,
  .setChannelDefaultPermission, .getUserFlags, .changeUsername, .createGroup, .getGroupMembers, .joinVoiceCall,
  .endVoiceRing, .getOwnedBots, .getBotInviteInfo, .createMessage, .editMessage, .deleteMessage, .editRoleRanks,
  .searchUsers]

theorem mem_endpoints (e : Endpoint) : e ∈ endpoints := by
  cases e <;> decide

end Endpoint

/-! ## Calls -/

inductive Query where
  | none
  | messages (query : MessageQuery)
  | userId (userId : Option Bytes)
  | revokeSelf (revokeSelf : Bool)
  | search (query : Bytes)

/-- The helpers whose targets have a query. -/
def queried : List Endpoint := [.getMessages, .removeReaction, .deleteAllSessions, .searchUsers]

namespace Query

def text : Query → Bytes
  | none => []
  | messages query => query.toQueryString
  | userId id => (id.map (bytes "?user_id=" ++ ·)).getD []
  | revokeSelf revoke => bytes "?revoke_self=" ++ bytes (if revoke then "true" else "false")
  | search query => bytes "?query=" ++ urlEncode query

def Fits (e : Endpoint) : Query → Prop
  | none => e ∉ queried
  | messages _ => e = .getMessages
  | userId _ => e = .removeReaction
  | revokeSelf _ => e = .deleteAllSessions
  | search _ => e = .searchUsers

end Query

instance (e : Endpoint) (q : Query) : Decidable (q.Fits e) :=
  match q with
  | .none => inferInstanceAs (Decidable (_ ∉ _))
  | .messages _ => inferInstanceAs (Decidable (_ = _))
  | .userId _ => inferInstanceAs (Decidable (_ = _))
  | .revokeSelf _ => inferInstanceAs (Decidable (_ = _))
  | .search _ => inferInstanceAs (Decidable (_ = _))

structure HelperCall where
  endpoint : Endpoint
  arguments : List Bytes
  query : Query
  filled : arguments.length = (holes endpoint.route.path).length
  fits : query.Fits endpoint

def pathSegments (e : Endpoint) (arguments : List Bytes) : List Bytes :=
  fill bytes Hole.write e.route.path arguments

/-- The arguments that go into the path as they are. -/
def unencoded : List Segment → List Bytes → List Bytes
  | .word _ :: t, args => unencoded t args
  | .hole .plain :: t, arg :: args => arg :: unencoded t args
  | .hole .encoded :: t, _ :: args => unencoded t args
  | _, _ => []

/-- An argument that is a word in the place of which another helper has that word. -/
def captures : List (Endpoint × String × Endpoint) := [
  (.deleteMessage, "bulk", .deleteMessagesBulk), (.editRole, "ranks", .editRoleRanks),
  (.setChannelPermission, "default", .setChannelDefaultPermission),
  (.getUser, "relationships", .getRelationships), (.getUser, "dms", .getActiveDms), (.getBot, "@me", .getOwnedBots)]

/-- The helper that a request is read as: `execute_webhook_with_token` is `execute_webhook` again. -/
def readAs (e : Endpoint) (arguments : List Bytes) : Endpoint × List Bytes :=
  if e = .executeWebhookWithToken then (.executeWebhook, arguments)
  else
    match captures.find? fun x => x.1 = e ∧ arguments.getLast? = some (bytes x.2.1) with
    | some x => (x.2.2, arguments.dropLast)
    | none => (e, arguments)

namespace HelperCall

def target (c : HelperCall) : Bytes := (pathSegments c.endpoint c.arguments).flatMap (47 :: ·) ++ c.query.text

def request (c : HelperCall) : Verb × Bytes := (c.endpoint.route.verb, c.target)

/-- No slash and no question mark in an argument that is written as it is. -/
def Plain (c : HelperCall) : Prop := ∀ a ∈ unencoded c.endpoint.route.path c.arguments, 47 ∉ a ∧ 63 ∉ a

instance (c : HelperCall) : Decidable c.Plain := inferInstanceAs (Decidable (∀ a ∈ _, _))

end HelperCall

/-- The helpers of `Helper` are among these. -/
def Helper.call : Helper → HelperCall
  | kickMember serverId userId => ⟨.kickMember, [serverId, userId], .none, rfl, by decide⟩
  | banUser serverId userId => ⟨.banUser, [serverId, userId], .none, rfl, by decide⟩
  | editMember serverId userId => ⟨.editMember, [serverId, userId], .none, rfl, by decide⟩
  | deleteMessage channelId messageId => ⟨.deleteMessage, [channelId, messageId], .none, rfl, by decide⟩
  | editChannel channelId => ⟨.editChannel, [channelId], .none, rfl, by decide⟩
  | removeReaction channelId messageId emoji userId =>
    ⟨.removeReaction, [channelId, messageId, emoji], .userId userId, rfl, rfl⟩
  | getMessages channelId query => ⟨.getMessages, [channelId], .messages query, rfl, rfl⟩

theorem Helper.call_target (h : Helper) : h.call.target = h.target := by
  have hservers : bytes "/servers/" = 47 :: (bytes "servers" ++ [47]) := by decide
  have hmembers : bytes "/members/" = 47 :: (bytes "members" ++ [47]) := by decide
  have hbans : bytes "/bans/" = 47 :: (bytes "bans" ++ [47]) := by decide
  have hchannels : bytes "/channels/" = 47 :: (bytes "channels" ++ [47]) := by decide
  have hinside : bytes "/messages/" = 47 :: (bytes "messages" ++ [47]) := by decide
  have hmessages : bytes "/messages" = 47 :: bytes "messages" := by decide
  have hreactions : bytes "/reactions/" = 47 :: (bytes "reactions" ++ [47]) := by decide
  cases h with
  | removeReaction channelId messageId emoji userId =>
    cases userId <;> simp [call, HelperCall.target, pathSegments, Endpoint.route, Endpoint.arg, Endpoint.encoded,
      fill, Hole.write, Query.text, target, hchannels, hinside, hreactions]
  | _ =>
    simp [call, HelperCall.target, pathSegments, Endpoint.route, Endpoint.arg, fill, Hole.write, Query.text, target,
      hservers, hmembers, hbans, hchannels, hinside, hmessages]

/-! ## The parts of a target -/

theorem bytes_inj (v w : String) (h : bytes v = bytes w) : v = w :=
  String.toByteArray_inj.mp (ByteArray.ext (Array.toList_inj.mp h))

theorem urlEncode_inj {a b : Bytes} (h : urlEncode a = urlEncode b) : a = b := by
  rw [← percentDecode_urlEncode a, h, percentDecode_urlEncode]

theorem write_inj (k : Hole) (a b : Bytes) (h : k.write a = k.write b) : a = b := by
  cases k with
  | plain => exact h
  | encoded => exact urlEncode_inj h

def plainWord : Segment → Bool
  | .word w => !(bytes w).contains 47 && !(bytes w).contains 63
  | .hole _ => true

theorem plainWords : ∀ e ∈ Endpoint.endpoints, e.route.path.all plainWord = true := by decide +kernel

variable {t : List Segment} {args : List Bytes} {c d : HelperCall} {e f : Endpoint}

theorem fill_plain (hwords : t.all plainWord = true) (hargs : ∀ a ∈ unencoded t args, 47 ∉ a ∧ 63 ∉ a) :
    ∀ s ∈ fill bytes Hole.write t args, 47 ∉ s ∧ 63 ∉ s := by
  induction t generalizing args with
  | nil => exact List.forall_mem_nil _
  | cons s t ih =>
    rw [List.all_cons, Bool.and_eq_true] at hwords
    cases s with
    | word w =>
      have hword : 47 ∉ bytes w ∧ 63 ∉ bytes w := by simpa [plainWord] using hwords.1
      exact List.forall_mem_cons.mpr ⟨hword, ih hwords.2 hargs⟩
    | hole k =>
      cases args with
      | nil => exact List.forall_mem_nil _
      | cons a args =>
        cases k with
        | plain =>
          obtain ⟨ha, hrest⟩ := List.forall_mem_cons.mp hargs
          exact List.forall_mem_cons.mpr ⟨ha, ih hwords.2 hrest⟩
        | encoded =>
          have hencoded : 47 ∉ urlEncode a ∧ 63 ∉ urlEncode a :=
            ⟨(urlEncode_plain a).1, fun h => absurd ((urlEncode_plain a).2 63 h) (by decide)⟩
          exact List.forall_mem_cons.mpr ⟨hencoded, ih hwords.2 hargs⟩

theorem Query.text_head (q : Query) : ∀ c ∈ q.text.head?, c = 63 := by
  have huser : bytes "?user_id=" = 63 :: bytes "user_id=" := by decide
  have hrevoke : bytes "?revoke_self=" = 63 :: bytes "revoke_self=" := by decide
  have hsearch : bytes "?query=" = 63 :: bytes "query=" := by decide
  cases q with
  | none => simp [text]
  | messages query =>
    have htext : query.toQueryString = _ := addParameters query.values
    rw [text, htext]
    split_ifs
    · simp
    · simp
  | userId id => cases id <;> simp [text, huser]
  | revokeSelf revoke => simp [text, hrevoke]
  | search query => simp [text, hsearch]

theorem HelperCall.segments_plain (h : c.Plain) : ∀ s ∈ pathSegments c.endpoint c.arguments, 47 ∉ s ∧ 63 ∉ s :=
  fill_plain (plainWords c.endpoint (Endpoint.mem_endpoints c.endpoint)) h

theorem path_plain {segments : List Bytes} (h : ∀ s ∈ segments, 47 ∉ s ∧ 63 ∉ s) :
    63 ∉ segments.flatMap (47 :: ·) := by
  simp only [List.mem_flatMap, List.mem_cons, not_exists, not_and, not_or]
  exact fun s hs => ⟨by decide, (h s hs).2⟩

theorem target_inj (hc : c.Plain) (hd : d.Plain) : c.target = d.target ↔
    pathSegments c.endpoint c.arguments = pathSegments d.endpoint d.arguments ∧ c.query.text = d.query.text := by
  have hcs := HelperCall.segments_plain hc
  have hds := HelperCall.segments_plain hd
  constructor
  · intro h
    obtain ⟨hpath, hquery⟩ :=
      append_inj_of_cut (path_plain hcs) (path_plain hds) c.query.text_head d.query.text_head h
    exact ⟨flatMap_cons_inj (fun s hs => (hcs s hs).1) (fun s hs => (hds s hs).1) hpath, hquery⟩
  · rintro ⟨hpath, hquery⟩
    rw [HelperCall.target, HelperCall.target, hpath, hquery]

/-! ## The helper that is meant -/

/-- What `captures` says: the other helper has the word where this one ends in a hole. -/
theorem captured : ∀ x ∈ captures, x.1.route.verb = x.2.2.route.verb ∧
    x.1.route.path = x.1.route.path.dropLast ++ [.hole .plain] ∧
    x.2.2.route.path = x.1.route.path.dropLast ++ [.word x.2.1] := by
  decide +kernel

def Apart (e f : Endpoint) : Bool :=
  decide (e.route.verb ≠ f.route.verb) || !compatible e.route.path f.route.path

/-- The pairs of helpers that can make the same request. -/
def shared : List (Endpoint × Endpoint) :=
  captures.map (fun x => (x.1, x.2.2)) ++
    [(.executeWebhookWithToken, .executeWebhook), (.getUser, .searchUsers), (.deleteSession, .deleteAllSessions)]

theorem apart : ∀ e ∈ Endpoint.endpoints, ∀ f ∈ Endpoint.endpoints,
    Apart e f = true ∨ e = f ∨ (e, f) ∈ shared ∨ (f, e) ∈ shared := by
  decide +kernel

/-- No other helper has a word in the place of the last argument. -/
def Uncaptured (e : Endpoint) (args : List Bytes) : Prop :=
  e ≠ .executeWebhookWithToken ∧ ∀ x ∈ captures, x.1 = e → args.getLast? ≠ some (bytes x.2.1)

theorem readAs_cases (e : Endpoint) (args : List Bytes) :
    (e = .executeWebhookWithToken ∧ readAs e args = (.executeWebhook, args)) ∨
    (∃ x ∈ captures, ∃ init, x.1 = e ∧ args = init ++ [bytes x.2.1] ∧ readAs e args = (x.2.2, init)) ∨
    (Uncaptured e args ∧ readAs e args = (e, args)) := by
  unfold readAs
  by_cases halias : e = .executeWebhookWithToken
  · exact Or.inl ⟨halias, if_pos halias⟩
  · rw [if_neg halias]
    cases hfind : captures.find? fun x => x.1 = e ∧ args.getLast? = some (bytes x.2.1) with
    | none =>
      refine Or.inr (Or.inr ⟨⟨halias, fun x hx he hlast => ?_⟩, rfl⟩)
      exact absurd (decide_eq_true ⟨he, hlast⟩) (List.find?_eq_none.mp hfind x hx)
    | some x =>
      have hmatch := List.find?_some hfind
      obtain ⟨he, hlast⟩ := of_decide_eq_true hmatch
      have hargs := (List.dropLast_append_getLast? _ hlast).symm
      exact Or.inr (Or.inl ⟨x, List.mem_of_find?_eq_some hfind, args.dropLast, he, hargs, rfl⟩)

/-- The two paths of a capture are filled alike up to the last segment. -/
theorem captured_segments {x : Endpoint × String × Endpoint} (hx : x ∈ captures) :
    (holes x.1.route.path).length = (holes x.2.2.route.path).length + 1 ∧
      ∀ init : List Bytes, init.length = (holes x.2.2.route.path).length → ∃ front, ∀ a,
        pathSegments x.1 (init ++ [a]) = front ++ [a] ∧ pathSegments x.2.2 init = front ++ [bytes x.2.1] := by
  obtain ⟨-, hhole, hword⟩ := captured x hx
  have hcount : holes x.2.2.route.path = holes x.1.route.path.dropLast := by
    rw [hword, holes, List.filterMap_append]
    exact List.append_nil _
  rw [hcount]
  refine ⟨?_, fun init hinit => ⟨fill bytes Hole.write x.1.route.path.dropLast init, fun a => ⟨?_, ?_⟩⟩⟩
  · rw [hhole, holes, List.filterMap_append, List.dropLast_concat]
    exact List.length_append
  · rw [pathSegments, hhole, List.dropLast_concat, fill_append hinit]
    rfl
  · have happend : fill bytes Hole.write (x.1.route.path.dropLast ++ [.word x.2.1]) (init ++ []) = _ :=
      fill_append hinit
    rw [List.append_nil] at happend
    rw [pathSegments, hword, happend]
    rfl

theorem fits_unqueried {q : Query} (h : q.Fits e) (he : e ∉ queried) : q = .none := by
  cases q with
  | none => rfl
  | _ => exact absurd (h ▸ by decide) he

theorem captures_unqueried : ∀ x ∈ captures, x.1 ∉ queried ∧ x.2.2 ∉ queried ∧
    x.2.2 ≠ .executeWebhookWithToken ∧ ∀ y ∈ captures, y.1 ≠ x.2.2 := by
  decide

/-- What a call is read as is a call with the same request. -/
theorem readAs_call (hfilled : args.length = (holes e.route.path).length) {q : Query} (hq : q.Fits e) :
    (readAs e args).2.length = (holes (readAs e args).1.route.path).length ∧ q.Fits (readAs e args).1 ∧
      (readAs e args).1.route.verb = e.route.verb ∧
      pathSegments (readAs e args).1 (readAs e args).2 = pathSegments e args ∧
      Uncaptured (readAs e args).1 (readAs e args).2 := by
  rcases readAs_cases e args with ⟨rfl, hread⟩ | ⟨x, hx, init, rfl, rfl, hread⟩ | ⟨huncaptured, hread⟩
  · obtain rfl := fits_unqueried hq (by decide)
    have hfree : Endpoint.executeWebhook ∉ queried := by decide
    have halias : Endpoint.executeWebhook ≠ .executeWebhookWithToken := by decide
    have hsource : ∀ x ∈ captures, x.1 ≠ .executeWebhook := by decide
    rw [hread]
    exact ⟨hfilled, hfree, rfl, rfl, halias, fun x hx hxe => absurd hxe (hsource x hx)⟩
  · obtain ⟨hfree, hfree', halias, hsource⟩ := captures_unqueried x hx
    obtain rfl := fits_unqueried hq hfree
    obtain ⟨hcount, hpaths⟩ := captured_segments hx
    rw [List.length_append, hcount] at hfilled
    have hinit := Nat.succ.inj hfilled
    obtain ⟨front, hfront⟩ := hpaths init hinit
    obtain ⟨hleft, hright⟩ := hfront (bytes x.2.1)
    rw [hread]
    exact ⟨hinit, hfree', (captured x hx).1.symm, hright.trans hleft.symm, halias,
      fun y hy hye => absurd hye (hsource y hy)⟩
  · rw [hread]
    exact ⟨hfilled, hq, rfl, rfl, huncaptured⟩

variable {args' : List Bytes} {q q' : Query}

theorem shared_false (h : (e, f) ∈ shared) (he : Uncaptured e args)
    (hargs : args.length = (holes e.route.path).length)
    (hargs' : args'.length = (holes f.route.path).length) (hq : q.Fits e) (hq' : q'.Fits f)
    (hsegments : pathSegments e args = pathSegments f args') (htext : q.text = q'.text) : False := by
  rcases List.mem_append.mp h with h | h
  · obtain ⟨x, hx, heq⟩ := List.mem_map.mp h
    obtain ⟨rfl, rfl⟩ := Prod.mk.inj heq
    obtain ⟨hcount, hpaths⟩ := captured_segments hx
    obtain ⟨init, a, hinit⟩ := (List.eq_nil_or_concat args).resolve_left fun hnil => by simp [hnil, hcount] at hargs
    obtain rfl := hinit.trans List.concat_eq_append
    rw [List.length_append, hcount] at hargs
    obtain ⟨front, hfront⟩ := hpaths init (Nat.succ.inj hargs)
    obtain ⟨front', hfront'⟩ := hpaths args' hargs'
    rw [(hfront a).1, (hfront' a).2] at hsegments
    obtain ⟨-, hlast⟩ := List.append_inj' hsegments rfl
    refine he.2 x hx rfl ?_
    rw [List.getLast?_concat, List.singleton_injective hlast]
  · have hempty : e ∉ queried → q.text = [] := fun hfree => by rw [fits_unqueried hq hfree]; rfl
    simp only [List.mem_cons, Prod.mk.injEq, List.not_mem_nil, or_false] at h
    rcases h with ⟨rfl, rfl⟩ | ⟨rfl, rfl⟩ | ⟨rfl, rfl⟩
    · exact he.1 rfl
    · rw [hempty (by decide)] at htext
      cases q' with
      | none => exact absurd hq' (by change ¬ Endpoint.searchUsers ∉ queried; decide)
      | search query => cases htext
      | _ => cases hq'
    · rw [hempty (by decide)] at htext
      cases q' with
      | none => exact absurd hq' (by change ¬ Endpoint.deleteAllSessions ∉ queried; decide)
      | revokeSelf revoke => cases htext
      | _ => cases hq'

/-- Two calls with one request are calls of one helper, unless a helper has a word in the place of
the other's last argument. -/
theorem uncaptured_eq (he : Uncaptured e args) (hf : Uncaptured f args')
    (hargs : args.length = (holes e.route.path).length)
    (hargs' : args'.length = (holes f.route.path).length) (hq : q.Fits e) (hq' : q'.Fits f)
    (hverb : e.route.verb = f.route.verb) (hsegments : pathSegments e args = pathSegments f args')
    (htext : q.text = q'.text) : (e, args) = (f, args') := by
  have hcompatible := compatible_of_fill bytes_inj hargs hargs' hsegments
  rcases apart e (Endpoint.mem_endpoints e) f (Endpoint.mem_endpoints f) with h | rfl | h | h
  · simp [Apart, hverb, hcompatible] at h
  · rw [(fill_inj write_inj hargs hargs').mp hsegments]
  · exact (shared_false h he hargs hargs' hq hq' hsegments htext).elim
  · exact (shared_false h hf hargs' hargs hq' hq hsegments.symm htext.symm).elim

theorem requests_told_apart (c d : HelperCall) (hc : c.Plain) (hd : d.Plain) : c.request = d.request ↔
    readAs c.endpoint c.arguments = readAs d.endpoint d.arguments ∧ c.query.text = d.query.text := by
  obtain ⟨hargs, hq, hverb, hsegments, huncaptured⟩ := readAs_call c.filled c.fits
  obtain ⟨hargs', hq', hverb', hsegments', huncaptured'⟩ := readAs_call d.filled d.fits
  rw [HelperCall.request, HelperCall.request, Prod.mk.injEq, target_inj hc hd, ← and_assoc]
  refine and_congr_left fun htext => ?_
  rw [← hverb, ← hverb', ← hsegments, ← hsegments']
  constructor
  · rintro ⟨hverbs, hpaths⟩
    exact uncaptured_eq huncaptured huncaptured' hargs hargs' hq hq' hverbs hpaths htext
  · intro h
    rw [h]
    exact ⟨rfl, rfl⟩

def deletingBulk : HelperCall := ⟨.deleteMessage, [bytes "01HZ", bytes "bulk"], .none, rfl, by decide⟩

def deletingMany : HelperCall := ⟨.deleteMessagesBulk, [bytes "01HZ"], .none, rfl, by decide⟩

theorem bulk_captured : deletingBulk.request = deletingMany.request :=
  (requests_told_apart deletingBulk deletingMany (by decide) (by decide)).mpr ⟨by decide, rfl⟩

end Stoatpp.Rest
