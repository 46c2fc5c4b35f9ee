import Stoatpp.Cluster.MessageListener

/-!
# The server of a message on its two ways

A Message event is dispatched with the server it names itself or that of its channel in the cache.
For an edited message `get_channel` is asked where neither is there, before `dispatch_command`
looks once more. So the two differ for a channel that the cache does not know to be in a server.
-/

namespace Stoatpp.Cluster
open Stoatpp.Gateway

/-- The server under which `dispatch_command` treats the message of a Message event. -/
def eventServer (h : CommandHandlers) (c : Store) (j : Json) : String :=
  (prepare h c (Events.Message.fromJson j)).serverId

/-- The server of the same message when it is fetched for an edit, with the document of its channel. -/
def editServer (h : CommandHandlers) (c : Store) (j channel : Json) : String :=
  (prepare h c (fetchedMessage c j (some channel))).serverId

def cachedServer (c : Store) (channelId : String) : Option String :=
  (c.getChannel channelId).bind (·.server)

def NeedsNoChannel (j : Json) : Prop :=
  (Events.Message.fromJson j).serverId ≠ "" ∨ (Events.Message.fromJson j).channelId = ""

/-- The server is found without the channel document, or is not in there either. -/
def Settled (c : Store) (j channel : Json) : Prop :=
  NeedsNoChannel j ∨ (cachedServer c (Events.Message.fromJson j).channelId).isSome ∨
    (Channel.fromJson channel).server.getD "" = ""

/-- The fetch for the edit leaves the message as it is. -/
def NothingFound (c : Store) (j channel : Json) : Prop :=
  (cachedServer c (Events.Message.fromJson j).channelId <|> (Channel.fromJson channel).server).getD "" = ""

/-- Whatever the preprocessor does, the server and the channel of the message stay. -/
def KeepsIds (h : CommandHandlers) : Prop :=
  ∀ preprocess, h.preprocessor = some preprocess → ∀ msg : Events.Message,
    (preprocess msg).serverId = msg.serverId ∧ (preprocess msg).channelId = msg.channelId

variable {h : CommandHandlers} {c : Store} {j channel : Json}

theorem not_needsNoChannel : ¬ NeedsNoChannel j ↔
    (Events.Message.fromJson j).serverId = "" ∧ (Events.Message.fromJson j).channelId ≠ "" := by
  rw [NeedsNoChannel, not_or, not_not]

/-! ## One lookup in the cache -/

def lookedUp (c : Store) (serverId channelId : String) : String :=
  if serverId = "" ∧ channelId ≠ "" then (cachedServer c channelId).getD "" else serverId

theorem resolveServer_serverId (c : Store) (msg : Events.Message) :
    (resolveServer c msg).serverId = lookedUp c msg.serverId msg.channelId := by
  unfold resolveServer lookedUp
  split_ifs <;> rfl

theorem prepare_serverId (hkeeps : KeepsIds h) (msg : Events.Message) :
    (prepare h c msg).serverId = lookedUp c msg.serverId msg.channelId := by
  unfold prepare
  rw [resolveServer_serverId]
  cases hpre : h.preprocessor with
  | none => rfl
  | some preprocess =>
    obtain ⟨hserver, hchannel⟩ := hkeeps preprocess hpre msg
    simp only [Option.map_some, Option.getD_some, hserver, hchannel]

theorem lookedUp_empty {channelId : String} (hchannel : channelId ≠ "") :
    lookedUp c "" channelId = (cachedServer c channelId).getD "" :=
  if_pos ⟨rfl, hchannel⟩

theorem lookedUp_twice (serverId channelId : String) :
    lookedUp c (lookedUp c serverId channelId) channelId = lookedUp c serverId channelId := by
  by_cases hneeds : serverId = "" ∧ channelId ≠ ""
  · obtain ⟨rfl, hchannel⟩ := hneeds
    rw [lookedUp_empty hchannel]
    by_cases hempty : (cachedServer c channelId).getD "" = ""
    · rw [hempty, lookedUp_empty hchannel, hempty]
    · exact if_neg fun hagain => hempty hagain.1
  · have hkept : lookedUp c serverId channelId = serverId := if_neg hneeds
    rw [hkept, hkept]

/-! ## The message with its channel fetched -/

theorem fetchedMessage_needsNoChannel (hj : NeedsNoChannel j) :
    fetchedMessage c j (some channel) = Events.Message.fromJson j := by
  refine if_neg fun ⟨hserver, hchannel⟩ => ?_
  exact hj.elim (· hserver) hchannel

theorem fetchedMessage_looks (hj : ¬ NeedsNoChannel j) :
    fetchedMessage c j (some channel) = { Events.Message.fromJson j with
      serverId := (cachedServer c (Events.Message.fromJson j).channelId <|>
        (Channel.fromJson channel).server).getD "" } := by
  exact if_pos (not_needsNoChannel.mp hj)

theorem fetchedMessage_nothingFound (hfound : NothingFound c j channel) :
    fetchedMessage c j (some channel) = Events.Message.fromJson j := by
  by_cases hj : NeedsNoChannel j
  · exact fetchedMessage_needsNoChannel hj
  · rw [fetchedMessage_looks hj, hfound, ← (not_needsNoChannel.mp hj).1]

theorem fetchedMessage_channelId :
    (fetchedMessage c j (some channel)).channelId = (Events.Message.fromJson j).channelId := by
  unfold fetchedMessage
  dsimp only
  split_ifs <;> rfl

theorem fetchedMessage_cached (hj : ¬ NeedsNoChannel j) {server : String}
    (hcached : cachedServer c (Events.Message.fromJson j).channelId = some server) :
    (fetchedMessage c j (some channel)).serverId =
      lookedUp c (Events.Message.fromJson j).serverId (Events.Message.fromJson j).channelId := by
  obtain ⟨hserver, hchannel⟩ := not_needsNoChannel.mp hj
  rw [fetchedMessage_looks hj, hserver, lookedUp_empty hchannel, hcached]
  rfl

theorem fetchedMessage_uncached (hj : ¬ NeedsNoChannel j)
    (hcached : cachedServer c (Events.Message.fromJson j).channelId = none) :
    (fetchedMessage c j (some channel)).serverId = (Channel.fromJson channel).server.getD "" := by
  rw [fetchedMessage_looks hj, hcached]
  rfl

/-! ## The two ways -/

theorem servers_uncached (channel : Json) (hkeeps : KeepsIds h) (hj : ¬ NeedsNoChannel j)
    (hcached : cachedServer c (Events.Message.fromJson j).channelId = none) :
    eventServer h c j = "" ∧ editServer h c j channel = (Channel.fromJson channel).server.getD "" := by
  obtain ⟨hserver, hchannel⟩ := not_needsNoChannel.mp hj
  rw [eventServer, editServer, prepare_serverId hkeeps, prepare_serverId hkeeps, fetchedMessage_channelId,
    fetchedMessage_uncached hj hcached, hserver, lookedUp_empty hchannel, hcached]
  refine ⟨rfl, ?_⟩
  by_cases hempty : (Channel.fromJson channel).server.getD "" = ""
  · rw [hempty, lookedUp_empty hchannel, hcached]
    rfl
  · exact if_neg fun hagain => hempty hagain.1

/-- In an unsettled case the Message event is treated as a direct message, the edit as a message of
the server that the channel document names. -/
theorem servers_unsettled (hkeeps : KeepsIds h) (hgap : ¬ Settled c j channel) :
    eventServer h c j = "" ∧ some (editServer h c j channel) = (Channel.fromJson channel).server ∧
      editServer h c j channel ≠ "" := by
  obtain ⟨hj, hcached, hserver⟩ : ¬ NeedsNoChannel j ∧
      ¬ (cachedServer c (Events.Message.fromJson j).channelId).isSome ∧
      ¬ (Channel.fromJson channel).server.getD "" = "" := by
    rw [Settled, not_or, not_or] at hgap
    exact hgap
  obtain ⟨hevent, hedit⟩ := servers_uncached channel hkeeps hj (Option.not_isSome_iff_eq_none.mp hcached)
  refine ⟨hevent, ?_, hedit.trans_ne hserver⟩
  rw [hedit]
  cases hdocument : (Channel.fromJson channel).server with
  | none => exact absurd (by rw [hdocument]; rfl) hserver
  | some server => rfl

theorem servers_settled (hkeeps : KeepsIds h) (hsettled : Settled c j channel) :
    eventServer h c j = editServer h c j channel := by
  by_cases hj : NeedsNoChannel j
  · rw [eventServer, editServer, fetchedMessage_needsNoChannel hj]
  · cases hcached : cachedServer c (Events.Message.fromJson j).channelId with
    | some server =>
      rw [eventServer, editServer, prepare_serverId hkeeps, prepare_serverId hkeeps, fetchedMessage_channelId,
        fetchedMessage_cached hj hcached, lookedUp_twice]
    | none =>
      obtain ⟨hevent, hedit⟩ := servers_uncached channel hkeeps hj hcached
      rcases hsettled with hnames | hknown | hempty
      · exact absurd hnames hj
      · rw [hcached] at hknown
        cases hknown
      · rw [hevent, hedit, hempty]

/-- Under a preprocessor that leaves the ids alone the two ways agree on the server exactly if it is
settled without the channel document, and where they do not agree only the edit is in the server.
Under any preprocessor they agree if the message needs no channel or the edit finds no server. -/
theorem servers_agree_iff (h : CommandHandlers) (c : Store) (j channel : Json) :
    (KeepsIds h →
      (eventServer h c j = editServer h c j channel ↔ Settled c j channel) ∧
      (¬ Settled c j channel → eventServer h c j = "" ∧
        some (editServer h c j channel) = (Channel.fromJson channel).server ∧ editServer h c j channel ≠ "")) ∧
    (NeedsNoChannel j ∨ NothingFound c j channel → eventServer h c j = editServer h c j channel) := by
  refine ⟨fun hkeeps => ⟨⟨fun hsame => ?_, servers_settled hkeeps⟩, servers_unsettled hkeeps⟩, fun hj => ?_⟩
  · by_contra hgap
    obtain ⟨hevent, -, hedit⟩ := servers_unsettled hkeeps hgap
    exact hedit (hsame.symm.trans hevent)
  · have hsame : fetchedMessage c j (some channel) = Events.Message.fromJson j :=
      hj.elim fetchedMessage_needsNoChannel fetchedMessage_nothingFound
    rw [eventServer, editServer, hsame]

def sentBy (author : String) : Json := .obj [("_id", .str "m"), ("author", .str author),
  ("channel", .str "c"), ("content", .str "!hi")]

def serverChannel : Json := .obj [("_id", .str "c"), ("channel_type", .str "TextChannel"), ("server", .str "s")]

theorem cold_cache_servers :
    let env : Surroundings := { now := 0, memberReply := none, later := {} }
    eventServer {} {} (sentBy "friend") = "" ∧ editServer {} {} (sentBy "friend") serverChannel = "s" ∧
    callbacks (dispatchCommand {} {} [hello] env (Events.Message.fromJson (sentBy "friend")) {}).2.trace = 1 ∧
    callbacks (dispatchCommand {} {} [hello] env
      (fetchedMessage {} (sentBy "friend") (some serverChannel)) {}).2.trace = 0 := by
  decide

end Stoatpp.Cluster
