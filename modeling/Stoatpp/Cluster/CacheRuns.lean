import Stoatpp.Cluster.EventThreads
import Stoatpp.Library.Keyed

/-!
# The caches over a run

Events are handled one at a time; the thread that erases a deleted server runs at any time
after its event. User code may put servers and members into the caches itself. What a step
does to one entry is said once here.
-/

namespace Stoatpp.Cluster
open Stoatpp.Library Stoatpp.Gateway

structure Caching where
  store : Store := {}
  pending : List String := []

inductive CacheTurn where
  | event (e : Event)
  | erase (i : ℕ)
  | cacheServer (s : Server)
  | cacheMember (m : Member)

/-- The events a frame is dispatched as. -/
def frameEvents (self : User) (j : Json) : List Event :=
  (handleEvent self j).trace.filterMap fun
    | .dispatch e => some e
    | _ => none

def frameTurns (j : Json) : List CacheTurn := (frameEvents {} j).map .event

/-- The event that follows the raw event of a frame. -/
def typedEvent (j : Json) : CacheTurn := ((frameTurns j)[1]?).getD (.event (.error ""))

def erasures : Event → List String
  | .serverDelete id => [id]
  | _ => []

def cacheTurn (d : Dispatching) (h : Caching) : CacheTurn → Option Caching
  | .event e => some
      { store := ((CacheStep.event e).perform d h.store).1, pending := h.pending ++ erasures e }
  | .erase i => (h.pending[i]?).map fun id =>
      { store := ((CacheStep.eraseServer id).perform d h.store).1, pending := h.pending.eraseIdx i }
  | .cacheServer s => some { h with store := h.store.putServer s }
  | .cacheMember m => some { h with store := h.store.putMember m }

/-! ## Entries -/

namespace Store
variable (c : Store) (id s u : String)

theorem getServer_putServer (srv : Server) :
    (c.putServer srv).getServer id = if srv.id = id then some srv else c.getServer id := by
  unfold getServer putServer
  split_ifs with h
  · rw [h, Finmap.lookup_insert]
  · exact Finmap.lookup_insert_of_ne _ (Ne.symm h)

theorem getChannel_putChannel (ch : Channel) :
    (c.putChannel ch).getChannel id = if ch.id = id then some ch else c.getChannel id := by
  unfold getChannel putChannel
  split_ifs with h
  · rw [h, Finmap.lookup_insert]
  · exact Finmap.lookup_insert_of_ne _ (Ne.symm h)

theorem getServer_eraseServer (id' : String) :
    (c.eraseServer id').getServer id = if id' = id then none else c.getServer id := by
  unfold getServer eraseServer
  split_ifs with h
  · rw [h, Finmap.lookup_erase]
  · exact Finmap.lookup_erase_ne (Ne.symm h)

theorem getServer_modifyServer (id' : String) (f : Server → Server × Bool) :
    (c.modifyServer id' f).1.getServer id =
      if id' = id then (c.getServer id).map fun s => (f s).1 else c.getServer id := by
  unfold modifyServer getServer
  cases hs : c.server.lookup id' with
  | none =>
    split_ifs with h
    · rw [← h, hs]
      rfl
    · rfl
  | some srv =>
    split_ifs with h
    · rw [← h, hs, Finmap.lookup_insert]
      rfl
    · exact Finmap.lookup_insert_of_ne _ (Ne.symm h)

theorem getMember_eq : c.getMember s u = (c.membersOf s).lookup u := by
  unfold getMember membersOf
  cases c.member.lookup s <;> rfl

theorem getMember_putMember (m : Member) : (c.putMember m).getMember s u =
    if m.serverId ≠ "" ∧ m.id ≠ "" ∧ m.serverId = s ∧ m.id = u then some m else c.getMember s u := by
  rw [getMember_eq, getMember_eq]
  unfold putMember
  by_cases hm : m.serverId ≠ "" ∧ m.id ≠ ""
  · rw [if_pos hm, membersOf_insert]
    by_cases hs : m.serverId = s
    · rw [if_pos hs.symm, ← hs]
      by_cases hu : m.id = u
      · rw [if_pos ⟨hm.1, hm.2, rfl, hu⟩, hu, Finmap.lookup_insert]
      · rw [if_neg fun h => hu h.2.2.2, Finmap.lookup_insert_of_ne _ (Ne.symm hu)]
    · rw [if_neg (Ne.symm hs), if_neg fun h => hs h.2.2.1]
  · rw [if_neg hm, if_neg fun h => hm ⟨h.1, h.2.1⟩]

theorem getMember_eraseMember (s' u' : String) : (c.eraseMember s' u').getMember s u =
    if s' ≠ "" ∧ u' ≠ "" ∧ s' = s ∧ u' = u then none else c.getMember s u := by
  rw [getMember_eq, getMember_eq]
  unfold eraseMember
  by_cases hm : s' ≠ "" ∧ u' ≠ ""
  · rw [if_pos hm, membersOf_insert]
    by_cases hs : s' = s
    · rw [if_pos hs.symm, ← hs]
      by_cases hu : u' = u
      · rw [if_pos ⟨hm.1, hm.2, rfl, hu⟩, hu, Finmap.lookup_erase]
      · rw [if_neg fun h => hu h.2.2.2, Finmap.lookup_erase_ne (Ne.symm hu)]
    · rw [if_neg (Ne.symm hs), if_neg fun h => hs h.2.2.1]
  · rw [if_neg hm, if_neg fun h => hm ⟨h.1, h.2.1⟩]

/-! ## The listeners -/

theorem foldl_putChannel_server (chs : List Channel) : (chs.foldl putChannel c).server = c.server := by
  induction chs generalizing c with
  | nil => rfl
  | cons ch chs ih => exact ih (c.putChannel ch)

theorem putMember_rest (m : Member) :
    (c.putMember m).server = c.server ∧ (c.putMember m).channel = c.channel := by
  unfold putMember
  split_ifs <;> exact ⟨rfl, rfl⟩

theorem eraseMember_rest (s u : String) :
    (c.eraseMember s u).server = c.server ∧ (c.eraseMember s u).channel = c.channel := by
  unfold eraseMember
  split_ifs <;> exact ⟨rfl, rfl⟩

theorem foldl_putMember_rest (ms : List Member) :
    (ms.foldl putMember c).server = c.server ∧ (ms.foldl putMember c).channel = c.channel := by
  induction ms generalizing c with
  | nil => exact ⟨rfl, rfl⟩
  | cons m ms ih =>
    obtain ⟨hs, hc⟩ := putMember_rest c m
    obtain ⟨ihs, ihc⟩ := ih (c.putMember m)
    exact ⟨ihs.trans hs, ihc.trans hc⟩

theorem foldl_putServer_rest (ss : List Server) :
    (ss.foldl putServer c).channel = c.channel ∧ (ss.foldl putServer c).member = c.member := by
  induction ss generalizing c with
  | nil => exact ⟨rfl, rfl⟩
  | cons s ss ih => exact ih (c.putServer s)

theorem foldl_putChannel_member (chs : List Channel) : (chs.foldl putChannel c).member = c.member := by
  induction chs generalizing c with
  | nil => rfl
  | cons ch chs ih => exact ih (c.putChannel ch)

theorem getServer_foldl (ss : List Server) :
    (ss.foldl putServer c).getServer id = Keyed.latest Server.id id ss (c.getServer id) := by
  induction ss generalizing c with
  | nil => rfl
  | cons s ss ih => rw [List.foldl_cons, ih, getServer_putServer, Keyed.latest_cons]

theorem getChannel_foldl (chs : List Channel) :
    (chs.foldl putChannel c).getChannel id = Keyed.latest Channel.id id chs (c.getChannel id) := by
  induction chs generalizing c with
  | nil => rfl
  | cons ch chs ih => rw [List.foldl_cons, ih, getChannel_putChannel, Keyed.latest_cons]

def serverAfter (id : String) (before : Option Server) : Event → Option Server
  | .ready e => Keyed.latest Server.id id e.servers before
  | .serverCreate e => if e.server.id = id then some e.server else before
  | .serverUpdate e => if e.id = id then before.map fun s => (updateServer e s).1 else before
  | .serverRoleCreate e =>
    if e.serverId = id then before.map fun s => { s with roles := addRole e s.roles } else before
  | .serverRoleUpdate e =>
    if e.serverId = id then before.map fun s => { s with roles := (updateRoles e s.roles).1 }
    else before
  | .serverRoleDelete serverId roleId =>
    if serverId = id then before.map fun s => { s with roles := s.roles.filter (·.id ≠ roleId) }
    else before
  | _ => before

def channelAfter (id : String) (before : Option Channel) : Event → Option Channel
  | .ready e => Keyed.latest Channel.id id e.channels before
  | .channelCreate e => if e.channel.id = id then some e.channel else before
  | .channelDelete id' => if id' = id then none else before
  | .serverCreate e => Keyed.latest Channel.id id (listedChannels e.raw) before
  | _ => before

/-- What one put of a member does to the entry of `u` in `s`. -/
def memberPut (s u : String) (before : Option Member) (m : Member) : Option Member :=
  if m.serverId ≠ "" ∧ m.id ≠ "" ∧ m.serverId = s ∧ m.id = u then some m else before

def memberAfter (s u : String) (before : Option Member) : Event → Option Member
  | .ready e => e.members.foldl (memberPut s u) before
  | .serverMemberJoin e => memberPut s u before e.member
  | .serverMemberLeave s' u' => if s' ≠ "" ∧ u' ≠ "" ∧ s' = s ∧ u' = u then none else before
  | _ => before

/-- Where a server that is cached behind an event comes from. -/
inductive ServerComes (id : String) (before : Option Server) : Event → Server → Prop where
  | kept {e : Event} {srv : Server} : before = some srv → ServerComes id before e srv
  | listed {e : Events.Ready} {srv : Server} : srv ∈ e.servers → srv.id = id →
      ServerComes id before (.ready e) srv
  | created {e : Events.ServerCreate} : e.server.id = id →
      ServerComes id before (.serverCreate e) e.server
  | updated {e : Events.Update} {srv : Server} : before = some srv → e.id = id →
      ServerComes id before (.serverUpdate e) (updateServer e srv).1
  | roleCreated {e : Events.ServerRoleCreate} {srv : Server} : before = some srv →
      ServerComes id before (.serverRoleCreate e) { srv with roles := addRole e srv.roles }
  | roleUpdated {e : Events.ServerRoleUpdate} {srv : Server} : before = some srv →
      ServerComes id before (.serverRoleUpdate e) { srv with roles := (updateRoles e srv.roles).1 }
  | roleDeleted {serverId roleId : String} {srv : Server} : before = some srv →
      ServerComes id before (.serverRoleDelete serverId roleId)
        { srv with roles := srv.roles.filter (·.id ≠ roleId) }

theorem changed_some {p : Prop} [Decidable p] {before : Option Server} {f : Server → Server}
    {srv : Server} (hs : (if p then before.map f else before) = some srv) :
    before = some srv ∨ p ∧ ∃ t, before = some t ∧ f t = srv := by
  split_ifs at hs with hp
  · exact Or.inr ⟨hp, Option.map_eq_some_iff.mp hs⟩
  · exact Or.inl hs

theorem serverAfter_comes {id : String} {before : Option Server} {e : Event} {srv : Server}
    (hs : serverAfter id before e = some srv) : ServerComes id before e srv := by
  cases e with
  | ready e =>
    rcases Keyed.latest_eq_some hs with hb | ⟨hmem, hid⟩
    · exact .kept hb
    · exact .listed hmem hid
  | serverCreate e =>
    simp only [serverAfter] at hs
    split_ifs at hs with hid
    · obtain rfl := Option.some.inj hs
      exact .created hid
    · exact .kept hs
  | serverUpdate e =>
    rcases changed_some hs with hb | ⟨hid, t, hb, rfl⟩
    · exact .kept hb
    · exact .updated hb hid
  | serverRoleCreate e =>
    rcases changed_some hs with hb | ⟨-, t, hb, rfl⟩
    · exact .kept hb
    · exact .roleCreated hb
  | serverRoleUpdate e =>
    rcases changed_some hs with hb | ⟨-, t, hb, rfl⟩
    · exact .kept hb
    · exact .roleUpdated hb
  | serverRoleDelete s r =>
    rcases changed_some hs with hb | ⟨-, t, hb, rfl⟩
    · exact .kept hb
    · exact .roleDeleted hb
  | _ => exact .kept hs

inductive ChannelComes (id : String) (before : Option Channel) : Event → Channel → Prop where
  | kept {e : Event} {ch : Channel} : before = some ch → ChannelComes id before e ch
  | listed {e : Events.Ready} {ch : Channel} : ch ∈ e.channels → ch.id = id →
      ChannelComes id before (.ready e) ch
  | inServer {e : Events.ServerCreate} {ch : Channel} : ch ∈ listedChannels e.raw → ch.id = id →
      ChannelComes id before (.serverCreate e) ch
  | created {e : Events.ChannelCreate} : e.channel.id = id →
      ChannelComes id before (.channelCreate e) e.channel

theorem channelAfter_comes {id : String} {before : Option Channel} {e : Event} {ch : Channel}
    (hch : channelAfter id before e = some ch) : ChannelComes id before e ch := by
  cases e with
  | ready e =>
    rcases Keyed.latest_eq_some hch with hb | ⟨hmem, hid⟩
    · exact .kept hb
    · exact .listed hmem hid
  | serverCreate e =>
    rcases Keyed.latest_eq_some hch with hb | ⟨hmem, hid⟩
    · exact .kept hb
    · exact .inServer hmem hid
  | channelCreate e =>
    simp only [channelAfter] at hch
    split_ifs at hch with hid
    · obtain rfl := Option.some.inj hch
      exact .created hid
    · exact .kept hch
  | channelDelete id' =>
    simp only [channelAfter] at hch
    split_ifs at hch
    exact .kept hch
  | _ => exact .kept hch

/-- The member stands in the table of its server, under its id, and neither is empty. -/
def MemberAt (s u : String) (m : Member) : Prop := m.serverId = s ∧ m.id = u ∧ s ≠ "" ∧ u ≠ ""

inductive MemberComes (s u : String) (before : Option Member) : Event → Member → Prop where
  | kept {e : Event} {m : Member} : before = some m → MemberComes s u before e m
  | listed {e : Events.Ready} {m : Member} : m ∈ e.members → MemberAt s u m →
      MemberComes s u before (.ready e) m
  | joined {e : Events.ServerMemberJoin} : MemberAt s u e.member →
      MemberComes s u before (.serverMemberJoin e) e.member

theorem memberPut_some {s u : String} {before : Option Member} {x m : Member}
    (hm : memberPut s u before x = some m) : before = some m ∨ x = m ∧ MemberAt s u m := by
  rw [memberPut] at hm
  split_ifs at hm with hx
  · obtain rfl := Option.some.inj hm
    obtain ⟨hserver, hid, rfl, rfl⟩ := hx
    exact Or.inr ⟨rfl, rfl, rfl, hserver, hid⟩
  · exact Or.inl hm

theorem foldl_memberPut_some {s u : String} {ms : List Member} {before : Option Member} {m : Member}
    (hm : ms.foldl (memberPut s u) before = some m) : before = some m ∨ m ∈ ms ∧ MemberAt s u m := by
  induction ms generalizing before with
  | nil => exact Or.inl hm
  | cons x rest ih =>
    obtain hput | ⟨hmem, hat⟩ := ih hm
    · refine (memberPut_some hput).imp_right ?_
      rintro ⟨rfl, hat⟩
      exact ⟨List.mem_cons_self, hat⟩
    · exact Or.inr ⟨List.mem_cons_of_mem _ hmem, hat⟩

theorem memberAfter_comes {s u : String} {before : Option Member} {e : Event} {m : Member}
    (hm : memberAfter s u before e = some m) : MemberComes s u before e m := by
  cases e with
  | ready e =>
    obtain hb | ⟨hmem, hat⟩ := foldl_memberPut_some hm
    · exact .kept hb
    · exact .listed hmem hat
  | serverMemberJoin e =>
    obtain hb | ⟨rfl, hat⟩ := memberPut_some hm
    · exact .kept hb
    · exact .joined hat
  | serverMemberLeave s' u' =>
    simp only [memberAfter] at hm
    split_ifs at hm
    exact .kept hm
  | _ => exact .kept hm

theorem getServer_listen (e : Event) :
    (listen e c).1.getServer id = serverAfter id (c.getServer id) e := by
  cases e with
  | ready e =>
    unfold listen onReady serverAfter
    rw [getServer, (foldl_putMember_rest _ _).1, foldl_putChannel_server]
    exact getServer_foldl c id e.servers
  | serverCreate e =>
    unfold listen onServerCreate serverAfter
    rw [getServer, foldl_putChannel_server]
    exact getServer_putServer c id e.server
  | serverMemberJoin e => exact congrArg (Finmap.lookup id) (putMember_rest c e.member).1
  | serverMemberLeave s u => exact congrArg (Finmap.lookup id) (eraseMember_rest c s u).1
  | serverUpdate e => exact getServer_modifyServer c id _ _
  | serverRoleCreate e => exact getServer_modifyServer c id _ _
  | serverRoleUpdate e => exact getServer_modifyServer c id _ _
  | serverRoleDelete s r => exact getServer_modifyServer c id _ _
  | _ => rfl

theorem modifyServer_channel (id' : String) (f : Server → Server × Bool) :
    (c.modifyServer id' f).1.channel = c.channel ∧ (c.modifyServer id' f).1.member = c.member := by
  unfold modifyServer
  cases c.server.lookup id' <;> exact ⟨rfl, rfl⟩

theorem getChannel_listen (e : Event) :
    (listen e c).1.getChannel id = channelAfter id (c.getChannel id) e := by
  cases e with
  | ready e =>
    unfold listen onReady channelAfter
    rw [getChannel, (foldl_putMember_rest _ _).2]
    refine (getChannel_foldl _ id e.channels).trans ?_
    rw [getChannel, (foldl_putServer_rest _ _).1]
    rfl
  | serverCreate e => exact getChannel_foldl _ id _
  | channelCreate e => exact getChannel_putChannel c id e.channel
  | channelDelete id' =>
    change (c.channel.erase id').lookup id = if id' = id then none else c.getChannel id
    split_ifs with h
    · rw [h, Finmap.lookup_erase]
    · exact Finmap.lookup_erase_ne (Ne.symm h)
  | serverMemberJoin e => exact congrArg (Finmap.lookup id) (putMember_rest c e.member).2
  | serverMemberLeave s u => exact congrArg (Finmap.lookup id) (eraseMember_rest c s u).2
  | serverUpdate e => exact congrArg (Finmap.lookup id) (modifyServer_channel c _ _).1
  | serverRoleCreate e => exact congrArg (Finmap.lookup id) (modifyServer_channel c _ _).1
  | serverRoleUpdate e => exact congrArg (Finmap.lookup id) (modifyServer_channel c _ _).1
  | serverRoleDelete s r => exact congrArg (Finmap.lookup id) (modifyServer_channel c _ _).1
  | _ => rfl

theorem getMember_foldl (ms : List Member) :
    (ms.foldl putMember c).getMember s u = ms.foldl (memberPut s u) (c.getMember s u) := by
  induction ms generalizing c with
  | nil => rfl
  | cons m ms ih => rw [List.foldl_cons, ih, getMember_putMember, List.foldl_cons, memberPut]

theorem getMember_congr {c c' : Store} (h : c.member = c'.member) : c.getMember s u = c'.getMember s u := by
  rw [getMember, getMember, h]

theorem getMember_listen (e : Event) :
    (listen e c).1.getMember s u = memberAfter s u (c.getMember s u) e := by
  cases e with
  | ready e =>
    refine (getMember_foldl _ s u e.members).trans (congrArg (e.members.foldl (memberPut s u)) ?_)
    exact getMember_congr s u ((foldl_putChannel_member _ _).trans (foldl_putServer_rest _ _).2)
  | serverMemberJoin e => exact getMember_putMember c s u e.member
  | serverMemberLeave s' u' => exact getMember_eraseMember c s u s' u'
  | serverCreate e => exact getMember_congr s u (foldl_putChannel_member (c.putServer e.server) _)
  | serverUpdate e => exact getMember_congr s u (modifyServer_channel c _ _).2
  | serverRoleCreate e => exact getMember_congr s u (modifyServer_channel c _ _).2
  | serverRoleUpdate e => exact getMember_congr s u (modifyServer_channel c _ _).2
  | serverRoleDelete s' r => exact getMember_congr s u (modifyServer_channel c _ _).2
  | _ => rfl

end Store

/-! ## One turn -/

variable {d : Dispatching} {h h' : Caching} {a : CacheTurn}

theorem event_store (e : Event) (c : Store) : ((CacheStep.event e).perform d c).1 =
    if ignored d.shouldIgnoreUser e then c else (Store.listen e c).1 := by
  simp only [CacheStep.perform, dispatch]
  split_ifs <;> rfl

/-- Only events about a user are ever ignored. -/
theorem serverAfter_ignored {e : Event} (he : ignored d.shouldIgnoreUser e = true) (id : String)
    (before : Option Server) : Store.serverAfter id before e = before := by
  cases e with
  | ready e => cases he
  | serverCreate e => cases he
  | serverUpdate e => cases he
  | serverRoleCreate e => cases he
  | serverRoleUpdate e => cases he
  | serverRoleDelete s r => cases he
  | _ => rfl

theorem channelAfter_ignored {e : Event} (he : ignored d.shouldIgnoreUser e = true) (id : String)
    (before : Option Channel) : Store.channelAfter id before e = before := by
  cases e with
  | ready e => cases he
  | channelCreate e => cases he
  | channelDelete id' => cases he
  | serverCreate e => cases he
  | _ => rfl

theorem getServer_event (e : Event) (c : Store) (id : String) :
    ((CacheStep.event e).perform d c).1.getServer id = Store.serverAfter id (c.getServer id) e := by
  rw [event_store]
  split_ifs with he
  · exact (serverAfter_ignored he id _).symm
  · exact Store.getServer_listen c id e

theorem getChannel_event (e : Event) (c : Store) (id : String) :
    ((CacheStep.event e).perform d c).1.getChannel id = Store.channelAfter id (c.getChannel id) e := by
  rw [event_store]
  split_ifs with he
  · exact (channelAfter_ignored he id _).symm
  · exact Store.getChannel_listen c id e

def serverBehind (h : Caching) (id : String) : CacheTurn → Option Server
  | .event e => Store.serverAfter id (h.store.getServer id) e
  | .erase i => if h.pending[i]? = some id then none else h.store.getServer id
  | .cacheServer s => if s.id = id then some s else h.store.getServer id
  | .cacheMember _ => h.store.getServer id

def channelBehind (h : Caching) (id : String) : CacheTurn → Option Channel
  | .event e => Store.channelAfter id (h.store.getChannel id) e
  | _ => h.store.getChannel id

theorem getServer_turn (ht : cacheTurn d h a = some h') (id : String) :
    h'.store.getServer id = serverBehind h id a := by
  cases a with
  | event e =>
    obtain rfl := Option.some.inj ht
    exact getServer_event e h.store id
  | erase i =>
    obtain ⟨id', hid, rfl⟩ := Option.map_eq_some_iff.mp ht
    simp only [serverBehind, hid, Option.some.injEq]
    exact Store.getServer_eraseServer h.store id id'
  | cacheServer s =>
    obtain rfl := Option.some.inj ht
    exact Store.getServer_putServer h.store id s
  | cacheMember m =>
    obtain rfl := Option.some.inj ht
    exact congrArg (Finmap.lookup id) (Store.putMember_rest h.store m).1

theorem getChannel_turn (ht : cacheTurn d h a = some h') (id : String) :
    h'.store.getChannel id = channelBehind h id a := by
  cases a with
  | event e =>
    obtain rfl := Option.some.inj ht
    exact getChannel_event e h.store id
  | erase i =>
    obtain ⟨id', -, rfl⟩ := Option.map_eq_some_iff.mp ht
    rfl
  | cacheServer s =>
    obtain rfl := Option.some.inj ht
    rfl
  | cacheMember m =>
    obtain rfl := Option.some.inj ht
    exact congrArg (Finmap.lookup id) (Store.putMember_rest h.store m).2

def pendingBehind (h : Caching) : CacheTurn → List String
  | .event e => h.pending ++ erasures e
  | .erase i => h.pending.eraseIdx i
  | _ => h.pending

theorem pending_turn (ht : cacheTurn d h a = some h') : h'.pending = pendingBehind h a := by
  cases a with
  | erase i =>
    obtain ⟨id', -, rfl⟩ := Option.map_eq_some_iff.mp ht
    rfl
  | _ =>
    obtain rfl := Option.some.inj ht
    rfl

theorem mem_frameEvents {self : User} {j : Json} {e : Event} :
    e ∈ frameEvents self j ↔ .dispatch e ∈ (handleEvent self j).trace := by
  unfold frameEvents
  rw [List.mem_filterMap]
  constructor
  · rintro ⟨action, hmem, he⟩
    cases action with
    | dispatch e' =>
      obtain rfl := Option.some.inj he
      exact hmem
    | _ => cases he
  · exact fun h => ⟨_, h, rfl⟩

end Stoatpp.Cluster
