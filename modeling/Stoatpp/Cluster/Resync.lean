import Stoatpp.Cluster.PendingErasures

/-!
# What a Ready event leaves in the caches

The listener writes the servers and channels of the payload over what is cached and takes
nothing out.
-/

namespace Stoatpp.Cluster
open Stoatpp.Library

structure Store.Filed (c : Store) : Prop where
  server : ∀ id s, c.getServer id = some s → s.id = id
  channel : ∀ id ch, c.getChannel id = some ch → ch.id = id

variable {d : Dispatching} {h h' : Caching} {a : CacheTurn} {id : String}

/-! ## Entries under their ids -/

theorem serverAfter_filed {e : Event} {before : Option Server} {s : Server}
    (hb : ∀ t, before = some t → t.id = id) (hs : Store.serverAfter id before e = some s) :
    s.id = id := by
  cases Store.serverAfter_comes hs with
  | kept ht => exact hb s ht
  | listed _ hid => exact hid
  | created hid => exact hid
  | @updated _ t ht _ => exact hb t ht
  | @roleCreated _ t ht => exact hb t ht
  | @roleUpdated _ t ht => exact hb t ht
  | @roleDeleted _ _ t ht => exact hb t ht

theorem channelAfter_filed {e : Event} {before : Option Channel} {ch : Channel}
    (hb : ∀ x, before = some x → x.id = id) (hch : Store.channelAfter id before e = some ch) :
    ch.id = id := by
  cases Store.channelAfter_comes hch with
  | kept hx => exact hb ch hx
  | listed _ hid => exact hid
  | inServer _ hid => exact hid
  | created hid => exact hid

namespace Store.Filed
variable {c : Store}

theorem listen (hc : c.Filed) (e : Event) : (Store.listen e c).1.Filed := by
  constructor
  · intro id s hs
    rw [getServer_listen] at hs
    exact serverAfter_filed (hc.server id) hs
  · intro id ch hch
    rw [getChannel_listen] at hch
    exact channelAfter_filed (hc.channel id) hch

theorem eraseServer (hc : c.Filed) (id : String) : (c.eraseServer id).Filed := by
  refine ⟨fun k s hs => ?_, hc.channel⟩
  rw [getServer_eraseServer] at hs
  split_ifs at hs
  exact hc.server k s hs

theorem putServer (hc : c.Filed) (srv : Server) : (c.putServer srv).Filed := by
  refine ⟨fun k s hs => ?_, hc.channel⟩
  rw [getServer_putServer] at hs
  split_ifs at hs with hk
  · obtain rfl := Option.some.inj hs
    exact hk
  · exact hc.server k s hs

theorem putMember (hc : c.Filed) (m : Member) : (c.putMember m).Filed := by
  obtain ⟨hserver, hchannel⟩ := putMember_rest c m
  constructor
  · intro k s hs
    rw [getServer, hserver] at hs
    exact hc.server k s hs
  · intro k ch hch
    rw [getChannel, hchannel] at hch
    exact hc.channel k ch hch

end Store.Filed

theorem filed_turn (h : Caching) (a : CacheTurn) (h' : Caching) (hf : h.store.Filed)
    (ht : cacheTurn d h a = some h') : h'.store.Filed := by
  cases a with
  | event e =>
    obtain rfl := Option.some.inj ht
    change ((CacheStep.event e).perform d h.store).1.Filed
    rw [event_store]
    split_ifs
    · exact hf
    · exact hf.listen e
  | erase i =>
    obtain ⟨id, -, rfl⟩ := Option.map_eq_some_iff.mp ht
    exact hf.eraseServer id
  | cacheServer s =>
    obtain rfl := Option.some.inj ht
    exact hf.putServer s
  | cacheMember m =>
    obtain rfl := Option.some.inj ht
    exact hf.putMember m

theorem filed_run {turns : List CacheTurn} (hrun : runFrom (cacheTurn d) {} turns = some h) :
    h.store.Filed := by
  have hstart : ({} : Caching).store.Filed := ⟨fun _ _ hs => (nomatch hs), fun _ _ hch => (nomatch hch)⟩
  exact run_invariant (C := fun _ _ => True) (P := fun h => h.store.Filed)
    (fun h a h' hf _ ht => filed_turn h a h' hf ht) hstart (along_of_forall fun _ _ => trivial) hrun

/-! ## The ids that are served -/

theorem mem_values {α : Type} {t : Table α} {key : α → String}
    (ht : ∀ id x, t.lookup id = some x → key x = id) :
    id ∈ (t.entries.map Sigma.snd).map key ↔ (t.lookup id).isSome := by
  rw [Multiset.mem_map, Option.isSome_iff_exists]
  constructor
  · rintro ⟨x, hx, rfl⟩
    obtain ⟨⟨k, y⟩, hentry, rfl⟩ := Multiset.mem_map.mp hx
    have hy : t.lookup k = some y := Finmap.lookup_eq_some_iff.mpr hentry
    exact ⟨y, (ht k y hy).symm ▸ hy⟩
  · rintro ⟨x, hx⟩
    exact ⟨x, Multiset.mem_map.mpr ⟨⟨id, x⟩, Finmap.lookup_eq_some_iff.mp hx, rfl⟩, ht id x hx⟩

/-- After a Ready event the servers and channels are those cached before it together with those
of its payload. -/
theorem ready_merges (d : Dispatching) (turns : List CacheTurn) (h h' : Caching) (e : Events.Ready)
    (hrun : runFrom (cacheTurn d) {} turns = some h)
    (hready : cacheTurn d h (.event (.ready e)) = some h') (id : String) :
    (id ∈ h'.store.getServers.map Server.id ↔
      id ∈ h.store.getServers.map Server.id ∨ id ∈ e.servers.map Server.id) ∧
    (id ∈ h'.store.getChannels.map Channel.id ↔
      id ∈ h.store.getChannels.map Channel.id ∨ id ∈ e.channels.map Channel.id) := by
  have hf := filed_run hrun
  have hf' := filed_turn _ _ _ hf hready
  have hserver := getServer_turn hready id
  have hchannel := getChannel_turn hready id
  constructor
  · rw [Store.getServers, mem_values hf'.server, Store.getServers, mem_values hf.server]
    rw [Store.getServer] at hserver
    rw [hserver]
    exact Keyed.latest_isSome
  · rw [Store.getChannels, mem_values hf'.channel, Store.getChannels, mem_values hf.channel]
    rw [Store.getChannel] at hchannel
    rw [hchannel]
    exact Keyed.latest_isSome

def readyFrame (key id : String) : Json := .obj [(key, .arr [.obj [("_id", .str id)]]), ("type", .str "Ready")]

def reconnected : List CacheTurn :=
  frameTurns (serverFrame "ServerCreate") ++ frameTurns (readyFrame "channels" "random")

theorem reconnected_merges : ∃ e h h', runFrom (cacheTurn {}) {} (reconnected.take 3) = some h ∧
    reconnected[3]? = some (.event (.ready e)) ∧ cacheTurn {} h (.event (.ready e)) = some h' ∧
    ("random" ∈ h'.store.getChannels.map Channel.id ↔
      "random" ∈ h.store.getChannels.map Channel.id ∨ "random" ∈ e.channels.map Channel.id) := by
  have hrun : ∃ e h h', runFrom (cacheTurn {}) {} (reconnected.take 3) = some h ∧
      reconnected[3]? = some (.event (.ready e)) ∧ cacheTurn {} h (.event (.ready e)) = some h' :=
    ⟨_, _, _, rfl, rfl, rfl⟩
  obtain ⟨e, h, h', hrun, he, hready⟩ := hrun
  exact ⟨e, h, h', hrun, he, hready, (ready_merges {} _ h h' e hrun hready "random").2⟩

theorem ready_keeps_deleted : ¬ ∀ (d : Dispatching) (turns : List CacheTurn) (h h' : Caching)
    (e : Events.Ready), runFrom (cacheTurn d) {} turns = some h →
    cacheTurn d h (.event (.ready e)) = some h' →
    ∀ id, (id ∈ h'.store.getServers.map Server.id ↔ id ∈ e.servers.map Server.id) ∧
      (id ∈ h'.store.getChannels.map Channel.id ↔ id ∈ e.channels.map Channel.id) := by
  intro hall
  have hrun : ∃ e h h', runFrom (cacheTurn {}) {} (reconnected.take 3) = some h ∧
      reconnected[3]? = some (.event (.ready e)) ∧ cacheTurn {} h (.event (.ready e)) = some h' ∧
      e.servers = [] ∧ (h'.store.getServer "s").isSome := ⟨_, _, _, rfl, rfl, rfl, rfl, by decide⟩
  obtain ⟨e, h, h', hrun, -, hready, hnone, hsome⟩ := hrun
  have hf' := filed_turn _ _ _ (filed_run hrun) hready
  have hmem := (hall {} _ h h' e hrun hready "s").1.mp ((mem_values hf'.server).mpr hsome)
  rw [hnone] at hmem
  exact List.not_mem_nil hmem

end Stoatpp.Cluster
