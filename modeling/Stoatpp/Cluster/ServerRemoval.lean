import Mathlib.Algebra.BigOperators.Group.Finset.Basic
import Stoatpp.Cluster.PendingErasures

/-!
# What the removal of a server leaves

An erasure takes the server and neither its channels nor its members. Nothing is left, and the
total counts members of cached servers only, if these are gone when the erasure comes.
-/

namespace Stoatpp.Cluster
open Stoatpp.Library

variable {d : Dispatching} {h h' : Caching} {a : CacheTurn} {id : String}

def AddsChannel (id : String) : CacheTurn → Prop
  | .event (.ready e) => ∃ ch ∈ e.channels, ch.server = some id
  | .event (.serverCreate e) => ∃ ch ∈ Store.listedChannels e.raw, ch.server = some id
  | .event (.channelCreate e) => e.channel.server = some id
  | _ => False

/-- A member with an empty id, or of a server with one, is not cached. -/
def Places (m : Member) (id : String) : Prop := m.serverId = id ∧ m.serverId ≠ "" ∧ m.id ≠ ""

def AddsMember (d : Dispatching) (id : String) : CacheTurn → Prop
  | .event (.ready e) => ∃ m ∈ e.members, Places m id
  | .event (.serverMemberJoin e) => Places e.member id ∧ d.shouldIgnoreUser e.userId = false
  | .cacheMember m => Places m id
  | _ => False

namespace Store
variable {c : Store} {s u : String} {m : Member}

/-- No channel and no member of the server is cached. -/
def Cleared (c : Store) (id : String) : Prop :=
  (∀ key ch, c.getChannel key = some ch → ch.server ≠ some id) ∧ ∀ u, c.getMember id u = none

theorem MemberAt.places (h : MemberAt s u m) : Places m s := by
  obtain ⟨rfl, rfl, hs, hu⟩ := h
  exact ⟨rfl, hs, hu⟩

theorem getMember_listen_some {d : Dispatching} {e : Event}
    (he : ¬ ignored d.shouldIgnoreUser e = true) (hm : (listen e c).1.getMember s u = some m) :
    c.getMember s u = some m ∨ AddsMember d s (.event e) := by
  rw [getMember_listen] at hm
  cases memberAfter_comes hm with
  | kept hm => exact Or.inl hm
  | listed hmem hat => exact Or.inr ⟨m, hmem, hat.places⟩
  | joined hat => exact Or.inr ⟨hat.places, Bool.eq_false_iff.mpr he⟩

theorem getMemberCountSync_eq : c.getMemberCountSync s = (c.membersOf s).keys.card := by
  unfold getMemberCountSync membersOf
  cases c.member.lookup s <;> rfl

theorem getMemberCountSync_eq_zero : c.getMemberCountSync s = 0 ↔ ∀ u, c.getMember s u = none := by
  rw [getMemberCountSync_eq, Finset.card_eq_zero, Finset.eq_empty_iff_forall_notMem]
  refine forall_congr' fun u => ?_
  rw [Finmap.mem_keys, getMember_eq, Finmap.lookup_eq_none]

end Store

theorem getMember_turn_some {s u : String} {m : Member} (ht : cacheTurn d h a = some h')
    (hm : h'.store.getMember s u = some m) : h.store.getMember s u = some m ∨ AddsMember d s a := by
  cases a with
  | event e =>
    obtain rfl := Option.some.inj ht
    change ((CacheStep.event e).perform d h.store).1.getMember s u = some m at hm
    rw [event_store] at hm
    split_ifs at hm with he
    · exact Or.inl hm
    · exact Store.getMember_listen_some he hm
  | erase i =>
    obtain ⟨id', -, rfl⟩ := Option.map_eq_some_iff.mp ht
    exact Or.inl hm
  | cacheServer x =>
    obtain rfl := Option.some.inj ht
    exact Or.inl hm
  | cacheMember x =>
    obtain rfl := Option.some.inj ht
    change (h.store.putMember x).getMember s u = some m at hm
    rw [Store.getMember_putMember] at hm
    refine (Store.memberPut_some hm).imp_right ?_
    rintro ⟨rfl, hat⟩
    exact hat.places

theorem getChannel_turn_some {key : String} {ch : Channel} (ht : cacheTurn d h a = some h')
    (hch : h'.store.getChannel key = some ch) (hid : ch.server = some id) :
    h.store.getChannel key = some ch ∨ AddsChannel id a := by
  rw [getChannel_turn ht] at hch
  cases a with
  | event e =>
    cases Store.channelAfter_comes hch with
    | kept hch => exact Or.inl hch
    | listed hmem _ => exact Or.inr ⟨ch, hmem, hid⟩
    | inServer hmem _ => exact Or.inr ⟨ch, hmem, hid⟩
    | created _ => exact Or.inr hid
  | _ => exact Or.inl hch

theorem cleared_turn (hcl : h.store.Cleared id) (ha : ¬ AddsChannel id a ∧ ¬ AddsMember d id a)
    (ht : cacheTurn d h a = some h') : h'.store.Cleared id := by
  refine ⟨fun key ch hch hid => ?_, fun u => ?_⟩
  · rcases getChannel_turn_some ht hch hid with hch | hadds
    · exact hcl.1 key ch hch hid
    · exact ha.1 hadds
  · cases hm : h'.store.getMember id u with
    | none => rfl
    | some m =>
      rcases getMember_turn_some ht hm with hm | hadds
      · exact absurd ((hcl.2 u).symm.trans hm) (by simp)
      · exact absurd hadds ha.2

/-- An erasure finds nothing of its server but the server, and members come to servers that are
cached. -/
def Removable (d : Dispatching) (h : Caching) (a : CacheTurn) : Prop :=
  (∀ i id, a = .erase i → h.pending[i]? = some id → h.store.Cleared id) ∧
    ∀ id, AddsMember d id a → AddsServer id a ∨ (h.store.getServer id).isSome

def Housed (h : Caching) : Prop :=
  ∀ s u m, h.store.getMember s u = some m → (h.store.getServer s).isSome

theorem serverBehind_kept (hs : (h.store.getServer id).isSome)
    (ha : ∀ i, a = .erase i → h.pending[i]? ≠ some id) : (serverBehind h id a).isSome := by
  cases a with
  | event e => exact serverAfter_isSome hs e
  | erase i =>
    rw [serverBehind, if_neg (ha i rfl)]
    exact hs
  | cacheServer s =>
    simp only [serverBehind]
    split_ifs
    · rfl
    · exact hs
  | cacheMember m => exact hs

theorem housed_turn (h : Caching) (a : CacheTurn) (h' : Caching) (hh : Housed h)
    (ha : Removable d h a) (ht : cacheTurn d h a = some h') : Housed h' := by
  intro s u m hm
  rw [getServer_turn ht]
  rcases getMember_turn_some ht hm with hm | hadds
  · refine serverBehind_kept (hh s u m hm) fun i he hi => ?_
    have hcl := ha.1 i s he hi
    exact absurd ((hcl.2 u).symm.trans hm) (by simp)
  · rcases ha.2 s hadds with hs | hs
    · exact serverBehind_added hs
    · refine serverBehind_kept hs fun i he _ => ?_
      rw [he] at hadds
      exact hadds

theorem total_eq_sum_member (c : Store) :
    c.getTotalMemberCount = ∑ s ∈ c.member.keys, c.getMemberCountSync s := by
  unfold Store.getTotalMemberCount
  rw [Finset.sum_eq_multiset_sum]
  change _ = ((c.member.entries.map Sigma.fst).map c.getMemberCountSync).sum
  rw [Multiset.map_map]
  refine congrArg Multiset.sum (Multiset.map_congr rfl fun kv hkv => ?_)
  have hlookup : c.member.lookup kv.1 = some kv.2 := Finmap.lookup_eq_some_iff.mpr hkv
  simp only [Store.getMemberCountSync, Function.comp_apply, hlookup, Option.map_some,
    Option.getD_some]

theorem Housed.total (hh : Housed h) :
    h.store.getTotalMemberCount = ∑ s ∈ h.store.server.keys, h.store.getMemberCountSync s := by
  rw [total_eq_sum_member]
  have hcount : ∀ s, h.store.getMemberCountSync s ≠ 0 →
      s ∈ h.store.member.keys ∧ s ∈ h.store.server.keys := by
    intro s hs
    obtain ⟨u, hu⟩ := not_forall.mp (Store.getMemberCountSync_eq_zero.not.mp hs)
    obtain ⟨m, hm⟩ := Option.ne_none_iff_exists'.mp hu
    obtain ⟨t, ht, -⟩ := Option.bind_eq_some_iff.mp hm
    exact ⟨Finmap.mem_keys.mpr (Finmap.mem_of_lookup_eq_some ht),
      Finmap.mem_keys.mpr (Finmap.lookup_isSome.mp (hh s u m hm))⟩
  trans ∑ s ∈ h.store.member.keys ∪ h.store.server.keys, h.store.getMemberCountSync s
  · refine Finset.sum_subset Finset.subset_union_left fun s _ hs => ?_
    by_contra hne
    exact hs (hcount s hne).1
  · refine (Finset.sum_subset Finset.subset_union_right fun s _ hs => ?_).symm
    by_contra hne
    exact hs (hcount s hne).2

/-- In a run whose erasures find nothing left of their servers and whose members come to cached
servers, a removed server leaves no channel and no member, and all members that are counted
belong to cached servers. -/
theorem removal_complete (d : Dispatching) (turns : List CacheTurn) (h : Caching)
    (hrun : runFrom (cacheTurn d) {} turns = some h)
    (hc : Along (cacheTurn d) (Removable d) {} turns) :
    (∀ before i after h₀ id, turns = before ++ .erase i :: after →
      runFrom (cacheTurn d) {} before = some h₀ → h₀.pending[i]? = some id →
      (∀ a ∈ after, ¬ AddsChannel id a ∧ ¬ AddsMember d id a) →
      (∀ key ch, h.store.getChannel key = some ch → ch.server ≠ some id) ∧
        h.store.getMemberCountSync id = 0) ∧
    h.store.getTotalMemberCount = ∑ s ∈ h.store.server.keys, h.store.getMemberCountSync s := by
  constructor
  · rintro before i after h₀ id rfl hbefore hid hafter
    obtain ⟨h₁, hbefore', hrest⟩ := runFrom_append.mp hrun
    obtain rfl : h₀ = h₁ := Option.some.inj (hbefore.symm.trans hbefore')
    obtain ⟨h₁, hturn, hrest⟩ := runFrom_cons.mp hrest
    have hcl₀ : h₀.store.Cleared id := (hc.of_append hbefore).1.1 i id rfl hid
    have hcl₁ : h₁.store.Cleared id := cleared_turn (a := .erase i) hcl₀ ⟨not_false, not_false⟩ hturn
    have hquiet : Along (cacheTurn d) (fun _ a => ¬ AddsChannel id a ∧ ¬ AddsMember d id a) h₁ after :=
      along_of_forall hafter
    have hcl : h.store.Cleared id := run_invariant (P := fun h => h.store.Cleared id)
      (fun _ _ _ hp hb ht => cleared_turn hp hb ht) hcl₁ hquiet hrest
    exact ⟨hcl.1, Store.getMemberCountSync_eq_zero.mpr hcl.2⟩
  · have hstart : Housed {} := fun s u m hm => absurd hm (by simp [Store.getMember])
    exact (run_invariant housed_turn hstart hc hrun).total

theorem removable_event {e : Event} (he : ∀ id, ¬ AddsMember d id (.event e)) :
    Removable d h (.event e) :=
  ⟨fun _ _ h => (nomatch h), fun id hadds => absurd hadds (he id)⟩

/-- The only channel of the server is deleted between the ServerDelete event and the erasure. -/
def emptied : List CacheTurn :=
  [typedEvent (serverFrame "ServerCreate"), typedEvent (serverFrame "ServerDelete"),
    typedEvent (deleteFrame "general"), .erase 0]

theorem emptied_removed : ∃ h, runFrom (cacheTurn {}) {} emptied = some h ∧
    (∀ key ch, h.store.getChannel key = some ch → ch.server ≠ some "s") ∧
    h.store.getMemberCountSync "s" = 0 := by
  obtain ⟨h₀, h, hbefore, hpending, hrun⟩ : ∃ h₀ h,
      runFrom (cacheTurn {}) {} (emptied.take 3) = some h₀ ∧ h₀.pending = ["s"] ∧
      runFrom (cacheTurn {}) {} emptied = some h := ⟨_, _, rfl, rfl, rfl⟩
  have hc : Along (cacheTurn {}) (Removable {}) {} emptied := by
    refine ⟨removable_event fun _ => not_false, fun h₁ ht₁ => ⟨removable_event fun _ => not_false,
      fun h₂ ht₂ => ⟨removable_event fun _ => not_false, fun h₃ ht₃ => ⟨⟨?_, ?_⟩, fun _ _ => trivial⟩⟩⟩⟩
    · intro i id _ _
      obtain rfl := Option.some.inj ht₁
      obtain rfl := Option.some.inj ht₂
      obtain rfl := Option.some.inj ht₃
      refine ⟨fun key ch hch => ?_, fun _ => rfl⟩
      change ((Finmap.insert "general" _ (∅ : Table Channel)).erase "general").lookup key = some ch at hch
      by_cases hkey : key = "general"
      · rw [hkey, Finmap.lookup_erase] at hch
        cases hch
      · rw [Finmap.lookup_erase_ne hkey, Finmap.lookup_insert_of_ne _ hkey] at hch
        cases hch
    · exact fun _ hadds => hadds.elim
  exact ⟨h, hrun, (removal_complete {} emptied h hrun hc).1 (emptied.take 3) 0 [] h₀ "s" rfl hbefore
    (by rw [hpending]; rfl) (List.forall_mem_nil _)⟩

theorem channel_left_behind : ¬ ∀ (d : Dispatching) (turns : List CacheTurn) (h : Caching),
    runFrom (cacheTurn d) {} turns = some h →
    ∀ before i after h₀ id, turns = before ++ .erase i :: after →
      runFrom (cacheTurn d) {} before = some h₀ → h₀.pending[i]? = some id →
      (∀ a ∈ after, ¬ AddsChannel id a ∧ ¬ AddsMember d id a) →
      (∀ key ch, h.store.getChannel key = some ch → ch.server ≠ some id) ∧
        h.store.getMemberCountSync id = 0 := by
  intro hall
  have hrun : ∃ h₀ h ch, runFrom (cacheTurn {}) {} (comeback.take 4) = some h₀ ∧
      h₀.pending[0]? = some "s" ∧
      runFrom (cacheTurn {}) {} (comeback.take 4 ++ [.erase 0]) = some h ∧
      h.store.getChannel "general" = some ch ∧ ch.server = some "s" := ⟨_, _, _, rfl, rfl, rfl, rfl, rfl⟩
  obtain ⟨h₀, h, ch, hbefore, hid, hrun, hch, hserver⟩ := hrun
  exact (hall {} _ h hrun _ 0 [] h₀ "s" rfl hbefore hid (List.forall_mem_nil _)).1 _ ch hch hserver

end Stoatpp.Cluster
