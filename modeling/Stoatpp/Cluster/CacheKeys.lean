import Mathlib.Algebra.BigOperators.Group.Finset.Sigma
import Stoatpp.Cluster.Operations
import Stoatpp.Cluster.Resync
import Stoatpp.Cluster.ServerRemoval
import Stoatpp.Cluster.UserCache

/-!
# The keys of the caches

The writers file each entity under its own id, whether the key is taken from it or from an
event, and what changes an entity in place leaves its id alone. So every entity is found under
its id, and the members counted are distinct pairs of a server and a user.
-/

namespace Stoatpp.Cluster
open Stoatpp.Library

/-! ## Writing users -/

namespace Caches

def cacheUser (usr : User) (c : Caches) : Caches := if usr.id ≠ "" then c.putUser usr else c

def putAuthor (msg : Events.Message) (c : Caches) : Caches :=
  if msg.author.username ≠ "" then c.putUser msg.author else c

def putUserObject (msg : Events.Message) (c : Caches) : Caches :=
  match (msg.raw.get? "user").bind Json.object? with
  | some user => c.putUser (User.fromJson user)
  | none => c

end Caches

/-- The lock is released between the two. -/
theorem cacheAuthor_eq (msg : Events.Message) (c : Caches) :
    cacheAuthor msg c = (c.putAuthor msg).putUserObject msg := rfl

def Notice.cached? : Notice → Option User
  | .cached usr => some usr
  | _ => none

/-- What `fetch_user` writes until it ends. -/
def Situation.fetchedUsers (x : Situation) (userId : String)
    (callback : Option (User → Bool → Bool)) : List User :=
  (x.fetchUser userId callback).trace.filterMap Notice.cached?

/-- Whatever writes to a cache, each time it holds the lock. -/
inductive CacheCall where
  | listener (e : Event)
  | eraseServer (id : String)
  | cacheServer (s : Server)
  | cacheUser (usr : User)
  | cacheMember (m : Member)
  | author (msg : Events.Message)
  | userObject (msg : Events.Message)
  | fetchUser (x : Situation) (userId : String) (callback : Option (User → Bool → Bool))

def CacheCall.perform (c : Caches) : CacheCall → Caches
  | .listener e => (c.listen e).1
  | .eraseServer id => { c with toStore := c.toStore.eraseServer id }
  | .cacheServer s => { c with toStore := c.putServer s }
  | .cacheUser usr => c.cacheUser usr
  | .cacheMember m => { c with toStore := c.putMember m }
  | .author msg => c.putAuthor msg
  | .userObject msg => c.putUserObject msg
  | .fetchUser x userId callback => (x.fetchedUsers userId callback).foldl Caches.putUser c

/-! ## The invariant -/

structure Caches.Filed (c : Caches) : Prop where
  store : c.toStore.Filed
  member : ∀ s u m, c.getMember s u = some m → Store.MemberAt s u m
  user : ∀ id usr, c.getUser id = some usr → usr.id = id

variable {c : Caches} {s u id : String}

theorem Caches.Filed.putUser (hc : c.Filed) (usr : User) : (c.putUser usr).Filed := by
  refine ⟨hc.store, hc.member, fun id w hw => ?_⟩
  rw [getUser_putUser] at hw
  split_ifs at hw with hid
  · obtain rfl := Option.some.inj hw
    exact hid
  · exact hc.user id w hw

theorem Caches.Filed.foldl_putUser (hc : c.Filed) (us : List User) : (us.foldl Caches.putUser c).Filed :=
  List.foldlRecOn us _ hc fun _ hfiled usr _ => hfiled.putUser usr

theorem Caches.listen_store (c : Caches) (e : Event) :
    (c.listen e).1.toStore = (c.toStore.listen e).1 := by
  cases e <;> rfl

theorem Caches.Filed.listen (hc : c.Filed) (e : Event) : (c.listen e).1.Filed := by
  constructor
  · rw [listen_store]
    exact hc.store.listen e
  · intro s u m hm
    rw [listen_store, Store.getMember_listen] at hm
    cases Store.memberAfter_comes hm with
    | kept hm => exact hc.member s u m hm
    | listed _ hat => exact hat
    | joined hat => exact hat
  · intro id usr husr
    cases e with
    | ready e =>
      have hself : Caches.Filed { c with currentUser := e.user } := ⟨hc.store, hc.member, hc.user⟩
      exact ((hself.putUser e.user).foldl_putUser (e.users.filter (·.id ≠ ""))).user id usr husr
    | _ => exact hc.user id usr husr

theorem Caches.Filed.putMember (hc : c.Filed) (x : Member) :
    Caches.Filed { c with toStore := c.putMember x } := by
  refine ⟨hc.store.putMember x, fun s u m hm => ?_, hc.user⟩
  change (c.putMember x).getMember s u = some m at hm
  rw [Store.getMember_putMember] at hm
  obtain hm | ⟨-, hat⟩ := Store.memberPut_some hm
  · exact hc.member s u m hm
  · exact hat

theorem perform_filed (hc : c.Filed) (call : CacheCall) : (call.perform c).Filed := by
  cases call with
  | listener e => exact hc.listen e
  | eraseServer id => exact ⟨hc.store.eraseServer id, hc.member, hc.user⟩
  | cacheServer srv => exact ⟨hc.store.putServer srv, hc.member, hc.user⟩
  | cacheUser usr =>
    simp only [CacheCall.perform, Caches.cacheUser]
    split_ifs
    · exact hc.putUser usr
    · exact hc
  | cacheMember x => exact hc.putMember x
  | author msg =>
    simp only [CacheCall.perform, Caches.putAuthor]
    split_ifs
    · exact hc.putUser msg.author
    · exact hc
  | userObject msg =>
    simp only [CacheCall.perform, Caches.putUserObject]
    cases (msg.raw.get? "user").bind Json.object? with
    | none => exact hc
    | some user => exact hc.putUser (User.fromJson user)
  | fetchUser x userId callback => exact hc.foldl_putUser _

theorem foldl_filed (calls : List CacheCall) : (calls.foldl CacheCall.perform {}).Filed := by
  have hstart : ({} : Caches).Filed :=
    ⟨⟨fun _ _ h => (nomatch h), fun _ _ h => (nomatch h)⟩, fun _ _ _ h => (nomatch h),
      fun _ _ h => (nomatch h)⟩
  exact List.foldlRecOn calls CacheCall.perform hstart fun _ hc call _ => perform_filed hc call

/-! ## Runs of the bot -/

section
variable {u : Setup} {env : Surroundings} {b b' : Bot}

/-- `dispatch_command` writes the caches by two of the calls. -/
theorem callDispatch_filed (hb : b.shared.caches.Filed) (msg : Events.Message) :
    (callDispatch u env msg b).1.shared.caches.Filed := by
  have hcaches : (callDispatch u env msg b).1.shared.caches =
      cacheAuthor (prepare u.handlers b.shared.caches.toStore msg) b.shared.caches :=
    dispatchCommand_caches ..
  rw [hcaches, cacheAuthor_eq]
  exact perform_filed (perform_filed hb (.author _)) (.userObject _)

theorem onMessage_filed (hb : b.shared.caches.Filed) (msg : Events.Message) :
    (onMessage u env msg b).1.shared.caches.Filed := by
  obtain ⟨watchers, hdispatched | hwatched⟩ := onMessage_cases u env msg b
  · rw [hdispatched]
    exact callDispatch_filed (b := { b with watchers := watchers }) hb msg
  · rw [hwatched]
    exact hb

theorem act_filed (hb : b.shared.caches.Filed) (others : Bool) (a : Gateway.Action) :
    (act u env others a b).1.shared.caches.Filed := by
  cases a with
  | dispatch e =>
    simp only [act, dispatch]
    split_ifs
    · exact hb
    · cases e with
      | message msg => exact onMessage_filed hb msg
      | messageUpdate e =>
        simp only [handler, onMessageUpdate]
        split_ifs
        · exact hb
        · exact hb
      | _ => exact hb.listen _
  | _ => exact hb

theorem step_filed (b : Bot) (a : Choice) (b' : Bot) (hb : b.shared.caches.Filed)
    (hs : step u b a = some b') : b'.shared.caches.Filed := by
  cases a with
  | advance i env others =>
    obtain ⟨action, rest, -, rfl⟩ := step_advance hs
    exact act_filed hb others action
  | refetch i message channel env =>
    obtain ⟨e, -, rfl⟩ := Option.map_eq_some_iff.mp hs
    cases message with
    | none => exact hb
    | some body => exact callDispatch_filed (b := { b with refetches := b.refetches.eraseIdx i }) hb _
  | _ =>
    obtain rfl := Option.some.inj hs
    exact hb

theorem run_filed {choices : List Choice} (hb : b.shared.caches.Filed)
    (hrun : runFrom (step u) b choices = some b') : b'.shared.caches.Filed :=
  run_invariant (C := fun _ _ => True) (P := fun b => b.shared.caches.Filed)
    (fun b a b' hb _ hs => step_filed b a b' hb hs) hb (along_of_forall fun _ _ => trivial) hrun

end

/-! ## The members -/

/-- The keys under which members are cached. -/
def Store.memberKeys (c : Store) : Finset (String × String) :=
  (c.member.keys.sigma fun s => (c.membersOf s).keys).map (Equiv.sigmaEquivProd String String).toEmbedding

theorem Store.mem_memberKeys {c : Store} : (s, u) ∈ c.memberKeys ↔ (c.getMember s u).isSome := by
  rw [memberKeys, Finset.mem_map_equiv, getMember_eq, Finmap.lookup_isSome, ← Finmap.mem_keys]
  change (⟨s, u⟩ : Σ _ : String, String) ∈ c.member.keys.sigma _ ↔ _
  rw [Finset.mem_sigma]
  refine and_iff_right_of_imp fun hu => ?_
  by_contra hs
  have hnone : c.member.lookup s = none := Finmap.lookup_eq_none.mpr (Finmap.mem_keys.not.mp hs)
  have hempty : c.membersOf s = ∅ := by rw [membersOf, hnone, Option.getD_none]
  rw [hempty] at hu
  exact Finset.notMem_empty u hu

theorem Store.card_memberKeys (c : Store) : c.getTotalMemberCount = c.memberKeys.card := by
  rw [total_eq_sum_member, memberKeys, Finset.card_map, Finset.card_sigma]
  exact Finset.sum_congr rfl fun s _ => getMemberCountSync_eq

/-- Behind any sequence of calls each entity has the id it is found under, and the member count
is the number of servers and users that are paired by a cached member. -/
theorem keys_kept (calls : List CacheCall) :
    let c := calls.foldl CacheCall.perform {}
    (∀ k s, c.getServer k = some s → s.id = k) ∧ (∀ k ch, c.getChannel k = some ch → ch.id = k) ∧
    (∀ k usr, c.getUser k = some usr → usr.id = k) ∧
    (∀ s u m, c.getMember s u = some m → m.serverId = s ∧ m.id = u ∧ s ≠ "" ∧ u ≠ "") ∧
    c.getTotalMemberCount = c.memberKeys.card ∧
    ∀ pair, pair ∈ c.memberKeys ↔ ∃ s u m, c.getMember s u = some m ∧ (m.serverId, m.id) = pair := by
  intro c
  have hc : c.Filed := foldl_filed calls
  refine ⟨hc.store.server, hc.store.channel, hc.user, hc.member, c.card_memberKeys, fun pair => ?_⟩
  obtain ⟨s, u⟩ := pair
  rw [Store.mem_memberKeys, Option.isSome_iff_exists]
  constructor
  · rintro ⟨m, hm⟩
    obtain ⟨hs, hu, -⟩ := hc.member s u m hm
    exact ⟨s, u, m, hm, by rw [hs, hu]⟩
  · rintro ⟨s', u', m, hm, hpair⟩
    obtain ⟨hs, hu, -⟩ := hc.member s' u' m hm
    obtain ⟨rfl, rfl⟩ := Prod.mk.inj hpair
    exact ⟨m, by rw [hs, hu, hm]⟩

/-- A server with a channel, a member of it, and a user who writes there. -/
def fillingCalls : List CacheCall :=
  (frameEvents {} (serverFrame "ServerCreate")).map .listener ++
    [.cacheMember (Member.fromJson (.obj [("_id", .obj [("server", .str "s"), ("user", .str "u")])])),
      .author { author := { id := "u", username := "user" } }]

theorem filled_keys_kept :
    let c := fillingCalls.foldl CacheCall.perform {}
    (∃ s ch usr m, c.getServer "s" = some s ∧ s.id = "s" ∧ c.getChannel "general" = some ch ∧ ch.id = "general" ∧
      c.getUser "u" = some usr ∧ usr.id = "u" ∧ c.getMember "s" "u" = some m ∧ m.serverId = "s" ∧ m.id = "u") ∧
    c.memberKeys.card = 1 := by
  intro c
  obtain ⟨hserver, hchannel, huser, hmember, htotal, -⟩ := keys_kept fillingCalls
  have hstored : ∃ s ch usr m, c.getServer "s" = some s ∧ c.getChannel "general" = some ch ∧
      c.getUser "u" = some usr ∧ c.getMember "s" "u" = some m ∧ c.getTotalMemberCount = 1 :=
    ⟨_, _, _, _, rfl, rfl, rfl, rfl, rfl⟩
  obtain ⟨s, ch, usr, m, hs, hch, husr, hm, hone⟩ := hstored
  obtain ⟨hms, hmu, -⟩ := hmember _ _ _ hm
  exact ⟨⟨s, ch, usr, m, hs, hserver _ _ hs, hch, hchannel _ _ hch, husr, huser _ _ husr, hm, hms, hmu⟩,
    htotal.symm.trans hone⟩

end Stoatpp.Cluster
