import Stoatpp.Cluster.CacheKeys

/-!
# Fetching a user that is cached

`fetch_user` copies the entry, asks for the profile without holding the lock and writes the whole
copy back with another bio and banner. Whatever is written to the entry in between is overwritten;
the two fields apart, the write leaves the entry as it is if nothing else has changed there.
-/

namespace Stoatpp.Cluster
open Stoatpp.Library Stoatpp.Rest

def cachedIn (t : List Notice) : List User := t.filterMap Notice.cached?

variable {x : Situation} {userId : String} {usr e : User} {α β : Type}

/-! ## What is written -/

theorem cachedIn_append (t t' : List Notice) : cachedIn (t ++ t') = cachedIn t ++ cachedIn t' :=
  List.filterMap_append

theorem cachedIn_andThen (o : Outcome Unit Notice α) (f : α → Outcome Unit Notice β) :
    cachedIn (o.andThen f).trace = cachedIn o.trace ++
      match o.status with
      | .done a => cachedIn (f a).trace
      | _ => [] := by
  unfold Outcome.andThen
  cases o.status with
  | done a => exact cachedIn_append _ _
  | _ => exact (List.append_nil _).symm

theorem cachedIn_tell (callback : Option (α → Bool → Bool)) (value : α) (success : Bool) :
    cachedIn (tell callback value success).trace = [] := by
  cases callback with
  | none => rfl
  | some cb =>
    simp only [tell, Outcome.bind_eq_andThen, cachedIn_andThen]
    split_ifs <;> rfl

theorem cachedIn_request (req : Request) (s : Schedule) (c : Client) :
    cachedIn (x.request req s c).trace = [] := by
  have hwire (t : List Wire) : cachedIn (t.map .wire) = [] := by
    simp [cachedIn, List.filterMap_map, Function.comp_def, Notice.cached?]
  unfold Situation.request
  rcases Outcome.orElse_trace ((performRequest x.cfg x.hooks req s.late s.script c).mapEvents .wire)
      (fun _ => (.throw () : Outcome Unit Notice (Response × Client))) with htrace | ⟨c, htrace⟩
  · rw [htrace]
    exact hwire _
  · rw [htrace, cachedIn_append]
    exact List.append_eq_nil_iff.mpr ⟨hwire _, rfl⟩

theorem cachedIn_notifying (requests : Outcome Unit Notice α) (callback : Option (β → Bool → Bool))
    (value : α → β) (success : α → Bool) (failed : β) :
    cachedIn (notifying requests (fun _ => return ()) callback value success failed).trace =
      cachedIn requests.trace := by
  have hquiet (r : α) : cachedIn ((return () : Outcome Unit Notice Unit).andThen
      fun _ => tell callback (value r) (success r)).trace = [] := by
    rw [cachedIn_andThen]
    exact cachedIn_tell callback (value r) (success r)
  have htried : cachedIn (requests.andThen fun r => (return () : Outcome Unit Notice Unit).andThen
      fun _ => tell callback (value r) (success r)).trace = cachedIn requests.trace := by
    rw [cachedIn_andThen]
    cases requests.status with
    | done r => simp only [hquiet, List.append_nil]
    | _ => exact List.append_nil _
  unfold notifying
  simp only [Outcome.bind_eq_andThen]
  rcases Outcome.orElse_trace (requests.andThen fun r => (return () : Outcome Unit Notice Unit).andThen
      fun _ => tell callback (value r) (success r)) (fun _ : Unit => tell callback failed false) with
    htrace | ⟨c, htrace⟩
  · rw [htrace, htried]
  · rw [htrace, cachedIn_append, htried, cachedIn_tell, List.append_nil]

def Situation.holding (x : Situation) (usr : User) : Situation := { x with cachedUser := fun _ => some usr }

def Situation.profile (x : Situation) (userId : String) : Outcome Unit Notice Response :=
  x.response ⟨"GET", "/users/" ++ userId ++ "/profile", .null⟩

/-- Of a cached user without a bio, `fetch_user` writes the copy with the profile it is answered with. -/
theorem fetchedUsers_cached (x : Situation) (usr : User) (userId : String)
    (callback : Option (User → Bool → Bool)) :
    (x.holding usr).fetchedUsers userId callback =
      if usr.bio.isSome then []
      else match (x.profile userId).status with
        | .done res => [Situation.withProfile usr res]
        | _ => [] := by
  have hrequests : (x.holding usr).userRequests userId = x.profileRequest userId usr x.first x.client := rfl
  change cachedIn ((x.holding usr).fetchUser userId callback).trace = _
  unfold Situation.fetchUser
  simp only [Situation.holding, Option.filter_some]
  split_ifs with hbio
  · exact cachedIn_tell callback usr true
  · change cachedIn (notifying ((x.holding usr).userRequests userId) _ _ _ _ _).trace = _
    rw [cachedIn_notifying, hrequests]
    unfold Situation.profileRequest Situation.profile Situation.response
    simp only [Outcome.bind_eq_andThen]
    rw [cachedIn_andThen, cachedIn_request]
    simp only [Outcome.andThen]
    cases (x.request ⟨"GET", "/users/" ++ userId ++ "/profile", .null⟩ x.first x.client).status with
    | done r => rfl
    | _ => rfl

/-! ## One fetch between other writes -/

/-- The caches, and the copy that the thread of `fetch_user` holds. -/
structure Fetching where
  caches : Caches
  copied : Option User := none

inductive FetchTurn where
  | write (usr : User)
  | copy
  /-- the profile request, all of its surroundings, and the write -/
  | store (x : Situation) (callback : Option (User → Bool → Bool))

def fetchTurn (userId : String) (s : Fetching) : FetchTurn → Option Fetching
  | .write usr => some { s with caches := s.caches.putUser usr }
  | .copy =>
    match s.copied with
    | none => (s.caches.getUser userId).map fun usr => { s with copied := some usr }
    | some _ => none
  | .store x callback => s.copied.map fun usr =>
    ⟨((x.holding usr).fetchedUsers userId callback).foldl Caches.putUser s.caches, none⟩

variable {s s' : Fetching} {a : FetchTurn}

/-- Entries stand under their ids, and so will the copy, where there is an entry already. -/
structure Fetching.Filed (userId : String) (s : Fetching) : Prop where
  caches : s.caches.Filed
  copied : ∀ usr, s.copied = some usr → usr.id = userId ∧ (s.caches.getUser userId).isSome

theorem Fetching.Filed.turn (hf : s.Filed userId) (hs : fetchTurn userId s a = some s') : s'.Filed userId := by
  cases a with
  | write w =>
    obtain rfl := Option.some.inj hs
    refine ⟨hf.caches.putUser w, fun usr husr => ?_⟩
    obtain ⟨hid, hcached⟩ := hf.copied usr husr
    refine ⟨hid, ?_⟩
    simp only [Caches.getUser_putUser]
    split_ifs
    · rfl
    · exact hcached
  | copy =>
    simp only [fetchTurn] at hs
    split at hs
    · obtain ⟨usr, husr, rfl⟩ := Option.map_eq_some_iff.mp hs
      refine ⟨hf.caches, fun usr' husr' => ?_⟩
      obtain rfl := Option.some.inj husr'
      exact ⟨hf.caches.user userId usr husr, Option.isSome_iff_exists.mpr ⟨usr, husr⟩⟩
    · cases hs
  | store x callback =>
    obtain ⟨usr, -, rfl⟩ := Option.map_eq_some_iff.mp hs
    exact ⟨hf.caches.foldl_putUser _, fun usr' husr' => (nomatch husr')⟩

theorem run_fetching {calls : List CacheCall} {turns : List FetchTurn}
    (hrun : runFrom (fetchTurn userId) ⟨calls.foldl CacheCall.perform {}, none⟩ turns = some s) :
    s.Filed userId :=
  run_invariant (fun _ _ _ hf _ hs => hf.turn hs) ⟨foldl_filed calls, fun _ hnone => absurd hnone (by simp)⟩
    (along_of_forall (C := fun _ => True) fun _ _ => trivial) hrun

/-- The entries differ in the bio and the banner at most. -/
def SameElse (e usr : User) : Prop := { usr with bio := e.bio, banner := e.banner } = e

theorem sameElse_withProfile (res : Response) : SameElse e (Situation.withProfile usr res) ↔ SameElse e usr := by
  unfold SameElse Situation.withProfile
  split_ifs <;> exact Iff.rfl

/-- The write finds an entry, touches no other, and changes the bio and the banner only if nothing else
has changed since the copy. A profile that is refused empties both fields; with no answer, or for a user
with a bio, nothing is written. -/
theorem fetch_user_writes (userId : String) (calls : List CacheCall) (turns : List FetchTurn) (s : Fetching)
    (hrun : runFrom (fetchTurn userId) ⟨calls.foldl CacheCall.perform {}, none⟩ turns = some s)
    (x : Situation) (callback : Option (User → Bool → Bool)) (usr : User) (hcopied : s.copied = some usr) :
    ∃ e w s', s.caches.getUser userId = some e ∧ fetchTurn userId s (.store x callback) = some s' ∧
      s'.caches.getUser userId = some w ∧
      (∀ id, id ≠ userId → s'.caches.getUser id = s.caches.getUser id) ∧
      (SameElse e usr → SameElse e w) ∧
      (usr.bio = none → ∀ res, (x.profile userId).status = .done res → ¬ res.success →
        w.bio = some "" ∧ w.banner = some "") ∧
      (usr.bio.isSome ∨ (∀ res, (x.profile userId).status ≠ .done res) → w = e) := by
  have hf := run_fetching hrun
  obtain ⟨hid, hcached⟩ := hf.copied usr hcopied
  obtain ⟨e, he⟩ := Option.isSome_iff_exists.mp hcached
  have hstored : fetchTurn userId s (.store x callback) =
      some ⟨((x.holding usr).fetchedUsers userId callback).foldl Caches.putUser s.caches, none⟩ := by
    rw [fetchTurn, hcopied]
    rfl
  rw [fetchedUsers_cached] at hstored
  by_cases hbio : usr.bio.isSome
  · rw [if_pos hbio] at hstored
    refine ⟨e, e, _, he, hstored, he, fun _ _ => rfl, fun _ => rfl, fun hnone => ?_, fun _ => rfl⟩
    rw [hnone] at hbio
    cases hbio
  · rw [if_neg hbio] at hstored
    cases hstatus : (x.profile userId).status with
    | done res =>
      rw [hstatus] at hstored
      have hwid : (Situation.withProfile usr res).id = userId := by
        rw [← hid, Situation.withProfile]
        split_ifs <;> rfl
      refine ⟨e, Situation.withProfile usr res, _, he, hstored, ?_, fun id hne => ?_,
        (sameElse_withProfile res).mpr, fun _ res' hres hfailed => ?_, fun hno => ?_⟩
      · exact (Caches.getUser_putUser s.caches userId _).trans (if_pos hwid)
      · exact (Caches.getUser_putUser s.caches id _).trans (if_neg fun hsame => hne (hsame.symm.trans hwid))
      · obtain rfl := Status.done.inj hres
        rw [Situation.withProfile, if_neg hfailed]
        exact ⟨rfl, rfl⟩
      · exact absurd rfl (hno.resolve_left hbio res)
    | _ =>
      rw [hstatus] at hstored
      exact ⟨e, e, _, he, hstored, he, fun _ _ => rfl, fun _ => rfl, fun _ _ hres => (nomatch hres),
        fun _ => rfl⟩

def nameless (username : String) : User := { id := "u", username := username, banner := some "b" }

def answeredWith (status : ℤ) (body : Body) : Situation where
  first := ⟨0, [⟨0, .reply ⟨status, body, ⟨"", "", "", ""⟩⟩, 0⟩]⟩
  client := .fresh 0

def profileFound : Situation := answeredWith 200 (.json (.obj [("content", .str "hello")]))

theorem undisturbed_fetch : ∃ s e w, runFrom (fetchTurn "u")
      ⟨[CacheCall.cacheUser (nameless "old")].foldl CacheCall.perform {}, none⟩ [.copy] = some s ∧
    s.caches.getUser "u" = some e ∧ SameElse e w ∧ ∃ s', fetchTurn "u" s (.store profileFound none) = some s' ∧
      s'.caches.getUser "u" = some w := by
  obtain ⟨s, hrun, hcopied, hentry⟩ : ∃ s, runFrom (fetchTurn "u")
      ⟨[CacheCall.cacheUser (nameless "old")].foldl CacheCall.perform {}, none⟩ [.copy] = some s ∧
      s.copied = some (nameless "old") ∧ s.caches.getUser "u" = some (nameless "old") := ⟨_, rfl, rfl, rfl⟩
  obtain ⟨e, w, s', he, hs', hw, -, hsame, -, -⟩ :=
    fetch_user_writes "u" [.cacheUser (nameless "old")] [.copy] s hrun profileFound none _ hcopied
  obtain rfl := Option.some.inj (he.symm.trans hentry)
  exact ⟨s, _, w, hrun, he, hsame rfl, s', hs', hw⟩

/-- A write between the copy and the write back is lost, and a refused profile takes the banner. -/
theorem fetch_overwrites :
    (∃ s s' w, runFrom (fetchTurn "u") ⟨[CacheCall.cacheUser (nameless "old")].foldl CacheCall.perform {}, none⟩
        [.copy, .write (nameless "new")] = some s ∧ s.caches.getUser "u" = some (nameless "new") ∧
      fetchTurn "u" s (.store profileFound none) = some s' ∧ s'.caches.getUser "u" = some w ∧
      w.username = "old") ∧
    ∃ s s' w, runFrom (fetchTurn "u") ⟨[CacheCall.cacheUser (nameless "old")].foldl CacheCall.perform {}, none⟩
        [.copy] = some s ∧ s.caches.getUser "u" = some (nameless "old") ∧
      fetchTurn "u" s (.store (answeredWith 404 .empty) none) = some s' ∧ s'.caches.getUser "u" = some w ∧
      (nameless "old").banner = some "b" ∧ w.banner = some "" :=
  ⟨⟨_, _, _, rfl, rfl, rfl, rfl, rfl⟩, ⟨_, _, _, rfl, rfl, rfl, rfl, rfl, rfl⟩⟩

end Stoatpp.Cluster
