import Mathlib.Logic.Function.Basic
import Stoatpp.Cluster.CacheRuns
import Stoatpp.Gateway.Dispatched

/-!
# The roles of the servers

Each cached server has a list of roles, which the listeners search in different ways. Read as
a map it is a book of roles in which each event does one thing. What carries this is that the
ids of the roles stay distinct.
-/

namespace Stoatpp.Cluster
open Stoatpp.Library Stoatpp.Gateway

/-! ## The book -/

structure RoleView where
  name : String
  permissions : Json
  rank : ℤ

abbrev RoleMap := String → Option RoleView

abbrev RoleBook := String → Option RoleMap

def RoleView.fromJson (j : Json) : RoleView where
  name := (j.text? "name").getD ""
  permissions := (j.get? "permissions").getD .null
  rank := ((j.get? "rank").bind Json.int32?).getD 0

def RoleView.overwrite (data : Json) (v : RoleView) : RoleView where
  name := (data.text? "name").getD v.name
  permissions := (data.get? "permissions").getD v.permissions
  rank := ((data.get? "rank").bind Json.int32?).getD v.rank

/-- The roles a server document gives as an object. -/
def documentRoles (doc : Json) : RoleMap :=
  fun id => ((doc.get? "roles").bind (·.get? id)).map RoleView.fromJson

def Role.view (r : Role) : RoleView := ⟨r.name, r.permissions, r.rank⟩

namespace RoleBook

def enter (b : RoleBook) (s : Server) : RoleBook := Function.update b s.id (some (documentRoles s.raw))

def change (b : RoleBook) (serverId : String) (f : RoleMap → RoleMap) : RoleBook :=
  Function.update b serverId ((b serverId).map f)

/-- The id of the event goes before that of the role object. -/
def createdId (e : Events.ServerRoleCreate) : String := if e.roleId = "" then e.role.id else e.roleId

def apply (b : RoleBook) : Event → RoleBook
  | .ready e => e.servers.foldl enter b
  | .serverCreate e => b.enter e.server
  | .serverRoleCreate e =>
    b.change e.serverId fun roles => Function.update roles (createdId e) (some (Role.view e.role))
  | .serverRoleUpdate e =>
    b.change e.serverId fun roles =>
      Function.update roles e.roleId ((roles e.roleId).map (RoleView.overwrite e.data))
  | .serverRoleDelete serverId roleId =>
    b.change serverId fun roles => Function.update roles roleId none
  | _ => b

variable {b : RoleBook} {id : String}

theorem enter_apply (s : Server) :
    b.enter s id = if s.id = id then some (documentRoles s.raw) else b id := by
  unfold enter
  split_ifs with h
  · rw [← h, Function.update_self]
  · exact Function.update_of_ne (Ne.symm h) _ _

theorem change_apply (serverId : String) (f : RoleMap → RoleMap) :
    b.change serverId f id = if serverId = id then (b id).map f else b id := by
  unfold change
  split_ifs with h
  · rw [← h, Function.update_self]
  · exact Function.update_of_ne (Ne.symm h) _ _

end RoleBook

/-! ## The cached lists as a book -/

def rolesOf (s : Server) : RoleMap := fun id => (Keyed.lookup Role.id id s.roles).map Role.view

def Store.roleBook (c : Store) : RoleBook := fun id => (c.getServer id).map rolesOf

/-- The roles have distinct ids and are those of the document. -/
structure Documented (s : Server) : Prop where
  nodup : (s.roles.map Role.id).Nodup
  roles : rolesOf s = documentRoles s.raw

theorem role_fromJson {x : String × Json} {r : Role}
    (h : (x.2.set? "id" (.str x.1)).map Role.fromJson = some r) :
    r.id = x.1 ∧ Role.view r = RoleView.fromJson x.2 := by
  obtain ⟨doc, hset, rfl⟩ := Option.map_eq_some_iff.mp h
  have hget := Json.get?_set? hset
  constructor
  · simp only [Role.fromJson, ownId, Json.text?, hget]
    rfl
  · simp only [Role.view, Role.fromJson, RoleView.fromJson, Json.text?, hget]
    rfl

theorem roles_fromJson {fields : List (String × Json)} {roles : List Role}
    (h : Server.rolesFromJson (.obj fields) = some roles) : roles.map Role.id = fields.map Prod.fst ∧
      ∀ id, (Keyed.lookup Role.id id roles).map Role.view = (fields.lookup id).map RoleView.fromJson := by
  simp only [Server.rolesFromJson] at h
  induction fields generalizing roles with
  | nil =>
    obtain rfl : [] = roles := by simpa using h
    exact ⟨rfl, fun _ => rfl⟩
  | cons x fields ih =>
    simp only [List.mapM_cons, Option.bind_eq_bind, Option.bind_eq_some_iff, Option.pure_def,
      Option.some.injEq] at h
    obtain ⟨r, hr, rest, hrest, rfl⟩ := h
    obtain ⟨hid, hview⟩ := role_fromJson hr
    obtain ⟨hids, hlookup⟩ := ih hrest
    refine ⟨by rw [List.map_cons, List.map_cons, hid, hids], fun id => ?_⟩
    obtain ⟨key, value⟩ := x
    rw [Keyed.lookup_cons, Json.lookup_field, hid]
    by_cases hkey : key = id
    · rw [if_pos hkey, if_pos hkey.symm, Option.map_some, Option.map_some, hview]
    · rw [if_neg hkey, if_neg (Ne.symm hkey), hlookup]

/-- Roles come as an object, if at all; its keys are distinct as those of any `std::map`. -/
def RolesObject (doc : Json) : Prop :=
  ∀ roles, doc.get? "roles" = some roles → ∃ fields, roles = .obj fields ∧ (fields.map Prod.fst).Nodup

theorem documented_fromJson {doc : Json} {s : Server} (hd : RolesObject doc)
    (h : Server.fromJson doc = some s) : Documented s := by
  simp only [Server.fromJson, Option.bind_eq_bind, Option.bind_eq_some_iff, Option.pure_def,
    Option.some.injEq] at h
  obtain ⟨roles, hroles, rfl⟩ := h
  cases hget : doc.get? "roles" with
  | none =>
    rw [hget] at hroles
    obtain rfl := Option.some.inj hroles
    refine ⟨List.nodup_nil, funext fun id => ?_⟩
    rw [documentRoles, hget]
    rfl
  | some value =>
    obtain ⟨fields, rfl, hnodup⟩ := hd value hget
    rw [hget] at hroles
    obtain ⟨hids, hlookup⟩ := roles_fromJson hroles
    refine ⟨hids ▸ hnodup, funext fun id => ?_⟩
    rw [documentRoles, hget]
    exact hlookup id

/-! ## The listeners on the list -/

theorem addRole_eq_upsert {e : Events.ServerRoleCreate} {roles : List Role}
    (he : (Store.newRole e).id = RoleBook.createdId e) :
    Store.addRole e roles = Keyed.upsert Role.id (Store.newRole e) roles := by
  induction roles with
  | nil => rfl
  | cons r rest ih =>
    have hmatch : (r.id = (Store.newRole e).id ∨ r.id ≠ "" ∧ r.id = e.roleId) ↔
        r.id = (Store.newRole e).id := by
      rw [he, RoleBook.createdId]
      refine ⟨fun h => h.elim id fun ⟨hne, hid⟩ => ?_, Or.inl⟩
      rw [if_neg (hid ▸ hne)]
      exact hid
    rw [Store.addRole, Keyed.upsert, ih]
    exact if_congr hmatch rfl rfl

theorem updateRoles_eq_alter (e : Events.ServerRoleUpdate) (roles : List Role) :
    (Store.updateRoles e roles).1 =
      Keyed.alter Role.id e.roleId (fun r => (Store.updateRole e r).1) roles := by
  induction roles with
  | nil => rfl
  | cons r rest ih =>
    rw [Store.updateRoles, Keyed.alter, ← ih]
    split_ifs <;> rfl

theorem newRole_view (e : Events.ServerRoleCreate) : Role.view (Store.newRole e) = Role.view e.role := by
  unfold Store.newRole
  split_ifs <;> rfl

theorem updateRole_id (e : Events.ServerRoleUpdate) (r : Role) :
    Role.id (Store.updateRole e r).1 = Role.id r := rfl

variable {s : Server}

theorem rolesOf_add {e : Events.ServerRoleCreate}
    (he : (Store.newRole e).id = RoleBook.createdId e) :
    rolesOf { s with roles := Store.addRole e s.roles } =
      Function.update (rolesOf s) (RoleBook.createdId e) (some (Role.view e.role)) := by
  funext id
  simp only [rolesOf, addRole_eq_upsert he, Keyed.lookup_upsert, he]
  by_cases hid : RoleBook.createdId e = id
  · rw [if_pos hid, ← hid, Function.update_self, Option.map_some, newRole_view]
  · rw [if_neg hid, Function.update_of_ne (Ne.symm hid)]
    rfl

theorem rolesOf_update (e : Events.ServerRoleUpdate) :
    rolesOf { s with roles := (Store.updateRoles e s.roles).1 } =
      Function.update (rolesOf s) e.roleId ((rolesOf s e.roleId).map (RoleView.overwrite e.data)) := by
  funext id
  simp only [rolesOf, updateRoles_eq_alter]
  rw [Keyed.lookup_alter (updateRole_id e)]
  by_cases hid : id = e.roleId
  · rw [if_pos hid, hid, Function.update_self, Option.map_map, Option.map_map]
    rfl
  · rw [if_neg hid, Function.update_of_ne hid]
    rfl

theorem rolesOf_delete (roleId : String) :
    rolesOf { s with roles := s.roles.filter (·.id ≠ roleId) } =
      Function.update (rolesOf s) roleId none := by
  funext id
  simp only [rolesOf]
  rw [Keyed.lookup_filter]
  by_cases hid : id = roleId
  · rw [if_pos hid, hid, Function.update_self]
    rfl
  · rw [if_neg hid, Function.update_of_ne hid]
    rfl

/-! ## Runs -/

/-- The servers of the event are documented, and the id of a created role is that of the event,
if it has one. -/
def WellFormed : Event → Prop
  | .ready e => ∀ s ∈ e.servers, Documented s
  | .serverCreate e => Documented e.server
  | .serverRoleCreate e => (Store.newRole e).id = RoleBook.createdId e
  | _ => True

/-- The ids of the roles of every server are distinct, and the store stands for the book. -/
structure Tracks (c : Store) (b : RoleBook) : Prop where
  nodup : ∀ id s, c.getServer id = some s → (s.roles.map Role.id).Nodup
  book : c.roleBook = b

theorem foldl_enter {ss : List Server} (hs : ∀ s ∈ ss, Documented s) {b : RoleBook} {id : String}
    {before : Option Server} (hb : before.map rolesOf = b id) :
    (Keyed.latest Server.id id ss before).map rolesOf = (ss.foldl RoleBook.enter b) id := by
  induction ss generalizing b before with
  | nil => exact hb
  | cons s ss ih =>
    rw [Keyed.latest_cons, List.foldl_cons]
    refine ih (fun t ht => hs t (List.mem_cons_of_mem _ ht)) ?_
    rw [RoleBook.enter_apply, ← (hs s List.mem_cons_self).roles]
    split_ifs
    · rfl
    · exact hb

theorem map_changed {b : RoleBook} {serverId id : String} {before : Option Server}
    {g : Server → Server} {f : RoleMap → RoleMap} (hb : before.map rolesOf = b id)
    (hg : ∀ s, rolesOf (g s) = f (rolesOf s)) :
    (if serverId = id then before.map g else before).map rolesOf = b.change serverId f id := by
  rw [RoleBook.change_apply, ← hb]
  split_ifs
  · rw [Option.map_map, Option.map_map]
    exact congrArg (before.map ·) (funext hg)
  · rfl

/-- One event does to the cached lists what it does to the book. -/
theorem serverAfter_book {e : Event} (he : WellFormed e) {b : RoleBook} {id : String}
    {before : Option Server} (hb : before.map rolesOf = b id) :
    (Store.serverAfter id before e).map rolesOf = b.apply e id := by
  cases e with
  | ready e => exact foldl_enter he hb
  | serverCreate e =>
    simp only [Store.serverAfter, RoleBook.apply, RoleBook.enter_apply, ← (show Documented _ from he).roles]
    split_ifs
    · rfl
    · exact hb
  | serverUpdate e =>
    simp only [Store.serverAfter, RoleBook.apply, ← hb]
    split_ifs
    · rw [Option.map_map]
      rfl
    · rfl
  | serverRoleCreate e => exact map_changed hb fun _ => rolesOf_add he
  | serverRoleUpdate e => exact map_changed hb fun _ => rolesOf_update e
  | serverRoleDelete s r => exact map_changed hb fun _ => rolesOf_delete r
  | _ => exact hb

theorem serverAfter_nodup {e : Event} (he : WellFormed e) {id : String} {before : Option Server}
    {s : Server} (hb : ∀ t, before = some t → (t.roles.map Role.id).Nodup)
    (hs : Store.serverAfter id before e = some s) : (s.roles.map Role.id).Nodup := by
  cases Store.serverAfter_comes hs with
  | kept ht => exact hb s ht
  | listed hmem _ => exact (he s hmem).nodup
  | created _ => exact (show Documented _ from he).nodup
  | @updated _ t ht _ => exact hb t ht
  | @roleCreated _ t ht =>
    rw [addRole_eq_upsert he]
    exact Keyed.nodup_upsert (hb t ht)
  | @roleUpdated _ t ht =>
    rw [updateRoles_eq_alter, Keyed.map_alter (updateRole_id _)]
    exact hb t ht
  | @roleDeleted _ _ t ht => exact Keyed.nodup_filter (hb t ht)

variable {d : Dispatching} {h h' : Caching}

theorem tracks_event {e : Event} {b : RoleBook} (he : WellFormed e) (ht : Tracks h.store b)
    (hturn : cacheTurn d h (.event e) = some h') : Tracks h'.store (b.apply e) := by
  constructor
  · intro id s hs
    rw [getServer_turn hturn] at hs
    exact serverAfter_nodup he (ht.nodup id) hs
  · funext id
    rw [Store.roleBook, getServer_turn hturn]
    exact serverAfter_book he (congrFun ht.book id)

theorem tracks_run {events : List Event} (he : ∀ e ∈ events, WellFormed e) {b : RoleBook}
    (ht : Tracks h.store b) (hrun : runFrom (cacheTurn d) h (events.map .event) = some h') :
    Tracks h'.store (events.foldl RoleBook.apply b) := by
  induction events generalizing h b with
  | nil =>
    obtain rfl : h = h' := by simpa using hrun
    exact ht
  | cons e events ih =>
    obtain ⟨h₁, hturn, hrest⟩ := runFrom_cons.mp hrun
    exact ih (fun e' he' => he e' (List.mem_cons_of_mem _ he'))
      (tracks_event (he e List.mem_cons_self) ht hturn) hrest

/-- The server documents in the frame give their roles as objects. -/
def RolesFrame (j : Json) : Prop :=
  (j.text? "type" = some "Ready" → ∀ doc ∈ listOf j "servers", RolesObject doc) ∧
    (j.text? "type" = some "ServerCreate" →
      RolesObject (((j.get? "server").bind Json.object?).getD j))

/-- A frame, and those inside it if it is a Bulk frame, with such documents is dispatched as the
event. -/
def FromRolesFrame (e : Event) : Prop :=
  ∃ self j, e ∈ frameEvents self j ∧ ∀ inner, Within j inner → RolesFrame inner

theorem newRole_id {j : Json} {e : Events.ServerRoleCreate} (h : serverRoleCreateOf j = some e) :
    (Store.newRole e).id = RoleBook.createdId e := by
  obtain ⟨role, hrole, rfl⟩ := Option.map_eq_some_iff.mp h
  have hid : textOf j "role_id" ≠ "" → role.id ≠ "" → role.id = textOf j "role_id" := by
    intro hne hrid
    unfold roleOf at hrole
    cases hget : j.get? "role" with
    | none =>
      rw [hget] at hrole
      obtain rfl := Option.some.inj hrole
      exact absurd rfl hrid
    | some value =>
      simp only [hget, if_neg hne, Option.map_eq_some_iff] at hrole
      obtain ⟨doc, hset, rfl⟩ := hrole
      have hdoc : (Role.fromJson doc).id = textOf j "role_id" := by
        simp only [Role.fromJson, ownId, Json.text?, Json.get?_set? hset]
        rfl
      split_ifs
      · rfl
      · exact hdoc
  unfold Store.newRole RoleBook.createdId
  by_cases hne : textOf j "role_id" = ""
  · simp [hne]
  · by_cases hrid : role.id = ""
    · simp [hne, hrid]
    · simp [hne, hid hne hrid]

theorem wellFormed_of_frame {e : Event} (he : FromRolesFrame e) : WellFormed e := by
  obtain ⟨self, j, hmem, hframe⟩ := he
  rcases comes_of_mem j (mem_frameEvents.mp hmem) with ⟨type, data, rfl⟩ | ⟨inner, type, hw, htype, -, hmade⟩
  · exact trivial
  · obtain ⟨hready, hcreate⟩ := hframe inner hw
    cases e with
    | ready e =>
      obtain ⟨rfl, hr⟩ := hmade
      intro s hs
      obtain ⟨doc, hdoc, hs⟩ := readyOf_server hr hs
      exact documented_fromJson (hready htype doc hdoc) hs
    | serverCreate e =>
      obtain ⟨rfl, hc⟩ := hmade
      exact documented_fromJson (hcreate htype) (serverCreateOf_server hc)
    | serverRoleCreate e =>
      obtain ⟨rfl, hc⟩ := hmade
      exact newRole_id hc
    | _ => exact trivial

/-- After any run of events the roles of every server have distinct ids, and by these they are the
roles in the book the same events lead to. -/
theorem roles_refine_book (d : Dispatching) (events : List Event) (h : Caching)
    (hfrom : ∀ e ∈ events, FromRolesFrame e)
    (hrun : runFrom (cacheTurn d) {} (events.map .event) = some h) :
    (∀ id s, h.store.getServer id = some s → (s.roles.map Role.id).Nodup) ∧
      h.store.roleBook = events.foldl RoleBook.apply fun _ => none := by
  have hstart : Tracks ({} : Caching).store fun _ => none :=
    ⟨fun _ _ hs => (nomatch hs), funext fun _ => rfl⟩
  have hend := tracks_run (fun e he => wellFormed_of_frame (hfrom e he)) hstart hrun
  exact ⟨hend.nodup, hend.book⟩

def rolesFrame : Json := .obj [("_id", .str "s"),
  ("roles", .obj [("member", .obj [("name", .str "Member"), ("rank", .int 1)]),
    ("mod", .obj [("name", .str "Mod")])]), ("type", .str "ServerCreate")]

def promotionFrame : Json := .obj [("data", .obj [("name", .str "Moderator"), ("rank", .null)]),
  ("id", .str "s"), ("role_id", .str "mod"), ("type", .str "ServerRoleUpdate")]

def promotion : List Event := frameEvents {} rolesFrame ++ frameEvents {} promotionFrame

theorem promotion_refines : ∃ h, runFrom (cacheTurn {}) {} (promotion.map .event) = some h ∧
    h.store.roleBook = promotion.foldl RoleBook.apply (fun _ => none) ∧
    ((h.store.roleBook "s").bind (· "mod")).map RoleView.name = some "Moderator" := by
  have hrun : ∃ h, runFrom (cacheTurn {}) {} (promotion.map .event) = some h ∧
      ((h.store.roleBook "s").bind (· "mod")).map RoleView.name = some "Moderator" := ⟨_, rfl, rfl⟩
  obtain ⟨h, hrun, hname⟩ := hrun
  have hfrom : ∀ e ∈ promotion, FromRolesFrame e := by
    intro e he
    rcases List.mem_append.mp he with he | he
    · refine ⟨{}, rolesFrame, he, fun inner hw => ?_⟩
      rw [hw.eq_self (by decide)]
      refine ⟨fun htype => absurd htype (by decide), fun _ roles hroles => ?_⟩
      obtain rfl := Option.some.inj hroles
      exact ⟨_, rfl, by decide⟩
    · refine ⟨{}, promotionFrame, he, fun inner hw => ?_⟩
      rw [hw.eq_self (by decide)]
      exact ⟨fun htype => absurd htype (by decide), fun htype => absurd htype (by decide)⟩
  exact ⟨h, hrun, (roles_refine_book {} promotion h hfrom hrun).2, hname⟩

end Stoatpp.Cluster
