import Stoatpp.Cluster.Cache
import Stoatpp.Cluster.Permissions

/-!
# Owners and ranks

Three functions compare the owner of a server with the id of a member, and both are empty where
a document does not give them. The rank of a member is the least rank of the roles held, with one
number in the same range for the owner and another for nobody.
-/

namespace Stoatpp

def Server.roleRank (server : Server) (held : List String) (highest : ℤ) : ℤ :=
  held.foldl (fun highest rId => server.roles.foldl (fun highest r =>
    if r.id = rId then if r.rank < highest then r.rank else highest else highest) highest) highest

def Server.getHighestRank (server : Server) (member : Member) : ℤ :=
  if server.owner = member.id then -1 else server.roleRank member.roles 999999

def Server.checkHierarchy (server : Server) (a b : Member) : Bool :=
  server.getHighestRank a < server.getHighestRank b

namespace Cluster

def isServerOwner (c : Store) (serverId userId : String) : Bool :=
  match c.getServer serverId with
  | some server => server.owner = userId
  | none => false

variable {server : Server} {a b member : Member} {mask : BitVec 64}

/-! ## Documents without an owner or a user -/

/-- A member document that identifies a user by a non-empty string. -/
def Identifies (jm : Json) (userId : String) : Prop :=
  userId ≠ "" ∧ (jm.text? "user_id" = some userId ∨ jm.text? "user_id" = none ∧
    (Member.key jm = .str userId ∨ (Member.key jm).text? "user" = some userId))

/-- A server document that names this user as its owner. -/
def OwnedBy (js jm : Json) : Prop := ∃ userId, js.text? "owner" = some userId ∧ Identifies jm userId

theorem keyUser_eq {k : Json} {userId : String} (hne : userId ≠ "") :
    Member.keyUser k = userId ↔ k = .str userId ∨ k.text? "user" = some userId := by
  cases k with
  | str s => simp [Member.keyUser, Json.text?, Json.get?]
  | obj fields =>
    cases htext : (Json.obj fields).text? "user" with
    | none => simp [Member.keyUser, htext, Ne.symm hne]
    | some s => simp [Member.keyUser, htext]
  | _ => simp [Member.keyUser, Json.text?, Json.get?, Ne.symm hne]

theorem identifies_iff {jm : Json} {userId : String} :
    Identifies jm userId ↔ userId ≠ "" ∧ (Member.fromJson jm).id = userId := by
  refine and_congr_right fun hne => ?_
  cases htext : jm.text? "user_id" with
  | some s => simp [Member.fromJson, htext]
  | none => simp [Member.fromJson, htext, keyUser_eq hne]

theorem server_owner {js : Json} (h : Server.fromJson js = some server) :
    server.owner = (js.text? "owner").getD "" := by
  obtain ⟨roles, -, hserver⟩ := Option.bind_eq_some_iff.mp h
  rw [← Option.some.inj hserver]

theorem ownedBy_of_owner {js jm : Json} (hjs : Server.fromJson js = some server) (hne : server.owner ≠ "")
    (howner : server.owner = (Member.fromJson jm).id) : OwnedBy js jm := by
  have hjson := server_owner hjs
  refine ⟨server.owner, ?_, identifies_iff.mpr ⟨hne, howner.symm⟩⟩
  cases htext : js.text? "owner" with
  | none =>
    rw [htext] at hjson
    exact absurd hjson hne
  | some s =>
    rw [htext] at hjson
    rw [hjson]
    rfl

theorem nameless_iff {js : Json} (hjs : Server.fromJson js = some server) (jm : Json) :
    server.owner = "" ∧ (Member.fromJson jm).id = "" ↔
      ¬ ((∃ owner, js.text? "owner" = some owner ∧ owner ≠ "") ∨ ∃ userId, Identifies jm userId) := by
  have hjson := server_owner hjs
  have howner : server.owner = "" ↔ ¬ ∃ owner, js.text? "owner" = some owner ∧ owner ≠ "" := by
    rw [hjson]
    cases js.text? "owner" <;> simp
  have huser : (Member.fromJson jm).id = "" ↔ ¬ ∃ userId, Identifies jm userId := by
    simp [identifies_iff]
  rw [howner, huser, not_or]

/-- What a permission beyond those granted, `is_server_owner` and the rank of an owner say about
the two documents. -/
structure OwnersNamed (js jm : Json) (server : Server) (mask : BitVec 64) : Prop where
  permission : hasPermission server (Member.fromJson jm) mask = true → OwnedBy js jm
  serverOwner : ∀ (c : Store) serverId, c.getServer serverId = some server →
    isServerOwner c serverId (Member.fromJson jm).id = true → OwnedBy js jm
  rank : server.getHighestRank (Member.fromJson jm) = server.roleRank (Member.fromJson jm).roles 999999 ∨
    OwnedBy js jm

theorem owners_named_iff (js jm : Json) (server : Server) (mask : BitVec 64)
    (hjs : Server.fromJson js = some server)
    (hmask : ∃ i, mask.getLsbD i = true ∧ ¬ Granted server (Member.fromJson jm) i) :
    OwnersNamed js jm server mask ↔
      (∃ owner, js.text? "owner" = some owner ∧ owner ≠ "") ∨ ∃ userId, Identifies jm userId := by
  obtain ⟨i, hi, hgranted⟩ := hmask
  have hempty := nameless_iff hjs jm
  constructor
  · intro h
    by_contra hnone
    obtain ⟨howner, hid⟩ := hempty.mpr hnone
    obtain ⟨userId, -, huser⟩ := h.permission (hasPermission_iff.mpr (Or.inl (howner.trans hid.symm)))
    exact hnone (Or.inr ⟨userId, huser⟩)
  · intro hsome
    have hnamed (howner : server.owner = (Member.fromJson jm).id) : OwnedBy js jm := by
      refine ownedBy_of_owner hjs (fun hnil => ?_) howner
      exact hempty.mp ⟨hnil, howner.symm.trans hnil⟩ hsome
    refine ⟨fun h => ?_, fun c serverId hc h => ?_, ?_⟩
    · rcases hasPermission_iff.mp h with howner | hall
      · exact hnamed howner
      · exact absurd (hall i hi) hgranted
    · rw [isServerOwner, hc] at h
      exact hnamed (of_decide_eq_true h)
    · by_cases howner : server.owner = (Member.fromJson jm).id
      · exact Or.inr (hnamed howner)
      · exact Or.inl (if_neg howner)

def ownedServer : Server where
  id := ""
  owner := "o"
  name := ""
  description := none
  channels := []
  roles := []
  icon := none
  banner := none
  flags := 0
  raw := .obj [("owner", .str "o")]

theorem named_owner_recognised :
    OwnersNamed (.obj [("owner", .str "o")]) (.obj [("_id", .str "o")]) ownedServer 1 := by
  refine (owners_named_iff _ _ _ _ rfl ⟨0, by decide, ?_⟩).mpr (Or.inl ⟨"o", by decide, by decide⟩)
  rintro (hdefault | ⟨r, hr, -⟩)
  · exact absurd hdefault (by decide)
  · exact absurd hr List.not_mem_nil

theorem nameless_owner_permitted : ∃ server, Server.fromJson (.obj []) = some server ∧
    ¬ Granted server (Member.fromJson (.obj [])) 0 ∧
    hasPermission server (Member.fromJson (.obj [])) 1 = true ∧ ¬ OwnedBy (.obj []) (.obj []) := by
  refine ⟨_, rfl, ?_, by decide, ?_⟩
  · rintro (hdefault | ⟨r, hr, -⟩)
    · exact absurd hdefault (by decide)
    · exact absurd hr List.not_mem_nil
  · rintro ⟨userId, howner, -⟩
    exact absurd howner (by simp [Json.text?, Json.get?])

/-! ## Ranks -/

theorem foldl_rank_lt (roles : List Role) (rId : String) (highest bound : ℤ) :
    roles.foldl (fun highest r =>
        if r.id = rId then if r.rank < highest then r.rank else highest else highest) highest < bound ↔
      highest < bound ∨ ∃ r ∈ roles, r.id = rId ∧ r.rank < bound := by
  induction roles generalizing highest with
  | nil => simp
  | cons r roles ih =>
    have hfirst : (if r.id = rId then if r.rank < highest then r.rank else highest else highest) < bound ↔
        highest < bound ∨ r.id = rId ∧ r.rank < bound := by
      by_cases hid : r.id = rId
      · rw [if_pos hid, and_iff_right hid]
        split_ifs <;> omega
      · rw [if_neg hid]
        simp [hid]
    rw [List.foldl_cons, ih, hfirst, or_assoc]
    refine or_congr_right ?_
    simp only [List.mem_cons, or_and_right, exists_or, exists_eq_left]

theorem roleRank_lt (held : List String) (highest bound : ℤ) :
    server.roleRank held highest < bound ↔
      highest < bound ∨ ∃ r ∈ server.roles, r.id ∈ held ∧ r.rank < bound := by
  rw [Server.roleRank]
  induction held generalizing highest with
  | nil => simp
  | cons rId held ih => rw [List.foldl_cons, ih, foldl_rank_lt, or_assoc, exists_held_cons]

theorem rank_of_owner (h : server.owner = member.id) : server.getHighestRank member = -1 := if_pos h

theorem rank_lt (h : server.owner ≠ member.id) (bound : ℤ) :
    server.getHighestRank member < bound ↔
      999999 < bound ∨ ∃ r ∈ server.roles, r.id ∈ member.roles ∧ r.rank < bound := by
  rw [Server.getHighestRank, if_neg h, roleRank_lt]

def HoldsRole (server : Server) (member : Member) : Prop := ∃ r ∈ server.roles, r.id ∈ member.roles

theorem rank_without_role (h : server.owner ≠ member.id) (hnone : ¬ HoldsRole server member) :
    server.getHighestRank member = 999999 := by
  have hbelow := rank_lt h 999999
  have habove := rank_lt h 1000000
  have hno (bound : ℤ) : ¬ ∃ r ∈ server.roles, r.id ∈ member.roles ∧ r.rank < bound := by
    rintro ⟨r, hr, hid, -⟩
    exact hnone ⟨r, hr, hid⟩
  simp only [hno, or_false] at hbelow habove
  omega

/-- The owner stands above everybody else, and who holds a role above who holds none. -/
structure Ranked (server : Server) (a b : Member) : Prop where
  owner : server.owner = a.id → server.owner ≠ b.id →
    server.checkHierarchy a b = true ∧ server.checkHierarchy b a = false
  role : server.owner ≠ a.id → server.owner ≠ b.id → HoldsRole server a → ¬ HoldsRole server b →
    server.checkHierarchy a b = true

theorem ranked_iff (server : Server) (a b : Member) : Ranked server a b ↔
    (server.owner = a.id → server.owner ≠ b.id → ∀ r ∈ server.roles, r.id ∈ b.roles → 0 ≤ r.rank) ∧
    (server.owner ≠ a.id → server.owner ≠ b.id → HoldsRole server a → ¬ HoldsRole server b →
      ∃ r ∈ server.roles, r.id ∈ a.roles ∧ r.rank < 999999) := by
  have howner (ha : server.owner = a.id) (hb : server.owner ≠ b.id) :
      (server.checkHierarchy a b = true ∧ server.checkHierarchy b a = false) ↔
        ∀ r ∈ server.roles, r.id ∈ b.roles → 0 ≤ r.rank := by
    have hzero := rank_lt hb 0
    have hforall : (¬ ∃ r ∈ server.roles, r.id ∈ b.roles ∧ r.rank < 0) ↔
        ∀ r ∈ server.roles, r.id ∈ b.roles → 0 ≤ r.rank := by
      simp only [not_exists, not_and, not_lt]
    rw [← hforall]
    simp only [Server.checkHierarchy, rank_of_owner ha, decide_eq_true_iff, decide_eq_false_iff_not]
    constructor
    · rintro ⟨hlt, -⟩ hneg
      have := hzero.mpr (Or.inr hneg)
      omega
    · intro hneg
      have hnot : ¬ server.getHighestRank b < 0 := fun hlt => hneg ((hzero.mp hlt).resolve_left (by omega))
      omega
  have hrole (ha : server.owner ≠ a.id) (hb : server.owner ≠ b.id) (hnone : ¬ HoldsRole server b) :
      server.checkHierarchy a b = true ↔ ∃ r ∈ server.roles, r.id ∈ a.roles ∧ r.rank < 999999 := by
    rw [Server.checkHierarchy, decide_eq_true_iff, rank_without_role hb hnone, rank_lt ha]
    exact or_iff_right (lt_irrefl _)
  constructor
  · intro h
    exact ⟨fun ha hb => (howner ha hb).mp (h.owner ha hb),
      fun ha hb hheld hnone => (hrole ha hb hnone).mp (h.role ha hb hheld hnone)⟩
  · rintro ⟨h, h'⟩
    exact ⟨fun ha hb => (howner ha hb).mpr (h ha hb),
      fun ha hb hheld hnone => (hrole ha hb hnone).mpr (h' ha hb hheld hnone)⟩

def rankedServer : Server :=
  { ownedServer with
    roles := [{ id := "early", rank := -1 }, { id := "late", rank := 999999 }] }

theorem ranks_collide :
    ¬ (∀ a b : Member, rankedServer.owner = a.id → rankedServer.owner ≠ b.id →
      rankedServer.checkHierarchy a b = true ∧ rankedServer.checkHierarchy b a = false) ∧
    ¬ (∀ a b : Member, rankedServer.owner ≠ a.id → rankedServer.owner ≠ b.id → HoldsRole rankedServer a →
      ¬ HoldsRole rankedServer b → rankedServer.checkHierarchy a b = true) := by
  constructor
  · intro h
    have hcheck := h { id := "o" } { id := "b", roles := ["early"] } rfl (by decide)
    exact absurd hcheck.1 (by decide)
  · intro h
    have hheld : HoldsRole rankedServer { id := "a", roles := ["late"] } :=
      ⟨{ id := "late", rank := 999999 }, by simp [rankedServer], by simp⟩
    have hnone : ¬ HoldsRole rankedServer { id := "b" } := by
      rintro ⟨r, -, hid⟩
      exact absurd hid List.not_mem_nil
    exact absurd (h { id := "a", roles := ["late"] } { id := "b" } (by decide) (by decide) hheld hnone) (by decide)

end Cluster

end Stoatpp
