import Stoatpp.Cluster.Commands
import Stoatpp.Library.Words

/-!
# What `has_permission` grants

The two loops collect the permissions of the roles a member holds. Bit by bit this is a
statement about which roles there are and which are held, so neither order nor repetition
matters and nothing is lost by adding to either list.
-/

namespace Stoatpp.Cluster
open Stoatpp.Library

variable {server : Server} {member : Member} {p q : BitVec 64} {i : ℕ}

theorem exists_held_cons {roles : List Role} {roleId : String} {rest : List String} {P : Role → Prop} :
    (∃ r ∈ roles, r.id ∈ roleId :: rest ∧ P r) ↔
      (∃ r ∈ roles, r.id = roleId ∧ P r) ∨ ∃ r ∈ roles, r.id ∈ rest ∧ P r := by
  simp only [List.mem_cons, or_and_right, and_or_left, exists_or]

theorem rolesAllow_bit (roles : List Role) (held : List String) (allowed : BitVec 64) :
    (rolesAllow roles held allowed).getLsbD i = true ↔ allowed.getLsbD i = true ∨
      ∃ r ∈ roles, r.id ∈ held ∧ r.allowedPermissions.getLsbD i = true := by
  rw [rolesAllow]
  induction held generalizing allowed with
  | nil => simp
  | cons roleId rest ih => rw [List.foldl_cons, ih, foldl_or_bit, or_assoc, exists_held_cons]

/-- A permission bit that everybody has, or that comes with a role the member holds. -/
def Granted (server : Server) (member : Member) (i : ℕ) : Prop :=
  (defaultPermissions server.raw).getLsbD i = true ∨
    ∃ r ∈ server.roles, r.id ∈ member.roles ∧ r.allowedPermissions.getLsbD i = true

theorem hasPermission_iff : hasPermission server member p = true ↔
    server.owner = member.id ∨ ∀ i, p.getLsbD i = true → Granted server member i := by
  rw [hasPermission]
  split_ifs with howner
  · exact iff_of_true rfl (.inl howner)
  · rw [decide_eq_true_iff, covers_iff, or_iff_right howner]
    exact forall_congr' fun i => imp_congr_right fun _ => rolesAllow_bit _ _ _

theorem Granted.mono {roles : List Role} {held : List String} (hroles : server.roles ⊆ roles)
    (hheld : member.roles ⊆ held) (h : Granted server member i) :
    Granted { server with roles := roles } { member with roles := held } i := by
  obtain h | ⟨r, hr, hid, hbit⟩ := h
  · exact .inl h
  · exact .inr ⟨r, hroles hr, hheld hid, hbit⟩

/-- The deny mask beside the allow mask, under the short key or the long one; the program reads
neither. -/
def deniedPermissions (r : Role) : BitVec 64 :=
  (Role.mask? r.permissions "d" <|> Role.mask? r.permissions "deny").getD 0

theorem rolesAllow_congr {roles roles' : List Role} {held : List String}
    (h : roles'.map (fun r => (r.id, r.allowedPermissions)) = roles.map fun r => (r.id, r.allowedPermissions))
    (allowed : BitVec 64) : rolesAllow roles' held allowed = rolesAllow roles held allowed := by
  have hfold (roles : List Role) (roleId : String) (start : BitVec 64) :
      roles.foldl (fun allowed r => if r.id = roleId then allowed ||| r.allowedPermissions else allowed) start =
        (roles.map fun r => (r.id, r.allowedPermissions)).foldl
          (fun allowed x => if x.1 = roleId then allowed ||| x.2 else allowed) start := by
    rw [List.foldl_map]
  simp only [rolesAllow, hfold, h]

theorem hasPermission_twoPow (howner : server.owner ≠ member.id) (hi : i < 64) :
    hasPermission server member (BitVec.twoPow 64 i) = true ↔ Granted server member i := by
  rw [hasPermission_iff, or_iff_right howner]
  constructor
  · intro h
    exact h i (by simp [hi])
  · intro h j hj
    obtain rfl : i = j := by simpa [BitVec.getLsbD_twoPow, hi] using hj
    exact h

/-- For everybody but the owner a bit is granted by default or by the allow mask of a role that is
held. Where no such role allows it, the default decides, whatever a role denies: servers that
agree in the ids and allow masks of their roles grant the same. -/
theorem deny_masks_unread (server : Server) (member : Member) (i : ℕ) (hi : i < 64)
    (howner : server.owner ≠ member.id) :
    (hasPermission server member (BitVec.twoPow 64 i) = true ↔
      (defaultPermissions server.raw).getLsbD i = true ∨
        ∃ r ∈ server.roles, r.id ∈ member.roles ∧ r.allowedPermissions.getLsbD i = true) ∧
    ((∀ r ∈ server.roles, r.id ∈ member.roles → r.allowedPermissions.getLsbD i = false) →
      (hasPermission server member (BitVec.twoPow 64 i) = true ↔
        (defaultPermissions server.raw).getLsbD i = true)) ∧
    (∀ roles mask, roles.map (fun r => (r.id, r.allowedPermissions)) =
        server.roles.map (fun r => (r.id, r.allowedPermissions)) →
      hasPermission { server with roles := roles } member mask = hasPermission server member mask) := by
  have hgranted := hasPermission_twoPow howner hi
  refine ⟨hgranted, fun hnone => hgranted.trans (or_iff_left ?_), fun roles mask hroles => ?_⟩
  · rintro ⟨r, hr, hid, hbit⟩
    rw [hnone r hr hid] at hbit
    exact Bool.false_ne_true hbit
  · simp only [hasPermission, rolesAllow_congr hroles]

def mutedRole : Role where
  id := "muted"
  permissions := .obj [("a", .int 0), ("d", .int 1)]

def mutingServer : Server where
  id := "s"
  owner := "o"
  name := ""
  description := none
  channels := []
  roles := [mutedRole]
  icon := none
  banner := none
  flags := 0
  raw := .obj [("default_permissions", .int 1)]

theorem muted_unread : hasPermission { mutingServer with roles := [{ mutedRole with permissions := .int 0 }] }
    { id := "m", roles := ["muted"] } 1 = hasPermission mutingServer { id := "m", roles := ["muted"] } 1 := by
  exact (deny_masks_unread mutingServer { id := "m", roles := ["muted"] } 0 (by decide) (by decide)).2.2
    [{ mutedRole with permissions := .int 0 }] 1 (by decide)

theorem denied_bit_granted : ¬ ∀ (server : Server) (member : Member) (i : ℕ), server.owner ≠ member.id →
    (∃ r ∈ server.roles, r.id ∈ member.roles ∧ (deniedPermissions r).getLsbD i = true) →
    (∀ r ∈ server.roles, r.id ∈ member.roles → r.allowedPermissions.getLsbD i = false) →
    hasPermission server member (BitVec.twoPow 64 i) = false := by
  intro h
  have hdenied := h mutingServer { id := "m", roles := ["muted"] } 0 (by decide)
    ⟨mutedRole, List.mem_singleton_self _, by decide, by decide⟩
    (fun r hr _ => by
      obtain rfl := List.mem_singleton.mp hr
      decide)
  exact absurd hdenied (by decide)

end Stoatpp.Cluster
