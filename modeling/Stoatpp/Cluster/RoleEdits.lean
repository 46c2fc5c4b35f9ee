import Stoatpp.Cluster.MemberRoles
import Stoatpp.Rest.FetchAndPatch

/-!
# Any number of role changes

`add_role_to_member` and `remove_role_from_member` for one member, from as many threads as the
program starts. Each fetches the roles and sends the whole list back, so one call can undo another,
and a list can take effect although the call that sent it reports a failure.
-/

namespace Stoatpp.Cluster
open Stoatpp.Library Stoatpp.Rest

/-- The call as two requests; it reports a success without a PATCH where nothing is to change. -/
def RoleCall.patchCall (serverId userId : String) (call : RoleCall) : PatchCall (List String) where
  path := "/servers/" ++ serverId ++ "/members/" ++ userId
  document := memberDocument
  change body :=
    match call.edit (Member.fromJson body) with
    | some roles => .ok roles
    | none => .error true
  fields roles := .obj [("roles", MessagePayload.texts roles)]
  heed body := (Member.fromJson body).roles
  heed_fields _ := roles_memberDocument

section
variable {ι : Type} (cfg : Config) (hooks : Hooks) (serverId userId : String)

def actRole (calls : ι → RoleCall) : ι → Encounter → List String → Phase (List String) →
    Phase (List String) × Option (List String) :=
  actPatch cfg hooks fun i => (calls i).patchCall serverId userId

/-- No call fetches the roles while another is about to send its own list. -/
def RolesApart [DecidableEq ι] (calls : ι → RoleCall) (roles : List String) (schedule : List (ι × Encounter)) :
    Prop :=
  (Exchange.start (.fetching 0) roles).Uninterrupted (actRole cfg hooks serverId userId calls) Phase.stage schedule

def roleEdits (calls : ι → RoleCall) : ι → List String → Except Bool (List String) :=
  patchEdits fun i => (calls i).patchCall serverId userId

end

section
variable {ι : Type} {cfg : Config} {hooks : Hooks} {serverId userId : String} {calls : ι → RoleCall}
  {roles roles' : List String} {i : ι}

theorem roleEdits_eq : roleEdits serverId userId calls i roles =
    if (calls i).Changes roles then .ok ((calls i).effect roles) else .error true := by
  simp only [roleEdits, patchEdits, PatchCall.edit, RoleCall.patchCall, edit_memberDocument]
  split_ifs <;> rfl

theorem getD_roleEdits : (roleEdits serverId userId calls i roles).toOption.getD roles = (calls i).effect roles := by
  rw [roleEdits_eq]
  by_cases hc : (calls i).Changes roles
  · rw [if_pos hc]
    rfl
  · rw [if_neg hc, effect_of_not_changes hc]
    rfl

theorem inTurn_roleEdits (order : List ι) (roles : List String) :
    inTurn (roleEdits serverId userId calls) order roles =
      order.foldl (fun roles i => (calls i).effect roles) roles := by
  unfold inTurn
  simp only [getD_roleEdits]

theorem effect_of_roleEdits (h : roleEdits serverId userId calls i roles = .ok roles') :
    roles' = (calls i).effect roles := by
  rw [← @getD_roleEdits ι serverId userId, h]
  rfl

theorem nodup_effect {call : RoleCall} (h : roles.Nodup) : (call.effect roles).Nodup := by
  obtain ⟨change, roleId⟩ := call
  by_cases hm : roleId ∈ roles
  · cases change with
    | add => simpa only [RoleCall.effect, if_pos hm] using h
    | remove => simpa only [RoleCall.effect, if_pos hm] using h.filter _
  · cases change with
    | add => simpa only [RoleCall.effect, if_neg hm, List.concat_eq_append] using h.concat hm
    | remove => simpa only [RoleCall.effect, if_neg hm] using h

/-- Whatever the calls do at once and however their requests are answered, repeated or lost, the
roles are those that some of the calls, one after the other, leave: calls whose list the server has
taken, or that report success. They are all of these if no call fetches the roles while another is
about to send its own. -/
theorem role_calls_in_turn [DecidableEq ι] (cfg : Config) (hooks : Hooks) (hhook : KeepsBodies hooks)
    (serverId userId : String) (calls : ι → RoleCall) (roles : List String) (schedule : List (ι × Encounter)) :
    let s := (Exchange.start (.fetching 0) roles).run (actRole cfg hooks serverId userId calls) schedule
    (∃ order : List ι, order.Nodup ∧ (∀ i ∈ order, i ∈ s.written ∨ s.party i = .ended true) ∧
      s.value = order.foldl (fun roles i => (calls i).effect roles) roles ∧
      (RolesApart cfg hooks serverId userId calls roles schedule →
        ∀ i, i ∈ s.written ∨ s.party i = .ended true → i ∈ order)) ∧
    (∀ r, (∀ i, (calls i).roleId ≠ r) → (r ∈ s.value ↔ r ∈ roles)) ∧
    (roles.Nodup → s.value.Nodup) := by
  intro s
  have hfollows : Follows (actRole cfg hooks serverId userId calls) (roleEdits serverId userId calls) Phase.stage :=
    patchCall_follows hhook _
  have hready : (Phase.fetching 0 : Phase (List String)).stage = .ready := rfl
  obtain ⟨order, hleft, hall⟩ := left_in_turn hfollows hready roles schedule
  have hvalue : s.value = inTurn (roleEdits serverId userId calls) order roles := hleft.left
  refine ⟨⟨order, hleft.nodup, fun i hi => counts_phase.mp (hleft.count i hi), ?_, ?_⟩, ?_, ?_⟩
  · rw [hvalue, inTurn_roleEdits]
  · exact fun hapart i hi => hall hapart i (counts_phase.mpr hi)
  · intro r hr
    rw [hvalue]
    refine inTurn_keeps (P := fun roles' => r ∈ roles' ↔ r ∈ roles) order (fun i _ v v' hc hv => ?_) Iff.rfl
    rw [effect_of_roleEdits hc, mem_effect, if_neg (hr i).symm, hv]
  · intro hroles
    rw [hvalue]
    refine inTurn_keeps order (fun i _ v v' hc hv => ?_) hroles
    rw [effect_of_roleEdits hc]
    exact nodup_effect hv

end

/-- The first of two calls is told that its connection failed, though the server has its list. -/
def lostReply : List (Bool × Encounter) :=
  let fine : Transport := .reply ⟨200, .empty, ⟨"", "", "", ""⟩⟩
  [(true, ⟨.fresh 0, ⟨0, fine, 0⟩, false⟩), (true, ⟨.fresh 0, ⟨0, .lost true "Read", 0⟩, true⟩),
    (false, ⟨.fresh 0, ⟨0, fine, 0⟩, false⟩), (false, ⟨.fresh 0, ⟨0, fine, 0⟩, false⟩)]

def twoAdditions : Bool → RoleCall
  | true => ⟨.add, "01A"⟩
  | false => ⟨.add, "01B"⟩

theorem lost_reply_counts :
    let s := (Exchange.start (.fetching 0) []).run
      (actRole { httpRetryCount := 0 } .none "01S" "01U" twoAdditions) lostReply
    s.party true = .ended false ∧ s.party false = .ended true ∧ s.written = [true, false] ∧
      s.value = ["01A", "01B"] ∧
      ∃ order : List Bool, order.Nodup ∧ s.value = order.foldl (fun roles i => (twoAdditions i).effect roles) [] := by
  intro s
  have hhook : KeepsBodies .none := fun _ _ _ _ h => (Option.some.inj h).symm
  obtain ⟨⟨order, hnodup, -, hvalue, -⟩, -⟩ :=
    role_calls_in_turn { httpRetryCount := 0 } .none hhook "01S" "01U" twoAdditions [] lostReply
  exact ⟨rfl, rfl, rfl, rfl, order, hnodup, hvalue⟩

end Stoatpp.Cluster
