import Stoatpp.Model.Entities
import Stoatpp.Rest.Request

/-!
# `add_role_to_member` and `remove_role_from_member`

Both calls fetch the member, change the list of roles they were told and send the whole list
back, each on a thread of its own. The server holds the list: a GET is answered with it, a
PATCH replaces it. A schedule says which call takes its next step and how the step is
answered.
-/

namespace Stoatpp.Cluster
open Stoatpp.Rest

inductive RoleChange where
  | add
  | remove
  deriving DecidableEq

structure RoleCall where
  change : RoleChange
  roleId : String

/-- How a request of the call ends; `thrown` is an exception on the way. -/
inductive Answer where
  | ok
  | failed (response : Response)
  | thrown (what : String)

inductive Progress where
  | calling
  | patching (roles : List String)
  | finished (success : Bool) (error : String)

def memberDocument (roles : List String) : Json := .obj [("roles", MessagePayload.texts roles)]

/-- The list the call sends back; `none` where it finds nothing to change. -/
def RoleCall.edit (call : RoleCall) (mem : Member) : Option (List String) :=
  match call.change with
  | .add => if call.roleId ∈ mem.roles then none else some (mem.roles ++ [call.roleId])
  | .remove => if call.roleId ∈ mem.roles then some (mem.roles.filter (· ≠ call.roleId)) else none

def patchError (response : Response) : String :=
  match response.body.text? "type", response.body.text? "error" with
  | some type, _ => type
  | none, some error => error
  | none, none => "HTTP_" ++ toString response.status

def RoleCall.step (call : RoleCall) (answer : Answer) (roles : List String) :
    Progress → Progress × List String
  | .calling =>
    match answer with
    | .ok =>
      match call.edit (Member.fromJson (memberDocument roles)) with
      | none => (.finished true "", roles)
      | some roles' => (.patching roles', roles)
    | .failed _ => (.finished false "GET_MEMBER_FAILED", roles)
    | .thrown what => (.finished false what, roles)
  | .patching roles' =>
    match answer with
    | .ok => (.finished true "", roles')
    | .failed response => (.finished false (patchError response), roles)
    | .thrown what => (.finished false what, roles)
  | .finished success error => (.finished success error, roles)

structure Race where
  progress : Bool → Progress
  roles : List String

def Race.start (roles : List String) : Race := ⟨fun _ => .calling, roles⟩

def Race.step (calls : Bool → RoleCall) (s : Race) (x : Bool × Answer) : Race :=
  let y := (calls x.1).step x.2 s.roles (s.progress x.1)
  ⟨Function.update s.progress x.1 y.1, y.2⟩

def Race.run (calls : Bool → RoleCall) (s : Race) (schedule : List (Bool × Answer)) : Race :=
  schedule.foldl (Race.step calls) s

def Progress.Succeeded : Progress → Prop
  | .finished success _ => success = true
  | _ => False

def Race.Succeeded (s : Race) : Prop := ∀ b, (s.progress b).Succeeded

/-! ## What a call means -/

def RoleCall.effect (call : RoleCall) (roles : List String) : List String :=
  match call.change with
  | .add => if call.roleId ∈ roles then roles else roles ++ [call.roleId]
  | .remove => if call.roleId ∈ roles then roles.filter (· ≠ call.roleId) else roles

def RoleCall.Changes (call : RoleCall) (roles : List String) : Prop :=
  call.change = .add ↔ call.roleId ∉ roles

instance (call : RoleCall) (roles : List String) : Decidable (call.Changes roles) :=
  inferInstanceAs (Decidable (_ ↔ _))

/-- The two roles are held as after the calls one after the other, in some order. -/
def Serial (calls : Bool → RoleCall) (r₁ r₂ : String) (roles final : List String) : Prop :=
  ∃ b, ∀ r, r = r₁ ∨ r = r₂ →
    (r ∈ final ↔ r ∈ (calls !b).effect ((calls b).effect roles))

/-- The schedule lets both calls read the roles before either sends them back. -/
def Overlapped : List (Bool × Answer) → Prop
  | x :: y :: _ => x.1 ≠ y.1
  | _ => False

variable {calls : Bool → RoleCall} {call : RoleCall} {roles : List String} {s : Race} {b : Bool}
  {schedule : List (Bool × Answer)}

theorem mem_effect {r : String} : r ∈ call.effect roles ↔
    if r = call.roleId then call.change = .add else r ∈ roles := by
  obtain ⟨change, roleId⟩ := call
  by_cases hr : r = roleId
  · subst hr
    cases change <;> by_cases hm : r ∈ roles <;> simp [RoleCall.effect, hm]
  · cases change <;> by_cases hm : roleId ∈ roles <;> simp [RoleCall.effect, hm, hr]

theorem effect_of_not_changes (h : ¬ call.Changes roles) : call.effect roles = roles := by
  obtain ⟨change, roleId⟩ := call
  cases change <;> by_cases hm : roleId ∈ roles <;> simp_all [RoleCall.effect, RoleCall.Changes]

@[simp] theorem roles_memberDocument : (Member.fromJson (memberDocument roles)).roles = roles := by
  simp [Member.fromJson, memberDocument, MessagePayload.texts, Json.get?, List.lookup_cons, Json.array?,
    List.filterMap_map, Function.comp_def, Json.string?]

theorem edit_memberDocument : call.edit (Member.fromJson (memberDocument roles)) =
    if call.Changes roles then some (call.effect roles) else none := by
  obtain ⟨change, roleId⟩ := call
  cases change <;> by_cases hm : roleId ∈ roles <;>
    simp [RoleCall.edit, RoleCall.effect, RoleCall.Changes, hm]

/-! ## Steps and runs -/

theorem run_cons (x : Bool × Answer) :
    s.run calls (x :: schedule) = (s.step calls x).run calls schedule := rfl

theorem step_finished {x : Bool × Answer} {success : Bool} {error : String}
    (h : s.progress x.1 = .finished success error) : s.step calls x = s := by
  have hu := Function.update_eq_self x.1 s.progress
  rw [h] at hu
  simp only [Race.step, h, RoleCall.step, hu]

@[simp] theorem succeeded_finished (error : String) :
    (Progress.finished true error).Succeeded := rfl

theorem step_succeeded {x : Bool × Answer} (h : (s.progress x.1).Succeeded) :
    s.step calls x = s := by
  cases hp : s.progress x.1 with
  | finished success error => exact step_finished hp
  | calling => simp [hp, Progress.Succeeded] at h
  | patching roles => simp [hp, Progress.Succeeded] at h

theorem step_get (h : s.progress b = .calling) : s.step calls (b, .ok) =
    ⟨Function.update s.progress b (if (calls b).Changes s.roles then
      .patching ((calls b).effect s.roles) else .finished true ""), s.roles⟩ := by
  simp only [Race.step, RoleCall.step, h, edit_memberDocument]
  split_ifs <;> rfl

theorem step_patch (h : s.progress b = .patching roles) : s.step calls (b, .ok) =
    ⟨Function.update s.progress b (.finished true ""), roles⟩ := by
  simp only [Race.step, RoleCall.step, h]

theorem run_failed {error : String} (h : s.progress b = .finished false error) :
    ¬ (s.run calls schedule).Succeeded := by
  induction schedule generalizing s with
  | nil =>
    intro hs
    simpa [Race.run, h, Progress.Succeeded] using hs b
  | cons x rest ih =>
    rw [run_cons]
    apply ih
    by_cases hx : b = x.1
    · subst hx
      rw [step_finished h, h]
    · simp only [Race.step, Function.update_of_ne hx, h]

/-- In a run that succeeds every step of an unfinished call is answered well. -/
theorem answered_ok {a : Answer} (h : (s.run calls ((b, a) :: schedule)).Succeeded)
    (hp : ∀ success error, s.progress b ≠ .finished success error) : a = .ok := by
  have hfail : a ≠ .ok → ∃ error, (s.step calls (b, a)).progress b = .finished false error := by
    intro ha
    cases a with
    | ok => exact absurd rfl ha
    | failed response =>
      cases hq : s.progress b with
      | calling => simp [Race.step, RoleCall.step, hq]
      | patching roles => simp [Race.step, RoleCall.step, hq]
      | finished success error => exact absurd hq (hp success error)
    | thrown what =>
      cases hq : s.progress b with
      | calling => simp [Race.step, RoleCall.step, hq]
      | patching roles => simp [Race.step, RoleCall.step, hq]
      | finished success error => exact absurd hq (hp success error)
  by_contra ha
  obtain ⟨error, he⟩ := hfail ha
  exact run_failed he h

theorem forall_bool {P : Bool → Prop} (b : Bool) (hb : P b) (hn : P !b) : ∀ x, P x := by
  intro x
  cases b <;> cases x <;> assumption

theorem run_finished (b : Bool) (hb : (s.progress b).Succeeded) (hn : (s.progress !b).Succeeded) :
    (s.run calls schedule).roles = s.roles := by
  have h : s.Succeeded := forall_bool b hb hn
  induction schedule with
  | nil => rfl
  | cons x rest ih =>
    rw [run_cons, step_succeeded (h x.1)]
    exact ih

/-- Once one of the calls has finished, a run that succeeds goes on with the other one's next step. -/
theorem run_other (b : Bool) (hb : (s.progress b).Succeeded)
    (hn : ∀ success error, s.progress (!b) ≠ .finished success error)
    (hs : (s.run calls schedule).Succeeded) :
    ∃ rest, s.run calls schedule = (s.step calls (!b, .ok)).run calls rest := by
  induction schedule with
  | nil =>
    have hother := hs !b
    cases hp : s.progress !b with
    | finished success error => exact absurd hp (hn success error)
    | _ => simp [Race.run, hp, Progress.Succeeded] at hother
  | cons x rest ih =>
    obtain ⟨i, a⟩ := x
    by_cases hi : i = b
    · subst hi
      rw [run_cons, step_succeeded hb] at hs ⊢
      exact ih hs
    · obtain rfl : i = !b := Bool.eq_not.mpr hi
      obtain rfl := answered_ok hs hn
      exact ⟨rest, run_cons _⟩

theorem run_last_patch (b : Bool) (hb : (s.progress b).Succeeded)
    (hn : s.progress (!b) = .patching roles) (hs : (s.run calls schedule).Succeeded) :
    (s.run calls schedule).roles = roles := by
  obtain ⟨rest, hrun⟩ := run_other b hb (by simp [hn]) hs
  rw [hrun, step_patch hn]
  exact run_finished b (by simp [hb]) (by simp)

theorem run_last_call (b : Bool) (hb : (s.progress b).Succeeded)
    (hn : s.progress (!b) = .calling) (hs : (s.run calls schedule).Succeeded) :
    (s.run calls schedule).roles = (calls !b).effect s.roles := by
  obtain ⟨rest, hrun⟩ := run_other b hb (by simp [hn]) hs
  rw [hrun, step_get hn] at hs ⊢
  by_cases hc : (calls !b).Changes s.roles
  · rw [if_pos hc] at hs ⊢
    exact run_last_patch b (by simp [hb]) (by simp) hs
  · rw [if_neg hc] at hs ⊢
    rw [effect_of_not_changes hc]
    exact run_finished b (by simp [hb]) (by simp)

theorem run_both_patching (b : Bool) {n n' : List String} (hb : s.progress b = .patching n)
    (hn : s.progress (!b) = .patching n') (hs : (s.run calls schedule).Succeeded) :
    (s.run calls schedule).roles = n ∨ (s.run calls schedule).roles = n' := by
  cases schedule with
  | nil =>
    simpa [Race.run, hb, Progress.Succeeded] using hs b
  | cons x rest =>
    obtain ⟨i, a⟩ := x
    by_cases hi : i = b
    · subst hi
      obtain rfl := answered_ok hs (by simp [hb])
      rw [run_cons, step_patch hb] at hs ⊢
      exact Or.inr (run_last_patch i (by simp) (by simp [hn]) hs)
    · obtain rfl : i = !b := Bool.eq_not.mpr hi
      obtain rfl := answered_ok hs (by simp [hn])
      rw [run_cons, step_patch hn] at hs ⊢
      exact Or.inl (run_last_patch (!b) (by simp) (by simp [hb]) hs)

theorem run_patch_first (b : Bool) {n : List String} (hp : s.progress b = .patching n)
    (hn : s.progress (!b) = .calling) (hs : (s.run calls ((b, .ok) :: schedule)).Succeeded) :
    (s.run calls ((b, .ok) :: schedule)).roles = (calls !b).effect n := by
  rw [run_cons, step_patch hp] at hs ⊢
  exact run_last_call b (by simp) (by simp [hn]) hs

theorem run_get_second (b : Bool) {n : List String} (hp : s.progress b = .patching n)
    (hn : s.progress (!b) = .calling) (hs : (s.run calls ((!b, .ok) :: schedule)).Succeeded) :
    (s.run calls ((!b, .ok) :: schedule)).roles = n ∨ (calls !b).Changes s.roles ∧
      (s.run calls ((!b, .ok) :: schedule)).roles = (calls !b).effect s.roles := by
  rw [run_cons, step_get hn] at hs ⊢
  by_cases hc : (calls !b).Changes s.roles
  · rw [if_pos hc] at hs ⊢
    exact (run_both_patching b (by simp [hp]) (by simp) hs).imp_right fun h => ⟨hc, h⟩
  · rw [if_neg hc] at hs ⊢
    exact Or.inl (run_last_patch (!b) (by simp) (by simp [hp]) hs)

/-! ## Two calls at once -/

/-- Both calls read the roles before either sends them back, for two roles that both change. -/
def LostUpdate (calls : Bool → RoleCall) (roles : List String)
    (schedule : List (Bool × Answer)) : Prop :=
  (calls true).roleId ≠ (calls false).roleId ∧ Overlapped schedule ∧ ∀ b, (calls b).Changes roles

theorem not_serial_of_effect {r₁ r₂ : String} (b : Bool)
    (hr : ∀ b, (calls b).roleId = r₁ ∨ (calls b).roleId = r₂)
    (hne : (calls true).roleId ≠ (calls false).roleId) (hc : ∀ b, (calls b).Changes roles) :
    ¬ Serial calls r₁ r₂ roles ((calls b).effect roles) := by
  rintro ⟨i, hi⟩
  have hother : (calls !b).roleId ≠ (calls b).roleId := by
    cases b
    · exact hne
    · exact hne.symm
  have hfinal : (calls !b).roleId ∈ (calls b).effect roles ↔ (calls !b).roleId ∈ roles := by
    rw [mem_effect, if_neg hother]
  have hserial : (calls !b).roleId ∈ (calls !i).effect ((calls i).effect roles) ↔
      (calls !b).change = .add := by
    by_cases hib : i = b
    · subst hib
      rw [mem_effect, if_pos rfl]
    · obtain rfl : i = !b := Bool.eq_not.mpr hib
      rw [Bool.not_not, mem_effect, if_neg hother, mem_effect, if_pos rfl]
  have hchange : (calls !b).change = .add ↔ (calls !b).roleId ∉ roles := hc !b
  have h := hi _ (hr !b)
  rw [hfinal, hserial, hchange] at h
  tauto

theorem serial_of_effect_same {r₁ r₂ : String} (b : Bool)
    (he : (calls true).roleId = (calls false).roleId) (hc : ∀ b, (calls b).Changes roles) :
    Serial calls r₁ r₂ roles ((calls b).effect roles) := by
  have hchange : ∀ i, (calls i).change = .add ↔ (calls true).roleId ∉ roles := by
    intro i
    cases i
    · rw [he]
      exact hc false
    · exact hc true
  have hrole : ∀ i, (calls i).roleId = (calls true).roleId := forall_bool true rfl he.symm
  refine ⟨true, fun r _ => ?_⟩
  simp only [mem_effect, hrole, hchange]
  split_ifs <;> rfl

/-- Two calls that report success leave the roles of some order of the two, unless one of them
loses the update of the other. -/
theorem race_serial_iff (calls : Bool → RoleCall) (r₁ r₂ : String)
    (hr : ∀ b, (calls b).roleId = r₁ ∨ (calls b).roleId = r₂) (roles : List String)
    (schedule : List (Bool × Answer))
    (hs : ((Race.start roles).run calls schedule).Succeeded) :
    Serial calls r₁ r₂ roles ((Race.start roles).run calls schedule).roles ↔
      ¬ LostUpdate calls roles schedule := by
  cases schedule with
  | nil => exact absurd (hs true) (by simp [Race.run, Race.start, Progress.Succeeded])
  | cons x rest =>
    obtain ⟨b, a⟩ := x
    obtain rfl := answered_ok hs (by simp [Race.start])
    rw [run_cons, step_get rfl] at hs ⊢
    by_cases hb : (calls b).Changes roles
    · rw [if_pos (show (calls b).Changes (Race.start roles).roles from hb)] at hs ⊢
      cases rest with
      | nil => exact absurd (hs b) (by simp [Race.run, Progress.Succeeded])
      | cons y rest =>
        obtain ⟨i, a⟩ := y
        obtain rfl := answered_ok hs (by by_cases hi : i = b <;> simp [hi, Race.start])
        by_cases hi : i = b
        · subst hi
          rw [run_patch_first i (Function.update_self ..) (by simp [Race.start]) hs]
          exact iff_of_true ⟨i, fun _ _ => Iff.rfl⟩ fun h => h.2.1 rfl
        · obtain rfl : i = !b := Bool.eq_not.mpr hi
          have hfinal := run_get_second b (Function.update_self ..) (by simp [Race.start]) hs
          by_cases hn : (calls !b).Changes roles
          · have hc : ∀ i, (calls i).Changes roles := forall_bool b hb hn
            have hiff : ∀ x, Serial calls r₁ r₂ roles ((calls x).effect roles) ↔
                ¬ LostUpdate calls roles ((b, .ok) :: (!b, .ok) :: rest) := by
              intro x
              by_cases he : (calls true).roleId = (calls false).roleId
              · exact iff_of_true (serial_of_effect_same x he hc) fun h => h.1 he
              · exact iff_of_false (not_serial_of_effect x hr he hc) fun h => h ⟨he, Ne.symm hi, hc⟩
            rcases hfinal with h | ⟨-, h⟩
            · rw [h]
              exact hiff b
            · rw [h]
              exact hiff !b
          · rw [hfinal.resolve_right fun h => hn h.1]
            refine iff_of_true ⟨!b, fun _ _ => ?_⟩ fun h => hn (h.2.2 _)
            rw [Bool.not_not, effect_of_not_changes hn]
            rfl
    · rw [if_neg (show ¬ (calls b).Changes (Race.start roles).roles from hb)] at hs ⊢
      rw [run_last_call b (by simp) (by simp [Race.start]) hs]
      refine iff_of_true ⟨b, fun _ _ => ?_⟩ fun h => hb (h.2.2 _)
      rw [effect_of_not_changes hb]
      rfl

def addTwo : Bool → RoleCall := fun b => ⟨.add, if b then "moderator" else "helper"⟩

theorem addTwo_in_turn_serial : Serial addTwo "moderator" "helper" []
    ((Race.start []).run addTwo [(true, .ok), (true, .ok), (false, .ok), (false, .ok)]).roles := by
  rw [race_serial_iff addTwo "moderator" "helper" (by decide)]
  · exact fun h => h.2.1 rfl
  · intro b
    cases b <;> rfl

theorem addTwo_overlapped_not_serial : ((Race.start []).run addTwo
      [(true, .ok), (false, .ok), (true, .ok), (false, .ok)]).Succeeded ∧
    ¬ Serial addTwo "moderator" "helper" [] ((Race.start []).run addTwo
      [(true, .ok), (false, .ok), (true, .ok), (false, .ok)]).roles := by
  have hfinal : ((Race.start []).run addTwo
      [(true, .ok), (false, .ok), (true, .ok), (false, .ok)]).roles = ["helper"] := rfl
  refine ⟨fun b => by cases b <;> rfl, ?_⟩
  rw [hfinal]
  rintro ⟨i, hi⟩
  have hm := hi "moderator" (Or.inl rfl)
  cases i <;> exact absurd hm (by decide)

end Stoatpp.Cluster
