import Stoatpp.Cluster.CommandGate
import Stoatpp.Cluster.Suggestions

/-!
# Disabled commands

The disabled check is asked where a mistyped command gets its suggestions. A command that is
matched is called whenever the cooldown, the member fetch, the run handler and the permissions let
it pass, disabled or not.
-/

namespace Stoatpp.Cluster
open Stoatpp.Library

/-- What the run handler answers; without one every command is allowed. -/
def runAnswer (h : CommandHandlers) (cmd : Command) (msg : Events.Message) (args : List Bytes)
    (mem : Option Member) : CommandRunResult :=
  (h.runHandler.map fun run => run msg cmd mem args).getD .allow

/-- The member whose permissions count, no member outside of servers; `none` if the fetch fails. -/
def callerOf (env : Surroundings) (msg : Events.Message) : Option (Option Member) :=
  if msg.serverId = "" then some none else env.memberReply.map fun body => some (Member.fromJson body)

def Permitted (env : Surroundings) (cmd : Command) (msg : Events.Message) : Option Member → Prop
  | none => False
  | some mem => ∃ server, env.later.getServer msg.serverId = some server ∧
      hasPermission server mem cmd.requiredPermissions = true

/-- The member is there if one is needed, the run handler does not deny the command, and it has let
the command past the permission check if that would refuse it. -/
def GateOpen (env : Surroundings) (h : CommandHandlers) (cmd : Command) (msg : Events.Message)
    (args : List Bytes) : Prop :=
  ∃ mem, callerOf env msg = some mem ∧ runAnswer h cmd msg args mem ≠ .deny ∧
    (runAnswer h cmd msg args mem = .allow → 0 < cmd.requiredPermissions.toInt →
      Permitted env cmd msg mem)

def Cooled (env : Surroundings) (s : Shared) (cmd : Command) (msg : Events.Message) : Prop :=
  ∃ table, checkCooldown s.cooldowns cmd msg.author.id env.now = .inr table

variable {env : Surroundings} {h : CommandHandlers} {cmd : Command} {msg : Events.Message}
  {args : List Bytes}

/-! ## When a matched command is called -/

theorem reportError_calls (kind : String) : .callback cmd msg args ∉ (reportError h kind).trace :=
  fun hm => (reportError_harmless kind _ hm).1

theorem invoke_calls : .callback cmd msg args ∈ (invoke cmd msg args).trace := by
  rw [invoke_trace]
  exact List.mem_cons_of_mem _ (List.mem_singleton_self _)

theorem askRunHandler_calls {mem : Option Member} {k : Option Bool → Dispatch Unit}
    (hk : k none = .ret ()) :
    .callback cmd msg args ∈ ((askRunHandler h cmd msg args mem).andThen k).trace ↔
      runAnswer h cmd msg args mem ≠ .deny ∧ .callback cmd msg args ∈
        (k (some (decide (runAnswer h cmd msg args mem = .allowBypassPermissions)))).trace := by
  cases hr : h.runHandler with
  | none =>
    have hanswer : runAnswer h cmd msg args mem = .allow := by rw [runAnswer, hr]; rfl
    simp [askRunHandler, hr, hanswer, Outcome.andThen]
  | some run =>
    have hanswer : runAnswer h cmd msg args mem = run msg cmd mem args := by rw [runAnswer, hr]; rfl
    rw [hanswer]
    cases hrun : run msg cmd mem args <;>
      simp [askRunHandler, hr, hrun, hk, Outcome.andThen, Outcome.emit]

theorem guarded_calls_iff {mem : Option Member} {check : Dispatch Unit} {permitted : Prop}
    (hallowed : runAnswer h cmd msg args mem ≠ .deny)
    (hcheck : .callback cmd msg args ∈ check.trace ↔ permitted) :
    .callback cmd msg args ∈
      (if !decide (runAnswer h cmd msg args mem = .allowBypassPermissions) &&
          decide (0 < cmd.requiredPermissions.toInt) then check else invoke cmd msg args).trace ↔
        (runAnswer h cmd msg args mem = .allow → 0 < cmd.requiredPermissions.toInt → permitted) := by
  cases hanswer : runAnswer h cmd msg args mem with
  | deny => exact absurd hanswer hallowed
  | allow =>
    by_cases hp : 0 < cmd.requiredPermissions.toInt
    · simp [hp, hcheck]
    · simp [hp, invoke_calls]
  | allowBypassPermissions => simp [invoke_calls]

theorem runDirect_calls_iff (hs : msg.serverId = "") :
    .callback cmd msg args ∈ (runDirect h cmd msg args).trace ↔ GateOpen env h cmd msg args := by
  have hcaller : callerOf env msg = some none := if_pos hs
  unfold runDirect GateOpen
  rw [Outcome.bind_eq_andThen, askRunHandler_calls rfl]
  simp only [hcaller, Option.some.injEq, exists_eq_left']
  exact and_congr_right fun hallowed => guarded_calls_iff hallowed (iff_false_intro (reportError_calls _))

theorem onMember_calls_iff {mem : Member} (hcaller : callerOf env msg = some (some mem)) :
    .callback cmd msg args ∈ (onMember h cmd msg args env.later mem true).trace ↔
      GateOpen env h cmd msg args := by
  unfold onMember GateOpen
  rw [if_neg (by decide), Outcome.bind_eq_andThen, askRunHandler_calls rfl]
  simp only [hcaller, Option.some.injEq, exists_eq_left']
  refine and_congr_right fun hallowed => guarded_calls_iff hallowed ?_
  cases hserver : env.later.getServer msg.serverId with
  | none => simp [hserver, reportError_calls, Permitted]
  | some server =>
    by_cases hperm : hasPermission server mem cmd.requiredPermissions = true
    · simp [hserver, hperm, invoke_calls, Permitted]
    · simp [hserver, hperm, reportError_calls, Permitted]

theorem fetchMember_calls_iff (hs : msg.serverId ≠ "") :
    .callback cmd msg args ∈ (fetchMember env.memberReply (onMember h cmd msg args env.later)).trace ↔
      GateOpen env h cmd msg args := by
  have hretry (first : Dispatch Unit) : .callback cmd msg args ∈
      (first.orElse fun _ => onMember h cmd msg args env.later {} false).trace ↔
        .callback cmd msg args ∈ first.trace := by
    rw [Outcome.mem_orElse, onMember_failed]
    simp [reportError_calls]
  unfold fetchMember
  rw [hretry]
  cases hr : env.memberReply with
  | none =>
    have hcaller : callerOf env msg = none := by rw [callerOf, if_neg hs, hr]; rfl
    simp [onMember_failed, reportError_calls, GateOpen, hcaller]
  | some body =>
    refine onMember_calls_iff ?_
    rw [callerOf, if_neg hs, hr]
    rfl

theorem runCommand_calls_iff :
    .callback cmd msg args ∈ (runCommand h cmd msg args env).trace ↔ GateOpen env h cmd msg args := by
  unfold runCommand
  by_cases hs : msg.serverId = ""
  · rw [if_neg (not_not.mpr hs)]
    exact runDirect_calls_iff hs
  · rw [if_pos hs]
    simp [Outcome.andThen, Outcome.emit, fetchMember_calls_iff hs]

/-- A callback is called exactly for the command the lookup chose, past the cooldown and the gate. -/
theorem dispatchCommand_calls_iff (cfg : CommandConfig) (registry : List Command) (s : Shared)
    (cmd : Command) (msg msg' : Events.Message) (args : List Bytes) :
    .callback cmd msg' args ∈ (dispatchCommand cfg h registry env msg s).2.trace ↔
      Chosen cfg h registry s msg cmd msg' args ∧ Cooled env s cmd msg' ∧
        GateOpen env h cmd msg' args := by
  have hcalls (hc : Chosen cfg h registry s msg cmd msg' args) :
      .callback cmd msg' args ∈ (dispatchCommand cfg h registry env msg s).2.trace ↔
        Cooled env s cmd msg' ∧ GateOpen env h cmd msg' args := by
    obtain ⟨p, token, hp, hf, rfl⟩ := hc
    simp only [dispatchCommand, hp, hf, Cooled]
    cases checkCooldown s.cooldowns cmd (prepare h s.caches.toStore msg).author.id env.now with
    | inl remaining =>
      refine iff_of_false (fun hm => rejectCommand_silent remaining _ hm) ?_
      simp
    | inr table => simp [runCommand_calls_iff]
  constructor
  · intro hm
    rcases dispatchCommand_cases cfg h registry env msg s with ht | ⟨cmd', msg'', args', hc, ht⟩
    · exact absurd (ht _ hm) id
    · obtain ⟨rfl, rfl, rfl⟩ := ht.callback_mem hm
      exact ⟨hc, (hcalls hc).mp hm⟩
  · rintro ⟨hc, hopen⟩
    exact (hcalls hc).mpr hopen

/-! ## The two branches -/

section
variable (cfg : CommandConfig) (h : CommandHandlers) (registry : List Command) (env : Surroundings)
  (msg : Events.Message) (s : Shared)

/-- Where no command matches, the enabled ones alone decide what is suggested. -/
def SuggestsEnabled : Prop :=
  let prepared := prepare h s.caches.toStore msg
  Unmatched cfg h registry s msg → (dispatchCommand cfg h registry env msg s).2.trace =
    (suggestedText cfg h (registry.filter (!h.disabled prepared ·)) prepared).toList.map
      (.suggest prepared.channelId)

def RunsEnabled : Prop :=
  ∀ cmd msg' args, .callback cmd msg' args ∈ (dispatchCommand cfg h registry env msg s).2.trace →
    h.disabled (prepare h s.caches.toStore msg) cmd = false

end

theorem suggestsEnabled (cfg : CommandConfig) (h : CommandHandlers) (registry : List Command)
    (env : Surroundings) (msg : Events.Message) (s : Shared) :
    SuggestsEnabled cfg h registry env msg s := by
  intro hnone
  have hfiltered (prepared : Events.Message) :
      ((registry.filter (!h.disabled prepared ·)).filter (!h.disabled prepared ·)).Perm
        (registry.filter (!h.disabled prepared ·)) := by
    rw [List.filter_filter]
    simp
  rw [dispatchCommand_unmatched hnone, suggestedText_congr (hfiltered _)]
  rfl

/-- Suggestions leave the disabled commands out. A command is called although it is disabled,
unless the cooldown or the gate keeps every disabled command that the text names from its call. -/
theorem disabled_not_called_iff (cfg : CommandConfig) (h : CommandHandlers) (registry : List Command)
    (env : Surroundings) (msg : Events.Message) (s : Shared) :
    SuggestsEnabled cfg h registry env msg s ∧
    (RunsEnabled cfg h registry env msg s ↔ ∀ cmd msg' args, Chosen cfg h registry s msg cmd msg' args →
      h.disabled (prepare h s.caches.toStore msg) cmd = true →
        ¬ (Cooled env s cmd msg' ∧ GateOpen env h cmd msg' args)) := by
  refine ⟨suggestsEnabled cfg h registry env msg s, ?_⟩
  constructor
  · intro hruns cmd msg' args hc hdisabled hopen
    have hcalled := (dispatchCommand_calls_iff cfg registry s cmd msg msg' args).mpr ⟨hc, hopen⟩
    exact absurd (hruns cmd msg' args hcalled) (ne_true_of_eq_false · hdisabled)
  · intro hheld cmd msg' args hm
    obtain ⟨hc, hopen⟩ := (dispatchCommand_calls_iff cfg registry s cmd msg msg' args).mp hm
    exact Bool.eq_false_iff.mpr fun hdisabled => hheld cmd msg' args hc hdisabled hopen

def locked : CommandHandlers where
  disabledChecker := some fun _ _ => true

def knock : Command where
  name := bytes "hi"
  callback := some fun _ _ => true

theorem disabled_called :
    let msg : Events.Message := { content := bytes "!hi", channelId := "c" }
    (∀ prepared, locked.disabled prepared knock = true) ∧
    callbacks (dispatchCommand {} locked [knock] ⟨0, none, {}⟩ msg {}).2.trace = 1 ∧
    ¬ RunsEnabled {} locked [knock] ⟨0, none, {}⟩ msg {} := by
  intro msg
  refine ⟨fun _ => rfl, by decide, fun hruns => ?_⟩
  have hcalled := hruns knock { msg with cmdPrefix := bytes "!" } []
    (List.mem_cons_of_mem _ (List.mem_singleton_self _))
  exact absurd hcalled (by decide)

end Stoatpp.Cluster
