import Stoatpp.Cluster.Commands

/-!
# The gate in front of the command callbacks

What one dispatch does is either silent, with no callback and nothing counted, or it fires one
command: it counts and calls once, after everything that could have refused it.
-/

namespace Stoatpp.Cluster
open Stoatpp.Library

/-- The events that start or count a callback, and the two refusals. -/
def CommandEvent.Silent : CommandEvent → Prop
  | .executed => False
  | .callback _ _ _ => False
  | _ => True

def CommandEvent.Refusal : CommandEvent → Prop
  | .ran .deny => True
  | .rejected _ => True
  | _ => False

def CommandEvent.Harmless (e : CommandEvent) : Prop := e.Silent ∧ ¬ e.Refusal

/-- The right to run a command that needs permissions. -/
def Authorised (env : Surroundings) (cmd : Command) (msg : Events.Message)
    (t : List CommandEvent) : Prop :=
  .ran .allowBypassPermissions ∈ t ∨ msg.serverId ≠ "" ∧ ∃ body server,
    env.memberReply = some body ∧ env.later.getServer msg.serverId = some server ∧
      hasPermission server (Member.fromJson body) cmd.requiredPermissions = true

/-- One command is counted and called, and nothing has refused it. -/
structure Fires (env : Surroundings) (cmd : Command) (msg : Events.Message) (args : List Bytes)
    (t : List CommandEvent) : Prop where
  split : ∃ a b, t = a ++ [.executed, .callback cmd msg args] ++ b ∧
    (∀ e ∈ a, e.Silent) ∧ ∀ e ∈ b, e.Silent
  unrefused : ∀ e ∈ t, ¬ e.Refusal
  authorised : 0 < cmd.requiredPermissions.toInt → Authorised env cmd msg t

def SilentOrFires (env : Surroundings) (cmd : Command) (msg : Events.Message) (args : List Bytes)
    (t : List CommandEvent) : Prop :=
  (∀ e ∈ t, e.Silent) ∨ Fires env cmd msg args t

variable {env : Surroundings} {h : CommandHandlers} {cmd : Command} {msg : Events.Message}
  {args : List Bytes} {t : List CommandEvent}

/-! ## One path after the other -/

theorem SilentOrFires.surround {a b : List CommandEvent} (ht : SilentOrFires env cmd msg args t)
    (ha : ∀ e ∈ a, e.Harmless) (hb : ∀ e ∈ b, e.Harmless) :
    SilentOrFires env cmd msg args (a ++ t ++ b) := by
  have hsilent : (∀ e ∈ a, e.Silent) ∧ ∀ e ∈ b, e.Silent :=
    ⟨fun e he => (ha e he).1, fun e he => (hb e he).1⟩
  have hunrefused : (∀ e ∈ a, ¬ e.Refusal) ∧ ∀ e ∈ b, ¬ e.Refusal :=
    ⟨fun e he => (ha e he).2, fun e he => (hb e he).2⟩
  rcases ht with ht | ht
  · apply Or.inl
    rw [List.forall_mem_append, List.forall_mem_append]
    exact ⟨⟨hsilent.1, ht⟩, hsilent.2⟩
  · obtain ⟨a', b', rfl, ha', hb'⟩ := ht.split
    refine Or.inr ⟨⟨a ++ a', b' ++ b, by simp, ?_, ?_⟩, ?_, fun hp => ?_⟩
    · exact List.forall_mem_append.mpr ⟨hsilent.1, ha'⟩
    · exact List.forall_mem_append.mpr ⟨hb', hsilent.2⟩
    · rw [List.forall_mem_append, List.forall_mem_append]
      exact ⟨⟨hunrefused.1, ht.unrefused⟩, hunrefused.2⟩
    · refine (ht.authorised hp).imp_left fun hm => ?_
      rw [List.mem_append, List.mem_append]
      exact Or.inl (Or.inr hm)

theorem reportError_harmless (kind : String) : ∀ e ∈ (reportError h kind).trace, e.Harmless := by
  intro e he
  rw [reportError, Outcome.emit_trace] at he
  split_ifs at he
  · rw [List.mem_singleton] at he
    rw [he]
    exact ⟨trivial, id⟩
  · cases he

theorem reportError_gated (kind : String) :
    SilentOrFires env cmd msg args (reportError h kind).trace :=
  Or.inl fun e he => (reportError_harmless kind e he).1

theorem invoke_trace : (invoke cmd msg args).trace = [.executed, .callback cmd msg args] := by
  unfold invoke
  cases cmd.callback with
  | none => rfl
  | some cb =>
    simp only [Outcome.bind_eq_andThen, Outcome.andThen, Outcome.emit_status, Outcome.emit_trace]
    split_ifs <;> rfl

theorem invoke_gated {a : List CommandEvent} (ha : ∀ e ∈ a, e.Harmless)
    (hp : 0 < cmd.requiredPermissions.toInt → Authorised env cmd msg a) :
    SilentOrFires env cmd msg args (a ++ (invoke cmd msg args).trace) := by
  rw [invoke_trace]
  refine Or.inr ⟨⟨a, [], by simp, fun e he => (ha e he).1, by simp⟩, ?_, fun h => ?_⟩
  · intro e he
    rcases List.mem_append.mp he with he | he
    · exact (ha e he).2
    · simp only [List.mem_cons, List.not_mem_nil, or_false] at he
      rcases he with rfl | rfl <;> exact id
  · exact (hp h).imp_left fun hm => List.mem_append_left _ hm

theorem askRunHandler_gated {mem : Option Member} {k : Bool → Dispatch Unit}
    (hk : ∀ bypass a, (∀ e ∈ a, e.Harmless) → (bypass = true → .ran .allowBypassPermissions ∈ a) →
      SilentOrFires env cmd msg args (a ++ (k bypass).trace)) :
    SilentOrFires env cmd msg args ((askRunHandler h cmd msg args mem).andThen fun ask =>
      match ask with
      | none => .ret ()
      | some bypass => k bypass).trace := by
  unfold askRunHandler
  cases h.runHandler with
  | none => simpa [Outcome.andThen] using hk false [] (by simp) (by simp)
  | some run =>
    simp only [Outcome.bind_eq_andThen]
    cases hr : run msg cmd mem args with
    | deny => exact Or.inl (by simp [Outcome.andThen, Outcome.emit, CommandEvent.Silent])
    | allow =>
      simpa [Outcome.andThen, Outcome.emit, hr] using
        hk false [.ran .allow] (by simp [CommandEvent.Harmless, CommandEvent.Silent, CommandEvent.Refusal]) (by simp)
    | allowBypassPermissions =>
      simpa [Outcome.andThen, Outcome.emit, hr] using
        hk true [.ran .allowBypassPermissions]
          (by simp [CommandEvent.Harmless, CommandEvent.Silent, CommandEvent.Refusal]) (by simp)

/-! ## The two branches -/

theorem silent_append {a b : List CommandEvent} (ha : ∀ e ∈ a, e.Harmless)
    (hb : ∀ e ∈ b, e.Harmless) : SilentOrFires env cmd msg args (a ++ b) := by
  apply Or.inl
  rw [List.forall_mem_append]
  exact ⟨fun e he => (ha e he).1, fun e he => (hb e he).1⟩

theorem runDirect_gated : SilentOrFires env cmd msg args (runDirect h cmd msg args).trace := by
  refine askRunHandler_gated fun bypass a ha hb => ?_
  by_cases hp : (!bypass && decide (0 < cmd.requiredPermissions.toInt)) = true
  · rw [if_pos hp]
    exact silent_append ha (reportError_harmless _)
  · rw [if_neg hp]
    refine invoke_gated ha fun hpos => Or.inl (hb ?_)
    simpa [hpos] using hp

theorem onMember_gated {body : Json} (hs : msg.serverId ≠ "") (hr : env.memberReply = some body) :
    SilentOrFires env cmd msg args
      (onMember h cmd msg args env.later (Member.fromJson body) true).trace := by
  refine askRunHandler_gated fun bypass a ha hb => ?_
  by_cases hp : (!bypass && decide (0 < cmd.requiredPermissions.toInt)) = true
  · rw [if_pos hp]
    cases hserver : env.later.getServer msg.serverId with
    | none => exact silent_append ha (reportError_harmless _)
    | some server =>
      simp only
      by_cases hperm : hasPermission server (Member.fromJson body) cmd.requiredPermissions = true
      · rw [if_pos hperm]
        exact invoke_gated ha fun _ => Or.inr ⟨hs, body, server, hr, hserver, hperm⟩
      · rw [if_neg hperm]
        exact silent_append ha (reportError_harmless _)
  · rw [if_neg hp]
    refine invoke_gated ha fun hpos => Or.inl (hb ?_)
    simpa [hpos] using hp

theorem onMember_failed (mem : Member) :
    onMember h cmd msg args env.later mem false = reportError h "member_fetch_failed" := rfl

theorem SilentOrFires.retried {first : Dispatch Unit} (kind : String)
    (ht : SilentOrFires env cmd msg args first.trace) :
    SilentOrFires env cmd msg args (first.orElse fun _ => reportError h kind).trace := by
  rcases Outcome.orElse_trace first fun _ => reportError h kind with he | ⟨_, he⟩
  · rw [he]
    exact ht
  · rw [he]
    simpa only [List.nil_append] using
      ht.surround (List.forall_mem_nil _) (reportError_harmless kind)

theorem fetchMember_gated (hs : msg.serverId ≠ "") : SilentOrFires env cmd msg args
    (fetchMember env.memberReply (onMember h cmd msg args env.later)).trace := by
  unfold fetchMember
  simp only [onMember_failed]
  cases hr : env.memberReply with
  | none => exact (reportError_gated _).retried _
  | some body => exact (onMember_gated hs hr).retried _

theorem runCommand_gated : SilentOrFires env cmd msg args (runCommand h cmd msg args env).trace := by
  unfold runCommand
  by_cases hs : msg.serverId = ""
  · rw [if_neg (not_not.mpr hs)]
    exact runDirect_gated
  · rw [if_pos hs]
    have hfetch : ∀ e ∈ [CommandEvent.fetchMember msg.serverId msg.author.id], e.Harmless := by
      simp [CommandEvent.Harmless, CommandEvent.Silent, CommandEvent.Refusal]
    have hg : SilentOrFires env cmd msg args
        (fetchMember env.memberReply (onMember h cmd msg args env.later)).trace := fetchMember_gated hs
    simpa [Outcome.andThen, Outcome.emit] using hg.surround hfetch (List.forall_mem_nil _)

theorem rejectCommand_silent (remaining : ℤ) :
    ∀ e ∈ (rejectCommand h cmd msg remaining).trace, e.Silent := by
  unfold rejectCommand
  cases h.cooldownHandler with
  | none => simp [Outcome.andThen, Outcome.emit, CommandEvent.Silent]
  | some cooldown =>
    by_cases hc : cooldown msg cmd remaining = true <;>
      simp [Outcome.andThen, Outcome.emit, hc, CommandEvent.Silent, Outcome.ret, Outcome.throw]

/-! ## The whole dispatch -/

/-- How many callbacks are invoked, and how often `commands_executed_` is incremented. -/
def callbacks (t : List CommandEvent) : ℕ :=
  t.countP fun
    | .callback _ _ _ => true
    | _ => false

def executions (t : List CommandEvent) : ℕ :=
  t.countP fun
    | .executed => true
    | _ => false

theorem callbacks_silent (ht : ∀ e ∈ t, e.Silent) : callbacks t = 0 := by
  rw [callbacks, List.countP_eq_zero]
  intro e he
  cases e with
  | callback _ _ _ => exact absurd (ht _ he) id
  | _ => exact Bool.false_ne_true

theorem executions_silent (ht : ∀ e ∈ t, e.Silent) : executions t = 0 := by
  rw [executions, List.countP_eq_zero]
  intro e he
  cases e with
  | executed => exact absurd (ht _ he) id
  | _ => exact Bool.false_ne_true

theorem Fires.counts (ht : Fires env cmd msg args t) : callbacks t = 1 ∧ executions t = 1 := by
  obtain ⟨a, b, rfl, ha, hb⟩ := ht.split
  have hca := callbacks_silent ha
  have hcb := callbacks_silent hb
  have hea := executions_silent ha
  have heb := executions_silent hb
  unfold callbacks at hca hcb ⊢
  unfold executions at hea heb ⊢
  simp [List.countP_append, hca, hcb, hea, heb]

theorem Fires.callback_mem (ht : Fires env cmd msg args t) {cmd' : Command} {msg' : Events.Message}
    {args' : List Bytes} (hm : .callback cmd' msg' args' ∈ t) :
    cmd' = cmd ∧ msg' = msg ∧ args' = args := by
  obtain ⟨a, b, rfl, ha, hb⟩ := ht.split
  simp only [List.mem_append, List.mem_cons, List.not_mem_nil, or_false] at hm
  rcases hm with (hm | hm | hm) | hm
  · exact absurd (ha _ hm) id
  · cases hm
  · simpa using hm
  · exact absurd (hb _ hm) id

/-- The command and its arguments are those the lookup over the registry chooses for the token
behind the prefix. -/
def Chosen (cfg : CommandConfig) (h : CommandHandlers) (registry : List Command) (s : Shared)
    (msg : Events.Message) (cmd : Command) (msg' : Events.Message) (args : List Bytes) : Prop :=
  ∃ p token, parseCommand cfg h (prepare h s.caches.toStore msg) = some (p, token, args) ∧
    findCommand cfg.caseInsensitiveCommands registry token = some cmd ∧
    msg' = { prepare h s.caches.toStore msg with cmdPrefix := p }

theorem dispatchCommand_cases (cfg : CommandConfig) (h : CommandHandlers) (registry : List Command)
    (env : Surroundings) (msg : Events.Message) (s : Shared) :
    (∀ e ∈ (dispatchCommand cfg h registry env msg s).2.trace, e.Silent) ∨
    ∃ cmd msg' args, Chosen cfg h registry s msg cmd msg' args ∧
      Fires env cmd msg' args (dispatchCommand cfg h registry env msg s).2.trace := by
  cases hp : parseCommand cfg h (prepare h s.caches.toStore msg) with
  | none =>
    simp only [dispatchCommand, hp]
    exact Or.inl (List.forall_mem_nil _)
  | some x =>
    obtain ⟨p, token, args⟩ := x
    cases hf : findCommand cfg.caseInsensitiveCommands registry token with
    | none =>
      simp only [dispatchCommand, hp, hf]
      apply Or.inl
      split_ifs
      · split
        · simp [CommandEvent.Silent]
        · simp
      · simp
    | some cmd =>
      simp only [dispatchCommand, hp, hf]
      split
      · exact Or.inl (rejectCommand_silent _)
      · exact runCommand_gated.imp_right fun ht => ⟨cmd, _, args, ⟨p, token, hp, hf, rfl⟩, ht⟩

/-- One dispatch invokes at most one callback, the one the lookup chose, and counts it; a command
that needs permissions is invoked only with the right to it, and nothing is invoked that the run
handler denied or the cooldown check refused. -/
theorem dispatchCommand_gated (cfg : CommandConfig) (h : CommandHandlers) (registry : List Command)
    (env : Surroundings) (msg : Events.Message) (s : Shared) :
    let t := (dispatchCommand cfg h registry env msg s).2.trace
    callbacks t ≤ 1 ∧ executions t = callbacks t ∧
    (∀ cmd msg' args, .callback cmd msg' args ∈ t → Chosen cfg h registry s msg cmd msg' args ∧
      (0 < cmd.requiredPermissions.toInt → Authorised env cmd msg' t)) ∧
    ((∃ e ∈ t, e.Refusal) → callbacks t = 0) := by
  intro t
  rcases dispatchCommand_cases cfg h registry env msg s with ht | ⟨cmd, msg', args, hc, ht⟩
  · have hcount := callbacks_silent ht
    refine ⟨hcount.le.trans (Nat.zero_le _), (executions_silent ht).trans hcount.symm, ?_, fun _ => hcount⟩
    intro cmd msg' args hm
    exact absurd (ht _ hm) id
  · obtain ⟨hone, hexec⟩ := ht.counts
    refine ⟨hone.le, hexec.trans hone.symm, ?_, ?_⟩
    · intro cmd' msg'' args' hm
      obtain ⟨rfl, rfl, rfl⟩ := ht.callback_mem hm
      exact ⟨hc, ht.authorised⟩
    · rintro ⟨e, he, hr⟩
      exact absurd hr (ht.unrefused e he)

def purge : Command where
  name := bytes "purge"
  callback := some fun _ _ => true
  requiredPermissions := 4

def purgeAsked : Events.Message where
  author := { id := "u" }
  channelId := "c"
  serverId := "s"
  content := bytes "!purge all"

/-- The author has a role that allows the command. -/
def moderated : Surroundings where
  now := 0
  memberReply := some (.obj [("_id", .obj [("server", .str "s"), ("user", .str "u")]), ("roles", .arr [.str "mod"])])
  later :=
    let document : Json := .obj [("_id", .str "s"), ("owner", .str "o"),
      ("roles", .obj [("mod", .obj [("permissions", .obj [("a", .int 6)])])])]
    { toStore := (Server.fromJson document).elim {} ({} : Store).putServer }

theorem purge_called :
    let t := (dispatchCommand {} {} [purge] moderated purgeAsked {}).2.trace
    let msg := { purgeAsked with cmdPrefix := [33] }
    callbacks t = 1 ∧ executions t = 1 ∧ .callback purge msg [bytes "all"] ∈ t ∧
      Authorised moderated purge msg t := by
  intro t msg
  obtain ⟨-, hcounted, hcalled, -⟩ := dispatchCommand_gated {} {} [purge] moderated purgeAsked {}
  have ht : t = [.fetchMember "s" "u", .executed, .callback purge msg [bytes "all"]] := by rfl
  have hone : callbacks t = 1 := by rw [ht]; rfl
  have hm : .callback purge msg [bytes "all"] ∈ t := by rw [ht]; simp
  exact ⟨hone, hcounted.trans hone, hm, (hcalled purge msg _ hm).2 (by decide)⟩

end Stoatpp.Cluster
