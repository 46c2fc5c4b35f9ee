import Stoatpp.Cluster.CommandGate
import Stoatpp.Cluster.Dispatcher
import Stoatpp.Gateway.HandleEvent
import Stoatpp.Library.Runs

/-!
# The two ways to a command

A Message event leads to `dispatch_command` through the dispatcher, an edited message through
a REST fetch in a thread of its own. Only the dispatcher asks `should_ignore_user`.
-/

namespace Stoatpp.Cluster
open Stoatpp.Library Stoatpp.Gateway

/-- The callback tells whether it returns; `none` is an empty function. -/
structure MessageWatcher where
  channelId : String
  userId : String
  callback : Option (Events.Message → Bool)

def MessageWatcher.wants (w : MessageWatcher) (msg : Events.Message) : Bool :=
  w.channelId = msg.channelId && (w.userId = "" || w.userId = msg.author.id)

structure Setup where
  cfg : CommandConfig := {}
  handlers : CommandHandlers := {}
  registry : List Command := []
  dispatchCommandsOnEdit : Bool := false
  shouldIgnoreUser : String → Bool := fun _ => false

/-- The tables, what the handler threads have still to do, the edited messages that are being
fetched, and every call of `dispatch_command` with what it did. -/
structure Bot where
  shared : Shared := {}
  watchers : List MessageWatcher := []
  threads : List (List Action) := []
  refetches : List Events.MessageUpdate := []
  calls : List (Events.Message × List CommandEvent) := []

def Bot.start (shared : Shared) (watchers : List MessageWatcher) : Bot where
  shared := shared
  watchers := watchers

section
variable (u : Setup) (env : Surroundings)

def callDispatch (msg : Events.Message) (b : Bot) : Bot × Bool :=
  let r := dispatchCommand u.cfg u.handlers u.registry env msg b.shared
  ({ b with shared := r.1, calls := b.calls ++ [(msg, r.2.trace)] }, r.2.returns)

/-- The first watcher that wants the message takes it, unless its callback is empty. -/
def onMessage (msg : Events.Message) (b : Bot) : Bot × Bool :=
  match b.watchers.find? (·.wants msg) with
  | some w =>
    let b := { b with watchers := b.watchers.eraseP (·.wants msg) }
    match w.callback with
    | some cb => (b, cb msg)
    | none => callDispatch u env msg b
  | none => callDispatch u env msg b

def onMessageUpdate (e : Events.MessageUpdate) (b : Bot) : Bot × Bool :=
  if u.dispatchCommandsOnEdit && (e.data.text? "content").isSome then
    ({ b with refetches := b.refetches ++ [e] }, true)
  else (b, true)

def handler : Event → Bot → Bot × Bool
  | .message msg, b => onMessage u env msg b
  | .messageUpdate e, b => onMessageUpdate u e b
  | e, b =>
    let r := b.shared.caches.listen e
    ({ b with shared := { b.shared with caches := r.1 } }, r.2)

def act (others : Bool) (a : Action) (b : Bot) : Bot × Bool :=
  match a with
  | .dispatch e => dispatch u.shouldIgnoreUser (handler u env) others e b
  | _ => (b, true)

/-- The message as `get_message` returns it, with the server of its channel from the cache or
from `get_channel`. -/
def fetchedMessage (c : Store) (body : Json) (channel : Option Json) : Events.Message :=
  let msg := Events.Message.fromJson body
  if msg.serverId = "" ∧ msg.channelId ≠ "" then
    { msg with serverId :=
        ((c.getChannel msg.channelId).bind (·.server) <|>
          (channel.map Channel.fromJson).bind (·.server)).getD "" }
  else msg

/-- What the thread of an edited message does with the replies; an exception ends there. -/
def onFetched (message channel : Option Json) (b : Bot) : Bot :=
  match message with
  | some body =>
    (callDispatch u env (fetchedMessage b.shared.caches.toStore body channel) b).1
  | none => b

end

/-- A frame is handled with the user the gateway has fetched, a handler thread takes its next
action, a fetch ends with its replies, or a watcher is set up or removed. -/
inductive Choice where
  | frame (self : User) (j : Json)
  | advance (i : ℕ) (env : Surroundings) (others : Bool)
  | refetch (i : ℕ) (message channel : Option Json) (env : Surroundings)
  | watch (w : MessageWatcher)
  | unwatch (i : ℕ)

def step (u : Setup) (b : Bot) : Choice → Option Bot
  | .frame self j => some { b with threads := b.threads ++ [(handleEvent self j).trace] }
  | .advance i env others =>
    match b.threads[i]? with
    | some (a :: rest) =>
      let r := act u env others a b
      some { r.1 with threads := r.1.threads.set i (if r.2 then rest else []) }
    | _ => none
  | .refetch i message channel env =>
    (b.refetches[i]?).map fun _ =>
      onFetched u env message channel { b with refetches := b.refetches.eraseIdx i }
  | .watch w => some { b with watchers := b.watchers ++ [w] }
  | .unwatch i => some { b with watchers := b.watchers.eraseIdx i }

/-- No message that is fetched for an edit has an author who is ignored. -/
def EditsHeard (u : Setup) (b : Bot) : Choice → Prop
  | .refetch i (some body) _ _ => ∀ e, b.refetches[i]? = some e →
    u.shouldIgnoreUser (Events.Message.fromJson body).author.id = false
  | _ => True

def Heard (u : Setup) (b : Bot) : Prop :=
  ∀ call ∈ b.calls, u.shouldIgnoreUser call.1.author.id = false

variable {u : Setup} {env : Surroundings} {b b' : Bot}

/-! ## One step -/

/-- A thread that takes its next action goes on behind it, or ends if the action throws. -/
theorem step_advance {i : ℕ} {others : Bool} (hs : step u b (.advance i env others) = some b') :
    ∃ action rest, b.threads[i]? = some (action :: rest) ∧ b' = { (act u env others action b).1 with
      threads := (act u env others action b).1.threads.set i
        (if (act u env others action b).2 then rest else []) } := by
  simp only [step] at hs
  split at hs
  · next action rest hthread => exact ⟨action, rest, hthread, (Option.some.inj hs).symm⟩
  · cases hs

theorem callDispatch_heard {msg : Events.Message} (hb : Heard u b)
    (hmsg : u.shouldIgnoreUser msg.author.id = false) : Heard u (callDispatch u env msg b).1 := by
  intro call hcall
  rcases List.mem_append.mp hcall with hcall | hcall
  · exact hb call hcall
  · rw [List.mem_singleton.mp hcall]
    exact hmsg

/-- A message is dispatched, or it goes to the callback of a watcher and leaves the rest alone. -/
theorem onMessage_cases (u : Setup) (env : Surroundings) (msg : Events.Message) (b : Bot) : ∃ watchers,
    onMessage u env msg b = callDispatch u env msg { b with watchers := watchers } ∨
      (onMessage u env msg b).1 = { b with watchers := watchers } := by
  unfold onMessage
  cases b.watchers.find? (·.wants msg) with
  | none => exact ⟨b.watchers, Or.inl rfl⟩
  | some w =>
    refine ⟨b.watchers.eraseP (·.wants msg), ?_⟩
    cases hw : w.callback with
    | some cb => exact Or.inr (by simp only [hw])
    | none => exact Or.inl (by simp only [hw])

theorem onMessage_heard {msg : Events.Message} (hb : Heard u b)
    (hmsg : u.shouldIgnoreUser msg.author.id = false) : Heard u (onMessage u env msg b).1 := by
  obtain ⟨watchers, hdispatched | hwatched⟩ := onMessage_cases u env msg b
  · rw [hdispatched]
    exact callDispatch_heard (b := { b with watchers := watchers }) hb hmsg
  · rw [hwatched]
    exact hb

theorem handler_heard {e : Event} (hb : Heard u b)
    (he : ignored u.shouldIgnoreUser e = false) : Heard u (handler u env e b).1 := by
  cases e with
  | message msg => exact onMessage_heard hb he
  | messageUpdate e =>
    simp only [handler, onMessageUpdate]
    split_ifs <;> exact hb
  | _ => exact hb

theorem act_heard {others : Bool} {a : Action} (hb : Heard u b) :
    Heard u (act u env others a b).1 := by
  cases a with
  | dispatch e =>
    simp only [act, dispatch]
    split_ifs with he
    · exact hb
    · exact handler_heard hb (Bool.eq_false_iff.mpr he)
  | _ => exact hb

theorem act_refetches {others : Bool} {a : Action} (hoff : u.dispatchCommandsOnEdit = false) :
    (act u env others a b).1.refetches = b.refetches := by
  cases a with
  | dispatch e =>
    simp only [act, dispatch]
    split_ifs
    · rfl
    · cases e with
      | message msg =>
        obtain ⟨watchers, hdispatched | hwatched⟩ := onMessage_cases u env msg b
        · rw [handler, hdispatched]
          rfl
        · rw [handler, hwatched]
      | messageUpdate e => simp [handler, onMessageUpdate, hoff]
      | _ => rfl
  | _ => rfl

theorem fetchedMessage_author (c : Store) (body : Json) (channel : Option Json) :
    (fetchedMessage c body channel).author = (Events.Message.fromJson body).author := by
  unfold fetchedMessage
  dsimp only
  split_ifs <;> rfl

theorem step_heard (b : Bot) (a : Choice) (b' : Bot) (hb : Heard u b) (ha : EditsHeard u b a)
    (hs : step u b a = some b') : Heard u b' := by
  cases a with
  | frame self j =>
    obtain rfl := Option.some.inj hs
    exact hb
  | advance i env others =>
    obtain ⟨action, rest, -, rfl⟩ := step_advance hs
    exact act_heard (b := b) hb
  | refetch i message channel env =>
    obtain ⟨e, he, rfl⟩ := Option.map_eq_some_iff.mp hs
    cases message with
    | none => exact hb
    | some body =>
      refine callDispatch_heard (b := { b with refetches := b.refetches.eraseIdx i }) hb ?_
      rw [fetchedMessage_author]
      exact ha e he
  | watch w =>
    obtain rfl := Option.some.inj hs
    exact hb
  | unwatch i =>
    obtain rfl := Option.some.inj hs
    exact hb

/-! ## Whole runs -/

/-- With the option off nothing is fetched. -/
theorem editsHeard_of_off (hoff : u.dispatchCommandsOnEdit = false) (shared : Shared)
    (watchers : List MessageWatcher) (choices : List Choice) :
    Along (step u) (EditsHeard u) (Bot.start shared watchers) choices := by
  refine along_invariant (P := fun b => b.refetches = []) ?_ ?_ rfl choices
  · intro b a b' hb hs
    cases a with
    | frame self j =>
      obtain rfl := Option.some.inj hs
      exact hb
    | advance i env others =>
      obtain ⟨action, rest, -, rfl⟩ := step_advance hs
      exact (act_refetches hoff).trans hb
    | refetch i message channel env => simp [step, hb] at hs
    | watch w =>
      obtain rfl := Option.some.inj hs
      exact hb
    | unwatch i =>
      obtain rfl := Option.some.inj hs
      exact hb
  · intro b a hb
    cases a with
    | refetch i message channel env => cases message <;> simp [EditsHeard, hb]
    | _ => exact trivial

/-- No command callback is invoked for a message of an ignored author, in any run in which the
fetched messages are not by ignored authors. -/
theorem ignored_author_not_called (u : Setup) (shared : Shared) (watchers : List MessageWatcher)
    (choices : List Choice) (b : Bot)
    (hrun : runFrom (step u) (Bot.start shared watchers) choices = some b)
    (hc : Along (step u) (EditsHeard u) (Bot.start shared watchers) choices) :
    ∀ call ∈ b.calls, u.shouldIgnoreUser call.1.author.id = true → callbacks call.2 = 0 := by
  have hstart : Heard u (Bot.start shared watchers) := fun _ h => absurd h List.not_mem_nil
  have hb := run_invariant step_heard hstart hc hrun
  intro call hcall hi
  exact absurd (hi.symm.trans (hb call hcall)) (by decide)

def hello : Command where
  name := bytes "hi"
  callback := some fun _ _ => true

def quiet : Setup where
  registry := [hello]
  dispatchCommandsOnEdit := true
  shouldIgnoreUser := fun id => id = "spammer"

def editFrame : Json := .obj [("channel", .str "c"), ("data", .obj [("content", .str "!hi")]),
  ("id", .str "m"), ("type", .str "MessageUpdate")]

def editRun (author : String) : List Choice :=
  let env : Surroundings := { now := 0, memberReply := none, later := {} }
  [.frame {} editFrame, .advance 0 env true, .advance 0 env true,
    .refetch 0 (some (.obj [("_id", .str "m"), ("author", .str author), ("channel", .str "c"),
      ("content", .str "!hi")])) (some (.obj [("_id", .str "c")])) env]

theorem friend_edit_called : ∃ b, runFrom (step quiet) (Bot.start {} []) (editRun "friend") = some b ∧
    b.calls.map (callbacks ·.2) = [1] ∧
    ∀ call ∈ b.calls, quiet.shouldIgnoreUser call.1.author.id = true → callbacks call.2 = 0 := by
  have hc : Along (step quiet) (EditsHeard quiet) (Bot.start {} []) (editRun "friend") :=
    ⟨trivial, fun _ _ => ⟨trivial, fun _ _ => ⟨trivial, fun _ _ =>
      ⟨fun _ _ => by decide, fun _ _ => trivial⟩⟩⟩⟩
  exact ⟨_, rfl, by decide, ignored_author_not_called quiet {} [] (editRun "friend") _ rfl hc⟩

theorem ignored_edit_called : ¬ ∀ (u : Setup) (shared : Shared) (watchers : List MessageWatcher)
    (choices : List Choice) (b : Bot),
    runFrom (step u) (Bot.start shared watchers) choices = some b →
    ∀ call ∈ b.calls, u.shouldIgnoreUser call.1.author.id = true → callbacks call.2 = 0 := by
  intro h
  have hrun : ∃ b, runFrom (step quiet) (Bot.start {} []) (editRun "spammer") = some b ∧
      ∃ call ∈ b.calls, quiet.shouldIgnoreUser call.1.author.id = true ∧ callbacks call.2 = 1 :=
    ⟨_, rfl, _, List.mem_singleton_self _, by decide, by decide⟩
  obtain ⟨b, hb, call, hcall, hi, hone⟩ := hrun
  have hzero := h quiet {} [] (editRun "spammer") b hb call hcall hi
  omega

end Stoatpp.Cluster
