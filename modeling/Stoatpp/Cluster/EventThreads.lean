import Stoatpp.Cluster.CacheWrites
import Stoatpp.Cluster.Dispatcher
import Stoatpp.Gateway.HandleEvent
import Stoatpp.Library.Pending
import Stoatpp.Library.Runs

/-!
# The threads of the frames

The worker takes the frames in their order. It handles some types itself and starts a thread
for every other frame, and a deleted server is erased by one more thread, half a second
later. Nothing orders these threads.
-/

namespace Stoatpp.Cluster
open Stoatpp.Library Stoatpp.Gateway

/-- What a thread does to the store under the mutex at one time. -/
inductive CacheStep where
  | event (e : Event)
  | eraseServer (id : String)

/-- The user the gateway has fetched, the predicate of the dispatcher, and the events whose
other handlers return. -/
structure Dispatching where
  self : User := {}
  shouldIgnoreUser : String → Bool := fun _ => false
  othersReturn : Event → Bool := fun _ => true

variable (d : Dispatching)

def CacheStep.perform : CacheStep → Store → Store × Bool
  | .event e, c => dispatch d.shouldIgnoreUser Store.listen (d.othersReturn e) e c
  | .eraseServer id, c => (c.eraseServer id, true)

/-- One dispatch; the listener of a deleted server starts the thread that erases it. -/
def eventOps : Event → List (Op CacheStep)
  | .serverDelete id => [.fork (.eraseServer id), .run (.event (.serverDelete id))]
  | e => [.run (.event e)]

def actionOps : Action → List (Op CacheStep)
  | .dispatch e => eventOps e
  | _ => []

/-- What handling a frame does to the store; text that is no JSON is logged and dropped. -/
def frameTask (frame : Option Json) : List (Op CacheStep) :=
  match frame with
  | some j => (handleEvent d.self j).trace.flatMap actionOps
  | none => []

/-- The frames handled one after the other, each with all it starts. -/
def inOrder (c : Store) (frames : List (Option Json)) : Store :=
  drain (CacheStep.perform d) (frames.map (frameTask d)) c

/-- The frames that wait for the worker, the one it handles itself, the threads it has started
in the order of their frames, the store, and all frames that have come in. -/
structure Handlers where
  queue : List (Option Json) := []
  worker : List (Op CacheStep) := []
  threads : List (List (Op CacheStep)) := []
  store : Store
  arrived : List (Option Json) := []

inductive Turn where
  | arrive (frame : Option Json)
  | take
  | worker
  | thread (i : ℕ)

def takeFrame (h : Handlers) (frame : Option Json) (rest : List (Option Json)) : Handlers :=
  if ∃ j, frame = some j ∧ Inline j then { h with queue := rest, worker := frameTask d frame }
  else { h with queue := rest, threads := h.threads ++ [frameTask d frame] }

def turn (h : Handlers) : Turn → Option Handlers
  | .arrive frame => some { h with queue := h.queue ++ [frame], arrived := h.arrived ++ [frame] }
  | .take =>
    match h.worker, h.queue with
    | [], frame :: rest => some (takeFrame d h frame rest)
    | _, _ => none
  | .worker =>
    (advance (CacheStep.perform d) h.worker h.store).map fun (forked, rest, store) =>
      { h with threads := h.threads ++ forked, worker := rest, store := store }
  | .thread i =>
    (h.threads[i]?).bind fun task =>
      (advance (CacheStep.perform d) task h.store).map fun (forked, rest, store) =>
        { h with threads := h.threads.take i ++ forked ++ rest :: h.threads.drop (i + 1), store := store }

def Handlers.Finished (h : Handlers) : Prop :=
  h.queue = [] ∧ h.worker = [] ∧ ∀ task ∈ h.threads, task = []

instance (h : Handlers) : Decidable h.Finished :=
  decidable_of_iff (h.queue = [] ∧ h.worker.isEmpty ∧ ∀ task ∈ h.threads, task.isEmpty) (by
    simp only [Handlers.Finished, List.isEmpty_iff])

/-! ## Steps on different entries -/

def CacheStep.writes : CacheStep → List Write
  | .event e => if ignored d.shouldIgnoreUser e then [] else Cluster.writes e
  | .eraseServer id => [.server id fun _ => (none, true)]

def CacheStep.touches (a : CacheStep) : List Entry := (a.writes d).map Write.entry

def CacheStep.others : CacheStep → Bool
  | .event e => ignored d.shouldIgnoreUser e || d.othersReturn e
  | .eraseServer _ => true

variable {d}

theorem perform_eq (a : CacheStep) (c : Store) :
    a.perform d c = ((applyAll (a.writes d) c).1, (applyAll (a.writes d) c).2 && a.others d) := by
  cases a with
  | event e =>
    simp only [CacheStep.perform, dispatch, CacheStep.writes, CacheStep.others]
    cases ignored d.shouldIgnoreUser e with
    | true => rfl
    | false => simp only [Bool.false_eq_true, if_false, listen_eq_applyAll, Bool.false_or]
  | eraseServer id => rfl

theorem independent_of_disjoint {a b : CacheStep} (h : ∀ x ∈ a.touches d, x ∉ b.touches d) :
    Independent (CacheStep.perform d) a b := by
  have hab : ∀ v ∈ a.writes d, ∀ w ∈ b.writes d, v.entry ≠ w.entry := fun v hv w hw he =>
    h v.entry (List.mem_map_of_mem hv) (he ▸ List.mem_map_of_mem hw)
  have hba : ∀ w ∈ b.writes d, ∀ v ∈ a.writes d, w.entry ≠ v.entry := fun w hw v hv he =>
    hab v hv w hw he.symm
  refine ⟨fun c => ?_, fun c => ?_, fun c => ?_⟩
  · simp only [perform_eq]
    exact (applyAll_comm hab c).1
  · simp only [perform_eq, (applyAll_comm hba c).2]
  · simp only [perform_eq, (applyAll_comm hab c).2]

/-! ## The order of the steps -/

/-- A task is about to touch no entry that a task before it has still to touch. -/
def Clear (d : Dispatching) (before : List (List (Op CacheStep))) : List (Op CacheStep) → Prop
  | .run a :: _ => ∀ t ∈ before, ∀ op ∈ t, ∀ x ∈ op.arg.touches d, x ∉ a.touches d
  | _ => True

instance (d : Dispatching) (before : List (List (Op CacheStep))) (task : List (Op CacheStep)) :
    Decidable (Clear d before task) := by
  unfold Clear
  split <;> infer_instance

/-- The thread whose turn it is touches no entry that the thread of an earlier frame, or an
erasure started by one, has still to touch. -/
def InOrder (d : Dispatching) (h : Handlers) : Turn → Prop
  | .worker => Clear d h.threads h.worker
  | .thread i => ∀ task ∈ h.threads[i]?, Clear d (h.threads.take i) task
  | _ => True

instance (d : Dispatching) (h : Handlers) (a : Turn) : Decidable (InOrder d h a) := by
  unfold InOrder
  split <;> infer_instance

theorem Clear.unhindered {before : List (List (Op CacheStep))} {task : List (Op CacheStep)}
    (h : Clear d before task) : Unhindered (CacheStep.perform d) before task := by
  rintro a rest rfl t ht op hop
  exact independent_of_disjoint (h t ht op hop)

def Handlers.pending (d : Dispatching) (h : Handlers) : List (List (Op CacheStep)) :=
  h.threads ++ h.worker :: h.queue.map (frameTask d)

/-- What is still to be done would lead to the store of the frames in their order. -/
def OnCourse (d : Dispatching) (start : Store) (h : Handlers) : Prop :=
  drain (CacheStep.perform d) (h.pending d) h.store = inOrder d start h.arrived

theorem takeFrame_drain {h : Handlers} {frame : Option Json} {rest : List (Option Json)}
    (hw : h.worker = []) (hq : h.queue = frame :: rest) (c : Store) :
    drain (CacheStep.perform d) ((takeFrame d h frame rest).pending d) c =
      drain (CacheStep.perform d) (h.pending d) c := by
  unfold takeFrame Handlers.pending
  split_ifs <;> simp only [hw, hq, List.map_cons, drain_append, drain_cons, drain_nil, exec]

theorem takeFrame_kept (h : Handlers) (frame : Option Json) (rest : List (Option Json)) :
    (takeFrame d h frame rest).store = h.store ∧ (takeFrame d h frame rest).arrived = h.arrived := by
  unfold takeFrame
  split_ifs <;> exact ⟨rfl, rfl⟩

theorem turn_onCourse {start : Store} (h : Handlers) (a : Turn) (h' : Handlers)
    (hc : OnCourse d start h) (ha : InOrder d h a) (ht : turn d h a = some h') :
    OnCourse d start h' := by
  cases a with
  | arrive frame =>
    obtain rfl := Option.some.inj ht
    simp only [OnCourse, Handlers.pending, inOrder, List.map_append, drain_append, drain_cons] at hc ⊢
    rw [hc]
  | take =>
    simp only [turn] at ht
    split at ht
    · next hw hq =>
      obtain rfl := Option.some.inj ht
      obtain ⟨hstore, harrived⟩ := takeFrame_kept (d := d) h _ _
      rw [OnCourse, takeFrame_drain hw hq, hstore, harrived]
      exact hc
    · cases ht
  | worker =>
    obtain ⟨⟨forked, rest, store⟩, hadv, rfl⟩ := Option.map_eq_some_iff.mp ht
    exact (drain_advance hadv ha.unhindered _).trans hc
  | thread i =>
    -- behind the thread that steps come the later threads, the worker and the queue
    obtain ⟨task, htask, ht⟩ := Option.bind_eq_some_iff.mp ht
    obtain ⟨⟨forked, rest, store⟩, hadv, rfl⟩ := Option.map_eq_some_iff.mp ht
    obtain ⟨hi, rfl⟩ := List.getElem?_eq_some_iff.mp htask
    have hsplit : h.threads = h.threads.take i ++ h.threads[i] :: h.threads.drop (i + 1) := by
      rw [List.getElem_cons_drop, List.take_append_drop]
    have hstep := drain_advance hadv (ha _ htask).unhindered
      (h.threads.drop (i + 1) ++ h.worker :: h.queue.map (frameTask d))
    simp only [OnCourse, Handlers.pending] at hc ⊢
    rw [hsplit] at hc
    simp only [List.append_assoc, List.cons_append] at hstep hc ⊢
    exact hstep.trans hc

/-! ## Whole runs -/

/-- Once all threads have finished, the store is that of the frames handled in their order, in
any run that takes the steps on each entry in that order. -/
theorem caches_in_order (d : Dispatching) (start : Store) (turns : List Turn) (h : Handlers)
    (hrun : runFrom (turn d) { store := start } turns = some h)
    (hc : Along (turn d) (InOrder d) { store := start } turns) (hdone : h.Finished) :
    h.store = inOrder d start h.arrived := by
  have hstart : OnCourse d start { store := start } := rfl
  have hcourse : OnCourse d start h := run_invariant turn_onCourse hstart hc hrun
  obtain ⟨hqueue, hworker, hthreads⟩ := hdone
  rw [OnCourse, Handlers.pending, hqueue, hworker, drain_append, drain_done hthreads] at hcourse
  exact hcourse

def createFrame : Json := .obj [("_id", .str "general"), ("channel_type", .str "TextChannel"),
  ("server", .str "s"), ("type", .str "ChannelCreate")]

def deleteFrame (id : String) : Json := .obj [("id", .str id), ("type", .str "ChannelDelete")]

def overtaken (id : String) : List Turn :=
  [.arrive (some createFrame), .arrive (some (deleteFrame id)), .take, .take,
    .thread 1, .thread 1, .thread 0, .thread 0]

theorem other_channel_overtaken : ∃ h, runFrom (turn {}) { store := {} } (overtaken "random") = some h ∧
    h.store = inOrder {} {} h.arrived :=
  ⟨_, rfl, caches_in_order {} {} (overtaken "random") _ rfl (by decide) (by decide)⟩

theorem same_channel_overtaken : ¬ ∀ (d : Dispatching) (start : Store) (turns : List Turn) (h : Handlers),
    runFrom (turn d) { store := start } turns = some h → h.Finished →
    h.store = inOrder d start h.arrived := by
  intro h
  have heq := h {} {} (overtaken "general") _ rfl (by decide)
  have hkept := congrArg (fun c : Store => (c.getChannel "general").isSome) heq
  revert hkept
  decide

end Stoatpp.Cluster
