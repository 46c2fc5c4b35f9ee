import Stoatpp.Library.WorkerLoop

/-!
# The event queue of the gateway

The socket callback pushes raw frames under `queue_mutex` and the worker takes them off. The
destructor stops the watchdog and disconnects, while the worker goes on, and then clears
`worker_running` without the mutex: the worker then takes one more frame at most, and if it has just
found nothing to do it is told too early and sleeps on.
-/

namespace Stoatpp.Gateway
open Stoatpp.Library

structure EventQueue where
  workerRunning : Bool := true
  frames : List String := []
  deriving DecidableEq

namespace EventQueue

/-- The predicate of the wait. -/
def ready (q : EventQueue) : Bool := !q.workerRunning || !q.frames.isEmpty

def push (raw : String) (q : EventQueue) : EventQueue := { q with frames := q.frames ++ [raw] }

/-- Behind the wait the worker breaks if nothing is left, and else pops a frame. -/
def next (q : EventQueue) : Option EventQueue :=
  match q.frames with
  | [] => none
  | _ :: rest => some { q with frames := rest }

def stop (q : EventQueue) : EventQueue := { q with workerRunning := false }

def job : Job EventQueue where
  running := workerRunning
  ready := ready
  next := next
  stopped q h := by simp [ready, h]
  kept q q' h := by
    unfold next at h
    split at h
    · cases h
    · obtain rfl := Option.some.inj h
      rfl

end EventQueue

/-- The statement of `~gateway` that has been executed last. -/
inductive Destructor where
  | alive
  | watchdogStopped
  | disconnected
  /-- `worker_running` is cleared. -/
  | stopping
  | joined
  deriving DecidableEq

def Destructor.cleared : Destructor → Bool
  | .stopping | .joined => true
  | _ => false

structure EventWorker where
  worker : Worker EventQueue := { monitor := { shared := {} } }
  destructor : Destructor := .alive
  received : List String := []
  taken : List String := []
  /-- how many frames had been taken when the flag was cleared -/
  takenBefore : ℕ := 0
  deriving DecidableEq

inductive QueueTurn where
  | receive (raw : String)
  | inner (a : InnerTurn)
  | stopWatchdog
  | disconnect
  | stop
  | join
  deriving DecidableEq

namespace EventWorker

def frames (w : EventWorker) : List String := w.worker.monitor.shared.frames

/-- The frame that is popped, if this is where the worker pops one. -/
def popped (w : EventWorker) : InnerTurn → List String
  | .take => w.frames.take 1
  | _ => []

def changed (w : EventWorker) (t : MonitorTurn EventQueue) : Option EventWorker :=
  (monitorTurn EventQueue.ready w.worker.monitor t).map fun monitor =>
    { w with worker := { w.worker with monitor } }

end EventWorker

def queueTurn (w : EventWorker) : QueueTurn → Option EventWorker
  | .receive raw => { w with received := w.received ++ [raw] }.changed (.guarded (EventQueue.push raw))
  | .inner a =>
    (innerTurn EventQueue.job w.worker a).map fun worker => { w with worker, taken := w.taken ++ w.popped a }
  | .stopWatchdog => if w.destructor = .alive then some { w with destructor := .watchdogStopped } else none
  | .disconnect => if w.destructor = .watchdogStopped then some { w with destructor := .disconnected } else none
  | .stop =>
    if w.destructor = .disconnected then
      { w with destructor := .stopping, takenBefore := w.taken.length }.changed (.bare EventQueue.stop)
    else none
  | .join =>
    if w.destructor = .stopping ∧ w.worker.loop = .ended then some { w with destructor := .joined } else none

/-- `worker_running` is not cleared just when the worker has found nothing to do. -/
def StopSeen (w : EventWorker) : QueueTurn → Prop
  | .stop => w.worker.monitor.waiter ≠ .unready
  | _ => True

instance (w : EventWorker) (a : QueueTurn) : Decidable (StopSeen w a) := by
  unfold StopSeen
  split <;> infer_instance

variable {w w' : EventWorker} {a : QueueTurn} {i : InnerTurn} {t : MonitorTurn EventQueue} {turns : List QueueTurn}

/-! ## One turn -/

theorem receive_eq {raw : String} (h : queueTurn w (.receive raw) = some w') :
    w.worker.monitor.waiter.holds = false ∧ w' = { w with
      received := w.received ++ [raw]
      worker := { w.worker with monitor := { w.worker.monitor with
        shared := w.worker.monitor.shared.push raw, owed := w.worker.monitor.owed + 1 } } } := by
  obtain ⟨monitor, hmonitor, rfl⟩ := Option.map_eq_some_iff.mp h
  obtain ⟨hfree, hmonitor⟩ := Option.ite_none_left_eq_some.mp hmonitor
  obtain rfl := Option.some.inj hmonitor
  exact ⟨Bool.eq_false_iff.mpr hfree, rfl⟩

theorem stop_eq (h : queueTurn w .stop = some w') : w.destructor = .disconnected ∧ w' = { w with
    destructor := .stopping
    takenBefore := w.taken.length
    worker := { w.worker with monitor := { w.worker.monitor with
      shared := w.worker.monitor.shared.stop, owed := w.worker.monitor.owed + 1 } } } := by
  obtain ⟨hdisconnected, h⟩ := Option.ite_none_right_eq_some.mp h
  obtain ⟨monitor, hmonitor, rfl⟩ := Option.map_eq_some_iff.mp h
  obtain rfl := Option.some.inj hmonitor
  exact ⟨hdisconnected, rfl⟩

theorem inner_eq (h : queueTurn w (.inner i) = some w') : ∃ worker,
    innerTurn EventQueue.job w.worker i = some worker ∧
      w' = { w with worker, taken := w.taken ++ w.popped i } := by
  obtain ⟨worker, hworker, rfl⟩ := Option.map_eq_some_iff.mp h
  exact ⟨worker, hworker, rfl⟩

/-! ## Frames in order -/

/-- What the worker may still take. -/
structure InQueue (w : EventWorker) : Prop where
  order : w.received = w.taken ++ w.frames
  waits : w.worker.loop ≠ .waiting → w.worker.monitor.waiter = .away
  running : w.destructor.cleared = false ↔ w.worker.monitor.shared.workerRunning = true
  atMostOne : w.destructor.cleared = true → w.taken.length ≤ w.takenBefore + 1
  none : w.destructor.cleared = true → w.worker.loop = .waiting → w.taken.length = w.takenBefore

theorem InQueue.moved {worker : Worker EventQueue} (hw : InQueue w)
    (hshared : worker.monitor.shared = w.worker.monitor.shared)
    (hwaits : worker.loop ≠ .waiting → worker.monitor.waiter = .away)
    (hloop : worker.loop = .waiting → w.destructor.cleared = true → w.worker.loop = .waiting) :
    InQueue { w with worker, taken := w.taken ++ [] } := by
  refine ⟨?_, hwaits, ?_, ?_, fun hstopped hwaiting => ?_⟩
  · rw [List.append_nil]
    exact hw.order.trans (congrArg (w.taken ++ ·.frames) hshared.symm)
  · exact hshared ▸ hw.running
  · rw [List.append_nil]
    exact hw.atMostOne
  · rw [List.append_nil]
    exact hw.none hstopped (hloop hwaiting hstopped)

theorem inQueue_inner (hw : InQueue w) (h : queueTurn w (.inner i) = some w') : InQueue w' := by
  obtain ⟨worker, hworker, rfl⟩ := inner_eq h
  -- what only moves the waiter
  have hmoved {t : MonitorTurn EventQueue} (ht : t.moves = true) (henter : t = .enter → w.worker.loop = .waiting)
      (h : w.worker.moved EventQueue.job t = some worker) : InQueue { w with worker, taken := w.taken ++ [] } := by
    obtain ⟨monitor, hmonitor, rfl⟩ := Worker.moved_eq h
    obtain ⟨hshared, haway⟩ := moves_step ht hmonitor
    refine hw.moved hshared (fun hloop => ?_) fun hloop _ => hloop
    exact (haway (hw.waits hloop)).resolve_right fun h => hloop (henter h)
  cases i with
  | top =>
    obtain ⟨htop, h⟩ := Option.ite_none_right_eq_some.mp hworker
    obtain rfl := Option.some.inj h
    refine hw.moved rfl (fun _ => hw.waits (by rw [htop]; exact fun h => by cases h)) fun hloop hstopped => ?_
    -- a worker that is told to stop does not come back to the wait
    have hrunning : EventQueue.job.running w.worker.monitor.shared = false :=
      Bool.eq_false_iff.mpr fun hrunning => Bool.eq_false_iff.mp (hw.running.mpr hrunning) hstopped
    simp [hrunning] at hloop
  | enter =>
    obtain ⟨hwaiting, h⟩ := Option.ite_none_right_eq_some.mp hworker
    exact hmoved rfl (fun _ => hwaiting) h
  | take =>
    obtain ⟨hthrough, hmonitor, hloop⟩ := Worker.take_eq hworker
    have hwaiting : w.worker.loop = .waiting := by
      by_contra hloop
      exact absurd (hthrough.symm.trans (hw.waits hloop)) (by simp)
    have hnotWaiting : worker.loop ≠ .waiting := by
      rw [hloop]
      split_ifs <;> exact fun h => by cases h
    have hwaiter : worker.monitor.waiter = .away := by rw [hmonitor]
    have hrunning : worker.monitor.shared.workerRunning = w.worker.monitor.shared.workerRunning := by
      rw [hmonitor]
      simp only [EventQueue.job, EventQueue.next]
      cases w.worker.monitor.shared.frames <;> rfl
    refine ⟨?_, fun _ => hwaiter, hw.running.trans (by rw [hrunning]), fun hstopped => ?_,
      fun _ h => absurd h hnotWaiting⟩
    · have hframes : w.frames = w.frames.take 1 ++ worker.monitor.shared.frames := by
        rw [hmonitor]
        simp only [EventWorker.frames, EventQueue.job, EventQueue.next]
        cases hlist : w.worker.monitor.shared.frames with
        | nil => simp [hlist]
        | cons raw rest => rfl
      exact hw.order.trans ((congrArg (w.taken ++ ·) hframes).trans (List.append_assoc _ _ _).symm)
    · have hnone := hw.none hstopped hwaiting
      have hone := List.length_take_le 1 w.frames
      simp only [EventWorker.popped, List.length_append]
      omega
  | worked =>
    obtain ⟨hworking, h⟩ := Option.ite_none_right_eq_some.mp hworker
    obtain rfl := Option.some.inj h
    exact hw.moved rfl (fun _ => hw.waits (by rw [hworking]; exact fun h => by cases h)) fun h => by cases h
  | _ => exact hmoved rfl (fun h => by cases h) hworker

/-- A statement of the destructor that leaves the flag as it is. -/
theorem InQueue.goes_on (hw : InQueue w) {d : Destructor} (hd : d.cleared = w.destructor.cleared) :
    InQueue { w with destructor := d } where
  order := hw.order
  waits := hw.waits
  running := hd ▸ hw.running
  atMostOne h := hw.atMostOne (hd ▸ h)
  none h := hw.none (hd ▸ h)

theorem inQueue_step (hw : InQueue w) (h : queueTurn w a = some w') : InQueue w' := by
  cases a with
  | receive raw =>
    obtain ⟨-, rfl⟩ := receive_eq h
    refine ⟨?_, hw.waits, hw.running, hw.atMostOne, hw.none⟩
    simp only [EventWorker.frames, EventQueue.push, ← List.append_assoc]
    exact congrArg (· ++ [raw]) hw.order
  | inner i => exact inQueue_inner hw h
  | stopWatchdog =>
    obtain ⟨halive, h⟩ := Option.ite_none_right_eq_some.mp h
    obtain rfl := Option.some.inj h
    exact hw.goes_on (by rw [halive]; rfl)
  | disconnect =>
    obtain ⟨hstopped, h⟩ := Option.ite_none_right_eq_some.mp h
    obtain rfl := Option.some.inj h
    exact hw.goes_on (by rw [hstopped]; rfl)
  | stop =>
    obtain ⟨-, rfl⟩ := stop_eq h
    exact ⟨hw.order, hw.waits, by simp [EventQueue.stop, Destructor.cleared], fun _ => Nat.le_succ _, fun _ _ => rfl⟩
  | join =>
    obtain ⟨⟨hstopping, hended⟩, h⟩ := Option.ite_none_right_eq_some.mp h
    obtain rfl := Option.some.inj h
    exact hw.goes_on (by rw [hstopping]; rfl)

theorem inQueue_start : InQueue {} := ⟨rfl, fun _ => rfl, by decide, by simp [Destructor.cleared],
  by simp [Destructor.cleared]⟩

/-- The worker takes the frames in the order in which they come in, each once, and no more than one
of them once `worker_running` is cleared. -/
theorem frames_taken_in_order (turns : List QueueTurn) (h : runFrom queueTurn {} turns = some w) :
    w.received = w.taken ++ w.frames ∧
      (w.worker.monitor.shared.workerRunning = false → w.taken.length ≤ w.takenBefore + 1) := by
  have hw : InQueue w := run_invariant (C := fun _ _ => True) (fun _ _ _ hw _ hstep => inQueue_step hw hstep)
    inQueue_start (along_of_forall fun _ _ => trivial) h
  refine ⟨hw.order, fun hstopped => hw.atMostOne (eq_true_of_ne_false fun hrunning => ?_)⟩
  rw [hw.running.mp hrunning] at hstopped
  cases hstopped

/-- The worker takes a frame behind each of the destructor's first two statements, and one more of
the two that are left when `worker_running` is cleared. -/
def destructed : List QueueTurn :=
  [.receive "a", .inner .top, .stopWatchdog, .inner .enter, .inner .test, .inner .take, .inner .worked, .disconnect,
    .receive "b", .receive "c", .receive "d", .inner .top, .inner .enter, .inner .test, .inner .take, .inner .worked,
    .inner .top, .stop, .inner .enter, .inner .test, .inner .take, .inner .worked, .inner .top, .join]

theorem last_frame_taken : ∃ w, runFrom queueTurn {} destructed = some w ∧ w.destructor = .joined ∧
    w.takenBefore = 2 ∧ w.taken = ["a", "b", "c"] ∧ w.received = w.taken ++ w.frames ∧
    w.taken.length ≤ w.takenBefore + 1 := by
  obtain ⟨horder, hone⟩ := frames_taken_in_order destructed rfl
  exact ⟨_, rfl, rfl, rfl, rfl, horder, hone rfl⟩

/-! ## Wake-ups -/

theorem sound_turn (hw : w.worker.Sound EventQueue.job) (hseen : StopSeen w a) (h : queueTurn w a = some w') :
    w'.worker.Sound EventQueue.job := by
  cases a with
  | receive raw =>
    obtain ⟨hfree, rfl⟩ := receive_eq h
    have hpush : monitorTurn EventQueue.ready w.worker.monitor (.guarded (EventQueue.push raw)) = some _ :=
      if_neg (Bool.eq_false_iff.mp hfree)
    exact ⟨hw.waits, heard_step (t := .guarded _) hw.heard trivial hpush⟩
  | inner i =>
    obtain ⟨worker, hworker, rfl⟩ := inner_eq h
    exact sound_inner hw hworker
  | stop =>
    obtain ⟨-, rfl⟩ := stop_eq h
    have hstop : monitorTurn EventQueue.ready w.worker.monitor (.bare EventQueue.stop) = some _ := rfl
    exact ⟨hw.waits, heard_step (t := .bare _) hw.heard (fun hunready => absurd hunready hseen) hstop⟩
  | _ =>
    obtain ⟨-, h⟩ := Option.ite_none_right_eq_some.mp h
    obtain rfl := Option.some.inj h
    exact hw

theorem sound_start : ({} : EventWorker).worker.Sound EventQueue.job :=
  ⟨fun _ => rfl, heard_of (by decide) (by decide)⟩

def stoppedUnseen : List QueueTurn :=
  [.stopWatchdog, .disconnect, .inner .top, .inner .enter, .inner .test, .stop, .inner .notify, .inner .block]

/-- Unless the flag is cleared between a failed test and the block, the worker never sleeps on frames
or on the stop, and when it is told to stop it comes to its end; cleared there, the destructor may
wait for it for good. -/
theorem worker_heard (turns : List QueueTurn) (h : runFrom queueTurn {} turns = some w)
    (hseen : Along queueTurn StopSeen {} turns) :
    ¬ Stranded EventQueue.ready w.worker.monitor ∧
    (w.destructor.cleared = true → ∀ (turns : List InnerTurn) worker, (∀ a ∈ turns, a.ends = true) →
      runFrom (innerTurn EventQueue.job) w.worker turns = some worker → turns.length ≤ w.worker.rank ∧
        (worker.loop = .ended ∨
          ∃ a : InnerTurn, a.ends = true ∧ (innerTurn EventQueue.job worker a).isSome = true)) ∧
    ∃ stuck, runFrom queueTurn {} stoppedUnseen = some stuck ∧ stuck.destructor = .stopping ∧
      ∀ a, a ≠ .inner .spurious → (∀ raw, a ≠ .receive raw) → queueTurn stuck a = none := by
  have hw : w.worker.Sound EventQueue.job :=
    run_invariant (P := fun w => w.worker.Sound EventQueue.job)
      (fun _ _ _ hw hseen hstep => sound_turn hw hseen hstep) sound_start hseen h
  have hqueue : InQueue w := run_invariant (C := fun _ _ => True)
    (fun _ _ _ hw _ hstep => inQueue_step hw hstep) inQueue_start (along_of_forall fun _ _ => trivial) h
  refine ⟨hw.heard.not_stranded, fun hstopping turns worker hends hrun => ?_, _, rfl, rfl,
    fun a hspurious hreceive => ?_⟩
  · have hstopped : EventQueue.job.running w.worker.monitor.shared = false :=
      Bool.eq_false_iff.mpr fun hrunning => Bool.eq_false_iff.mp (hqueue.running.mpr hrunning) hstopping
    obtain ⟨hlength, hended⟩ := hw.ends hstopped hends hrun
    exact ⟨by omega, hended⟩
  · cases a with
    | receive raw => exact absurd rfl (hreceive raw)
    | inner i =>
      cases i with
      | spurious => exact absurd rfl hspurious
      | _ => rfl
    | _ => rfl

theorem frame_heard : ∃ w,
    runFrom queueTurn {} ([.top, .enter, .test, .block].map .inner ++ [.receive "{}"]) = some w ∧
    ¬ Stranded EventQueue.ready w.worker.monitor :=
  ⟨_, rfl, (worker_heard ([.top, .enter, .test, .block].map .inner ++ [.receive "{}"]) rfl (by decide)).1⟩

end Stoatpp.Gateway
