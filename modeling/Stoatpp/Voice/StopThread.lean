import Stoatpp.Library.WorkerLoop
import Stoatpp.Voice.Sending

/-!
# Stopping the send thread

`stop_thread` clears `running` under `queue_mutex`, as `write_pcm` fills the queue, so the send
loop sees either or is woken for it. Whoever joins the thread waits for no more than the frame in
hand.
-/

namespace Stoatpp.Voice
open Stoatpp.Library

structure PcmQueue where
  running : Bool := true
  samples : List Int16 := []
  deriving DecidableEq

namespace PcmQueue

def ready (q : PcmQueue) : Bool := decide (frameSize ≤ q.samples.length) || !q.running

def push (block : List Int16) (q : PcmQueue) : PcmQueue := { q with samples := q.samples ++ block }

def stop (q : PcmQueue) : PcmQueue := { q with running := false }

/-- Behind the wait the loop breaks if it is stopped, and else takes a frame. -/
def next (q : PcmQueue) : Option PcmQueue :=
  if q.running then some { q with samples := q.samples.drop frameSize } else none

def job : Job PcmQueue where
  running := running
  ready := ready
  next := next
  stopped q h := by simp [ready, h]
  kept q q' h := by
    obtain ⟨-, h⟩ := Option.ite_none_right_eq_some.mp h
    obtain rfl := Option.some.inj h
    rfl

end PcmQueue

inductive StopTurn where
  /-- a call of `write_pcm` that has found `running` set -/
  | writePcm (block : List Int16)
  | stopThread
  | inner (a : InnerTurn)

def changedPcm (w : Worker PcmQueue) (f : PcmQueue → PcmQueue) : Option (Worker PcmQueue) :=
  (monitorTurn PcmQueue.ready w.monitor (.guarded f)).map fun monitor => { w with monitor }

def stopTurn (w : Worker PcmQueue) : StopTurn → Option (Worker PcmQueue)
  | .writePcm block => changedPcm w (PcmQueue.push block)
  | .stopThread => changedPcm w PcmQueue.stop
  | .inner a => innerTurn PcmQueue.job w a

/-- A send thread that has just been started on what the queue holds. -/
def startedOn (q : PcmQueue) : Worker PcmQueue := { monitor := { shared := q } }

variable {w w' : Worker PcmQueue} {a : StopTurn} {turns : List StopTurn} {q : PcmQueue}

theorem changedPcm_sound {f : PcmQueue → PcmQueue} (hw : w.Sound PcmQueue.job) (h : changedPcm w f = some w') :
    w'.Sound PcmQueue.job := by
  obtain ⟨monitor, hmonitor, rfl⟩ := Option.map_eq_some_iff.mp h
  have hwaiter : monitor.waiter = w.monitor.waiter := by
    obtain ⟨-, hmonitor⟩ := Option.ite_none_left_eq_some.mp hmonitor
    rw [← Option.some.inj hmonitor]
  exact ⟨fun hloop => hwaiter.trans (hw.waits hloop), heard_step (t := .guarded _) hw.heard trivial hmonitor⟩

theorem stopTurn_sound (hw : w.Sound PcmQueue.job) (h : stopTurn w a = some w') : w'.Sound PcmQueue.job := by
  cases a with
  | writePcm block => exact changedPcm_sound hw h
  | stopThread => exact changedPcm_sound hw h
  | inner i => exact sound_inner hw h

/-- The send loop never sleeps on a full frame or on its stop, and once it is stopped it ends after a
bounded number of turns in whatever order: `stop_thread` returns. -/
theorem stop_thread_returns (q : PcmQueue) (turns : List StopTurn)
    (h : runFrom stopTurn (startedOn q) turns = some w) :
    ¬ Stranded PcmQueue.ready w.monitor ∧
    (w.monitor.shared.running = false → ∀ (turns : List InnerTurn) w', (∀ a ∈ turns, a.ends = true) →
      runFrom (innerTurn PcmQueue.job) w turns = some w' → turns.length ≤ w.rank ∧
        (w'.loop = .ended ∨ ∃ a : InnerTurn, a.ends = true ∧ (innerTurn PcmQueue.job w' a).isSome = true)) := by
  have hstart : (startedOn q).Sound PcmQueue.job := ⟨fun _ => rfl, heard_of Waiter.noConfusion Waiter.noConfusion⟩
  have hw : w.Sound PcmQueue.job := run_invariant (C := fun _ _ => True) (P := fun w => w.Sound PcmQueue.job)
    (fun _ _ _ hw _ hstep => stopTurn_sound hw hstep) hstart (along_of_forall fun _ _ => trivial) h
  refine ⟨hw.heard.not_stranded, fun hstopped turns w' hends hrun => ?_⟩
  obtain ⟨hlength, hended⟩ := hw.ends hstopped hends hrun
  exact ⟨by omega, hended⟩

def stoppedAsleep : List StopTurn := [.top, .enter, .test, .block].map .inner ++ [.stopThread]

theorem stopped_asleep_returns : ∃ w, runFrom stopTurn (startedOn {}) stoppedAsleep = some w ∧
    ∀ w', runFrom (innerTurn PcmQueue.job) w [.notify, .relock, .test, .take] = some w' → w'.loop = .ended ∨
      ∃ a : InnerTurn, a.ends = true ∧ (innerTurn PcmQueue.job w' a).isSome = true :=
  ⟨_, rfl, fun w' h => ((stop_thread_returns {} stoppedAsleep rfl).2 rfl _ w' (by decide) h).2⟩

end Stoatpp.Voice
