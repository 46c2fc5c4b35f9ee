import Stoatpp.Gateway.HandleEvent
import Stoatpp.Library.Runs

/-!
# The gateway and its threads

The callbacks of the socket, the worker and the threads it starts, the heartbeat, the
watchdog and the calls of `connect` and `disconnect`, which follow one another. Between
`start()` and `stop()` the socket connects again whenever it is not open, and what is sent
while it is not open is lost.
-/

namespace Stoatpp.Gateway
open Stoatpp.Library

structure Config where
  wsAuthInUrl : Bool := false
  self : User := {}

/-- The connection a frame has come in on and its number among all frames. -/
structure Arrival where
  connection : ℕ
  number : ℕ

/-- What is sent, and that the flag is set: by a frame, or by the Open callback. -/
inductive Mark where
  | authenticate
  | ping
  | pong
  | flag (frame : Option ℕ)
  deriving DecidableEq

/-- Where the watchdog thread is: in its sleep, behind the check of `watchdog_running`, about to
send Authenticate, about to stop the socket, or about to start it again. -/
inductive Watchdog where
  | off
  | sleeping
  | awake
  | resending
  | restarting
  | stopped
  deriving DecidableEq

/-- How far a call of `disconnect` has come; `idle` is behind a `connect`. -/
inductive Call where
  | idle
  | joining
  | heartbeat
  | checking
  | stopping
  | clearing
  | returned
  deriving DecidableEq

/-- The socket, the fields of `gateway::impl`, and beside them the connections on which an
Authenticated frame has come in and all that was sent and flagged. -/
structure Session where
  started : Bool := false
  socketOpen : Bool := false
  connection : ℕ := 0
  received : ℕ := 0
  authenticated : Bool := false
  pingThreadRunning : Bool := false
  watchdogRunning : Bool := false
  watchdog : Watchdog := .off
  call : Call := .idle
  queue : List (Arrival × Option Json) := []
  worker : Arrival × List Action := (⟨0, 0⟩, [])
  threads : List (Arrival × List Action) := []
  greeted : List ℕ := []
  log : List Mark := []

/-- What handling a frame does; text that is no JSON is dropped. -/
def actions (cfg : Config) : Option Json → List Action
  | some j => (handleEvent cfg.self j).trace
  | none => []

def Action.isAuthenticated : Action → Bool
  | .authenticated => true
  | _ => false

/-- The frame is an Authenticated frame or holds one in a Bulk frame. -/
def greets (cfg : Config) (frame : Option Json) : Bool := (actions cfg frame).any Action.isAuthenticated

namespace Session

def send (m : Mark) (g : Session) : Session := if g.socketOpen then { g with log := g.log ++ [m] } else g

def setFlag (frame : Option ℕ) (g : Session) : Session :=
  { g with authenticated := true, log := g.log ++ [.flag frame] }

def schedulePing (g : Session) : Session := { g with pingThreadRunning := true }

def onConnected (cfg : Config) (g : Session) : Session :=
  let g := { g with socketOpen := true, connection := g.connection + 1 }
  if cfg.wsAuthInUrl then (g.setFlag none).schedulePing else g.send .authenticate

def onMessageReceived (cfg : Config) (frame : Option Json) (g : Session) : Session :=
  { g with
      received := g.received + 1
      queue := g.queue ++ [(⟨g.connection, g.received⟩, frame)]
      greeted := if greets cfg frame then g.connection :: g.greeted else g.greeted }

def onDisconnected (g : Session) : Session :=
  { g with socketOpen := false, authenticated := false, pingThreadRunning := false }

/-- `ws.start()`, which does nothing when the socket is started. -/
def wsStart (g : Session) : Session := { g with started := true }

/-- `ws.stop()`: an open connection is closed, with the callback, before it returns. -/
def wsStop (g : Session) : Session :=
  { (if g.socketOpen then g.onDisconnected else g) with started := false }

def startWatchdog (g : Session) : Session :=
  if g.watchdogRunning then g else { g with watchdogRunning := true, watchdog := .sleeping }

def perform (frame : Arrival) (a : Action) (g : Session) : Session :=
  match a with
  | .authenticated => ((g.setFlag (some frame.number)).send .ping).schedulePing
  | .pong _ => g.send .pong
  | _ => g

def takeFrame (cfg : Config) (frame : Arrival × Option Json) (g : Session) : Session :=
  if ∃ j, frame.2 = some j ∧ Inline j then { g with worker := (frame.1, actions cfg frame.2) }
  else { g with threads := g.threads ++ [(frame.1, actions cfg frame.2)] }

/-- One round of the watchdog in its parts; `due` tells whether enough time has passed. -/
def watch (due : Bool) (g : Session) : Option Session :=
  match g.watchdog with
  | .off => none
  | .sleeping => some { g with watchdog := if g.watchdogRunning then .awake else .off }
  | .awake =>
    -- more than 20 s without a connection, or more than 15 s connected and not authenticated
    if !g.socketOpen then some { g with watchdog := if due then .restarting else .sleeping }
    else some { g with watchdog := if !g.authenticated && due then .resending else .sleeping }
  | .resending => some { g.send .authenticate with watchdog := .sleeping }
  | .restarting => some { g.wsStop with watchdog := .stopped }
  | .stopped => some { g.wsStart with watchdog := .sleeping }

def disconnect (g : Session) : Session :=
  if g.watchdogRunning then { g with watchdogRunning := false, call := .joining }
  else { g with call := .heartbeat }

/-- The next part of the call: the watchdog is joined, the heartbeat is ended, the socket is
stopped if it is open, and the flag is cleared. -/
def proceed (g : Session) : Option Session :=
  match g.call with
  | .joining => if g.watchdog = .off then some { g with call := .heartbeat } else none
  | .heartbeat => some { g with pingThreadRunning := false, call := .checking }
  | .checking => some { g with call := if g.socketOpen then .stopping else .clearing }
  | .stopping => some { g.wsStop with call := .clearing }
  -- without a stop when the socket was found connecting: this is all that is left to do
  | .clearing => some { g with authenticated := false, call := .returned }
  | _ => none

end Session

/-- Who takes the next step: the caller, the socket, the worker or a thread it has started, with
handlers that return or throw, the heartbeat, or the watchdog. -/
inductive Turn where
  | connect
  | disconnect
  | proceed
  | opened
  | message (frame : Option Json)
  | closed
  | take
  | worker (returns : Bool)
  | thread (i : ℕ) (returns : Bool)
  | beat
  | watchdog (due : Bool)

def turn (cfg : Config) (g : Session) : Turn → Option Session
  | .connect =>
    if g.call = .idle ∨ g.call = .returned then some { g.wsStart.startWatchdog with call := .idle }
    else none
  | .disconnect => if g.call = .idle ∨ g.call = .returned then some g.disconnect else none
  | .proceed => g.proceed
  | .opened => if g.started ∧ !g.socketOpen then some (g.onConnected cfg) else none
  | .message frame => if g.socketOpen then some (g.onMessageReceived cfg frame) else none
  | .closed => if g.socketOpen then some g.onDisconnected else none
  | .take =>
    match g.worker.2, g.queue with
    | [], frame :: rest => some (Session.takeFrame cfg frame { g with queue := rest })
    | _, _ => none
  | .worker returns =>
    match g.worker.2 with
    | a :: rest =>
      some { g.perform g.worker.1 a with worker := (g.worker.1, if returns then rest else []) }
    | [] => none
  | .thread i returns =>
    match g.threads[i]? with
    | some (frame, a :: rest) =>
      some { g.perform frame a with threads := g.threads.set i (frame, if returns then rest else []) }
    | _ => none
  | .beat =>
    if g.pingThreadRunning then some (if g.authenticated then g.send .ping else g) else none
  | .watchdog due => g.watch due

/-! ## What each operation leaves alone -/

namespace Session

theorem send_eq (m : Mark) (g : Session) :
    ∃ log, g.send m = { g with log := log } ∧ (g.socketOpen = false → log = g.log) := by
  unfold send
  split_ifs with h
  · exact ⟨_, rfl, fun hclosed => absurd h (Bool.eq_false_iff.mp hclosed)⟩
  · exact ⟨g.log, rfl, fun _ => rfl⟩

theorem onConnected_eq (cfg : Config) (g : Session) : ∃ ping log, g.onConnected cfg =
    { g with
        socketOpen := true
        connection := g.connection + 1
        authenticated := cfg.wsAuthInUrl || g.authenticated
        pingThreadRunning := ping
        log := log } := by
  cases h : cfg.wsAuthInUrl with
  | true => exact ⟨_, _, by simp only [onConnected, h, if_true]; rfl⟩
  | false =>
    obtain ⟨log, hlog, -⟩ := send_eq .authenticate
      { g with socketOpen := true, connection := g.connection + 1 }
    refine ⟨g.pingThreadRunning, log, ?_⟩
    rw [onConnected, h, if_neg Bool.false_ne_true]
    exact hlog

theorem wsStop_eq (g : Session) : ∃ ping, g.wsStop =
    { g with
        started := false
        socketOpen := false
        authenticated := !g.socketOpen && g.authenticated
        pingThreadRunning := ping } := by
  cases h : g.socketOpen with
  | true => exact ⟨_, by rw [wsStop, h, if_pos rfl]; rfl⟩
  | false => exact ⟨g.pingThreadRunning, by simp [wsStop, h]⟩

theorem startWatchdog_eq (g : Session) : ∃ watchdog, g.startWatchdog =
    { g with watchdogRunning := true, watchdog := watchdog } := by
  unfold startWatchdog
  split_ifs with h
  · exact ⟨g.watchdog, by rw [← h]⟩
  · exact ⟨_, rfl⟩

end Session

/-- The mark an action leaves where nothing can be sent. -/
def Action.marks (frame : Arrival) (a : Action) : List Mark :=
  if a.isAuthenticated then [.flag (some frame.number)] else []

theorem Session.perform_eq (frame : Arrival) (a : Action) (g : Session) : ∃ ping log,
    g.perform frame a =
      { g with
          authenticated := a.isAuthenticated || g.authenticated
          pingThreadRunning := ping
          log := log } ∧
      (g.socketOpen = false → log = g.log ++ a.marks frame) := by
  cases a with
  | authenticated =>
    obtain ⟨log, hlog, hclosed⟩ := send_eq .ping (g.setFlag (some frame.number))
    exact ⟨true, log, by rw [perform, hlog]; rfl, hclosed⟩
  | pong data =>
    obtain ⟨log, hlog, hclosed⟩ := send_eq .pong g
    exact ⟨g.pingThreadRunning, log, hlog, fun h => (hclosed h).trans (List.append_nil _).symm⟩
  | dispatch e => exact ⟨g.pingThreadRunning, g.log, rfl, fun _ => (List.append_nil _).symm⟩
  | latency sent => exact ⟨g.pingThreadRunning, g.log, rfl, fun _ => (List.append_nil _).symm⟩

/-! ## What a step can do -/

/-- Each kind of step with what it has found and all it may change. -/
inductive Transition (cfg : Config) (g : Session) : Turn → Session → Prop where
  | connect (watchdog : Watchdog) : Transition cfg g .connect
      { g with started := true, watchdogRunning := true, watchdog := watchdog, call := .idle }
  | tell : Transition cfg g .disconnect { g with watchdogRunning := false, call := .joining }
  | untold (hcall : g.call = .idle ∨ g.call = .returned) (hr : g.watchdogRunning = false) :
    Transition cfg g .disconnect { g with call := .heartbeat }
  | join (hcall : g.call = .joining) (hoff : g.watchdog = .off) :
    Transition cfg g .proceed { g with call := .heartbeat }
  | unschedule (hcall : g.call = .heartbeat) :
    Transition cfg g .proceed { g with pingThreadRunning := false, call := .checking }
  | find (hcall : g.call = .checking) (hopen : g.socketOpen = true) :
    Transition cfg g .proceed { g with call := .stopping }
  | miss (hcall : g.call = .checking) (hopen : g.socketOpen = false) :
    Transition cfg g .proceed { g with call := .clearing }
  | stop (hcall : g.call = .stopping) (ping : Bool) : Transition cfg g .proceed
      { g with
          started := false
          socketOpen := false
          authenticated := !g.socketOpen && g.authenticated
          pingThreadRunning := ping
          call := .clearing }
  | clear (hcall : g.call = .clearing) :
    Transition cfg g .proceed { g with authenticated := false, call := .returned }
  | opened (hstarted : g.started = true) (hopen : g.socketOpen = false) (ping : Bool)
      (log : List Mark) : Transition cfg g .opened
      { g with
          socketOpen := true
          connection := g.connection + 1
          authenticated := cfg.wsAuthInUrl || g.authenticated
          pingThreadRunning := ping
          log := log }
  | message (frame : Option Json) (hopen : g.socketOpen = true) :
    Transition cfg g (.message frame) (g.onMessageReceived cfg frame)
  | closed (hopen : g.socketOpen = true) : Transition cfg g .closed g.onDisconnected
  | handle (frame : Arrival × Option Json) (rest : List (Arrival × Option Json))
      (hq : g.queue = frame :: rest) :
    Transition cfg g .take { g with queue := rest, worker := (frame.1, actions cfg frame.2) }
  | handOver (frame : Arrival × Option Json) (rest : List (Arrival × Option Json))
      (hq : g.queue = frame :: rest) : Transition cfg g .take
      { g with queue := rest, threads := g.threads ++ [(frame.1, actions cfg frame.2)] }
  | worker (returns : Bool) (a : Action) (rest : List Action) (hw : g.worker.2 = a :: rest)
      (ping : Bool) (log : List Mark)
      (hlog : g.socketOpen = false → log = g.log ++ a.marks g.worker.1) :
    Transition cfg g (.worker returns)
      { g with
          authenticated := a.isAuthenticated || g.authenticated
          pingThreadRunning := ping
          log := log
          worker := (g.worker.1, if returns then rest else []) }
  | thread (i : ℕ) (returns : Bool) (frame : Arrival) (a : Action) (rest : List Action)
      (hi : (frame, a :: rest) ∈ g.threads[i]?) (ping : Bool) (log : List Mark)
      (hlog : g.socketOpen = false → log = g.log ++ a.marks frame) :
    Transition cfg g (.thread i returns)
      { g with
          authenticated := a.isAuthenticated || g.authenticated
          pingThreadRunning := ping
          log := log
          threads := g.threads.set i (frame, if returns then rest else []) }
  | beat (log : List Mark) (hlog : g.socketOpen = false → log = g.log) :
    Transition cfg g .beat { g with log := log }
  | watch (due : Bool) (hon : g.watchdog ≠ .off) (watchdog : Watchdog) (log : List Mark) :
    Transition cfg g (.watchdog due) { g with watchdog := watchdog, log := log }
  | watchStop (due : Bool) (hon : g.watchdog ≠ .off) (ping : Bool) :
    Transition cfg g (.watchdog due)
      { g with
          started := false
          socketOpen := false
          authenticated := !g.socketOpen && g.authenticated
          pingThreadRunning := ping
          watchdog := .stopped }
  | watchStart (due : Bool) (hon : g.watchdog ≠ .off) :
    Transition cfg g (.watchdog due) { g with started := true, watchdog := .sleeping }

variable {cfg : Config} {g g' : Session}

theorem proceed_transition (h : g.proceed = some g') : Transition cfg g .proceed g' := by
  unfold Session.proceed at h
  split at h
  · next hcall =>
    split_ifs at h with hoff
    obtain rfl := Option.some.inj h
    exact .join hcall hoff
  · next hcall =>
    obtain rfl := Option.some.inj h
    exact .unschedule hcall
  · next hcall =>
    obtain rfl := Option.some.inj h
    split_ifs with hopen
    · exact .find hcall hopen
    · exact .miss hcall (Bool.eq_false_iff.mpr hopen)
  · next hcall =>
    obtain rfl := Option.some.inj h
    obtain ⟨ping, hstop⟩ := g.wsStop_eq
    rw [hstop]
    exact .stop hcall ping
  · next hcall =>
    obtain rfl := Option.some.inj h
    exact .clear hcall
  · cases h

theorem watch_transition {due : Bool} (h : g.watch due = some g') :
    Transition cfg g (.watchdog due) g' := by
  have hon : g.watchdog ≠ .off := by
    intro hoff
    rw [Session.watch, hoff] at h
    cases h
  unfold Session.watch at h
  split at h
  · cases h
  · obtain rfl := Option.some.inj h
    exact .watch due hon _ g.log
  · split_ifs at h
    all_goals
      obtain rfl := Option.some.inj h
      exact .watch due hon _ g.log
  · obtain rfl := Option.some.inj h
    obtain ⟨log, hlog, -⟩ := g.send_eq .authenticate
    rw [hlog]
    exact .watch due hon _ log
  · obtain rfl := Option.some.inj h
    obtain ⟨ping, hstop⟩ := g.wsStop_eq
    rw [hstop]
    exact .watchStop due hon ping
  · obtain rfl := Option.some.inj h
    exact .watchStart due hon

theorem turn_transition {a : Turn} (h : turn cfg g a = some g') : Transition cfg g a g' := by
  cases a with
  | connect =>
    simp only [turn] at h
    split_ifs at h
    obtain rfl := Option.some.inj h
    obtain ⟨watchdog, hw⟩ := Session.startWatchdog_eq g.wsStart
    rw [hw]
    exact .connect watchdog
  | disconnect =>
    simp only [turn, Session.disconnect] at h
    split_ifs at h with hcall hr
    · obtain rfl := Option.some.inj h
      exact .tell
    · obtain rfl := Option.some.inj h
      exact .untold hcall (Bool.eq_false_iff.mpr hr)
  | proceed => exact proceed_transition h
  | opened =>
    simp only [turn] at h
    split_ifs at h with hopen
    obtain rfl := Option.some.inj h
    obtain ⟨ping, log, hconnected⟩ := g.onConnected_eq cfg
    rw [hconnected]
    exact .opened hopen.1 (by simpa using hopen.2) ping log
  | message frame =>
    simp only [turn] at h
    split_ifs at h with hopen
    obtain rfl := Option.some.inj h
    exact .message frame hopen
  | closed =>
    simp only [turn] at h
    split_ifs at h with hopen
    obtain rfl := Option.some.inj h
    exact .closed hopen
  | take =>
    simp only [turn] at h
    split at h
    · next frame rest _ hq =>
      obtain rfl := Option.some.inj h
      unfold Session.takeFrame
      split_ifs
      · exact .handle frame rest hq
      · exact .handOver frame rest hq
    · cases h
  | worker returns =>
    simp only [turn] at h
    split at h
    · next a rest hw =>
      obtain rfl := Option.some.inj h
      obtain ⟨ping, log, hperform, hlog⟩ := g.perform_eq g.worker.1 a
      rw [hperform]
      exact .worker returns a rest hw ping log hlog
    · cases h
  | thread i returns =>
    simp only [turn] at h
    split at h
    · next frame a rest hi =>
      obtain rfl := Option.some.inj h
      obtain ⟨ping, log, hperform, hlog⟩ := g.perform_eq frame a
      rw [hperform]
      exact .thread i returns frame a rest hi ping log hlog
    · cases h
  | beat =>
    simp only [turn] at h
    split_ifs at h
    · obtain rfl := Option.some.inj h
      obtain ⟨log, hlog, hclosed⟩ := g.send_eq .ping
      rw [hlog]
      exact .beat log hclosed
    · obtain rfl := Option.some.inj h
      exact .beat g.log fun _ => rfl
  | watchdog due => exact watch_transition h

end Stoatpp.Gateway
