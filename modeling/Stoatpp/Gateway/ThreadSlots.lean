import Stoatpp.Library.Background

/-!
# The heartbeat thread and the watchdog thread

`schedule_ping` and `start_watchdog` test a flag and put a new thread into a slot, `on_disconnected`,
`disconnect` and `stop_watchdog` clear the flag and join the slot. The worker schedules the heartbeat
while the socket's thread may end it, and neither holds a mutex.
-/

namespace Stoatpp.Gateway
open Stoatpp.Library

/-- Who calls: the thread of the socket, the worker, a thread it started for an event, the user of
the gateway, or the thread of the other slot. -/
inductive Outsider where
  | socket
  | worker
  | event (i : ℕ)
  | user
  | neighbour
  deriving DecidableEq

inductive ThreadTurn where
  | heartbeat (t : BackgroundTurn Outsider)
  | watchdog (t : BackgroundTurn Outsider)

namespace ThreadTurn

def schedulePing (c : Caller Outsider) : ThreadTurn := .heartbeat (.start c)

/-- Also what `disconnect` does behind `stop_watchdog`. -/
def onDisconnected (c : Caller Outsider) : ThreadTurn := .heartbeat (.stop c)

def startWatchdog (c : Caller Outsider) : ThreadTurn := .watchdog (.start c)

def stopWatchdog (c : Caller Outsider) : ThreadTurn := .watchdog (.stop c)

def turn : ThreadTurn → BackgroundTurn Outsider
  | heartbeat t => t
  | watchdog t => t

end ThreadTurn

/-- What holds of a slot in every run without overlaps; `outside` tells that no call was made by a
thread of the slot. -/
structure InHand (outside : Prop) (b : Background Outsider) : Prop where
  whole : b.terminated = false
  rest : (∀ c, b.place c = .idle) → b.slot.isSome = b.running
  joins : ∀ c k, b.place c = .joining k →
    ∃ t ∈ [BackgroundTurn.leave k, .proceed c], (backgroundTurn b t).isSome = true
  alone : outside → ∀ i j, b.Alive i → b.Alive j → i = j

variable {s s' : Threads} {b b' : Background Outsider} {t : BackgroundTurn Outsider} {turns : List ThreadTurn}
  {outside : Prop}

/-- The call under way, and that it leaves no second thread. -/
def Kept (outside : Prop) (b : Background Outsider) : Prop :=
  ∃ c, b.Tidy c ∧ (outside → c.Outside ∧ b.Held c)

theorem kept_start : Kept outside {} :=
  ⟨.other .user, ⟨rfl, fun _ _ => rfl, rfl⟩, fun _ => ⟨fun _ => nofun, fun _ => nofun⟩⟩

end Stoatpp.Gateway
