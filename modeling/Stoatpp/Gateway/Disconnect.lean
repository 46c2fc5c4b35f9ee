import Stoatpp.Gateway.Connection

/-!
# After `disconnect`

The call ends the watchdog and the heartbeat, but it stops the socket only if it finds it
open. A socket that is started and not open goes on to connect again.
-/

namespace Stoatpp.Gateway
open Stoatpp.Library

/-- The watchdog has been joined. -/
def Call.Joined : Call → Prop
  | .idle => False
  | .joining => False
  | _ => True

/-- The socket has been stopped, if it had to be. -/
def Call.Stopped : Call → Prop
  | .clearing => True
  | .returned => True
  | _ => False

/-- What the stages of the call have reached, if the check was right. -/
structure Settled (g : Session) : Prop where
  socket : g.socketOpen → g.started
  unwatched : g.call = .idle → g.watchdogRunning = false → g.watchdog = .off
  told : g.call ≠ .idle → g.watchdogRunning = false
  joined : g.call.Joined → g.watchdog = .off
  stopped : g.call.Stopped → g.started = false

/-- Nothing is left that could start the socket. -/
structure Quiet (g : Session) : Prop where
  started : g.started = false
  socketOpen : g.socketOpen = false
  watchdog : g.watchdog = .off
  watchdogRunning : g.watchdogRunning = false

/-- All frames that are still to be handled have come in before the given one. -/
structure Before (k : ℕ) (g : Session) : Prop where
  queue : ∀ x ∈ g.queue, x.1.number < k
  worker : g.worker.2 ≠ [] → g.worker.1.number < k
  threads : ∀ x ∈ g.threads, x.1.number < k

/-- The check of `disconnect` finds the socket open if it is started. -/
def Noticed (g : Session) : Turn → Prop
  | .proceed => g.call = .checking → g.started → g.socketOpen
  | _ => True

instance (g : Session) (a : Turn) : Decidable (Noticed g a) := by
  unfold Noticed
  split <;> infer_instance

/-- What must not come after `disconnect`, when so many frames have come in: that Authenticate
or Ping is sent, or that the Open callback or a later frame sets the flag. -/
def Mark.Revives (received : ℕ) : Mark → Prop
  | .authenticate => True
  | .ping => True
  | .pong => False
  | .flag none => True
  | .flag (some number) => received ≤ number

def Turn.IsSocketEvent : Turn → Prop
  | .opened => True
  | .message _ => True
  | .closed => True
  | _ => False

variable {cfg : Config} {g g' : Session}

/-! ## Up to the return -/

theorem Call.Stopped.joined {call : Call} (h : call.Stopped) : call.Joined := by
  cases call with
  | clearing => exact trivial
  | returned => exact trivial
  | _ => exact h.elim

/-- The watchdog runs only up to the join, so what it does is no matter of the later stages. -/
theorem Settled.watched (hg : Settled g) (hon : g.watchdog ≠ .off) (hcall : g'.call = g.call)
    (hrunning : g'.watchdogRunning = g.watchdogRunning) (hsocket : g'.socketOpen → g'.started) :
    Settled g' := by
  have hjoined : ¬ g'.call.Joined := fun h => hon (hg.joined (hcall ▸ h))
  refine ⟨hsocket, fun hidle hr => ?_, fun hc => ?_, fun hj => absurd hj hjoined,
    fun hs => absurd hs.joined hjoined⟩
  · exact absurd (hg.unwatched (hcall ▸ hidle) (hrunning ▸ hr)) hon
  · rw [hrunning]
    exact hg.told (hcall ▸ hc)

theorem Settled.staged (hg : Settled g) (call : Call) (hcall : g.call.Joined) (hstage : call ≠ .idle)
    (hstopped : call.Stopped → g.started = false) : Settled { g with call := call } where
  socket := hg.socket
  unwatched h := absurd h hstage
  told _ := hg.told fun hidle => by
    rw [hidle] at hcall
    exact hcall
  joined _ := hg.joined hcall
  stopped := hstopped

theorem turn_settled (g : Session) (a : Turn) (g' : Session) (hg : Settled g) (ha : Noticed g a)
    (ht : turn cfg g a = some g') : Settled g' := by
  cases turn_transition ht with
  | connect => exact ⟨fun _ => rfl, nofun, fun h => absurd rfl h, nofun, nofun⟩
  | tell => exact ⟨hg.socket, nofun, fun _ => rfl, nofun, nofun⟩
  | untold hcall hr =>
    refine ⟨hg.socket, nofun, fun _ => hr, fun _ => ?_, nofun⟩
    rcases hcall with hcall | hcall
    · exact hg.unwatched hcall hr
    · exact hg.joined (by rw [hcall]; exact trivial)
  | join hcall hoff =>
    exact ⟨hg.socket, nofun, fun _ => hg.told (by rw [hcall]; exact nofun), fun _ => hoff, nofun⟩
  | unschedule hcall =>
    have hs := hg.staged .checking (by rw [hcall]; exact trivial) nofun nofun
    exact ⟨hs.socket, hs.unwatched, hs.told, hs.joined, hs.stopped⟩
  | find hcall => exact hg.staged .stopping (by rw [hcall]; exact trivial) nofun nofun
  | miss hcall hclosed =>
    refine hg.staged .clearing (by rw [hcall]; exact trivial) nofun fun _ => ?_
    exact Bool.eq_false_iff.mpr fun hs => absurd (ha hcall hs) (Bool.eq_false_iff.mp hclosed)
  | stop hcall =>
    exact ⟨nofun, nofun, fun _ => hg.told (by rw [hcall]; exact nofun),
      fun _ => hg.joined (by rw [hcall]; exact trivial), fun _ => rfl⟩
  | clear hcall =>
    have hs := hg.staged .returned (by rw [hcall]; exact trivial) nofun
      fun _ => hg.stopped (by rw [hcall]; exact trivial)
    exact ⟨hs.socket, hs.unwatched, hs.told, hs.joined, hs.stopped⟩
  | opened hstarted => exact ⟨fun _ => hstarted, hg.unwatched, hg.told, hg.joined, hg.stopped⟩
  | message => exact ⟨hg.socket, hg.unwatched, hg.told, hg.joined, hg.stopped⟩
  | closed => exact ⟨nofun, hg.unwatched, hg.told, hg.joined, hg.stopped⟩
  | handle => exact ⟨hg.socket, hg.unwatched, hg.told, hg.joined, hg.stopped⟩
  | handOver => exact ⟨hg.socket, hg.unwatched, hg.told, hg.joined, hg.stopped⟩
  | worker => exact ⟨hg.socket, hg.unwatched, hg.told, hg.joined, hg.stopped⟩
  | thread => exact ⟨hg.socket, hg.unwatched, hg.told, hg.joined, hg.stopped⟩
  | beat => exact ⟨hg.socket, hg.unwatched, hg.told, hg.joined, hg.stopped⟩
  | watch due hon => exact hg.watched hon rfl rfl hg.socket
  | watchStop due hon => exact hg.watched hon rfl rfl nofun
  | watchStart due hon => exact hg.watched hon rfl rfl fun _ => rfl

theorem Settled.quiet (hg : Settled g) (hret : g.call = .returned) : Quiet g where
  started := hg.stopped (by rw [hret]; exact trivial)
  socketOpen := Bool.eq_false_iff.mpr fun hopen =>
    absurd (hg.socket hopen) (by rw [hg.stopped (by rw [hret]; exact trivial)]; exact nofun)
  watchdog := hg.joined (by rw [hret]; exact trivial)
  watchdogRunning := hg.told (by rw [hret]; exact nofun)

/-! ## The frames that are still to be handled -/

theorem turn_before (g : Session) (a : Turn) (g' : Session) (hb : Before g.received g)
    (ht : turn cfg g a = some g') : Before g'.received g' := by
  cases turn_transition ht with
  | message frame =>
    refine ⟨fun x hx => ?_, fun hw => (hb.worker hw).trans (Nat.lt_succ_self _),
      fun x hx => (hb.threads x hx).trans (Nat.lt_succ_self _)⟩
    rcases List.mem_append.mp hx with hx | hx
    · exact (hb.queue x hx).trans (Nat.lt_succ_self _)
    · rw [List.mem_singleton.mp hx]
      exact Nat.lt_succ_self _
  | handle frame rest hq =>
    refine ⟨fun x hx => hb.queue x ?_, fun _ => hb.queue frame ?_, hb.threads⟩
    · rw [hq]
      exact List.mem_cons_of_mem _ hx
    · rw [hq]
      exact List.mem_cons_self
  | handOver frame rest hq =>
    refine ⟨fun x hx => hb.queue x ?_, hb.worker, fun x hx => ?_⟩
    · rw [hq]
      exact List.mem_cons_of_mem _ hx
    · rcases List.mem_append.mp hx with hx | hx
      · exact hb.threads x hx
      · rw [List.mem_singleton.mp hx]
        exact hb.queue frame (hq ▸ List.mem_cons_self)
  | worker returns a rest hw =>
    exact ⟨hb.queue, fun _ => hb.worker (by rw [hw]; exact List.cons_ne_nil _ _), hb.threads⟩
  | thread i returns frame a rest hi =>
    refine ⟨hb.queue, hb.worker, fun x hx => ?_⟩
    rcases List.mem_or_eq_of_mem_set hx with hx | rfl
    · exact hb.threads x hx
    · exact hb.threads (frame, a :: rest) (List.mem_of_getElem? hi)
  | _ => exact ⟨hb.queue, hb.worker, hb.threads⟩

/-! ## Behind the return -/

/-- What a step can do where nothing can start the socket: at most a frame that has come in
before sets the flag. -/
structure Idles (g g' : Session) (a : Turn) : Prop where
  quiet : Quiet g'
  received : g'.received = g.received
  event : ¬ a.IsSocketEvent
  log : g'.log = g.log ∨ ∃ n < g.received, g'.log = g.log ++ [.flag (some n)]

theorem marks_cases {frame : Arrival} {k : ℕ} (hn : frame.number < k) (a : Action) (log : List Mark) :
    log ++ a.marks frame = log ∨ ∃ n < k, log ++ a.marks frame = log ++ [.flag (some n)] := by
  unfold Action.marks
  split_ifs
  · exact Or.inr ⟨frame.number, hn, rfl⟩
  · exact Or.inl (List.append_nil _)

theorem turn_idles (g : Session) (a : Turn) (g' : Session) (hq : Quiet g) (hb : Before g.received g)
    (ha : a ≠ .connect) (ht : turn cfg g a = some g') : Idles g g' a := by
  obtain ⟨hstarted, hclosed, hoff, hrunning⟩ := hq
  cases turn_transition ht with
  | connect => exact absurd rfl ha
  | tell => exact ⟨⟨hstarted, hclosed, hoff, rfl⟩, rfl, id, Or.inl rfl⟩
  | untold => exact ⟨⟨hstarted, hclosed, hoff, hrunning⟩, rfl, id, Or.inl rfl⟩
  | join => exact ⟨⟨hstarted, hclosed, hoff, hrunning⟩, rfl, id, Or.inl rfl⟩
  | unschedule => exact ⟨⟨hstarted, hclosed, hoff, hrunning⟩, rfl, id, Or.inl rfl⟩
  | find => exact ⟨⟨hstarted, hclosed, hoff, hrunning⟩, rfl, id, Or.inl rfl⟩
  | miss => exact ⟨⟨hstarted, hclosed, hoff, hrunning⟩, rfl, id, Or.inl rfl⟩
  | stop => exact ⟨⟨rfl, rfl, hoff, hrunning⟩, rfl, id, Or.inl rfl⟩
  | clear => exact ⟨⟨hstarted, hclosed, hoff, hrunning⟩, rfl, id, Or.inl rfl⟩
  | opened hs => exact absurd hs (Bool.eq_false_iff.mp hstarted)
  | message frame hopen => exact absurd hopen (Bool.eq_false_iff.mp hclosed)
  | closed hopen => exact absurd hopen (Bool.eq_false_iff.mp hclosed)
  | handle => exact ⟨⟨hstarted, hclosed, hoff, hrunning⟩, rfl, id, Or.inl rfl⟩
  | handOver => exact ⟨⟨hstarted, hclosed, hoff, hrunning⟩, rfl, id, Or.inl rfl⟩
  | worker returns a rest hw ping log hlog =>
    refine ⟨⟨hstarted, hclosed, hoff, hrunning⟩, rfl, id, ?_⟩
    rw [hlog hclosed]
    exact marks_cases (hb.worker (by rw [hw]; exact List.cons_ne_nil _ _)) a g.log
  | thread i returns frame a rest hi ping log hlog =>
    refine ⟨⟨hstarted, hclosed, hoff, hrunning⟩, rfl, id, ?_⟩
    rw [hlog hclosed]
    exact marks_cases (hb.threads (frame, a :: rest) (List.mem_of_getElem? hi)) a g.log
  | beat log hlog => exact ⟨⟨hstarted, hclosed, hoff, hrunning⟩, rfl, id, Or.inl (hlog hclosed)⟩
  | watch due hon => exact absurd hoff hon
  | watchStop due hon => exact absurd hoff hon
  | watchStart due hon => exact absurd hoff hon

/-- The state behind the return, with what has been sent and flagged since. -/
structure Ended (k : ℕ) (log : List Mark) (g : Session) : Prop where
  quiet : Quiet g
  received : g.received = k
  before : Before g.received g
  marks : ∀ m ∈ g.log.drop log.length, ¬ m.Revives k
  grown : log <+: g.log

theorem turn_ended {k : ℕ} {log : List Mark} (g : Session) (a : Turn) (g' : Session)
    (hg : Ended k log g) (ha : a ≠ .connect) (ht : turn cfg g a = some g') : Ended k log g' := by
  have hidle := turn_idles g a g' hg.quiet hg.before ha ht
  have hbefore := turn_before g a g' hg.before ht
  rcases hidle.log with hlog | ⟨n, hn, hlog⟩
  · exact ⟨hidle.quiet, hidle.received.trans hg.received, hbefore, hlog ▸ hg.marks, hlog ▸ hg.grown⟩
  · refine ⟨hidle.quiet, hidle.received.trans hg.received, hbefore, ?_, ?_⟩
    · rw [hlog, List.drop_append_of_le_length hg.grown.length_le]
      intro m hm
      rcases List.mem_append.mp hm with hm | hm
      · exact hg.marks m hm
      · rw [List.mem_singleton.mp hm]
        exact Nat.not_le.mpr (hg.received ▸ hn)
    · rw [hlog]
      exact hg.grown.trans (List.prefix_append _ _)

/-! ## Whole runs -/

/-- Once `disconnect` has returned and until `connect` is called, no callback of the socket comes,
no Authenticate or Ping is sent and no later frame sets the flag, if up to then each check of
`disconnect` has found the socket open or not started. -/
theorem disconnected_for_good (cfg : Config) (before after : List Turn) (g g' : Session)
    (hbefore : runFrom (turn cfg) {} before = some g) (hc : Along (turn cfg) Noticed {} before)
    (hret : g.call = .returned) (hafter : runFrom (turn cfg) g after = some g')
    (hno : ∀ a ∈ after, a ≠ .connect) :
    (∀ a ∈ after, ¬ a.IsSocketEvent) ∧ ∀ m ∈ g'.log.drop g.log.length, ¬ m.Revives g.received := by
  have hstart : Settled {} := ⟨nofun, fun _ _ => rfl, fun h => absurd rfl h, nofun, nofun⟩
  have hframes : Before 0 {} := ⟨List.forall_mem_nil _, fun h => absurd rfl h, List.forall_mem_nil _⟩
  have hsettled : Settled g := run_invariant turn_settled hstart hc hbefore
  have hpending : Before g.received g :=
    run_invariant (C := fun _ _ => True) (P := fun g => Before g.received g)
      (fun g a g' hb _ ht => turn_before g a g' hb ht) hframes
      (along_of_forall fun _ _ => trivial) hbefore
  have hended : Ended g.received g.log g :=
    ⟨hsettled.quiet hret, rfl, hpending, by simp, List.prefix_rfl⟩
  have hcalls : Along (turn cfg) (fun _ a => a ≠ .connect) g after := along_of_forall hno
  exact ⟨run_choices turn_ended
      (fun g a g' hg ha ht => (turn_idles g a g' hg.quiet hg.before ha ht).event) hended hcalls hafter,
    (run_invariant turn_ended hended hcalls hafter).marks⟩

def disconnectTurns : List Turn :=
  [.disconnect, .watchdog false, .proceed, .proceed, .proceed, .proceed]

theorem open_disconnected : ∃ g g',
    runFrom (turn {}) {} ([.connect, .opened, .message (some (.obj [("type", .str "Authenticated")]))] ++
      disconnectTurns ++ [.proceed]) = some g ∧
    runFrom (turn {}) g [.take, .worker true, .worker true, .beat] = some g' ∧
    ∀ m ∈ g'.log.drop g.log.length, ¬ m.Revives g.received :=
  ⟨_, _, rfl, rfl, (disconnected_for_good {}
    ([.connect, .opened, .message (some (.obj [("type", .str "Authenticated")]))] ++ disconnectTurns ++
      [.proceed]) [.take, .worker true, .worker true, .beat] _ _ rfl (by decide) rfl rfl (by simp)).2⟩

/-- The socket is still connecting when `disconnect` looks at it. -/
theorem connecting_not_disconnected : ¬ ∀ (cfg : Config) (before after : List Turn) (g g' : Session),
    runFrom (turn cfg) {} before = some g → g.call = .returned →
    runFrom (turn cfg) g after = some g' → (∀ a ∈ after, a ≠ .connect) →
    ∀ m ∈ g'.log.drop g.log.length, ¬ m.Revives g.received := by
  intro h
  exact h {} (.connect :: disconnectTurns) [.opened] _ _ rfl rfl rfl (by simp) .authenticate
    (by decide) trivial

end Stoatpp.Gateway
