import Stoatpp.Library.Monitor

/-!
# Waiting for the join response

`connect` starts the socket and waits, for ten seconds at most, until a callback of the socket's
thread reports that the server has let it in or that something has failed. When the time is up it
calls `disconnect`, which joins that thread, and `connect_mutex` is still locked. Which callbacks a
stopped thread has to run before it ends is for `ix::WebSocket` to say and a parameter here.
-/

namespace Stoatpp.Voice
open Stoatpp.Library

structure Flags where
  joined : Bool := false
  failed : Bool := false
  deriving DecidableEq

def Flags.ready (f : Flags) : Bool := f.joined || f.failed

inductive ConnectStage where
  | waiting
  /-- in `ws.stop()`, with the mutex -/
  | stopping
  | returned (result : Bool)
  deriving DecidableEq

inductive SocketCallback where
  | opened
  /-- a message with a join response in it -/
  | joinResponse
  | error
  | closed
  deriving DecidableEq

/-- Whether the socket is open behind the callbacks that its thread has run, the latest first. -/
def openBehind : List SocketCallback → Bool
  | [] => false
  | .opened :: _ => true
  | .closed :: _ => false
  | .joinResponse :: ran => openBehind ran
  | .error :: ran => openBehind ran

/-- Stopping an open socket runs its Close callback before the thread ends. -/
def ClosesFirst (ends : List SocketCallback → Bool) : Prop := ∀ ran, openBehind ran = true → ends ran = false

/-- One call of `connect` from the start of the socket on. -/
structure Connecting where
  monitor : Monitor Flags := { shared := {} }
  stage : ConnectStage := .waiting
  expired : Bool := false
  /-- the callbacks that the socket's thread has run, the latest first -/
  ran : List SocketCallback := []
  threadEnded : Bool := false
  deriving DecidableEq

inductive ConnectTurn where
  | enter
  | test
  | block
  | relock
  | spurious
  | notify
  | expire
  | giveUp
  | succeed
  | callback (c : SocketCallback)
  | threadEnds
  | stopped
  deriving DecidableEq

namespace Connecting

def moved (c : Connecting) (t : MonitorTurn Flags) : Option Connecting :=
  (monitorTurn Flags.ready c.monitor t).map fun monitor => { c with monitor }

/-- The turns of the wait itself are over when it is. -/
def waits (c : Connecting) (t : MonitorTurn Flags) : Option Connecting :=
  if c.stage = .waiting then c.moved t else none

/-- `connect_mutex` is locked for as long as a flag is set. -/
def reported (c : Connecting) : SocketCallback → Option Connecting
  | .opened => if openBehind c.ran then none else some c
  | .joinResponse => if openBehind c.ran then c.moved (.guarded fun f => { f with joined := true }) else none
  | .error => c.moved (.guarded fun f => { f with failed := true })
  | .closed => if openBehind c.ran then c.moved (.guarded fun f => { f with failed := true }) else none

def callback (c : Connecting) (cb : SocketCallback) : Option Connecting :=
  (c.reported cb).map fun c' => { c' with ran := cb :: c'.ran }

end Connecting

section
variable (ends : List SocketCallback → Bool)

def connectTurn (c : Connecting) : ConnectTurn → Option Connecting
  | .enter => c.waits .enter
  | .test => c.waits .test
  | .block => c.waits .block
  | .relock => c.waits .relock
  | .spurious => c.waits .spurious
  | .notify => c.moved .notify
  | .expire => some { c with expired := true }
  | .giveUp =>
    if c.stage = .waiting ∧ c.expired ∧ c.monitor.waiter = .unready then some { c with stage := .stopping }
    else none
  | .succeed =>
    if c.stage = .waiting then
      (c.moved (.leave id)).map fun c' => { c' with stage := .returned c.monitor.shared.joined }
    else none
  | .callback cb => if c.threadEnded then none else c.callback cb
  | .threadEnds => if c.stage = .stopping ∧ ends c.ran then some { c with threadEnded := true } else none
  | .stopped =>
    if c.stage = .stopping ∧ c.threadEnded then
      some { c with stage := .returned false, monitor := { c.monitor with shared := {}, waiter := .away } }
    else none

end

variable {ends : List SocketCallback → Bool} {c c' : Connecting} {t : MonitorTurn Flags} {a : ConnectTurn}
  {turns : List ConnectTurn}

theorem moved_eq (h : c.moved t = some c') : ∃ monitor, monitorTurn Flags.ready c.monitor t = some monitor ∧
    c' = { c with monitor } := by
  obtain ⟨monitor, hmonitor, rfl⟩ := Option.map_eq_some_iff.mp h
  exact ⟨monitor, hmonitor, rfl⟩

/-! ## The flags and the mutex -/

structure Connecting.Sound (ends : List SocketCallback → Bool) (c : Connecting) : Prop where
  heard : Heard Flags.ready c.monitor
  holds : c.stage = .stopping → c.monitor.waiter = .unready
  ended : c.threadEnded = true → ends c.ran = true
  joined : c.stage = .returned true → c.monitor.shared.joined = true
  /-- as long as no flag is set, the thread has run no callback but Open -/
  unset : (∀ result, c.stage ≠ .returned result) → c.monitor.shared.ready = false →
    c.ran = [] ∨ c.ran = [.opened]

/-- How a turn goes about the monitor. -/
inductive ConnectStep (ends : List SocketCallback → Bool) (c : Connecting) : Connecting → Prop where
  | wait {t : MonitorTurn Flags} {monitor : Monitor Flags} (ht : t.moves = true) (hstage : c.stage = .waiting)
    (h : monitorTurn Flags.ready c.monitor t = some monitor) : ConnectStep ends c { c with monitor }
  | notify {monitor : Monitor Flags} (h : monitorTurn Flags.ready c.monitor .notify = some monitor) :
    ConnectStep ends c { c with monitor }
  | flag {f : Flags → Flags} {monitor : Monitor Flags} {cb : SocketCallback}
    (hf : ∀ x, x.joined = true → (f x).joined = true) (hready : ∀ x, (f x).ready = true)
    (hended : c.threadEnded = false)
    (h : monitorTurn Flags.ready c.monitor (.guarded f) = some monitor) :
    ConnectStep ends c { c with monitor, ran := cb :: c.ran }
  | opened (hclosed : openBehind c.ran = false) (hended : c.threadEnded = false) :
    ConnectStep ends c { c with ran := .opened :: c.ran }
  | expire : ConnectStep ends c { c with expired := true }
  | giveUp (hstage : c.stage = .waiting) (hunready : c.monitor.waiter = .unready) :
    ConnectStep ends c { c with stage := .stopping }
  | succeed (hstage : c.stage = .waiting) : ConnectStep ends c
      { c with monitor := { c.monitor with waiter := .away }, stage := .returned c.monitor.shared.joined }
  | threadEnds (hends : ends c.ran = true) : ConnectStep ends c { c with threadEnded := true }
  | stopped (hended : c.threadEnded = true) : ConnectStep ends c
      { c with stage := .returned false, monitor := { c.monitor with shared := {}, waiter := .away } }

theorem waits_step (ht : t.moves = true) (h : c.waits t = some c') : ConnectStep ends c c' := by
  obtain ⟨hstage, h⟩ := Option.ite_none_right_eq_some.mp h
  obtain ⟨monitor, hmonitor, rfl⟩ := moved_eq h
  exact .wait ht hstage hmonitor

theorem callback_step {cb : SocketCallback} (hended : c.threadEnded = false) (h : c.callback cb = some c') :
    ConnectStep ends c c' := by
  obtain ⟨d, hd, rfl⟩ := Option.map_eq_some_iff.mp h
  cases cb with
  | opened =>
    obtain ⟨hclosed, hd⟩ := Option.ite_none_left_eq_some.mp hd
    obtain rfl := Option.some.inj hd
    exact .opened (Bool.eq_false_iff.mpr hclosed) hended
  | joinResponse =>
    obtain ⟨-, hd⟩ := Option.ite_none_right_eq_some.mp hd
    obtain ⟨monitor, hmonitor, rfl⟩ := moved_eq hd
    exact .flag (fun _ _ => rfl) (fun _ => rfl) hended hmonitor
  | error =>
    obtain ⟨monitor, hmonitor, rfl⟩ := moved_eq hd
    exact .flag (f := fun f => { f with failed := true }) (fun _ h => h) (fun _ => Bool.or_true _) hended hmonitor
  | closed =>
    obtain ⟨-, hd⟩ := Option.ite_none_right_eq_some.mp hd
    obtain ⟨monitor, hmonitor, rfl⟩ := moved_eq hd
    exact .flag (f := fun f => { f with failed := true }) (fun _ h => h) (fun _ => Bool.or_true _) hended hmonitor

theorem connect_step (h : connectTurn ends c a = some c') : ConnectStep ends c c' := by
  cases a with
  | enter => exact waits_step rfl h
  | test => exact waits_step rfl h
  | block => exact waits_step rfl h
  | relock => exact waits_step rfl h
  | spurious => exact waits_step rfl h
  | notify =>
    obtain ⟨monitor, hmonitor, rfl⟩ := moved_eq h
    exact .notify hmonitor
  | expire =>
    obtain rfl := Option.some.inj h
    exact .expire
  | giveUp =>
    obtain ⟨⟨hstage, -, hunready⟩, h⟩ := Option.ite_none_right_eq_some.mp h
    obtain rfl := Option.some.inj h
    exact .giveUp hstage hunready
  | succeed =>
    obtain ⟨hstage, h⟩ := Option.ite_none_right_eq_some.mp h
    obtain ⟨d, hd, rfl⟩ := Option.map_eq_some_iff.mp h
    obtain ⟨monitor, hmonitor, rfl⟩ := moved_eq hd
    obtain ⟨-, hmonitor⟩ := Option.ite_none_right_eq_some.mp hmonitor
    obtain rfl := Option.some.inj hmonitor
    exact .succeed hstage
  | callback cb =>
    obtain ⟨hended, h⟩ := Option.ite_none_left_eq_some.mp h
    exact callback_step (Bool.eq_false_iff.mpr hended) h
  | threadEnds =>
    obtain ⟨⟨-, hends⟩, h⟩ := Option.ite_none_right_eq_some.mp h
    obtain rfl := Option.some.inj h
    exact .threadEnds hends
  | stopped =>
    obtain ⟨⟨-, hended⟩, h⟩ := Option.ite_none_right_eq_some.mp h
    obtain rfl := Option.some.inj h
    exact .stopped hended

/-- Nobody sets a flag while `connect` stops the socket. -/
theorem flag_locked {f : Flags → Flags} {monitor : Monitor Flags} (hunready : c.monitor.waiter = .unready) :
    monitorTurn Flags.ready c.monitor (.guarded f) ≠ some monitor := by
  intro h
  obtain ⟨hfree, -⟩ := Option.ite_none_left_eq_some.mp h
  exact hfree (congrArg Waiter.holds hunready)

theorem notify_eq {monitor : Monitor Flags} (h : monitorTurn Flags.ready c.monitor .notify = some monitor) :
    monitor.shared = c.monitor.shared ∧ (c.monitor.waiter = .unready → monitor.waiter = .unready) := by
  obtain ⟨-, h⟩ := Option.ite_none_left_eq_some.mp h
  obtain rfl := Option.some.inj h
  exact ⟨rfl, fun hunready => by simp [hunready]⟩

theorem connect_sound (hc : c.Sound ends) (h : connectTurn ends c a = some c') : c'.Sound ends := by
  cases connect_step h with
  | wait ht hstage hm =>
    refine ⟨heard_step hc.heard (seen_of_moves ht) hm, fun hs => absurd (hstage.symm.trans hs) nofun, hc.ended,
      fun hs => absurd (hstage.symm.trans hs) nofun, fun hs hready => ?_⟩
    rw [(moves_step ht hm).1] at hready
    exact hc.unset hs hready
  | notify hm =>
    obtain ⟨hshared, hunready⟩ := notify_eq hm
    refine ⟨heard_step (t := .notify) hc.heard trivial hm, fun hs => hunready (hc.holds hs), hc.ended,
      fun hs => ?_, fun hs hready => hc.unset hs (hshared ▸ hready)⟩
    dsimp only at hs ⊢
    rw [hshared]
    exact hc.joined hs
  | flag hf hready hended hm =>
    have hheard := heard_step (t := .guarded _) hc.heard trivial hm
    have hfree : c.stage ≠ .stopping := fun hs => flag_locked (hc.holds hs) hm
    obtain ⟨-, hm⟩ := Option.ite_none_left_eq_some.mp hm
    obtain rfl := Option.some.inj hm
    exact ⟨hheard, fun hs => absurd hs hfree, fun he => absurd (hended.symm.trans he) nofun,
      fun hs => hf _ (hc.joined hs), fun _ hunset => absurd ((hready _).symm.trans hunset) nofun⟩
  | opened hclosed hended =>
    refine ⟨hc.heard, hc.holds, fun he => absurd (hended.symm.trans he) nofun, hc.joined,
      fun hs hready => Or.inr ?_⟩
    rcases hc.unset hs hready with hran | hran <;> rw [hran] at hclosed ⊢
    cases hclosed
  | expire => exact ⟨hc.heard, hc.holds, hc.ended, hc.joined, hc.unset⟩
  | giveUp hstage hunready =>
    exact ⟨hc.heard, fun _ => hunready, hc.ended, nofun, fun _ hready => hc.unset (by rw [hstage]; nofun) hready⟩
  | succeed hstage =>
    exact ⟨heard_of nofun nofun, nofun, hc.ended, fun hs => ConnectStage.returned.inj hs,
      fun hs => absurd rfl (hs _)⟩
  | threadEnds hends => exact ⟨hc.heard, hc.holds, fun _ => hends, hc.joined, hc.unset⟩
  | stopped =>
    exact ⟨heard_of nofun nofun, nofun, hc.ended, fun hs => absurd (ConnectStage.returned.inj hs) nofun,
      fun hs => absurd rfl (hs _)⟩

theorem start_sound : ({} : Connecting).Sound ends :=
  ⟨heard_of nofun nofun, nofun, nofun, nofun, fun _ _ => Or.inl rfl⟩

theorem run_connect (h : runFrom (connectTurn ends) {} turns = some c) : c.Sound ends :=
  run_invariant (C := fun _ _ => True) (fun _ _ _ hc _ hstep => connect_sound hc hstep) start_sound
    (along_of_forall fun _ _ => trivial) h

/-! ## Stuck -/

/-- The thread that is joined does not end before another callback, and one that sets a flag needs the
mutex of the one who joins it. -/
structure Connecting.Stuck (ends : List SocketCallback → Bool) (c : Connecting) : Prop where
  stage : c.stage = .stopping
  holds : c.monitor.waiter = .unready
  threadEnded : c.threadEnded = false
  goes : c.ran = [] ∧ ends [] = false ∨ c.ran = [.opened]

theorem stuck_step (hends : ends [.opened] = false) (hc : c.Stuck ends) (h : connectTurn ends c a = some c') :
    c'.Stuck ends := by
  cases connect_step h with
  | wait ht hstage => exact absurd (hstage.symm.trans hc.stage) nofun
  | notify hm => exact ⟨hc.stage, (notify_eq hm).2 hc.holds, hc.threadEnded, hc.goes⟩
  | flag hf hready hended hm => exact absurd hm (flag_locked hc.holds)
  | opened hclosed hended =>
    refine ⟨hc.stage, hc.holds, hc.threadEnded, Or.inr ?_⟩
    rcases hc.goes with ⟨hran, -⟩ | hran <;> rw [hran] at hclosed ⊢
    cases hclosed
  | expire => exact ⟨hc.stage, hc.holds, hc.threadEnded, hc.goes⟩
  | giveUp hstage => exact absurd (hstage.symm.trans hc.stage) nofun
  | succeed hstage => exact absurd (hstage.symm.trans hc.stage) nofun
  | threadEnds hended =>
    rcases hc.goes with ⟨hran, hgoes⟩ | hran <;> rw [hran] at hended
    · exact absurd (hgoes.symm.trans hended) nofun
    · exact absurd (hends.symm.trans hended) nofun
  | stopped hended => exact absurd (hc.threadEnded.symm.trans hended) nofun

/-! ## Whether it returns -/

theorem waits_shared (ht : t.moves = true) (h : c.waits t = some c') :
    c'.monitor.shared = c.monitor.shared := by
  obtain ⟨-, h⟩ := Option.ite_none_right_eq_some.mp h
  obtain ⟨monitor, hmonitor, rfl⟩ := moved_eq h
  exact (moves_step ht hmonitor).1

theorem failed_joined (h : c.moved (.guarded fun f => { f with failed := true }) = some c') :
    c'.monitor.shared.joined = c.monitor.shared.joined := by
  obtain ⟨monitor, hmonitor, rfl⟩ := moved_eq h
  obtain ⟨-, hmonitor⟩ := Option.ite_none_left_eq_some.mp hmonitor
  obtain rfl := Option.some.inj hmonitor
  rfl

theorem joined_step (h : connectTurn ends c a = some c') (hjoined : c'.monitor.shared.joined = true) :
    c.monitor.shared.joined = true ∨ a = .callback .joinResponse := by
  cases a with
  | enter => exact Or.inl (waits_shared rfl h ▸ hjoined)
  | test => exact Or.inl (waits_shared rfl h ▸ hjoined)
  | block => exact Or.inl (waits_shared rfl h ▸ hjoined)
  | relock => exact Or.inl (waits_shared rfl h ▸ hjoined)
  | spurious => exact Or.inl (waits_shared rfl h ▸ hjoined)
  | notify =>
    obtain ⟨monitor, hmonitor, rfl⟩ := moved_eq h
    exact Or.inl ((notify_eq hmonitor).1 ▸ hjoined)
  | callback cb =>
    obtain ⟨-, h⟩ := Option.ite_none_left_eq_some.mp h
    obtain ⟨d, hd, rfl⟩ := Option.map_eq_some_iff.mp h
    cases cb with
    | joinResponse => exact Or.inr rfl
    | opened =>
      obtain ⟨-, hd⟩ := Option.ite_none_left_eq_some.mp hd
      obtain rfl := Option.some.inj hd
      exact Or.inl hjoined
    | error => exact Or.inl (failed_joined hd ▸ hjoined)
    | closed =>
      obtain ⟨-, hd⟩ := Option.ite_none_right_eq_some.mp hd
      exact Or.inl (failed_joined hd ▸ hjoined)
  | succeed =>
    obtain ⟨-, h⟩ := Option.ite_none_right_eq_some.mp h
    obtain ⟨d, hd, rfl⟩ := Option.map_eq_some_iff.mp h
    obtain ⟨monitor, hmonitor, rfl⟩ := moved_eq hd
    obtain ⟨-, hmonitor⟩ := Option.ite_none_right_eq_some.mp hmonitor
    obtain rfl := Option.some.inj hmonitor
    exact Or.inl hjoined
  | stopped =>
    obtain ⟨-, h⟩ := Option.ite_none_right_eq_some.mp h
    obtain rfl := Option.some.inj h
    cases hjoined
  | expire =>
    obtain rfl := Option.some.inj h
    exact Or.inl hjoined
  | giveUp =>
    obtain ⟨-, h⟩ := Option.ite_none_right_eq_some.mp h
    obtain rfl := Option.some.inj h
    exact Or.inl hjoined
  | threadEnds =>
    obtain ⟨-, h⟩ := Option.ite_none_right_eq_some.mp h
    obtain rfl := Option.some.inj h
    exact Or.inl hjoined

theorem joined_told (h : runFrom (connectTurn ends) c turns = some c') (hjoined : c'.monitor.shared.joined = true) :
    c.monitor.shared.joined = true ∨ .callback .joinResponse ∈ turns := by
  induction turns generalizing c with
  | nil =>
    obtain rfl := Option.some.inj h
    exact Or.inl hjoined
  | cons a rest ih =>
    obtain ⟨m, hstep, hrest⟩ := runFrom_cons.mp h
    rcases ih hrest with hm | hm
    · rcases joined_step hstep hm with hc | rfl
      · exact Or.inl hc
      · exact Or.inr List.mem_cons_self
    · exact Or.inr (List.mem_cons_of_mem _ hm)

theorem stop_returns (hstage : c.stage = .stopping) (hends : ends c.ran = true) :
    ∃ c', runFrom (connectTurn ends) c [.threadEnds, .stopped] = some c' ∧ c'.stage = .returned false := by
  refine ⟨_, runFrom_cons.mpr ⟨_, if_pos ⟨hstage, hends⟩, runFrom_cons.mpr
    ⟨_, if_pos ⟨hstage, rfl⟩, rfl⟩⟩, rfl⟩

/-- `connect` never sleeps through what it waits for, and returns true only behind a join response. When
the time is up the socket's thread has run no callback but perhaps Open, and `connect` can return if and
only if it has run none and ends without one: any other waits for the mutex that `connect` keeps while
it waits for the thread. -/
theorem connect_returns (ends : List SocketCallback → Bool) (hcloses : ClosesFirst ends)
    (turns : List ConnectTurn) (c : Connecting) (h : runFrom (connectTurn ends) {} turns = some c) :
    ¬ Stranded Flags.ready c.monitor ∧
    (c.stage = .returned true → .callback .joinResponse ∈ turns) ∧
    (c.stage = .stopping → (c.ran = [] ∨ c.ran = [.opened]) ∧
      ((∃ more c' result, runFrom (connectTurn ends) c more = some c' ∧ c'.stage = .returned result) ↔
        c.ran = [] ∧ ends [] = true)) := by
  have hc := run_connect h
  have hopened : ends [.opened] = false := hcloses _ rfl
  refine ⟨hc.heard.not_stranded, fun hstage => ?_, fun hstage => ?_⟩
  · exact (joined_told h (hc.joined hstage)).resolve_left nofun
  have hran : c.ran = [] ∨ c.ran = [.opened] :=
    hc.unset (by rw [hstage]; nofun) (hc.heard.unready (hc.holds hstage))
  refine ⟨hran, ?_, ?_⟩
  · rintro ⟨more, c', result, hmore, hreturned⟩
    by_contra hgoes
    have hstays : ends c.ran = false := by
      rcases hran with hran | hran <;> rw [hran]
      · exact Bool.eq_false_iff.mpr fun hends => hgoes ⟨hran, hends⟩
      · exact hopened
    have hended : c.threadEnded = false :=
      Bool.eq_false_iff.mpr fun he => absurd (hstays.symm.trans (hc.ended he)) nofun
    have hstart : c.Stuck ends :=
      ⟨hstage, hc.holds hstage, hended, hran.imp_left fun hran => ⟨hran, hran ▸ hstays⟩⟩
    have hstuck : c'.Stuck ends := run_invariant (C := fun _ _ => True)
      (fun _ _ _ hs _ hstep => stuck_step hopened hs hstep) hstart (along_of_forall fun _ _ => trivial) hmore
    exact absurd (hstuck.stage.symm.trans hreturned) nofun
  · rintro ⟨hnone, hends⟩
    obtain ⟨c', hstop, hreturned⟩ := stop_returns hstage (hnone ▸ hends)
    exact ⟨_, c', false, hstop, hreturned⟩

/-- A library whose thread runs a Close callback before it ends if the socket is open, and otherwise an
Error callback. -/
def endsBehindReport : List SocketCallback → Bool
  | .closed :: _ => true
  | .error :: ran => !openBehind ran
  | _ => false

theorem reports_close : ClosesFirst endsBehindReport := by
  intro ran hopen
  cases ran with
  | nil => rfl
  | cons cb ran =>
    cases cb with
    | opened => rfl
    | joinResponse => rfl
    | error => exact congrArg not hopen
    | closed => cases hopen

/-- The server takes the socket and never answers. -/
def unanswered : List ConnectTurn := [.enter, .test, .block, .callback .opened, .expire, .spurious, .relock,
  .test, .giveUp]

theorem unanswered_stuck : ∃ c, runFrom (connectTurn endsBehindReport) {} unanswered = some c ∧
    ¬ ∃ more c' result, runFrom (connectTurn endsBehindReport) c more = some c' ∧ c'.stage = .returned result :=
  ⟨_, rfl, fun hreturns => absurd (((connect_returns _ reports_close unanswered _ rfl).2.2 rfl).2.mp hreturns).1
    (by decide)⟩

end Stoatpp.Voice
