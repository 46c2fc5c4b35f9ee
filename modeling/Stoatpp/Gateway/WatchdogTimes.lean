import Stoatpp.Gateway.Connection
import Stoatpp.Library.Pacing

/-!
# The watchdog and the clock

Every 15 s the watchdog looks at the socket and at `last_connected_time`. Here the turns of the
gateway carry the steady clock, in nanoseconds, and with them the times at which the watchdog stops
the socket to start it again and at which it sends Authenticate once more. A restart that throws is
caught and leaves `last_connected_time` behind, so that the watchdog tries again when it next wakes.
-/

namespace Stoatpp.Gateway
open Stoatpp.Library

def seconds (n : ℤ) : ℤ := n * 1000000000

structure Watched where
  session : Session := {}
  now : ℤ := 0
  lastConnectedTime : ℤ := 0
  /-- when the watchdog last went to sleep -/
  asleepSince : ℤ := 0
  wakes : ℕ := 0
  /-- when the watchdog has gone about stopping the socket, the latest first -/
  restarts : List ℤ := []
  resends : List ℤ := []

inductive WatchedTurn where
  | wait (ns : ℕ)
  | turn (a : Turn)
  /-- `ws.stop()` throws, with the connection closed or not, or `ws.start()` does -/
  | throws (closed : Bool)

namespace Watched

/-- `duration_cast<seconds>` of the time since `last_connected_time`. -/
def elapsed (s : Watched) : ℤ := (s.now - s.lastConnectedTime) / seconds 1

def due (s : Watched) : Bool := if s.session.socketOpen then 15 < s.elapsed else 20 < s.elapsed

/-- The watchdog moves on only when its sleep is over, and finds the time due or not by the clock. -/
def permits (s : Watched) : Turn → Bool
  | .watchdog due =>
    match s.session.watchdog with
    | .sleeping => s.asleepSince + seconds 15 ≤ s.now
    | .awake => due = s.due
    | .stopped => s.restarts.head?.all fun t => t + seconds 1 ≤ s.now
    | _ => true
  | _ => true

/-- What a turn of the gateway is for the watchdog, from the session before it to the one after. -/
def follow (s : Watched) (a : Turn) (session : Session) : Watched :=
  match a with
  | .connect =>
    { s with
        session
        lastConnectedTime := s.now
        asleepSince := if s.session.watchdogRunning then s.asleepSince else s.now }
  | .opened => { s with session, lastConnectedTime := s.now }
  | .watchdog _ =>
    match s.session.watchdog with
    | .sleeping => { s with session, wakes := s.wakes + 1 }
    | .awake => { s with session, asleepSince := s.now }
    | .resending =>
      { s with session, lastConnectedTime := s.now, asleepSince := s.now, resends := s.now :: s.resends }
    | .restarting => { s with session, restarts := s.now :: s.restarts }
    | .stopped => { s with session, lastConnectedTime := s.now, asleepSince := s.now }
    | .off => { s with session }
  | _ => { s with session }

/-- The `catch` of the watchdog, behind which it goes to sleep. -/
def caught (s : Watched) (closed : Bool) : Option Watched :=
  match s.session.watchdog with
  | .restarting =>
    some { s with
      session := { (if closed then s.session.wsStop else s.session) with watchdog := .sleeping }
      asleepSince := s.now
      restarts := s.now :: s.restarts }
  | .stopped =>
    if s.permits (.watchdog false) then
      some { s with session := { s.session with watchdog := .sleeping }, asleepSince := s.now }
    else none
  | _ => none

end Watched

def watchedTurn (cfg : Config) (s : Watched) : WatchedTurn → Option Watched
  | .wait ns => some { s with now := s.now + ns }
  | .turn a => if s.permits a then (turn cfg s.session a).map (s.follow a) else none
  | .throws closed => s.caught closed

def WatchedTurn.fine : WatchedTurn → Bool
  | .throws _ => false
  | _ => true

def WatchedTurn.turn? : WatchedTurn → Option Turn
  | .turn a => some a
  | _ => none

variable {cfg : Config} {s s' : Watched} {a : Turn} {w : WatchedTurn} {turns : List WatchedTurn}
  {g : Session}

theorem follow_eq (s : Watched) (a : Turn) (session : Session) :
    (s.follow a session).session = session ∧ (s.follow a session).now = s.now := by
  unfold Watched.follow
  split
  · exact ⟨rfl, rfl⟩
  · exact ⟨rfl, rfl⟩
  · split <;> exact ⟨rfl, rfl⟩
  · exact ⟨rfl, rfl⟩

theorem watched_turn (h : watchedTurn cfg s (.turn a) = some s') :
    s.permits a = true ∧ ∃ session, turn cfg s.session a = some session ∧ s' = s.follow a session := by
  obtain ⟨hpermits, h⟩ := Option.ite_none_right_eq_some.mp h
  obtain ⟨session, hturn, rfl⟩ := Option.map_eq_some_iff.mp h
  exact ⟨hpermits, session, hturn, rfl⟩

/-- Where the watchdog is behind a restart that has thrown, and what is left as it was. -/
theorem caught_eq {closed : Bool} (h : s.caught closed = some s') :
    s'.session.watchdog = .sleeping ∧ s'.now = s.now ∧ s'.lastConnectedTime = s.lastConnectedTime ∧
      s'.asleepSince = s.now ∧ s'.wakes = s.wakes ∧ s'.resends = s.resends ∧
      s'.session.watchdogRunning = s.session.watchdogRunning ∧
      (s.session.socketOpen = false → s'.session.socketOpen = false) ∧
      (s.session.watchdog = .restarting ∧ s'.restarts = s.now :: s.restarts ∨
        s.session.watchdog = .stopped ∧ s'.restarts = s.restarts) := by
  unfold Watched.caught at h
  split at h
  · next hw =>
    obtain rfl := Option.some.inj h
    obtain ⟨ping, hstop⟩ := s.session.wsStop_eq
    cases closed with
    | true => exact ⟨rfl, rfl, rfl, rfl, rfl, rfl, by simp [hstop], fun _ => by simp [hstop], Or.inl ⟨hw, rfl⟩⟩
    | false => exact ⟨rfl, rfl, rfl, rfl, rfl, rfl, rfl, id, Or.inl ⟨hw, rfl⟩⟩
  · next hw =>
    obtain ⟨-, h⟩ := Option.ite_none_right_eq_some.mp h
    obtain rfl := Option.some.inj h
    exact ⟨rfl, rfl, rfl, rfl, rfl, rfl, rfl, id, Or.inr ⟨hw, rfl⟩⟩
  · cases h

/-- With the clock left out, a run in which no restart throws is a run of the gateway. -/
theorem watched_session (hfine : ∀ w ∈ turns, w.fine = true) (h : runFrom (watchedTurn cfg) s turns = some s') :
    runFrom (turn cfg) s.session (turns.filterMap WatchedTurn.turn?) = some s'.session := by
  induction turns generalizing s with
  | nil =>
    obtain rfl := Option.some.inj h
    rfl
  | cons w rest ih =>
    obtain ⟨m, hstep, hrest⟩ := runFrom_cons.mp h
    obtain ⟨hw, hfine⟩ := List.forall_mem_cons.mp hfine
    have hm := ih hfine hrest
    cases w with
    | throws closed => cases hw
    | wait ns =>
      obtain rfl := Option.some.inj hstep
      exact hm
    | turn a =>
      obtain ⟨-, session, hturn, rfl⟩ := watched_turn hstep
      rw [(follow_eq s a session).1] at hm
      exact runFrom_cons.mpr ⟨session, hturn, hm⟩

/-! ## The rounds of the watchdog -/

/-- From one place in its round to the next. -/
inductive Moves (running opened due : Bool) : Watchdog → Watchdog → Prop where
  | wake : running = true → Moves running opened due .sleeping .awake
  | leave : running = false → Moves running opened due .sleeping .off
  | rest : opened = true ∨ due = false → Moves running opened due .awake .sleeping
  | restart : opened = false → due = true → Moves running opened due .awake .restarting
  | resend : opened = true → due = true → Moves running opened due .awake .resending
  | resent : Moves running opened due .resending .sleeping
  | stop : Moves running opened due .restarting .stopped
  | start : Moves running opened due .stopped .sleeping

theorem watch_moves {due : Bool} {g' : Session} (h : g.watch due = some g') :
    Moves g.watchdogRunning g.socketOpen due g.watchdog g'.watchdog ∧
      g'.watchdogRunning = g.watchdogRunning ∧ (g.socketOpen = false → g'.socketOpen = false) := by
  unfold Session.watch at h
  cases hw : g.watchdog with
  | off =>
    rw [hw] at h
    cases h
  | sleeping =>
    rw [hw] at h
    obtain rfl := Option.some.inj h
    refine ⟨?_, rfl, id⟩
    cases hr : g.watchdogRunning with
    | true => exact .wake rfl
    | false => exact .leave rfl
  | awake =>
    rw [hw] at h
    cases hopen : g.socketOpen with
    | false =>
      simp only [hopen, Bool.not_false, if_true] at h
      obtain rfl := Option.some.inj h
      refine ⟨?_, rfl, fun _ => rfl⟩
      cases due with
      | true => exact .restart rfl rfl
      | false => exact .rest (Or.inr rfl)
    | true =>
      simp only [hopen, Bool.not_true, Bool.false_eq_true, if_false] at h
      obtain rfl := Option.some.inj h
      refine ⟨?_, rfl, nofun⟩
      cases due with
      | true =>
        cases g.authenticated with
        | true => exact .rest (Or.inl rfl)
        | false => exact .resend rfl rfl
      | false =>
        simp only [Bool.and_false, Bool.false_eq_true, if_false]
        exact .rest (Or.inl rfl)
  | resending =>
    rw [hw] at h
    obtain rfl := Option.some.inj h
    obtain ⟨log, hlog, -⟩ := g.send_eq .authenticate
    rw [hlog]
    exact ⟨.resent, rfl, id⟩
  | restarting =>
    rw [hw] at h
    obtain rfl := Option.some.inj h
    obtain ⟨ping, hstop⟩ := g.wsStop_eq
    rw [hstop]
    exact ⟨.stop, rfl, fun _ => rfl⟩
  | stopped =>
    rw [hw] at h
    obtain rfl := Option.some.inj h
    exact ⟨.start, rfl, id⟩

def Turn.starts : Turn → Bool
  | .connect | .watchdog _ => true
  | _ => false

theorem turn_watchdog {g' : Session} (h : turn cfg g a = some g') (ha : a.starts = false) :
    g'.watchdog = g.watchdog := by
  cases turn_transition h <;> first | rfl | cases ha

theorem connect_watchdog {g' : Session} (h : turn cfg g .connect = some g') :
    g.watchdogRunning = true ∧ g'.watchdog = g.watchdog ∨ g.watchdogRunning = false ∧ g'.watchdog = .sleeping := by
  obtain ⟨-, h⟩ := Option.ite_none_right_eq_some.mp h
  obtain rfl := Option.some.inj h
  have hrunning : g.wsStart.watchdogRunning = g.watchdogRunning := rfl
  simp only [Session.startWatchdog, hrunning]
  split_ifs with hr
  · exact Or.inl ⟨hr, rfl⟩
  · exact Or.inr ⟨Bool.eq_false_iff.mpr hr, rfl⟩

/-- Other turns leave the watchdog alone, but a new connection puts `last_connected_time` forward. -/
theorem follow_other (s : Watched) (g : Session) (ha : a.starts = false) :
    s.follow a g = { s with session := g } ∨ s.follow a g = { s with session := g, lastConnectedTime := s.now } := by
  cases a with
  | connect => cases ha
  | watchdog due => cases ha
  | opened => exact Or.inr rfl
  | _ => exact Or.inl rfl

/-! ## How often it interferes -/

abbrev wakeGap : ℤ := seconds 15
abbrev restartGap : ℤ := seconds 21
abbrev resendGap : ℤ := seconds 16

/-- What the watchdog did last is not ahead of its sleep, nor of `last_connected_time` as long as no
restart has thrown. -/
structure InTime (fine : Prop) (s : Watched) : Prop where
  connected : s.lastConnectedTime ≤ s.now
  past : ∀ t ∈ s.restarts.head?, t ≤ s.now
  slept : s.session.watchdog = .sleeping → ∀ t ∈ s.restarts.head?, t ≤ s.asleepSince
  rested : s.session.watchdog = .awake ∨ s.session.watchdog = .restarting →
    ∀ t ∈ s.restarts.head?, t + wakeGap ≤ s.now
  started : fine → s.session.watchdog ≠ .stopped → ∀ t ∈ s.restarts.head?, t ≤ s.lastConnectedTime
  sent : ∀ t ∈ s.resends.head?, t ≤ s.lastConnectedTime
  restarting : fine → s.session.watchdog = .restarting → ∀ t ∈ s.restarts.head?, t + restartGap ≤ s.now
  resending : s.session.watchdog = .resending → ∀ t ∈ s.resends.head?, t + resendGap ≤ s.now
  attempts : Spaced wakeGap 0 s.restarts
  restarts : fine → Spaced restartGap 0 s.restarts
  resends : Spaced resendGap 0 s.resends

theorem due_elapsed (hdue : s.due = true) :
    s.lastConnectedTime + (if s.session.socketOpen then resendGap else restartGap) ≤ s.now := by
  unfold Watched.due Watched.elapsed seconds at hdue
  simp only [resendGap, restartGap, seconds]
  split_ifs at hdue ⊢ <;> simp only [decide_eq_true_eq] at hdue <;> omega

theorem not_due_elapsed (hclosed : s.session.socketOpen = false) (hdue : s.due = false) :
    s.now < s.lastConnectedTime + restartGap := by
  unfold Watched.due Watched.elapsed seconds at hdue
  rw [hclosed, if_neg Bool.false_ne_true, decide_eq_false_iff_not] at hdue
  simp only [restartGap, seconds]
  omega

variable {fine : Prop}

theorem InTime.waited (hs : InTime fine s) (ns : ℕ) : InTime fine { s with now := s.now + ns } where
  connected := by have := hs.connected; dsimp only; omega
  past t ht := by have := hs.past t ht; dsimp only; omega
  slept := hs.slept
  rested h t ht := by have := hs.rested h t ht; dsimp only; omega
  started := hs.started
  sent := hs.sent
  restarting hf h t ht := by have := hs.restarting hf h t ht; dsimp only; omega
  resending h t ht := by have := hs.resending h t ht; dsimp only; omega
  attempts := hs.attempts
  restarts := hs.restarts
  resends := hs.resends

/-- The watchdog goes to sleep, with `last_connected_time` as it was or at the present. -/
theorem InTime.sleeps (hs : InTime fine s) {last : ℤ} (hlast : s.lastConnectedTime ≤ last) (hnow : last ≤ s.now)
    (hstarted : fine → ∀ t ∈ s.restarts.head?, t ≤ last) (hg : g.watchdog = .sleeping) :
    InTime fine { s with session := g, lastConnectedTime := last, asleepSince := s.now } where
  connected := hnow
  past := hs.past
  slept _ := hs.past
  rested h := by rcases h with h | h <;> cases hg.symm.trans h
  started hf _ := hstarted hf
  sent t ht := Int.le_trans (hs.sent t ht) hlast
  restarting _ h := by cases hg.symm.trans h
  resending h := by cases hg.symm.trans h
  attempts := hs.attempts
  restarts := hs.restarts
  resends := hs.resends

/-- The watchdog leaves its sleep, or what it found when it woke, with the times it did so at. -/
theorem InTime.goes (hs : InTime fine s) (hfrom : s.session.watchdog ≠ .stopped) (hto : g.watchdog ≠ .sleeping)
    (hrested : g.watchdog = .awake ∨ g.watchdog = .restarting → ∀ t ∈ s.restarts.head?, t + wakeGap ≤ s.now)
    (hrestarting : fine → g.watchdog = .restarting → ∀ t ∈ s.restarts.head?, t + restartGap ≤ s.now)
    (hresending : g.watchdog = .resending → ∀ t ∈ s.resends.head?, t + resendGap ≤ s.now) (since : ℤ) :
    InTime fine { s with session := g, asleepSince := since } where
  connected := hs.connected
  past := hs.past
  slept h := absurd h hto
  rested := hrested
  started hf _ := hs.started hf hfrom
  sent := hs.sent
  restarting := hrestarting
  resending := hresending
  attempts := hs.attempts
  restarts := hs.restarts
  resends := hs.resends

theorem InTime.watched {due : Bool} (hs : InTime fine s) (hpermits : s.permits (.watchdog due) = true)
    (hturn : turn cfg s.session (.watchdog due) = some g) : InTime fine (s.follow (.watchdog due) g) := by
  obtain ⟨hmoves, -, -⟩ := watch_moves hturn
  generalize hafter : g.watchdog = after at hmoves
  simp only [Watched.permits] at hpermits
  simp only [Watched.follow]
  cases hw : s.session.watchdog with
  | off =>
    rw [hw] at hmoves
    cases hmoves
  | sleeping =>
    have hslept := hs.slept hw
    have hfrom : s.session.watchdog ≠ .stopped := by rw [hw]; nofun
    rw [hw] at hmoves hpermits
    have hover := of_decide_eq_true hpermits
    cases hmoves with
    | wake =>
      have hrested := fun t ht => Int.le_trans (Int.add_le_add_right (hslept t ht) _) hover
      have hgone := hs.goes hfrom (by rw [hafter]; nofun) (fun _ => hrested)
        (fun _ h => by cases hafter.symm.trans h) (fun h => by cases hafter.symm.trans h) s.asleepSince
      exact { hgone with }
    | leave =>
      have hgone := hs.goes hfrom (by rw [hafter]; nofun)
        (fun h => by rcases h with h | h <;> cases hafter.symm.trans h)
        (fun _ h => by cases hafter.symm.trans h) (fun h => by cases hafter.symm.trans h) s.asleepSince
      exact { hgone with }
  | awake =>
    have hfrom : s.session.watchdog ≠ .stopped := by rw [hw]; nofun
    have hstarted := fun hf => hs.started hf hfrom
    have hrested := hs.rested (Or.inl hw)
    rw [hw] at hmoves hpermits
    obtain rfl := of_decide_eq_true hpermits
    cases hmoves with
    | rest => exact hs.sleeps (Int.le_refl _) hs.connected hstarted hafter
    | restart hclosed hdue =>
      have helapsed := due_elapsed hdue
      rw [hclosed, if_neg Bool.false_ne_true] at helapsed
      have hgone := hs.goes hfrom (by rw [hafter]; nofun) (fun _ => hrested)
        (fun hf _ t ht => Int.le_trans (Int.add_le_add_right (hstarted hf t ht) _) helapsed)
        (fun h => by cases hafter.symm.trans h) s.now
      exact { hgone with }
    | resend hopen hdue =>
      have helapsed := due_elapsed hdue
      rw [hopen, if_pos rfl] at helapsed
      have hgone := hs.goes hfrom (by rw [hafter]; nofun)
        (fun h => by rcases h with h | h <;> cases hafter.symm.trans h)
        (fun _ h => by cases hafter.symm.trans h)
        (fun _ t ht => Int.le_trans (Int.add_le_add_right (hs.sent t ht) _) helapsed) s.now
      exact { hgone with }
  | resending =>
    rw [hw] at hmoves
    cases hmoves
    have hslept := hs.sleeps hs.connected (Int.le_refl _) (fun _ => hs.past) hafter
    exact { hslept with
      sent := fun t ht => (Option.some.inj ht).symm.le
      resending := fun h => by cases hafter.symm.trans h
      resends := ⟨hs.resends.behind (Int.le_refl _) (hs.resending hw), hs.resends⟩ }
  | restarting =>
    rw [hw] at hmoves
    cases hmoves
    exact {
      connected := hs.connected
      past := fun t ht => (Option.some.inj ht).symm.le
      slept := fun h => by cases hafter.symm.trans h
      rested := fun h => by rcases h with h | h <;> cases hafter.symm.trans h
      started := fun _ h => absurd hafter h
      sent := hs.sent
      restarting := fun _ h => by cases hafter.symm.trans h
      resending := fun h => by cases hafter.symm.trans h
      attempts := ⟨hs.attempts.behind (Int.le_refl _) (hs.rested (Or.inr hw)), hs.attempts⟩
      restarts := fun hf => ⟨(hs.restarts hf).behind (Int.le_refl _) (hs.restarting hf hw), hs.restarts hf⟩
      resends := hs.resends }
  | stopped =>
    rw [hw] at hmoves
    cases hmoves
    exact hs.sleeps hs.connected (Int.le_refl _) (fun _ => hs.past) hafter

theorem InTime.caught {closed : Bool} (hs : InTime fine s) (h : s.caught closed = some s') : InTime False s' := by
  obtain ⟨hsleeping, hnow, hlast, hasleep, -, hresends, -, -, hrestarts⟩ := caught_eq h
  have hpast : ∀ t ∈ s'.restarts.head?, t ≤ s.now := by
    rcases hrestarts with ⟨-, hrestarts⟩ | ⟨-, hrestarts⟩ <;> rw [hrestarts]
    · exact fun t ht => (Option.some.inj ht).symm.le
    · exact hs.past
  exact {
    connected := by rw [hlast, hnow]; exact hs.connected
    past := by rw [hnow]; exact hpast
    slept := fun _ => by rw [hasleep]; exact hpast
    rested := fun h => by rcases h with h | h <;> cases hsleeping.symm.trans h
    started := False.elim
    sent := by rw [hresends, hlast]; exact hs.sent
    restarting := False.elim
    resending := fun h => by cases hsleeping.symm.trans h
    attempts := by
      rcases hrestarts with ⟨hw, hrestarts⟩ | ⟨-, hrestarts⟩ <;> rw [hrestarts]
      · exact ⟨hs.attempts.behind (Int.le_refl _) (hs.rested (Or.inr hw)), hs.attempts⟩
      · exact hs.attempts
    restarts := False.elim
    resends := by rw [hresends]; exact hs.resends }

/-- The watchdog stays where it is, with `last_connected_time` as it was or at the present. -/
theorem InTime.stays (hs : InTime fine s) {last : ℤ} (hlast : last = s.lastConnectedTime ∨ last = s.now)
    (hkept : g.watchdog = s.session.watchdog) :
    InTime fine { s with session := g, lastConnectedTime := last } where
  connected := by rcases hlast with rfl | rfl; exacts [hs.connected, Int.le_refl _]
  past := hs.past
  slept h := hs.slept (hkept ▸ h)
  rested h := hs.rested (hkept ▸ h)
  started hf h := by rcases hlast with rfl | rfl; exacts [hs.started hf (hkept ▸ h), hs.past]
  sent t ht := by
    rcases hlast with rfl | rfl
    · exact hs.sent t ht
    · exact Int.le_trans (hs.sent t ht) hs.connected
  restarting hf h := hs.restarting hf (hkept ▸ h)
  resending h := hs.resending (hkept ▸ h)
  attempts := hs.attempts
  restarts := hs.restarts
  resends := hs.resends

theorem inTime_step (hs : InTime fine s) (h : watchedTurn cfg s w = some s') :
    InTime (fine ∧ w.fine = true) s' := by
  have hmono {p : Prop} (hp : InTime p s') (hfine : fine ∧ w.fine = true → p) : InTime (fine ∧ w.fine = true) s' :=
    { hp with
      started := fun hf => hp.started (hfine hf)
      restarting := fun hf => hp.restarting (hfine hf)
      restarts := fun hf => hp.restarts (hfine hf) }
  cases w with
  | wait ns =>
    obtain rfl := Option.some.inj h
    exact hmono (hs.waited ns) And.left
  | throws closed => exact hmono (hs.caught h) fun hf => Bool.false_ne_true hf.2
  | turn a =>
    obtain ⟨hpermits, g, hturn, rfl⟩ := watched_turn h
    refine hmono ?_ And.left
    cases ha : a.starts with
    | true =>
      cases a with
      | connect =>
        simp only [Watched.follow]
        rcases connect_watchdog hturn with ⟨hr, hkept⟩ | ⟨hr, hg⟩
        · rw [if_pos hr]
          exact hs.stays (Or.inr rfl) hkept
        · rw [if_neg (Bool.eq_false_iff.mp hr)]
          exact hs.sleeps hs.connected (Int.le_refl _) (fun _ => hs.past) hg
      | watchdog due => exact hs.watched hpermits hturn
      | _ => cases ha
    | false =>
      have hkept := turn_watchdog hturn ha
      rcases follow_other s g ha with hf | hf
      · rw [hf]
        exact hs.stays (Or.inl rfl) hkept
      · rw [hf]
        exact hs.stays (Or.inr rfl) hkept

theorem inTime_start : InTime (∀ w ∈ ([] : List WatchedTurn), w.fine = true) {} := by
  constructor <;> simp [Spaced]

theorem inTime_run (h : runFrom (watchedTurn cfg) {} turns = some s) :
    InTime (∀ w ∈ turns, w.fine = true) s := by
  refine run_history (P := fun turns s => InTime (∀ w ∈ turns, w.fine = true) s) (fun before s w s' hs hstep => ?_)
    inTime_start h
  rw [List.forall_mem_append, List.forall_mem_singleton]
  exact inTime_step hs hstep

/-! ## How long a lost connection goes unnoticed -/

def WatchedTurn.quiet : WatchedTurn → Bool
  | .turn .connect | .turn .disconnect | .turn .opened => false
  | _ => true

/-- Since so many wake-ups and restarts the socket has not been open. What the watchdog has slept
since `last_connected_time` tells how often it can have woken without a restart. -/
structure Down (wakes restarts : ℕ) (s : Watched) : Prop where
  connected : s.lastConnectedTime ≤ s.now
  closed : s.session.socketOpen = false
  running : s.session.watchdogRunning = true
  more : restarts ≤ s.restarts.length
  rounds : restarts = s.restarts.length → ∃ k : ℕ, s.wakes = wakes + k ∧
    match s.session.watchdog with
    | .sleeping => k = 0 ∨ (k ≤ 2 ∧ s.lastConnectedTime + seconds 15 * (k - 1) ≤ s.asleepSince)
    | .awake => k = 0 ∨ (k ≤ 3 ∧ s.lastConnectedTime + seconds 15 * (k - 1) ≤ s.now)
    | .restarting => k ≤ 3
    | _ => k = 0

theorem quiet_kept {g' : Session} (h : turn cfg g a = some g') (ha : (WatchedTurn.turn a).quiet = true)
    (hclosed : g.socketOpen = false) :
    g'.socketOpen = false ∧ g'.watchdogRunning = g.watchdogRunning := by
  cases turn_transition h with
  | connect => cases ha
  | tell => cases ha
  | untold => exact ⟨hclosed, rfl⟩
  | opened => cases ha
  | stop => exact ⟨rfl, rfl⟩
  | watchStop => exact ⟨rfl, rfl⟩
  | closed => exact ⟨rfl, rfl⟩
  | _ => exact ⟨hclosed, rfl⟩

variable {wakes restarts : ℕ}

theorem Down.watched {due : Bool} (hs : Down wakes restarts s) (hpermits : s.permits (.watchdog due) = true)
    (hturn : turn cfg s.session (.watchdog due) = some g) :
    Down wakes restarts (s.follow (.watchdog due) g) := by
  obtain ⟨hclosed, hrunning⟩ := quiet_kept hturn rfl hs.closed
  rw [hs.running] at hrunning
  obtain ⟨hmoves, -, -⟩ := watch_moves hturn
  rw [hs.running, hs.closed] at hmoves
  have hconnected := hs.connected
  have hmore := hs.more
  have hrounds := hs.rounds
  generalize hafter : g.watchdog = after at hmoves
  simp only [Watched.permits] at hpermits
  simp only [Watched.follow]
  cases hw : s.session.watchdog with
  | off =>
    rw [hw] at hmoves
    cases hmoves
  | sleeping =>
    simp only [hw] at hmoves hpermits hrounds
    have hslept := of_decide_eq_true hpermits
    cases hmoves with
    | wake =>
      refine ⟨hconnected, hclosed, hrunning, hmore, fun heq => ?_⟩
      obtain ⟨k, hk, hspent⟩ := hrounds heq
      refine ⟨k + 1, by dsimp only; omega, ?_⟩
      simp only [hafter]
      right
      rcases hspent with rfl | ⟨hle, hspent⟩
      · exact ⟨by omega, by simp only [seconds]; omega⟩
      · refine ⟨by omega, ?_⟩
        simp only [seconds] at *
        push_cast
        omega
    | leave hr => cases hr
  | awake =>
    simp only [hw] at hmoves hpermits hrounds
    obtain rfl := of_decide_eq_true hpermits
    cases hmoves with
    | rest hnot =>
      refine ⟨hconnected, hclosed, hrunning, hmore, fun heq => ?_⟩
      obtain ⟨k, hk, hspent⟩ := hrounds heq
      refine ⟨k, hk, ?_⟩
      simp only [hafter]
      have hearly := not_due_elapsed hs.closed (hnot.resolve_left Bool.false_ne_true)
      rcases hspent with rfl | ⟨hle, hspent⟩
      · exact Or.inl rfl
      · refine Or.inr ⟨?_, hspent⟩
        simp only [seconds, restartGap] at hspent hearly
        omega
    | restart =>
      refine ⟨hconnected, hclosed, hrunning, hmore, fun heq => ?_⟩
      obtain ⟨k, hk, hspent⟩ := hrounds heq
      refine ⟨k, hk, ?_⟩
      simp only [hafter]
      omega
    | resend hopen => cases hopen
  | resending =>
    simp only [hw] at hmoves hrounds
    cases hmoves
    refine ⟨Int.le_refl _, hclosed, hrunning, hmore, fun heq => ?_⟩
    obtain ⟨k, hk, hspent⟩ := hrounds heq
    refine ⟨k, hk, ?_⟩
    simp only [hafter]
    exact Or.inl hspent
  | restarting =>
    exact ⟨hconnected, hclosed, hrunning, by rw [List.length_cons]; omega,
      fun heq => by rw [List.length_cons] at heq; omega⟩
  | stopped =>
    simp only [hw] at hmoves hrounds
    cases hmoves
    refine ⟨Int.le_refl _, hclosed, hrunning, hmore, fun heq => ?_⟩
    obtain ⟨k, hk, hspent⟩ := hrounds heq
    refine ⟨k, hk, ?_⟩
    simp only [hafter]
    exact Or.inl hspent

theorem down_step (hs : Down wakes restarts s) (hw : w.quiet = true) (h : watchedTurn cfg s w = some s') :
    Down wakes restarts s' := by
  have hconnected := hs.connected
  cases w with
  | wait ns =>
    obtain rfl := Option.some.inj h
    refine ⟨by dsimp only; omega, hs.closed, hs.running, hs.more, fun heq => ?_⟩
    obtain ⟨k, hk, hspent⟩ := hs.rounds heq
    refine ⟨k, hk, ?_⟩
    revert hspent
    dsimp only
    cases s.session.watchdog with
    | awake => exact fun hspent => hspent.imp_right fun ⟨hle, hspent⟩ => ⟨hle, by omega⟩
    | _ => exact id
  | throws closed =>
    obtain ⟨hsleeping, hnow, hlast, -, hwakes, -, hrunning, hclosed, hrestarts⟩ := caught_eq h
    rcases hrestarts with ⟨-, hrestarts⟩ | ⟨hstopped, hrestarts⟩
    · have hone : s'.restarts.length = s.restarts.length + 1 := by rw [hrestarts, List.length_cons]
      have hmore := hs.more
      exact ⟨by rw [hlast, hnow]; exact hconnected, hclosed hs.closed, hrunning.trans hs.running, by omega,
        fun heq => by omega⟩
    · refine ⟨by rw [hlast, hnow]; exact hconnected, hclosed hs.closed, hrunning.trans hs.running,
        by rw [hrestarts]; exact hs.more, fun heq => ?_⟩
      rw [hrestarts] at heq
      obtain ⟨k, hk, hspent⟩ := hs.rounds heq
      refine ⟨k, by rw [hwakes, hk], ?_⟩
      rw [hstopped] at hspent
      rw [hsleeping]
      exact Or.inl hspent
  | turn a =>
    obtain ⟨hpermits, g, hturn, rfl⟩ := watched_turn h
    cases ha : a.starts with
    | true =>
      cases a with
      | connect => cases hw
      | watchdog due => exact hs.watched hpermits hturn
      | _ => cases ha
    | false =>
      obtain ⟨hclosed, hrunning⟩ := quiet_kept hturn hw hs.closed
      have hkept := turn_watchdog hturn ha
      rw [hs.running] at hrunning
      have hf : s.follow a g = { s with session := g } := by
        cases a with
        | connect => cases ha
        | watchdog due => cases ha
        | opened => cases hw
        | _ => rfl
      rw [hf]
      refine ⟨hconnected, hclosed, hrunning, hs.more, fun heq => ?_⟩
      dsimp only
      rw [hkept]
      exact hs.rounds heq

theorem down_run (hs : Down wakes restarts s) (hquiet : ∀ w ∈ turns, w.quiet = true)
    (h : runFrom (watchedTurn cfg) s turns = some s') : Down wakes restarts s' :=
  run_invariant (C := fun _ w => w.quiet = true) (fun _ _ _ hs hw hstep => down_step hs hw hstep) hs
    (along_of_forall hquiet) h

/-- A restart that throws is tried again when the watchdog next wakes, so that it goes about one at
most once in 15 s; restarts that do not throw are 21 s apart. Resent requests are 16 s apart in any
run, and a socket that is not open, and does not open by itself, is at the watchdog's hands again
before it wakes for the fourth time. -/
theorem watchdog_in_time (cfg : Config) (before after : List WatchedTurn) (s t : Watched)
    (hbefore : runFrom (watchedTurn cfg) {} before = some s)
    (hafter : runFrom (watchedTurn cfg) s after = some t) :
    (∀ a b, a ≤ b → seconds 15 * (t.restarts.filter fun u => a ≤ u ∧ u ≤ b).length ≤ b - a + seconds 15) ∧
    (∀ a b, a ≤ b → seconds 16 * (t.resends.filter fun u => a ≤ u ∧ u ≤ b).length ≤ b - a + seconds 16) ∧
    (s.session.socketOpen = false → s.session.watchdogRunning = true →
      (∀ w ∈ after, w.quiet = true) → s.wakes + 4 ≤ t.wakes → s.restarts.length < t.restarts.length) ∧
    ((∀ w ∈ before ++ after, w.fine = true) →
      (∀ a b, a ≤ b → seconds 21 * (t.restarts.filter fun u => a ≤ u ∧ u ≤ b).length ≤ b - a + seconds 21) ∧
      runFrom (turn cfg) {} ((before ++ after).filterMap WatchedTurn.turn?) = some t.session) := by
  have hall := runFrom_append.mpr ⟨s, hbefore, hafter⟩
  have ht := inTime_run hall
  have hwithin {gap : ℤ} {times : List ℤ} (hgap : 0 ≤ gap) (htimes : Spaced gap 0 times) (a b : ℤ) (hab : a ≤ b) :
      gap * (times.filter fun u => a ≤ u ∧ u ≤ b).length ≤ b - a + gap := by
    have hwindow := htimes.window hgap (Int.le_refl _) hab
    rwa [add_zero] at hwindow
  refine ⟨hwithin (by decide) ht.attempts, hwithin (by decide) ht.resends,
    fun hclosed hrunning hquiet hwakes => ?_,
    fun hfine => ⟨hwithin (by decide) (ht.restarts hfine), watched_session hfine hall⟩⟩
  have hdown : Down s.wakes s.restarts.length s := by
    refine ⟨(inTime_run hbefore).connected, hclosed, hrunning, Nat.le_refl _, fun _ => ⟨0, rfl, ?_⟩⟩
    cases s.session.watchdog with
    | sleeping => exact Or.inl rfl
    | awake => exact Or.inl rfl
    | restarting => exact Nat.zero_le _
    | _ => rfl
  obtain ⟨-, -, -, hmore, hrounds⟩ := down_run hdown hquiet hafter
  refine Nat.lt_of_le_of_ne hmore fun heq => ?_
  obtain ⟨k, hk, hspent⟩ := hrounds heq
  have hfew : k ≤ 3 := by
    revert hspent
    cases t.session.watchdog <;> dsimp only <;> omega
  omega

/-- Four rounds of a watchdog whose socket never opens; the second restarts it. -/
def lostTurns : List WatchedTurn :=
  [.wait 15000000000, .turn (.watchdog false), .turn (.watchdog false),
    .wait 15000000000, .turn (.watchdog false), .turn (.watchdog true), .turn (.watchdog false),
    .wait 1000000000, .turn (.watchdog false),
    .wait 15000000000, .turn (.watchdog false), .turn (.watchdog false),
    .wait 15000000000, .turn (.watchdog false)]

/-- A restart that throws at its start, and the next one. -/
def thrownTurns : List WatchedTurn :=
  [.wait 30000000000, .turn (.watchdog false), .turn (.watchdog true), .turn (.watchdog false),
    .wait 1000000000, .throws false,
    .wait 15000000000, .turn (.watchdog false), .turn (.watchdog true), .turn (.watchdog false)]

theorem lost_connection_restarted : ∃ s t u, runFrom (watchedTurn {}) {} [.turn .connect] = some s ∧
    runFrom (watchedTurn {}) s lostTurns = some t ∧ s.restarts.length < t.restarts.length ∧
    runFrom (turn {}) {} (([WatchedTurn.turn .connect] ++ lostTurns).filterMap WatchedTurn.turn?) =
      some t.session ∧
    runFrom (watchedTurn {}) s thrownTurns = some u ∧ u.restarts = [46000000000, 30000000000] ∧
    ∀ a b, a ≤ b → seconds 15 * (u.restarts.filter fun v => a ≤ v ∧ v ≤ b).length ≤ b - a + seconds 15 := by
  let s : Watched := { session := { started := true, watchdogRunning := true, watchdog := .sleeping } }
  let t : Watched :=
    { session := { started := true, watchdogRunning := true, watchdog := .awake }
      now := 61000000000
      lastConnectedTime := 31000000000
      asleepSince := 46000000000
      wakes := 4
      restarts := [30000000000] }
  have hs : runFrom (watchedTurn {}) {} [.turn .connect] = some s := rfl
  have ht : runFrom (watchedTurn {}) s lostTurns = some t := rfl
  obtain ⟨u, hu, htwice⟩ : ∃ u, runFrom (watchedTurn {}) s thrownTurns = some u ∧
      u.restarts = [46000000000, 30000000000] := ⟨_, rfl, rfl⟩
  obtain ⟨-, -, hrestarted, hfine⟩ := watchdog_in_time {} [.turn .connect] lostTurns s t hs ht
  obtain ⟨hspaced, -⟩ := watchdog_in_time {} [.turn .connect] thrownTurns s u hs hu
  exact ⟨s, t, u, hs, ht, hrestarted rfl rfl (List.all_eq_true.mp (by decide)) (Nat.le_refl _),
    (hfine (List.all_eq_true.mp (by decide))).2, hu, htwice, hspaced⟩

end Stoatpp.Gateway
