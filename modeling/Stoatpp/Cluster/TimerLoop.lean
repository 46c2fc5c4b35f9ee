import Mathlib.Algebra.Order.Group.Int
import Stoatpp.Cluster.TimerSpacing

/-!
# The timer thread

`run_timer_loop` collects the timers that are due, calls them and sleeps for half a second.
`stop` clears `timers_running_` outside the mutex, so a thread that has just seen it set goes
through one more pass and may miss the wake-up.
-/

namespace Stoatpp.Cluster
open Stoatpp.Library

inductive LoopPhase where
  /-- before the test of `timers_running_` -/
  | top
  | collecting
  | calling
  | waiting
  | ended
  deriving DecidableEq

abbrev halfSecond : ℤ := 500000000

structure TimerLoop where
  timers : Timers
  running : Bool := true
  phase : LoopPhase := .top
  /-- when the pass in hand or the last one collected, or else when the thread began -/
  passAt : ℤ
  asleepSince : ℤ
  stoppedAt : Option ℤ := none
  /-- passes that have begun after `stop` -/
  passesSince : ℕ := 0

inductive LoopTurn where
  | test
  | collect
  | call
  | sleep
  | wake
  | stop
  /-- the clock and the other threads, also inside a callback -/
  | other (a : TimerTurn)

namespace TimerLoop

def start (now : ℤ) : TimerLoop := { timers := { now }, passAt := now, asleepSince := now }

def now (s : TimerLoop) : ℤ := s.timers.now

end TimerLoop

/-- Collecting and calling is done by the thread alone. -/
def TimerTurn.outside : TimerTurn → Bool
  | .collect => false
  | .call => false
  | _ => true

def loopTurn (s : TimerLoop) : LoopTurn → Option TimerLoop
  | .test =>
    if s.phase = .top then some { s with phase := if s.running then .collecting else .ended } else none
  | .collect =>
    if s.phase = .collecting then
      (timerTurn s.timers .collect).map fun timers => { s with
        timers
        phase := .calling
        passAt := s.now
        passesSince := if s.stoppedAt.isSome then s.passesSince + 1 else s.passesSince }
    else none
  | .call => if s.phase = .calling then (timerTurn s.timers .call).map fun timers => { s with timers } else none
  | .sleep =>
    -- `wait_for` does not block on a predicate that holds
    if s.phase = .calling ∧ s.timers.toRun = [] then
      some { s with phase := if s.running then .waiting else .top, asleepSince := s.now }
    else none
  | .wake =>
    if s.phase = .waiting ∧ (s.running = false ∨ s.asleepSince + halfSecond ≤ s.now) then
      some { s with phase := .top }
    else none
  | .stop => some { s with running := false, stoppedAt := s.stoppedAt <|> some s.now }
  | .other a => if a.outside then (timerTurn s.timers a).map fun timers => { s with timers } else none

/-- The turns of the loop without its thread. -/
def LoopTurn.turn? : LoopTurn → Option TimerTurn
  | .collect => some .collect
  | .call => some .call
  | .other a => some a
  | _ => none

/-- The callbacks of a pass take at most `busy` ns together, and the thread is at most `late` ns
behind where it wakes up and goes on to the next pass. -/
def InTime (busy late : ℕ) (s : TimerLoop) : LoopTurn → Prop
  | .other (.wait ns) =>
    match s.phase with
    | .ended => True
    | .calling => s.now + ns ≤ s.passAt + busy
    | _ => s.now + ns ≤ s.asleepSince + halfSecond + late
  | _ => True

instance (busy late : ℕ) (s : TimerLoop) (a : LoopTurn) : Decidable (InTime busy late s a) := by
  unfold InTime
  split
  · split <;> infer_instance
  · infer_instance

/-- What may pass between a timer's visits beyond its interval. -/
def slack (busy late : ℕ) : ℤ := busy + halfSecond + late

/-- Whatever is selected was started or selected its interval and the slack before at most. -/
def Prompt (slack : ℤ) (history : List TimerEvent) : Prop :=
  ∀ before id (n : UInt64) time after, history = before ++ .selected id n time :: after →
    ∃ x ∈ before, ∃ time₀, x.visit? = some (id, n, time₀) ∧ time ≤ time₀ + n.toNat * second + slack

variable {s s' : TimerLoop} {a : LoopTurn} {busy late : ℕ} {t : TimerInfo}

/-! ## One turn -/

theorem loop_timers (h : loopTurn s a = some s') : match a.turn? with
    | some b => timerTurn s.timers b = some s'.timers
    | none => s'.timers = s.timers := by
  cases a with
  | test | sleep | wake =>
    obtain ⟨-, h⟩ := Option.ite_none_right_eq_some.mp h
    rw [← Option.some.inj h]
    rfl
  | collect | call | other =>
    obtain ⟨-, h⟩ := Option.ite_none_right_eq_some.mp h
    obtain ⟨timers, htimers, rfl⟩ := Option.map_eq_some_iff.mp h
    exact htimers
  | stop =>
    rw [← Option.some.inj h]
    rfl

/-- Without the thread, a run is a run of the timers. -/
theorem loop_run {turns : List LoopTurn} (h : runFrom loopTurn s turns = some s') :
    runFrom timerTurn s.timers (turns.filterMap LoopTurn.turn?) = some s'.timers := by
  induction turns generalizing s with
  | nil =>
    obtain rfl := Option.some.inj h
    rfl
  | cons a rest ih =>
    obtain ⟨m, hstep, hrest⟩ := runFrom_cons.mp h
    have htimers := loop_timers hstep
    cases ha : a.turn? with
    | none =>
      rw [ha] at htimers
      rw [List.filterMap_cons_none ha, ← htimers]
      exact ih hrest
    | some b =>
      rw [ha] at htimers
      rw [List.filterMap_cons_some ha]
      exact runFrom_cons.mpr ⟨m.timers, htimers, ih hrest⟩

/-! ## Where the thread is and when -/

structure OnTime (busy late : ℕ) (s : TimerLoop) : Prop where
  begun : s.passAt ≤ s.now
  slept : s.phase ≠ .calling → s.phase ≠ .ended →
    s.asleepSince ≤ s.passAt + busy ∧ s.asleepSince ≤ s.now ∧ s.now ≤ s.asleepSince + halfSecond + late
  called : s.phase = .calling → s.now ≤ s.passAt + busy
  flag : s.stoppedAt = none ↔ s.running = true

/-- Where the thread may be once it has been told to stop at `T`. -/
structure Stopping (busy late : ℕ) (s : TimerLoop) (T : ℤ) : Prop where
  past : T ≤ s.now
  once : s.passesSince ≤ 1
  collecting : s.phase = .collecting → s.passesSince = 0 ∧ s.asleepSince ≤ T
  calling : s.phase = .calling → s.passAt ≤ T + halfSecond + late
  sleeping : s.phase ≠ .calling → s.phase ≠ .ended → s.asleepSince ≤ T + halfSecond + late + busy

theorem OnTime.now_le (h : OnTime busy late s) (hp : s.phase ≠ .ended) : s.now ≤ s.passAt + slack busy late := by
  by_cases hc : s.phase = .calling
  · have := h.called hc
    simp only [slack, halfSecond] at *
    omega
  · obtain ⟨hpass, -, hnow⟩ := h.slept hc hp
    simp only [slack] at *
    omega

theorem timerTurn_now_eq {s s' : Timers} {a : TimerTurn} (hs : timerTurn s a = some s') (ha : ∀ ns, a ≠ .wait ns) :
    s'.now = s.now := by
  cases a with
  | wait ns => exact absurd rfl (ha ns)
  | startTimer callback intervalSeconds =>
    obtain rfl := Option.some.inj hs
    rfl
  | push i =>
    obtain ⟨run, -, rfl⟩ := timerTurn_push hs
    rfl
  | stopTimer id => rcases timerTurn_stopTimer hs with ⟨-, rfl⟩ | ⟨-, rfl⟩ <;> rfl
  | collect =>
    obtain ⟨-, rfl⟩ := timerTurn_collect hs
    rfl
  | call =>
    obtain ⟨_, _, -, rfl⟩ := timerTurn_call hs
    rfl

/-- What others do leaves the thread where it is, and it takes no longer than it may. -/
theorem other_eq {b : TimerTurn} (ht : OnTime busy late s) (hc : InTime busy late s (.other b))
    (h : loopTurn s (.other b) = some s') : s' = { s with timers := s'.timers } ∧ s.now ≤ s'.now ∧
      (s.phase = .calling → s'.now ≤ s.passAt + busy) ∧
      (s.phase ≠ .calling → s.phase ≠ .ended → s'.now ≤ s.asleepSince + halfSecond + late) := by
  obtain ⟨-, h⟩ := Option.ite_none_right_eq_some.mp h
  obtain ⟨timers, htimers, rfl⟩ := Option.map_eq_some_iff.mp h
  refine ⟨rfl, timerTurn_now htimers, ?_⟩
  by_cases hb : ∃ ns, b = .wait ns
  · obtain ⟨ns, rfl⟩ := hb
    obtain rfl := Option.some.inj htimers
    unfold InTime at hc
    constructor
    · intro hcalling
      rw [hcalling] at hc
      exact hc
    · intro hcalling hended
      cases hp : s.phase with
      | calling => exact absurd hp hcalling
      | ended => exact absurd hp hended
      | top | collecting | waiting =>
        rw [hp] at hc
        exact hc
  · have hnow := timerTurn_now_eq htimers fun ns heq => hb ⟨ns, heq⟩
    constructor
    · intro hcalling
      exact hnow.trans_le (ht.called hcalling)
    · intro hcalling hended
      exact hnow.trans_le (ht.slept hcalling hended).2.2

theorem onTime_start (now : ℤ) : OnTime busy late (.start now) where
  begun := Int.le_refl _
  slept _ _ := by
    simp only [TimerLoop.start, TimerLoop.now, halfSecond]
    omega
  called h := by cases h
  flag := iff_of_true rfl rfl

theorem OnTime.turn (ht : OnTime busy late s) (hc : InTime busy late s a) (h : loopTurn s a = some s') :
    OnTime busy late s' := by
  cases a with
  | test =>
    obtain ⟨hp, h⟩ := Option.ite_none_right_eq_some.mp h
    obtain rfl := Option.some.inj h
    have hslept := ht.slept (by simp [hp]) (by simp [hp])
    refine ⟨ht.begun, fun _ _ => hslept, fun hcalling => ?_, ht.flag⟩
    dsimp only at hcalling
    split_ifs at hcalling
  | collect =>
    obtain ⟨-, h⟩ := Option.ite_none_right_eq_some.mp h
    obtain ⟨timers, htimers, rfl⟩ := Option.map_eq_some_iff.mp h
    have hnow : timers.now = s.now := timerTurn_now_eq htimers fun _ => nofun
    refine ⟨hnow.ge, fun hcalling => absurd rfl hcalling, fun _ => ?_, ht.flag⟩
    change timers.now ≤ s.now + busy
    omega
  | call =>
    obtain ⟨hp, h⟩ := Option.ite_none_right_eq_some.mp h
    obtain ⟨timers, htimers, rfl⟩ := Option.map_eq_some_iff.mp h
    have hnow : timers.now = s.now := timerTurn_now_eq htimers fun _ => nofun
    exact ⟨le_trans ht.begun hnow.ge, fun hcalling => absurd hp hcalling,
      fun hcalling => hnow.trans_le (ht.called hcalling), ht.flag⟩
  | sleep =>
    obtain ⟨⟨hp, -⟩, h⟩ := Option.ite_none_right_eq_some.mp h
    obtain rfl := Option.some.inj h
    refine ⟨ht.begun, fun _ _ => ⟨ht.called hp, Int.le_refl _, ?_⟩, fun hcalling => ?_, ht.flag⟩
    · change s.now ≤ s.now + halfSecond + late
      simp only [halfSecond]
      omega
    · dsimp only at hcalling
      split_ifs at hcalling
  | wake =>
    obtain ⟨⟨hp, -⟩, h⟩ := Option.ite_none_right_eq_some.mp h
    obtain rfl := Option.some.inj h
    exact ⟨ht.begun, fun _ _ => ht.slept (by simp [hp]) (by simp [hp]), fun h => (by cases h), ht.flag⟩
  | stop =>
    obtain rfl := Option.some.inj h
    refine ⟨ht.begun, ht.slept, ht.called, ?_⟩
    cases s.stoppedAt <;> simp
  | other b =>
    obtain ⟨heq, hnow, hcalling, hsleeping⟩ := other_eq ht hc h
    rw [heq]
    refine ⟨le_trans ht.begun hnow, fun hcall hend => ?_, hcalling, ht.flag⟩
    obtain ⟨hpass, hslept, -⟩ := ht.slept hcall hend
    exact ⟨hpass, le_trans hslept hnow, hsleeping hcall hend⟩

/-! ## Behind `stop` -/

theorem Stopping.begin (ht : OnTime busy late s) (hfresh : s.passesSince = 0) :
    Stopping busy late { s with running := false, stoppedAt := some s.now } s.now where
  past := Int.le_refl _
  once := by simp [hfresh]
  collecting hp := by
    have hphase : s.phase = .collecting := hp
    exact ⟨hfresh, (ht.slept (by simp [hphase]) (by simp [hphase])).2.1⟩
  calling _ := by
    have hbegun := ht.begun
    simp only [halfSecond]
    omega
  sleeping hcall hend := by
    have hslept := (ht.slept hcall hend).2.1
    simp only [halfSecond]
    omega

/-- A thread that has been told to stop goes through one more pass at most. -/
theorem Stopping.turn {T : ℤ} (h : Stopping busy late s T) (ht : OnTime busy late s) (hT : s.stoppedAt = some T)
    (hc : InTime busy late s a) (hs : loopTurn s a = some s') : Stopping busy late s' T := by
  have hrunning : s.running = false :=
    Bool.eq_false_iff.mpr fun hrunning => by simp [ht.flag.mpr hrunning] at hT
  cases a with
  | test =>
    obtain ⟨-, hs⟩ := Option.ite_none_right_eq_some.mp hs
    obtain rfl := Option.some.inj hs
    simp only [hrunning, Bool.false_eq_true, if_false]
    exact ⟨h.past, h.once, fun h => (by cases h), fun h => (by cases h), fun _ hend => absurd rfl hend⟩
  | collect =>
    obtain ⟨hp, hs⟩ := Option.ite_none_right_eq_some.mp hs
    obtain ⟨timers, htimers, rfl⟩ := Option.map_eq_some_iff.mp hs
    have hnow : timers.now = s.now := timerTurn_now_eq htimers fun _ => nofun
    obtain ⟨hnone, hslept⟩ := h.collecting hp
    have hcollected := (ht.slept (by simp [hp]) (by simp [hp])).2.2
    refine ⟨le_trans h.past hnow.ge, ?_, fun h => (by cases h), fun _ => ?_, fun hcall => absurd rfl hcall⟩
    · simp [hT, hnone]
    · dsimp only
      omega
  | call =>
    obtain ⟨hp, hs⟩ := Option.ite_none_right_eq_some.mp hs
    obtain ⟨timers, htimers, rfl⟩ := Option.map_eq_some_iff.mp hs
    have hnow : timers.now = s.now := timerTurn_now_eq htimers fun _ => nofun
    exact ⟨le_trans h.past hnow.ge, h.once, h.collecting, h.calling, h.sleeping⟩
  | sleep =>
    obtain ⟨⟨hp, -⟩, hs⟩ := Option.ite_none_right_eq_some.mp hs
    obtain rfl := Option.some.inj hs
    have hcalled := ht.called hp
    have hpass := h.calling hp
    simp only [hrunning, Bool.false_eq_true, if_false]
    refine ⟨h.past, h.once, fun h => (by cases h), fun h => (by cases h), fun _ _ => ?_⟩
    dsimp only
    omega
  | wake =>
    obtain ⟨⟨hp, -⟩, hs⟩ := Option.ite_none_right_eq_some.mp hs
    obtain rfl := Option.some.inj hs
    exact ⟨h.past, h.once, fun h => (by cases h), fun h => (by cases h),
      fun _ _ => h.sleeping (by simp [hp]) (by simp [hp])⟩
  | stop =>
    obtain rfl := Option.some.inj hs
    exact ⟨h.past, h.once, h.collecting, h.calling, h.sleeping⟩
  | other b =>
    obtain ⟨heq, hnow, -, -⟩ := other_eq ht hc hs
    rw [heq]
    exact ⟨le_trans h.past hnow, h.once, h.collecting, h.calling, h.sleeping⟩

theorem Stopping.now_le {T : ℤ} (h : Stopping busy late s T) (ht : OnTime busy late s) (hp : s.phase ≠ .ended) :
    s.now ≤ T + busy + 2 * (halfSecond + late) := by
  by_cases hc : s.phase = .calling
  · have hcalling := h.calling hc
    have hcalled := ht.called hc
    simp only [halfSecond] at *
    omega
  · have hsleeping := h.sleeping hc hp
    obtain ⟨-, -, hnow⟩ := ht.slept hc hp
    omega

/-! ## The timers -/

theorem int64_le (n : UInt64) : int64 n ≤ n.toNat := by
  by_cases h : n.toNat < 2 ^ 63
  · rw [int64_of_lt h]
  · have hneg := int64_neg (Nat.le_of_not_lt h)
    omega

theorem lt_of_not_due {now : ℤ} (hpast : t.lastRun ≤ now) (hdue : t.due now = false) :
    now < t.lastRun + t.intervalSeconds.toNat * second := by
  have hlt := Int.not_le.mp (of_decide_eq_false hdue)
  have hle := int64_le t.intervalSeconds
  rw [Int.tdiv_eq_ediv_of_nonneg (by omega)] at hlt
  simp only [second] at hlt ⊢
  omega

/-- Behind a pass no timer's interval is over. -/
def Served (s : TimerLoop) : Prop :=
  ∀ t ∈ s.timers.timers, s.passAt ≤ t.lastRun + t.intervalSeconds.toNat * second

theorem served_turn (hd : s.timers.Dated) (ht : OnTime busy late s) (hv : Served s)
    (h : loopTurn s a = some s') : Served s' := by
  have htimers := loop_timers h
  cases a with
  | collect =>
    obtain ⟨-, h⟩ := Option.ite_none_right_eq_some.mp h
    obtain ⟨timers, hturn, rfl⟩ := Option.map_eq_some_iff.mp h
    intro t hmem
    change s.now ≤ _
    rcases timerTurn_timers hturn hmem with ⟨hold, hdue⟩ | ⟨-, old, -, -, rfl⟩ | ⟨i, run, hpush, -⟩
    · exact le_of_lt (lt_of_not_due (hd.past t hold) (hdue rfl))
    · simp only [TimerLoop.now, second]
      omega
    · cases hpush
  | call =>
    obtain ⟨-, h⟩ := Option.ite_none_right_eq_some.mp h
    obtain ⟨timers, hturn, rfl⟩ := Option.map_eq_some_iff.mp h
    obtain ⟨_, _, -, rfl⟩ := timerTurn_call hturn
    exact hv
  | other b =>
    obtain ⟨-, h⟩ := Option.ite_none_right_eq_some.mp h
    obtain ⟨timers, hturn, rfl⟩ := Option.map_eq_some_iff.mp h
    intro t hmem
    change s.passAt ≤ _
    rcases timerTurn_timers hturn hmem with ⟨hold, -⟩ | ⟨-, old, -, -, rfl⟩ | ⟨i, run, -, -, rfl⟩
    · exact hv t hold
    · have hbegun := ht.begun
      simp only [TimerLoop.now, second] at hbegun ⊢
      omega
    · have hbegun := ht.begun
      simp only [TimerLoop.now, second] at hbegun ⊢
      omega
  | test | sleep | wake =>
    obtain ⟨-, h⟩ := Option.ite_none_right_eq_some.mp h
    obtain rfl := Option.some.inj h
    exact hv
  | stop =>
    obtain rfl := Option.some.inj h
    exact hv

theorem prompt_append {k : ℤ} {history events : List TimerEvent} (h : Prompt k history)
    (hnew : ∀ id n time, .selected id n time ∈ events →
      ∃ x ∈ history, ∃ time₀, x.visit? = some (id, n, time₀) ∧ time ≤ time₀ + n.toNat * second + k) :
    Prompt k (history ++ events) := by
  intro before id n time after heq
  rcases List.append_eq_append_iff.mp heq with ⟨front, rfl, hevents⟩ | ⟨back, rfl, hback⟩
  · have hmem : .selected id n time ∈ events := by simp [hevents]
    obtain ⟨x, hx, hvisit⟩ := hnew id n time hmem
    exact ⟨x, List.mem_append_left _ hx, hvisit⟩
  · cases back with
    | nil =>
      rw [List.nil_append] at hback
      have hmem : .selected id n time ∈ events := hback ▸ List.mem_cons_self
      obtain ⟨x, hx, hvisit⟩ := hnew id n time hmem
      exact ⟨x, by simpa using hx, hvisit⟩
    | cons y rest =>
      obtain ⟨rfl, rfl⟩ := List.cons.inj hback
      exact h before id n time rest rfl

theorem prompt_turn (hd : s.timers.Dated) (ht : OnTime busy late s) (hv : Served s)
    (hprompt : Prompt (slack busy late) s.timers.history) (h : loopTurn s a = some s') :
    Prompt (slack busy late) s'.timers.history := by
  have htimers := loop_timers h
  cases hb : a.turn? with
  | none =>
    rw [hb] at htimers
    rwa [htimers]
  | some b =>
    rw [hb] at htimers
    obtain ⟨events, hhistory, hcause⟩ := timerTurn_history htimers
    rw [hhistory]
    refine prompt_append hprompt fun id n time hmem => ?_
    obtain ⟨rfl, t, hlisted, -, rfl, rfl, rfl⟩ := hcause _ hmem
    obtain ⟨x, hx, hvisit⟩ := hd.latest t hlisted
    refine ⟨x, hx, t.lastRun, hvisit, ?_⟩
    have hphase : s.phase ≠ .ended := by
      cases a with
      | collect =>
        obtain ⟨hp, -⟩ := Option.ite_none_right_eq_some.mp h
        simp [hp]
      | other b =>
        obtain ⟨houtside, -⟩ := Option.ite_none_right_eq_some.mp h
        obtain rfl := Option.some.inj hb
        cases houtside
      | _ => cases hb
    have hpass := hv t hlisted
    have hnow := ht.now_le hphase
    simp only [TimerLoop.now] at hnow
    omega

/-! ## Runs -/

structure Clocked (busy late : ℕ) (s : TimerLoop) : Prop where
  dated : s.timers.Dated
  onTime : OnTime busy late s
  served : Served s
  prompt : Prompt (slack busy late) s.timers.history
  fresh : s.stoppedAt = none → s.passesSince = 0
  stopping : ∀ T, s.stoppedAt = some T → Stopping busy late s T

theorem dated_turn (hd : s.timers.Dated) (h : loopTurn s a = some s') : s'.timers.Dated := by
  have htimers := loop_timers h
  cases hb : a.turn? with
  | none =>
    rw [hb] at htimers
    rwa [htimers]
  | some b =>
    rw [hb] at htimers
    exact hd.turn htimers

theorem stoppedAt_turn (h : loopTurn s a = some s') :
    (s'.stoppedAt = s.stoppedAt ∧ (s.stoppedAt = none → s'.passesSince = s.passesSince)) ∨
      s.stoppedAt = none ∧ s' = { s with running := false, stoppedAt := some s.now } := by
  cases a with
  | stop =>
    obtain rfl := Option.some.inj h
    cases hT : s.stoppedAt with
    | none => exact Or.inr ⟨rfl, rfl⟩
    | some T => exact Or.inl ⟨rfl, fun _ => rfl⟩
  | collect | call | other =>
    obtain ⟨-, h⟩ := Option.ite_none_right_eq_some.mp h
    obtain ⟨timers, -, rfl⟩ := Option.map_eq_some_iff.mp h
    exact Or.inl ⟨rfl, fun hT => by simp [hT]⟩
  | test | sleep | wake =>
    obtain ⟨-, h⟩ := Option.ite_none_right_eq_some.mp h
    obtain rfl := Option.some.inj h
    exact Or.inl ⟨rfl, fun _ => rfl⟩

theorem Clocked.turn (hk : Clocked busy late s) (hc : InTime busy late s a) (h : loopTurn s a = some s') :
    Clocked busy late s' where
  dated := dated_turn hk.dated h
  onTime := hk.onTime.turn hc h
  served := served_turn hk.dated hk.onTime hk.served h
  prompt := prompt_turn hk.dated hk.onTime hk.served hk.prompt h
  fresh hT := by
    rcases stoppedAt_turn h with ⟨hsame, hpasses⟩ | ⟨-, rfl⟩
    · rw [hsame] at hT
      rw [hpasses hT, hk.fresh hT]
    · cases hT
  stopping T hT := by
    rcases stoppedAt_turn h with ⟨hsame, -⟩ | ⟨hnone, rfl⟩
    · rw [hsame] at hT
      exact (hk.stopping T hT).turn hk.onTime hT hc h
    · obtain rfl := Option.some.inj hT
      exact .begin hk.onTime (hk.fresh hnone)

theorem clocked_start (now : ℤ) : Clocked busy late (.start now) where
  dated := dated_start now
  onTime := onTime_start now
  served := List.forall_mem_nil _
  prompt before id n time after h := by
    have hmem : .selected id n time ∈ ([] : List TimerEvent) := by
      rw [show ([] : List TimerEvent) = before ++ .selected id n time :: after from h]
      simp
    cases hmem
  fresh _ := rfl
  stopping _ h := by cases h

/-- As long as the callbacks of a pass take at most `busy` and the thread wakes up at most `late`
behind its time, no timer that runs waits longer than its interval, `busy`, `late` and half a
second for its next visit, and where `stop` has been called at most one more pass begins and the
thread is at its end at most `busy`, a second and twice `late` behind it. -/
theorem timers_in_time (busy late : ℕ) (start : ℤ) (turns : List LoopTurn) (s : TimerLoop)
    (hrun : runFrom loopTurn (.start start) turns = some s)
    (hc : Along loopTurn (InTime busy late) (.start start) turns) :
    runFrom timerTurn { now := start } (turns.filterMap LoopTurn.turn?) = some s.timers ∧
    Prompt (slack busy late) s.timers.history ∧
    (s.phase ≠ .ended → ∀ t ∈ s.timers.timers,
      (∃ x ∈ s.timers.history, x.visit? = some (t.id, t.intervalSeconds, t.lastRun)) ∧
        s.now ≤ t.lastRun + t.intervalSeconds.toNat * second + slack busy late) ∧
    ∀ T, s.stoppedAt = some T → s.passesSince ≤ 1 ∧
      (T + busy + 2 * (halfSecond + late) < s.now → s.phase = .ended) := by
  have hk : Clocked busy late s := run_invariant (fun _ _ _ hk hc h => hk.turn hc h) (clocked_start start) hc hrun
  refine ⟨loop_run hrun, hk.prompt, fun hphase t ht => ⟨hk.dated.latest t ht, ?_⟩, fun T hT => ?_⟩
  · have hpass := hk.served t ht
    have hnow := hk.onTime.now_le hphase
    omega
  · have hstopping := hk.stopping T hT
    refine ⟨hstopping.once, fun hlate => ?_⟩
    by_contra hphase
    have hnow := hstopping.now_le hk.onTime hphase
    omega

/-- A timer of one second, started while the thread sleeps, and a stop that comes just behind the test. -/
def stoppedBehindTest : List LoopTurn :=
  [.test, .collect, .sleep, .other (.startTimer true 1), .other (.push 0), .other (.wait 500000000), .wake, .test,
    .collect, .sleep, .other (.wait 500000000), .wake, .test, .stop, .collect, .call, .sleep, .test]

theorem stopped_thread_ends : ∃ s, runFrom loopTurn (.start 0) stoppedBehindTest = some s ∧ s.phase = .ended ∧
    s.timers.history = [.started 1 1 0, .selected 1 1 1000000000, .called 1] ∧ s.passesSince = 1 ∧
    Prompt (slack 0 0) s.timers.history := by
  refine ⟨_, rfl, rfl, rfl, rfl, ?_⟩
  exact (timers_in_time 0 0 0 stoppedBehindTest _ rfl (by decide)).2.1

end Stoatpp.Cluster
