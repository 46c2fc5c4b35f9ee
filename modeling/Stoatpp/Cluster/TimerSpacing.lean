import Mathlib.Algebra.Group.Int.Defs
import Mathlib.Algebra.Group.Nat.Defs
import Mathlib.Data.Int.Basic
import Stoatpp.Cluster.Timers

/-!
# How far apart a timer is selected

A pass compares the whole seconds since the last selection with the interval converted to a signed
number. Below 2^63 the conversion changes nothing and the selections of a timer are its interval
apart; from there on it is negative and the timer is due in every pass.
-/

namespace Stoatpp.Cluster
open Stoatpp.Library

/-- When an event starts or selects a timer: its id, its interval and the time. -/
def TimerEvent.visit? : TimerEvent → Option (ℕ × UInt64 × ℤ)
  | .started id intervalSeconds time => some (id, intervalSeconds, time)
  | .selected id intervalSeconds time => some (id, intervalSeconds, time)
  | _ => none

/-- A timer that is selected has been started and selected no less than its interval before. -/
def Apart (x y : TimerEvent) : Prop :=
  ∀ id intervalSeconds time intervalSeconds' time', x.visit? = some (id, intervalSeconds, time) →
    y = .selected id intervalSeconds' time' → time + intervalSeconds.toNat * second ≤ time'

def FittingIntervals : TimerTurn → Prop
  | .startTimer _ intervalSeconds => intervalSeconds.toNat < 2 ^ 63
  | _ => True

variable {s s' : Timers} {a : TimerTurn} {t t' : TimerInfo} {id : ℕ} {now : ℤ}

/-! ## The conversion -/

theorem int64_of_lt {n : UInt64} (h : n.toNat < 2 ^ 63) : int64 n = n.toNat := by
  have hn : n.toBitVec.toNat = n.toNat := rfl
  rw [int64, BitVec.toInt_eq_toNat_cond, hn, if_pos (by omega)]

theorem int64_neg {n : UInt64} (h : 2 ^ 63 ≤ n.toNat) : int64 n < 0 := by
  have hn : n.toBitVec.toNat = n.toNat := rfl
  have hlt := n.toBitVec.isLt
  rw [int64, BitVec.toInt_eq_toNat_cond, hn, if_neg (by omega)]
  omega

theorem interval_le_of_due (hfits : t.intervalSeconds.toNat < 2 ^ 63) (hpast : t.lastRun ≤ now)
    (hdue : t.due now = true) : t.lastRun + t.intervalSeconds.toNat * second ≤ now := by
  have hle := of_decide_eq_true hdue
  rw [int64_of_lt hfits, Int.tdiv_eq_ediv_of_nonneg (by omega)] at hle
  simp only [second] at hle ⊢
  omega

theorem due_of_huge (hhuge : 2 ^ 63 ≤ t.intervalSeconds.toNat) (hpast : t.lastRun ≤ now) :
    t.due now = true := by
  have hneg := int64_neg hhuge
  have hnonneg : 0 ≤ (now - t.lastRun).tdiv second := Int.tdiv_nonneg (by omega) (by decide)
  exact decide_eq_true (by omega)

/-! ## What a turn does to the timers -/

theorem timerTurn_timers (hs : timerTurn s a = some s') (ht : t ∈ s'.timers) :
    (t ∈ s.timers ∧ (a = .collect → t.due s.now = false)) ∨
    (a = .collect ∧ ∃ old ∈ s.timers, old.due s.now = true ∧ t = { old with lastRun := s.now }) ∨
    ∃ i run, a = .push i ∧ s.starting[i]? = some run ∧ t = ⟨run, s.now⟩ := by
  cases a with
  | push i =>
    obtain ⟨run, hrun, rfl⟩ := timerTurn_push hs
    rcases List.mem_append.mp ht with hold | hnew
    · exact Or.inl ⟨hold, by simp⟩
    · exact Or.inr (Or.inr ⟨i, run, rfl, hrun, List.mem_singleton.mp hnew⟩)
  | stopTimer id =>
    rcases timerTurn_stopTimer hs with ⟨-, rfl⟩ | ⟨-, rfl⟩
    · exact Or.inl ⟨List.mem_of_mem_eraseP ht, by simp⟩
    · exact Or.inl ⟨ht, by simp⟩
  | collect =>
    obtain ⟨-, rfl⟩ := timerTurn_collect hs
    obtain ⟨old, hold, rfl⟩ := List.mem_map.mp ht
    unfold TimerInfo.visited
    split_ifs with hdue
    · exact Or.inr (Or.inl ⟨rfl, old, hold, hdue, rfl⟩)
    · exact Or.inl ⟨hold, fun _ => Bool.eq_false_iff.mpr hdue⟩
  | call =>
    obtain ⟨_, _, -, rfl⟩ := timerTurn_call hs
    exact Or.inl ⟨ht, by simp⟩
  | _ =>
    obtain rfl := Option.some.inj hs
    exact Or.inl ⟨ht, by simp⟩

theorem timerTurn_now (hs : timerTurn s a = some s') : s.now ≤ s'.now := by
  cases a with
  | wait ns =>
    obtain rfl := Option.some.inj hs
    simp only
    omega
  | push i =>
    obtain ⟨run, -, rfl⟩ := timerTurn_push hs
    exact Int.le_refl _
  | startTimer callback intervalSeconds =>
    obtain rfl := Option.some.inj hs
    exact Int.le_refl _
  | stopTimer id =>
    rcases timerTurn_stopTimer hs with ⟨-, rfl⟩ | ⟨-, rfl⟩
    · exact Int.le_refl _
    · exact Int.le_refl _
  | collect =>
    obtain ⟨-, rfl⟩ := timerTurn_collect hs
    exact Int.le_refl _
  | call =>
    obtain ⟨_, _, -, rfl⟩ := timerTurn_call hs
    exact Int.le_refl _

theorem timerTurn_starting {run : TimerRun} (hs : timerTurn s a = some s') (hrun : run ∈ s'.starting) :
    run ∈ s.starting ∨ ∃ callback intervalSeconds, a = .startTimer callback intervalSeconds ∧
      run = ⟨s.nextTimerId, callback, intervalSeconds⟩ := by
  cases a with
  | startTimer callback intervalSeconds =>
    obtain rfl := Option.some.inj hs
    rcases List.mem_append.mp hrun with hold | hnew
    · exact Or.inl hold
    · exact Or.inr ⟨_, _, rfl, List.mem_singleton.mp hnew⟩
  | push i =>
    obtain ⟨_, -, rfl⟩ := timerTurn_push hs
    exact Or.inl (List.mem_of_mem_eraseIdx hrun)
  | wait ns =>
    obtain rfl := Option.some.inj hs
    exact Or.inl hrun
  | stopTimer id =>
    rcases timerTurn_stopTimer hs with ⟨-, rfl⟩ | ⟨-, rfl⟩
    · exact Or.inl hrun
    · exact Or.inl hrun
  | collect =>
    obtain ⟨-, rfl⟩ := timerTurn_collect hs
    exact Or.inl hrun
  | call =>
    obtain ⟨_, _, -, rfl⟩ := timerTurn_call hs
    exact Or.inl hrun

/-! ## The history of a timer -/

/-- A timer in the list carries the time it was last started or selected at, and no event speaks of
timers that are still on their way. -/
structure Timers.Dated (s : Timers) : Prop where
  numbered : s.Numbered
  past : ∀ t ∈ s.timers, t.lastRun ≤ s.now
  latest : ∀ t ∈ s.timers, ∃ e ∈ s.history, e.visit? = some (t.id, t.intervalSeconds, t.lastRun)
  earlier : ∀ t ∈ s.timers, ∀ e ∈ s.history, ∀ intervalSeconds time,
    e.visit? = some (t.id, intervalSeconds, time) →
      intervalSeconds = t.intervalSeconds ∧ time ≤ t.lastRun
  known : ∀ e ∈ s.history, ∀ id intervalSeconds time, e.visit? = some (id, intervalSeconds, time) →
    id < s.nextTimerId ∧ ∀ run ∈ s.starting, run.id ≠ id

theorem Timers.Numbered.same (hn : s.Numbered) (ht : t ∈ s.timers) (ht' : t' ∈ s.timers)
    (hid : t.id = t'.id) : t = t' :=
  List.inj_on_of_nodup_map (List.nodup_append.mp hn.distinct).1 ht ht' hid

theorem Timers.Numbered.apart (hn : s.Numbered) {run : TimerRun} (ht : t ∈ s.timers)
    (hrun : run ∈ s.starting) : run.id ≠ t.id := fun hid =>
  (List.nodup_append.mp hn.distinct).2.2 t.id (List.mem_map.mpr ⟨t, ht, rfl⟩) run.id
    (List.mem_map.mpr ⟨run, hrun, rfl⟩) hid.symm

theorem visit_of_causes {e : TimerEvent} {intervalSeconds : UInt64} {time : ℤ}
    (hs : timerTurn s a = some s') (hcause : s.Causes a e)
    (he : e.visit? = some (id, intervalSeconds, time)) :
    time = s.now ∧ ∃ t ∈ s'.timers, t.id = id ∧ t.intervalSeconds = intervalSeconds ∧ t.lastRun = s.now := by
  cases e with
  | started _ _ _ =>
    obtain ⟨rfl, rfl, rfl⟩ : _ ∧ _ ∧ _ := by simpa [TimerEvent.visit?] using he
    obtain ⟨i, run, rfl, hrun, hid, hinterval, rfl⟩ := hcause
    simp only [timerTurn, hrun, Option.map_some] at hs
    obtain rfl := Option.some.inj hs
    exact ⟨rfl, ⟨run, s.now⟩, List.mem_append_right _ (List.mem_singleton.mpr rfl), hid, hinterval, rfl⟩
  | selected _ _ _ =>
    obtain ⟨rfl, rfl, rfl⟩ : _ ∧ _ ∧ _ := by simpa [TimerEvent.visit?] using he
    obtain ⟨rfl, t, ht, hdue, hid, hinterval, rfl⟩ := hcause
    obtain ⟨-, rfl⟩ := timerTurn_collect hs
    refine ⟨rfl, t.visited s.now, List.mem_map.mpr ⟨t, ht, rfl⟩, ?_⟩
    rw [TimerInfo.visited, if_pos hdue]
    exact ⟨hid, hinterval, rfl⟩
  | _ => cases he

theorem Timers.Dated.latest_turn (hd : s.Dated) (hs : timerTurn s a = some s') (ht : t ∈ s'.timers) :
    ∃ e ∈ s'.history, e.visit? = some (t.id, t.intervalSeconds, t.lastRun) := by
  rcases timerTurn_timers hs ht with ⟨hold, -⟩ | ⟨rfl, old, hold, hdue, rfl⟩ | ⟨i, run, rfl, hrun, rfl⟩
  · obtain ⟨es, hes, -⟩ := timerTurn_history hs
    obtain ⟨e, he, hvisit⟩ := hd.latest t hold
    exact ⟨e, hes ▸ List.mem_append_left _ he, hvisit⟩
  · obtain ⟨-, rfl⟩ := timerTurn_collect hs
    exact ⟨.selected old.id old.intervalSeconds s.now, List.mem_append_right _
      (List.mem_map.mpr ⟨old, List.mem_filter.mpr ⟨hold, hdue⟩, rfl⟩), rfl⟩
  · simp only [timerTurn, hrun, Option.map_some] at hs
    obtain rfl := Option.some.inj hs
    exact ⟨.started run.id run.intervalSeconds s.now,
      List.mem_append_right _ (List.mem_singleton.mpr rfl), rfl⟩

theorem Timers.Dated.earlier_turn (hd : s.Dated) (hs : timerTurn s a = some s') (ht : t ∈ s'.timers)
    {e : TimerEvent} (he : e ∈ s'.history) {intervalSeconds : UInt64} {time : ℤ}
    (hvisit : e.visit? = some (t.id, intervalSeconds, time)) :
    intervalSeconds = t.intervalSeconds ∧ time ≤ t.lastRun := by
  obtain ⟨es, hes, hcause⟩ := timerTurn_history hs
  rw [hes, List.mem_append] at he
  rcases he with hold | hnew
  · rcases timerTurn_timers hs ht with ⟨hbefore, -⟩ | ⟨-, old, hbefore, -, rfl⟩ | ⟨i, run, -, hrun, rfl⟩
    · exact hd.earlier t hbefore e hold _ _ hvisit
    · obtain ⟨hinterval, htime⟩ := hd.earlier old hbefore e hold _ _ hvisit
      have hpast := hd.past old hbefore
      exact ⟨hinterval, Int.le_trans htime hpast⟩
    · exact absurd rfl ((hd.known e hold _ _ _ hvisit).2 run (List.mem_of_getElem? hrun))
  · obtain ⟨rfl, t', ht', hid, rfl, htime⟩ := visit_of_causes hs (hcause e hnew) hvisit
    obtain rfl := (hd.numbered.turn hs).same ht' ht hid
    exact ⟨rfl, Int.le_of_eq htime.symm⟩

theorem Timers.Dated.known_turn (hd : s.Dated) (hs : timerTurn s a = some s') {e : TimerEvent}
    (he : e ∈ s'.history) {intervalSeconds : UInt64} {time : ℤ}
    (hvisit : e.visit? = some (id, intervalSeconds, time)) :
    id < s'.nextTimerId ∧ ∀ run ∈ s'.starting, run.id ≠ id := by
  obtain ⟨es, hes, hcause⟩ := timerTurn_history hs
  rw [hes, List.mem_append] at he
  rcases he with hold | hnew
  · obtain ⟨hbelow, hcoming⟩ := hd.known e hold _ _ _ hvisit
    constructor
    · rcases timerTurn_ids hs with ⟨-, hnext⟩ | ⟨-, hnext⟩ <;> omega
    · intro run hrun
      rcases timerTurn_starting hs hrun with hbefore | ⟨_, _, -, rfl⟩
      · exact hcoming run hbefore
      · exact Nat.ne_of_gt hbelow
  · obtain ⟨-, t, ht, rfl, -⟩ := visit_of_causes hs (hcause e hnew) hvisit
    have hn' := hd.numbered.turn hs
    have hlisted : t.id ∈ s'.ids := List.mem_append_left _ (List.mem_map.mpr ⟨t, ht, rfl⟩)
    exact ⟨hn'.below _ hlisted, fun run hrun => hn'.apart ht hrun⟩

theorem Timers.Dated.turn (hd : s.Dated) (hs : timerTurn s a = some s') : s'.Dated where
  numbered := hd.numbered.turn hs
  past t ht := by
    have hnow := timerTurn_now hs
    rcases timerTurn_timers hs ht with ⟨hold, -⟩ | ⟨-, old, hold, -, rfl⟩ | ⟨i, run, -, -, rfl⟩
    · have := hd.past t hold
      omega
    · exact hnow
    · exact hnow
  latest _ ht := hd.latest_turn hs ht
  earlier _ ht _ he _ _ hvisit := hd.earlier_turn hs ht he hvisit
  known _ he _ _ _ hvisit := hd.known_turn hs he hvisit

theorem dated_start (start : ℤ) : Timers.Dated { now := start } :=
  ⟨⟨List.forall_mem_nil _, List.nodup_nil⟩, List.forall_mem_nil _, List.forall_mem_nil _,
    List.forall_mem_nil _, List.forall_mem_nil _⟩

theorem run_dated {start : ℤ} {turns : List TimerTurn}
    (hrun : runFrom timerTurn { now := start } turns = some s) : s.Dated :=
  run_invariant (fun _ _ _ hd _ hs => hd.turn hs) (dated_start start)
    (along_of_forall (C := fun _ => True) fun _ _ => trivial) hrun

/-! ## Selections -/

/-- The intervals of all timers, listed or on their way, are below 2^63. -/
def Timers.Fit (s : Timers) : Prop :=
  (∀ run ∈ s.starting, run.intervalSeconds.toNat < 2 ^ 63) ∧ ∀ t ∈ s.timers, t.intervalSeconds.toNat < 2 ^ 63

theorem Timers.Fit.turn (hf : s.Fit) (hc : FittingIntervals a) (hs : timerTurn s a = some s') : s'.Fit := by
  constructor
  · intro run hrun
    rcases timerTurn_starting hs hrun with hbefore | ⟨_, _, rfl, rfl⟩
    · exact hf.1 run hbefore
    · exact hc
  · intro t ht
    rcases timerTurn_timers hs ht with ⟨hold, -⟩ | ⟨-, old, hold, -, rfl⟩ | ⟨i, run, -, hrun, rfl⟩
    · exact hf.2 t hold
    · exact hf.2 old hold
    · exact hf.1 run (List.mem_of_getElem? hrun)

theorem apart_turn (hd : s.Dated) (hf : s.Fit) (hapart : s.history.Pairwise Apart)
    (hs : timerTurn s a = some s') : s'.history.Pairwise Apart := by
  obtain ⟨es, hes, hcause⟩ := timerTurn_history hs
  rw [hes, List.pairwise_append]
  refine ⟨hapart, ?_, fun x hx y hy id intervalSeconds time intervalSeconds' time' hvisit hsel => ?_⟩
  · cases a with
    | collect =>
      obtain ⟨-, rfl⟩ := timerTurn_collect hs
      obtain rfl := List.append_cancel_left hes
      have hids : (s.timers.map (·.id)).Nodup := (List.nodup_append.mp hd.numbered.distinct).1
      rw [List.pairwise_map]
      refine (List.pairwise_map.mp hids).filter _ |>.imp fun hne => ?_
      -- one pass selects no timer twice
      intro id intervalSeconds time intervalSeconds' time' hvisit hsel
      simp only [TimerEvent.visit?, Option.some.injEq, Prod.mk.injEq] at hvisit
      simp only [TimerEvent.selected.injEq] at hsel
      exact absurd (hvisit.1.trans hsel.1.symm) hne
    | _ =>
      refine List.pairwise_of_forall_mem_list fun x _ y hy => ?_
      intro id intervalSeconds time intervalSeconds' time' _ hsel
      subst hsel
      cases (hcause _ hy).1
  · subst hsel
    obtain ⟨-, t, ht, hdue, rfl, -, rfl⟩ := hcause _ hy
    obtain ⟨rfl, htime⟩ := hd.earlier t ht x hx _ _ hvisit
    have hle := interval_le_of_due (hf.2 t ht) (hd.past t ht) hdue
    omega

structure Timers.Spaced (s : Timers) : Prop where
  dated : s.Dated
  fit : s.Fit
  apart : s.history.Pairwise Apart

theorem run_apart {start : ℤ} {turns : List TimerTurn}
    (hrun : runFrom timerTurn { now := start } turns = some s) (hc : ∀ a ∈ turns, FittingIntervals a) :
    s.history.Pairwise Apart := by
  have hstep (s : Timers) (a : TimerTurn) (s' : Timers) (hspaced : s.Spaced) (ha : FittingIntervals a)
      (hs : timerTurn s a = some s') : s'.Spaced :=
    ⟨hspaced.dated.turn hs, hspaced.fit.turn ha hs, apart_turn hspaced.dated hspaced.fit hspaced.apart hs⟩
  have hstart : Timers.Spaced { now := start } :=
    ⟨dated_start start, ⟨List.forall_mem_nil _, List.forall_mem_nil _⟩, List.Pairwise.nil⟩
  exact (run_invariant hstep hstart (along_of_forall hc) hrun).apart

theorem huge_selected (hd : s.Dated) (hs : timerTurn s .collect = some s') (ht : t ∈ s.timers)
    (hhuge : 2 ^ 63 ≤ t.intervalSeconds.toNat) (hclock : s.now - t.lastRun < 2 ^ 63) :
    ¬ s'.history.Pairwise Apart := by
  intro hapart
  have hdue := due_of_huge hhuge (hd.past t ht)
  obtain ⟨e, he, hvisit⟩ := hd.latest t ht
  obtain ⟨-, rfl⟩ := timerTurn_collect hs
  have hsel : .selected t.id t.intervalSeconds s.now ∈ (s.timers.filter (·.due s.now)).map fun t : TimerInfo =>
      TimerEvent.selected t.id t.intervalSeconds s.now :=
    List.mem_map.mpr ⟨t, List.mem_filter.mpr ⟨ht, hdue⟩, rfl⟩
  have hle := (List.pairwise_append.mp hapart).2.2 e he _ hsel _ _ _ _ _ hvisit rfl
  simp only [second] at hle
  omega

/-- With intervals below 2^63 seconds the selections of a timer are its interval apart, the first
one from its start; a timer with a longer interval is selected too early by every pass. -/
theorem selections_apart (start : ℤ) (turns : List TimerTurn) (s : Timers)
    (hrun : runFrom timerTurn { now := start } turns = some s) :
    ((∀ a ∈ turns, FittingIntervals a) → s.history.Pairwise Apart) ∧
    ∀ s' t, timerTurn s .collect = some s' → t ∈ s.timers → 2 ^ 63 ≤ t.intervalSeconds.toNat →
      s.now - t.lastRun < 2 ^ 63 → ¬ s'.history.Pairwise Apart :=
  ⟨run_apart hrun, fun _ _ hs ht hhuge hclock => huge_selected (run_dated hrun) hs ht hhuge hclock⟩

def passAtOnce (intervalSeconds : UInt64) : List TimerTurn := [.startTimer true intervalSeconds, .push 0, .collect]

/-- Half a minute, then another. -/
def twoRounds : List TimerTurn :=
  passAtOnce 30 ++ [.wait 30000000000, .collect, .call, .wait 20000000000, .collect, .wait 10000000000, .collect]

theorem thirty_seconds_apart : ∃ s, runFrom timerTurn {} twoRounds = some s ∧
    s.history.filter (fun e => e.visit?.isSome) =
      [.started 1 30 0, .selected 1 30 30000000000, .selected 1 30 60000000000] ∧ s.history.Pairwise Apart := by
  refine ⟨_, rfl, rfl, ?_⟩
  refine (selections_apart 0 twoRounds _ rfl).1 ?_
  intro a ha
  simp only [twoRounds, passAtOnce, List.cons_append, List.nil_append, List.mem_cons, List.not_mem_nil,
    or_false] at ha
  rcases ha with rfl | ha
  · exact (by decide : (30 : UInt64).toNat < 2 ^ 63)
  · rcases ha with rfl | rfl | rfl | rfl | rfl | rfl | rfl | rfl | rfl <;> trivial

theorem longest_interval_selected : ∃ s, runFrom timerTurn {} (passAtOnce 18446744073709551615) = some s ∧
    s.history = [.started 1 18446744073709551615 0, .selected 1 18446744073709551615 0] ∧
    ¬ s.history.Pairwise Apart := by
  refine ⟨_, rfl, rfl, fun hapart => ?_⟩
  have hle := (List.pairwise_cons.mp hapart).1 _ (List.mem_singleton.mpr rfl) 1 _ _ _ _ rfl rfl
  exact absurd hle (by decide)

end Stoatpp.Cluster
