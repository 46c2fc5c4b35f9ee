import Mathlib.Data.Int.Notation
import Mathlib.Data.List.Perm.Basic
import Mathlib.Tactic.SplitIfs
import Stoatpp.Library.Keyed
import Stoatpp.Library.Runs

/-!
# Timers

`start_timer` takes a number and then puts the timer into the list, `stop_timer` takes it out
again. A pass of the timer loop collects the timers that are due while it holds the lock and calls
them one by one afterwards; whatever a callback or another thread does with the timers comes
between two of these calls. The history tells what has happened and when.
-/

namespace Stoatpp.Cluster
open Stoatpp.Library

abbrev second : ℤ := 1000000000

/-- Conversion to `int64_t`, which takes the high bit for the sign. -/
def int64 (n : UInt64) : ℤ := n.toBitVec.toInt

/-- A callback, of which is known whether it is set, and the `timer` it is called with. The ids
are those of a counter of 64 bits. -/
structure TimerRun where
  id : ℕ
  callback : Bool
  intervalSeconds : UInt64

structure TimerInfo extends TimerRun where
  lastRun : ℤ

inductive TimerEvent where
  | started (id : ℕ) (intervalSeconds : UInt64) (time : ℤ)
  | selected (id : ℕ) (intervalSeconds : UInt64) (time : ℤ)
  | called (id : ℕ)
  /-- `stop_timer` has returned true -/
  | stopped (id : ℕ)

/-- The clock, the counter, the calls of `start_timer` before their `push_back`, the timers, what
the pass in hand has still to call, and what has happened. -/
structure Timers where
  now : ℤ := 0
  nextTimerId : ℕ := 1
  starting : List TimerRun := []
  timers : List TimerInfo := []
  toRun : List TimerRun := []
  history : List TimerEvent := []

def TimerInfo.due (now : ℤ) (t : TimerInfo) : Bool :=
  int64 t.intervalSeconds ≤ (now - t.lastRun).tdiv second

def TimerInfo.visited (now : ℤ) (t : TimerInfo) : TimerInfo :=
  if t.due now then { t with lastRun := now } else t

def TimerRun.callEvents (t : TimerRun) : List TimerEvent := if t.callback then [.called t.id] else []

inductive TimerTurn where
  | wait (ns : ℕ)
  | startTimer (callback : Bool) (intervalSeconds : UInt64)
  | push (i : ℕ)
  | stopTimer (id : ℕ)
  | collect
  | call

def timerTurn (s : Timers) : TimerTurn → Option Timers
  | .wait ns => some { s with now := s.now + ns }
  | .startTimer callback intervalSeconds =>
    some { s with
      nextTimerId := s.nextTimerId + 1
      starting := s.starting ++ [⟨s.nextTimerId, callback, intervalSeconds⟩] }
  | .push i => (s.starting[i]?).map fun t =>
    { s with
      starting := s.starting.eraseIdx i
      timers := s.timers ++ [⟨t, s.now⟩]
      history := s.history ++ [.started t.id t.intervalSeconds s.now] }
  | .stopTimer id =>
    if s.timers.any (·.id = id) then
      some { s with
        timers := s.timers.eraseP (·.id = id)
        history := s.history ++ [.stopped id] }
    else some s
  | .collect =>
    if s.toRun = [] then
      some { s with
        toRun := (s.timers.filter (·.due s.now)).map TimerInfo.toTimerRun
        timers := s.timers.map (·.visited s.now)
        history := s.history ++
          (s.timers.filter (·.due s.now)).map fun t => .selected t.id t.intervalSeconds s.now }
    else none
  | .call =>
    match s.toRun with
    | [] => none
    | t :: rest => some { s with toRun := rest, history := s.history ++ t.callEvents }

variable {s s' : Timers} {a : TimerTurn} {id : ℕ}

theorem timerTurn_push {i : ℕ} (hs : timerTurn s (.push i) = some s') :
    ∃ t, s.starting[i]? = some t ∧ s' = { s with
      starting := s.starting.eraseIdx i
      timers := s.timers ++ [⟨t, s.now⟩]
      history := s.history ++ [.started t.id t.intervalSeconds s.now] } := by
  obtain ⟨t, ht, hs'⟩ := Option.map_eq_some_iff.mp hs
  exact ⟨t, ht, hs'.symm⟩

theorem timerTurn_stopTimer (hs : timerTurn s (.stopTimer id) = some s') :
    (id ∈ s.timers.map (·.id) ∧ s' = { s with
      timers := s.timers.eraseP (·.id = id)
      history := s.history ++ [.stopped id] }) ∨
    (id ∉ s.timers.map (·.id) ∧ s' = s) := by
  have hany : s.timers.any (·.id = id) = true ↔ id ∈ s.timers.map (·.id) := by
    simp only [List.any_eq_true, decide_eq_true_eq, List.mem_map]
  simp only [timerTurn, hany] at hs
  split_ifs at hs with hid
  · exact Or.inl ⟨hid, (Option.some.inj hs).symm⟩
  · exact Or.inr ⟨hid, (Option.some.inj hs).symm⟩

theorem timerTurn_collect (hs : timerTurn s .collect = some s') :
    s.toRun = [] ∧ s' = { s with
      toRun := (s.timers.filter (·.due s.now)).map TimerInfo.toTimerRun
      timers := s.timers.map (·.visited s.now)
      history := s.history ++
        (s.timers.filter (·.due s.now)).map fun t => .selected t.id t.intervalSeconds s.now } := by
  simp only [timerTurn] at hs
  split_ifs at hs with hrun
  exact ⟨hrun, (Option.some.inj hs).symm⟩

theorem timerTurn_call (hs : timerTurn s .call = some s') :
    ∃ t rest, s.toRun = t :: rest ∧
      s' = { s with toRun := rest, history := s.history ++ t.callEvents } := by
  simp only [timerTurn] at hs
  split at hs
  · cases hs
  · next t rest hrun => exact ⟨t, rest, hrun, (Option.some.inj hs).symm⟩

theorem visited_run (now : ℤ) (t : TimerInfo) : (t.visited now).toTimerRun = t.toTimerRun := by
  unfold TimerInfo.visited
  split_ifs <;> rfl

/-! ## The ids -/

def Timers.ids (s : Timers) : List ℕ := s.timers.map (·.id) ++ s.starting.map (·.id)

theorem timerTurn_ids (hs : timerTurn s a = some s') :
    (s'.ids.Perm (s.nextTimerId :: s.ids) ∧ s'.nextTimerId = s.nextTimerId + 1) ∨
      (s'.ids.Subperm s.ids ∧ s'.nextTimerId = s.nextTimerId) := by
  cases a with
  | wait ns =>
    obtain rfl := Option.some.inj hs
    exact Or.inr ⟨List.Subperm.refl _, rfl⟩
  | startTimer callback intervalSeconds =>
    obtain rfl := Option.some.inj hs
    refine Or.inl ⟨?_, rfl⟩
    rw [Timers.ids, List.map_append, ← List.append_assoc]
    exact List.perm_append_singleton _ _
  | push i =>
    obtain ⟨run, hrun, rfl⟩ := timerTurn_push hs
    obtain ⟨hi, rfl⟩ := List.getElem?_eq_some_iff.mp hrun
    have hperm : (s.starting[i] :: s.starting.eraseIdx i).Perm s.starting :=
      List.getElem_cons_eraseIdx_perm hi
    refine Or.inr ⟨List.Perm.subperm ?_, rfl⟩
    simp only [Timers.ids, List.map_append, List.append_assoc]
    exact (hperm.map (·.id)).append_left _
  | stopTimer id =>
    rcases timerTurn_stopTimer hs with ⟨-, rfl⟩ | ⟨-, rfl⟩
    · exact Or.inr ⟨((List.eraseP_sublist.map _).append_right _).subperm, rfl⟩
    · exact Or.inr ⟨List.Subperm.refl _, rfl⟩
  | collect =>
    obtain ⟨-, rfl⟩ := timerTurn_collect hs
    refine Or.inr ⟨List.Perm.subperm (List.Perm.of_eq ?_), rfl⟩
    simp only [Timers.ids, List.map_map, Function.comp_def, visited_run]
  | call =>
    obtain ⟨_, rest, -, rfl⟩ := timerTurn_call hs
    exact Or.inr ⟨List.Subperm.refl _, rfl⟩

structure Timers.Numbered (s : Timers) : Prop where
  below : ∀ id ∈ s.ids, id < s.nextTimerId
  distinct : s.ids.Nodup

theorem Timers.Numbered.turn (hn : s.Numbered) (hs : timerTurn s a = some s') : s'.Numbered := by
  rcases timerTurn_ids hs with ⟨hperm, hnext⟩ | ⟨hsub, hnext⟩
  · constructor
    · intro id hid
      rw [hnext]
      rcases List.mem_cons.mp (hperm.mem_iff.mp hid) with rfl | hold
      · omega
      · have := hn.below id hold
        omega
    · rw [hperm.nodup_iff, List.nodup_cons]
      exact ⟨fun hmem => Nat.lt_irrefl _ (hn.below _ hmem), hn.distinct⟩
  · constructor
    · intro id hid
      rw [hnext]
      exact hn.below id (hsub.subset hid)
    · obtain ⟨l, hperm, hsublist⟩ := hsub
      exact hperm.nodup_iff.mp (hsublist.nodup hn.distinct)

/-! ## What a turn puts down in the history -/

/-- What `a` does to let an event happen. -/
def Timers.Causes (s : Timers) (a : TimerTurn) : TimerEvent → Prop
  | .started id intervalSeconds time =>
    ∃ i t, a = .push i ∧ s.starting[i]? = some t ∧ t.id = id ∧ t.intervalSeconds = intervalSeconds ∧ time = s.now
  | .selected id intervalSeconds time =>
    a = .collect ∧ ∃ t ∈ s.timers, t.due s.now = true ∧ t.id = id ∧
      t.intervalSeconds = intervalSeconds ∧ time = s.now
  | .called id => a = .call ∧ ∃ t ∈ s.toRun, t.callback = true ∧ t.id = id
  | .stopped id => a = .stopTimer id ∧ id ∈ s.timers.map (·.id)

theorem timerTurn_history (hs : timerTurn s a = some s') :
    ∃ es, s'.history = s.history ++ es ∧ ∀ e ∈ es, s.Causes a e := by
  cases a with
  | wait ns =>
    obtain rfl := Option.some.inj hs
    exact ⟨[], (List.append_nil _).symm, List.forall_mem_nil _⟩
  | startTimer callback intervalSeconds =>
    obtain rfl := Option.some.inj hs
    exact ⟨[], (List.append_nil _).symm, List.forall_mem_nil _⟩
  | push i =>
    obtain ⟨t, ht, rfl⟩ := timerTurn_push hs
    exact ⟨_, rfl, List.forall_mem_singleton.mpr ⟨i, t, rfl, ht, rfl, rfl, rfl⟩⟩
  | stopTimer id =>
    rcases timerTurn_stopTimer hs with ⟨hlisted, rfl⟩ | ⟨-, rfl⟩
    · exact ⟨_, rfl, List.forall_mem_singleton.mpr ⟨rfl, hlisted⟩⟩
    · exact ⟨[], (List.append_nil _).symm, List.forall_mem_nil _⟩
  | collect =>
    obtain ⟨-, rfl⟩ := timerTurn_collect hs
    refine ⟨_, rfl, List.forall_mem_map.mpr fun t ht => ?_⟩
    obtain ⟨hmem, hdue⟩ := List.mem_filter.mp ht
    exact ⟨rfl, t, hmem, hdue, rfl, rfl, rfl⟩
  | call =>
    obtain ⟨t, rest, hrun, rfl⟩ := timerTurn_call hs
    refine ⟨t.callEvents, rfl, fun e he => ?_⟩
    unfold TimerRun.callEvents at he
    split_ifs at he with hset
    · obtain rfl := List.mem_singleton.mp he
      exact ⟨rfl, t, by rw [hrun]; exact List.mem_cons_self, hset, rfl⟩
    · cases he

/-! ## Stopping -/

/-- Timer `id` is in no list, and what the pass in hand still has under its id cannot be called. -/
structure Timers.Gone (s : Timers) (id : ℕ) : Prop where
  below : id < s.nextTimerId
  unlisted : id ∉ s.ids
  uncalled : ∀ t ∈ s.toRun, t.id = id → t.callback = false

theorem Timers.Gone.turn (hg : s.Gone id) (hs : timerTurn s a = some s') : s'.Gone id := by
  constructor
  · have hbelow := hg.below
    rcases timerTurn_ids hs with ⟨-, hnext⟩ | ⟨-, hnext⟩ <;> omega
  · rcases timerTurn_ids hs with ⟨hperm, -⟩ | ⟨hsub, -⟩
    · rw [hperm.mem_iff, List.mem_cons]
      exact not_or.mpr ⟨Nat.ne_of_lt hg.below, hg.unlisted⟩
    · exact fun hmem => hg.unlisted (hsub.subset hmem)
  · cases a with
    | collect =>
      obtain ⟨-, rfl⟩ := timerTurn_collect hs
      intro t ht hid
      obtain ⟨info, hinfo, rfl⟩ := List.mem_map.mp ht
      have hlisted : id ∈ s.timers.map (·.id) := List.mem_map.mpr ⟨info, (List.mem_filter.mp hinfo).1, hid⟩
      exact absurd (List.mem_append_left _ hlisted) hg.unlisted
    | call =>
      obtain ⟨run, rest, hrun, rfl⟩ := timerTurn_call hs
      intro t ht
      have hold : t ∈ s.toRun := by rw [hrun]; exact List.mem_cons_of_mem _ ht
      exact hg.uncalled t hold
    | push i =>
      obtain ⟨run, -, rfl⟩ := timerTurn_push hs
      exact hg.uncalled
    | stopTimer other =>
      rcases timerTurn_stopTimer hs with ⟨-, rfl⟩ | ⟨-, rfl⟩
      · exact hg.uncalled
      · exact hg.uncalled
    | _ =>
      obtain rfl := Option.some.inj hs
      exact hg.uncalled

/-- A timer that is stopped does not stand in the batch of the pass in hand. -/
def StopsUncollected (s : Timers) : TimerTurn → Prop
  | .stopTimer id => id ∈ s.timers.map (·.id) → ∀ t ∈ s.toRun, t.id = id → t.callback = false
  | _ => True

instance StopsUncollected.decidable (s : Timers) : ∀ a, Decidable (StopsUncollected s a)
  | .stopTimer _ => inferInstanceAs (Decidable (_ → _))
  | .wait _ => isTrue trivial
  | .startTimer _ _ => isTrue trivial
  | .push _ => isTrue trivial
  | .collect => isTrue trivial
  | .call => isTrue trivial

theorem gone_of_stopped (hn : s.Numbered) (hid : id ∈ s.timers.map (·.id))
    (hc : StopsUncollected s (.stopTimer id)) (hs : timerTurn s (.stopTimer id) = some s') : s'.Gone id := by
  obtain ⟨-, rfl⟩ := (timerTurn_stopTimer hs).resolve_right fun hno => hno.1 hid
  obtain ⟨t, ht, rfl⟩ := List.mem_map.mp hid
  obtain ⟨hlisted, -, hapart⟩ := List.nodup_append.mp hn.distinct
  have hfound : (s.timers.find? (·.id = t.id)).isSome := List.find?_isSome.mpr ⟨t, ht, decide_eq_true rfl⟩
  obtain ⟨x, hx⟩ := Option.isSome_iff_exists.mp hfound
  have hxid : x.id = t.id := by simpa using List.find?_some hx
  refine ⟨hn.below _ (List.mem_append_left _ hid), ?_, hc hid⟩
  rw [Timers.ids, @Keyed.eraseP_eq_filter _ _ _ (·.id) _ _ _ hlisted hx, List.mem_append, not_or]
  constructor
  · intro hmem
    obtain ⟨other, hother, hsame⟩ := List.mem_map.mp hmem
    have hne := of_decide_eq_true (List.mem_filter.mp hother).2
    exact hne (hsame.trans hxid.symm)
  · exact fun hcoming => hapart _ hid _ hcoming rfl

/-- A timer that has been stopped is not called. -/
def Silent (x y : TimerEvent) : Prop := ∀ id, x = .stopped id → y ≠ .called id

structure Timers.Obeyed (s : Timers) : Prop where
  numbered : s.Numbered
  gone : ∀ id, .stopped id ∈ s.history → s.Gone id
  silent : s.history.Pairwise Silent

theorem Timers.Obeyed.turn (ho : s.Obeyed) (hc : StopsUncollected s a) (hs : timerTurn s a = some s') :
    s'.Obeyed := by
  obtain ⟨es, hes, hcause⟩ := timerTurn_history hs
  constructor
  · exact ho.numbered.turn hs
  · intro id hid
    rw [hes, List.mem_append] at hid
    rcases hid with hold | hnew
    · exact (ho.gone id hold).turn hs
    · obtain ⟨rfl, hlisted⟩ := hcause _ hnew
      exact gone_of_stopped ho.numbered hlisted hc hs
  · rw [hes, List.pairwise_append]
    refine ⟨ho.silent, List.pairwise_of_forall_mem_list ?_, ?_⟩
    · intro x hx y hy id hxid hyid
      subst hxid hyid
      have hstop := (hcause _ hx).1
      have hcall := (hcause _ hy).1
      cases hstop.symm.trans hcall
    · intro x hx y hy id hxid hyid
      subst hxid hyid
      obtain ⟨-, t, ht, hset, hid⟩ := hcause _ hy
      have hunset := (ho.gone id hx).uncalled t ht hid
      cases hset.symm.trans hunset

theorem run_obeyed {start : ℤ} {turns : List TimerTurn}
    (hrun : runFrom timerTurn { now := start } turns = some s)
    (hc : Along timerTurn StopsUncollected { now := start } turns) : s.Obeyed := by
  have hstart : Timers.Obeyed { now := start } :=
    ⟨⟨List.forall_mem_nil _, List.nodup_nil⟩, fun _ hid => absurd hid List.not_mem_nil, List.Pairwise.nil⟩
  exact run_invariant (fun _ _ _ ho hc hs => ho.turn hc hs) hstart hc hrun

theorem run_calls (s : Timers) : runFrom timerTurn s (List.replicate s.toRun.length .call) =
    some { s with
      toRun := []
      history := s.history ++ s.toRun.flatMap TimerRun.callEvents } := by
  obtain ⟨now, nextTimerId, starting, timers, toRun, history⟩ := s
  induction toRun generalizing history with
  | nil => simp
  | cons t rest ih =>
    rw [List.length_cons, List.replicate_succ, runFrom_cons]
    refine ⟨_, rfl, ?_⟩
    rw [ih, List.flatMap_cons, List.append_assoc]

/-- A stopped timer is never called as long as no timer is stopped that a pass has collected and not
called yet, and each time one is, the pass still calls it. -/
theorem stopped_not_called (start : ℤ) (turns : List TimerTurn) (s : Timers)
    (hrun : runFrom timerTurn { now := start } turns = some s) :
    (Along timerTurn StopsUncollected { now := start } turns → ∀ id before after,
      s.history = before ++ .stopped id :: after → .called id ∉ after) ∧
    ∀ turn, ¬ StopsUncollected s turn → ∃ id calls s' after,
      runFrom timerTurn s (turn :: calls) = some s' ∧
        s'.history = s.history ++ .stopped id :: after ∧ .called id ∈ after := by
  constructor
  · intro hc id before after hhistory hcalled
    have hsilent := (run_obeyed hrun hc).silent
    rw [hhistory, List.pairwise_append] at hsilent
    exact (List.pairwise_cons.mp hsilent.2.1).1 _ hcalled id rfl rfl
  · intro turn hturn
    cases turn with
    | stopTimer id =>
      simp only [StopsUncollected, Classical.not_imp, not_forall, Bool.not_eq_false] at hturn
      obtain ⟨hid, t, ht, rfl, hset⟩ := hturn
      obtain ⟨info, hinfo, hsame⟩ := List.mem_map.mp hid
      have hany : s.timers.any (·.id = t.id) = true :=
        List.any_eq_true.mpr ⟨info, hinfo, decide_eq_true hsame⟩
      refine ⟨t.id, List.replicate s.toRun.length .call, _, s.toRun.flatMap TimerRun.callEvents,
        runFrom_cons.mpr ⟨_, if_pos hany, run_calls _⟩, ?_, List.mem_flatMap.mpr ⟨t, ht, ?_⟩⟩
      · simp only [List.append_assoc, List.cons_append, List.nil_append]
      · rw [TimerRun.callEvents, if_pos hset]
        exact List.mem_singleton.mpr rfl
    | _ => exact absurd trivial hturn

def twoStarted : List TimerTurn := [.startTimer true 1, .startTimer true 1, .push 0, .push 0]

def stoppedFirst : List TimerTurn := twoStarted ++ [.stopTimer 2, .wait 1000000000, .collect, .call]

theorem stopped_before_pass : ∃ s, runFrom timerTurn {} stoppedFirst = some s ∧
    s.history = [.started 1 1 0, .started 2 1 0, .stopped 2, .selected 1 1 1000000000, .called 1] ∧
    .called 2 ∉ [TimerEvent.selected 1 1 1000000000, .called 1] := by
  refine ⟨_, rfl, rfl, ?_⟩
  exact (stopped_not_called 0 stoppedFirst _ rfl).1 (by decide) 2 [.started 1 1 0, .started 2 1 0] _ rfl

/-- Both are due; the callback of the first stops the second, and the second is called. -/
theorem stopped_in_pass_called : ∃ s, runFrom timerTurn {}
      (twoStarted ++ [.wait 1000000000, .collect, .call, .stopTimer 2, .call]) = some s ∧
    s.history = [.started 1 1 0, .started 2 1 0, .selected 1 1 1000000000, .selected 2 1 1000000000,
      .called 1, .stopped 2, .called 2] := ⟨_, rfl, rfl⟩

end Stoatpp.Cluster
