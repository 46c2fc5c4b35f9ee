import Stoatpp.Library.Monitor

/-!
# A worker that waits for its work

`while (running) { wait until ready; take or leave; work }`, the test of the flag outside the mutex.
The flag makes the data ready when it is cleared, so a worker that hears of it ends, and whoever
joins it gets on.
-/

namespace Stoatpp.Library

/-- What is behind the wait: the next piece of work is taken, or the loop is left. -/
structure Job (σ : Type) where
  running : σ → Bool
  ready : σ → Bool
  next : σ → Option σ
  stopped : ∀ s, running s = false → ready s = true
  kept : ∀ s s', next s = some s' → running s' = running s

inductive WorkerLoop where
  /-- at the test of the flag -/
  | top
  | waiting
  | working
  | ended
  deriving DecidableEq

structure Worker (σ : Type) where
  monitor : Monitor σ
  loop : WorkerLoop := .top
  deriving DecidableEq

/-- The turns of the worker itself, the notifications and the wake-ups. -/
inductive InnerTurn where
  | top
  | enter
  | test
  | block
  | relock
  | take
  | worked
  | notify
  | spurious
  deriving DecidableEq

section
variable {σ : Type} (job : Job σ)

namespace Worker

def moved (w : Worker σ) (t : MonitorTurn σ) : Option (Worker σ) :=
  (monitorTurn job.ready w.monitor t).map fun monitor => { w with monitor }

def take (w : Worker σ) : Option (Worker σ) :=
  match job.next w.monitor.shared with
  | none => (monitorTurn job.ready w.monitor (.leave id)).map fun monitor => ⟨monitor, .ended⟩
  | some s => (monitorTurn job.ready w.monitor (.leave fun _ => s)).map fun monitor => ⟨monitor, .working⟩

end Worker

def innerTurn (w : Worker σ) : InnerTurn → Option (Worker σ)
  | .top =>
    if w.loop = .top then
      some { w with loop := if job.running w.monitor.shared then .waiting else .ended }
    else none
  | .enter => if w.loop = .waiting then w.moved job .enter else none
  | .test => w.moved job .test
  | .block => w.moved job .block
  | .relock => w.moved job .relock
  | .take => w.take job
  | .worked => if w.loop = .working then some { w with loop := .top } else none
  | .notify => w.moved job .notify
  | .spurious => w.moved job .spurious

/-- The waiter waits only in the wait of the loop, and is heard. -/
structure Worker.Sound (w : Worker σ) : Prop where
  waits : w.loop ≠ .waiting → w.monitor.waiter = .away
  heard : Heard job.ready w.monitor

variable {job} {w w' : Worker σ} {a : InnerTurn} {t : MonitorTurn σ}

theorem Worker.moved_eq (h : w.moved job t = some w') : ∃ monitor,
    monitorTurn job.ready w.monitor t = some monitor ∧ w' = { w with monitor } := by
  obtain ⟨monitor, hmonitor, rfl⟩ := Option.map_eq_some_iff.mp h
  exact ⟨monitor, hmonitor, rfl⟩

/-- Behind the wait nothing but the data and the place in the loop is new. -/
theorem Worker.take_eq (h : w.take job = some w') : w.monitor.waiter = .through ∧
    w'.monitor = { w.monitor with
      shared := (job.next w.monitor.shared).getD w.monitor.shared, waiter := .away } ∧
    w'.loop = if (job.next w.monitor.shared).isSome then .working else .ended := by
  unfold Worker.take at h
  split at h
  · next hnext =>
    obtain ⟨monitor, hmonitor, rfl⟩ := Option.map_eq_some_iff.mp h
    obtain ⟨hthrough, hmonitor⟩ := Option.ite_none_right_eq_some.mp hmonitor
    obtain rfl := Option.some.inj hmonitor
    simp [hthrough, hnext]
  · next s hnext =>
    obtain ⟨monitor, hmonitor, rfl⟩ := Option.map_eq_some_iff.mp h
    obtain ⟨hthrough, hmonitor⟩ := Option.ite_none_right_eq_some.mp hmonitor
    obtain rfl := Option.some.inj hmonitor
    simp [hthrough, hnext]

theorem Worker.Sound.moved (hw : w.Sound job) (ht : t.moves = true) (henter : t = .enter → w.loop = .waiting)
    (h : w.moved job t = some w') : w'.Sound job ∧ w'.monitor.shared = w.monitor.shared ∧ w'.loop = w.loop := by
  obtain ⟨monitor, hmonitor, rfl⟩ := Worker.moved_eq h
  obtain ⟨hshared, haway⟩ := moves_step ht hmonitor
  have hseen := (seen_of_moves ht : Seen job.ready w.monitor t)
  refine ⟨⟨fun hloop => ?_, heard_step hw.heard hseen hmonitor⟩, hshared, rfl⟩
  exact (haway (hw.waits hloop)).resolve_right fun h => hloop (henter h)

/-- A change of the data that the waiter sees or is told of. -/
theorem Worker.Sound.changed (hw : w.Sound job) {monitor : Monitor σ} (hseen : Seen job.ready w.monitor t)
    (hkept : ∀ m, monitorTurn job.ready w.monitor t = some m → m.waiter = w.monitor.waiter)
    (h : monitorTurn job.ready w.monitor t = some monitor) : Worker.Sound job { w with monitor } :=
  ⟨fun hloop => (hkept monitor h).trans (hw.waits hloop), heard_step hw.heard hseen h⟩

theorem sound_inner (hw : w.Sound job) (h : innerTurn job w a = some w') : w'.Sound job := by
  cases a with
  | top =>
    obtain ⟨htop, h⟩ := Option.ite_none_right_eq_some.mp h
    obtain rfl := Option.some.inj h
    exact ⟨fun _ => hw.waits (by rw [htop]; exact fun h => by cases h), hw.heard⟩
  | enter =>
    obtain ⟨hwaiting, h⟩ := Option.ite_none_right_eq_some.mp h
    exact (hw.moved rfl (fun _ => hwaiting) h).1
  | take =>
    obtain ⟨-, hmonitor, -⟩ := Worker.take_eq h
    exact ⟨fun _ => by rw [hmonitor], heard_of (by rw [hmonitor]; simp) (by rw [hmonitor]; simp)⟩
  | worked =>
    obtain ⟨hworking, h⟩ := Option.ite_none_right_eq_some.mp h
    obtain rfl := Option.some.inj h
    exact ⟨fun _ => hw.waits (by rw [hworking]; exact fun h => by cases h), hw.heard⟩
  | _ => exact (hw.moved rfl (fun h => by cases h) h).1

/-! ## Ending -/

def InnerTurn.ends : InnerTurn → Bool
  | .spurious => false
  | _ => true

/-- How far a worker that has been told to stop is from its end. -/
def Worker.rank (w : Worker σ) : ℕ :=
  match w.loop with
  | .ended => w.monitor.owed
  | .top => 1 + w.monitor.owed
  | .working => 2 + w.monitor.owed
  | .waiting => if w.monitor.waiter = .away then 8 + w.monitor.owed else 3 + w.monitor.rank

theorem rank_away {m : Monitor σ} (h : m.waiter = .away) : m.rank = m.owed := by
  rw [Monitor.rank, h]
  exact Nat.zero_add _

theorem Worker.Sound.rank_moved (hw : w.Sound job) (hready : job.ready w.monitor.shared = true)
    (ht : t.quiet = true) (h : w.moved job t = some w') : w'.rank < w.rank := by
  obtain ⟨monitor, hmonitor, rfl⟩ := Worker.moved_eq h
  obtain ⟨-, hrank, hback⟩ := quiet_step hw.heard hready ht hmonitor
  have henter : t ≠ .enter := by
    rintro rfl
    cases ht
  by_cases haway : w.monitor.waiter = .away
  · have haway' := ((moves_step (moves_of_quiet ht) hmonitor).2 haway).resolve_right henter
    rw [rank_away haway, rank_away haway'] at hrank
    unfold Worker.rank
    cases w.loop with
    | waiting => simp only [haway, haway', if_true]; omega
    | _ => simp only; omega
  · have hwaiting : w.loop = .waiting := by_contra fun hloop => haway (hw.waits hloop)
    simp only [Worker.rank, hwaiting, if_neg haway, if_neg fun h => haway (hback h)]
    omega

theorem Worker.Sound.rank_inner (hw : w.Sound job) (hstopped : job.running w.monitor.shared = false)
    (ha : a.ends = true) (h : innerTurn job w a = some w') :
    w'.rank < w.rank ∧ job.running w'.monitor.shared = false := by
  have hready := job.stopped _ hstopped
  have hmoved {t : MonitorTurn σ} (hq : t.quiet = true) (hm : t.moves = true) (henter : t ≠ .enter)
      (h : w.moved job t = some w') : w'.rank < w.rank ∧ job.running w'.monitor.shared = false := by
    obtain ⟨-, hshared, -⟩ := hw.moved hm (fun h => absurd h henter) h
    exact ⟨hw.rank_moved hready hq h, hshared ▸ hstopped⟩
  cases a with
  | top =>
    obtain ⟨htop, h⟩ := Option.ite_none_right_eq_some.mp h
    obtain rfl := Option.some.inj h
    simp [Worker.rank, htop, hstopped]
  | enter =>
    obtain ⟨hwaiting, h⟩ := Option.ite_none_right_eq_some.mp h
    obtain ⟨monitor, hmonitor, rfl⟩ := Worker.moved_eq h
    obtain ⟨haway, hmonitor⟩ := Option.ite_none_right_eq_some.mp hmonitor
    obtain rfl := Option.some.inj hmonitor
    simp only [Worker.rank, hwaiting, haway, if_true, reduceCtorEq, if_false, Monitor.rank, Waiter.distance]
    exact ⟨by omega, hstopped⟩
  | test => exact hmoved rfl rfl (by simp) h
  | block => exact hmoved rfl rfl (by simp) h
  | relock => exact hmoved rfl rfl (by simp) h
  | notify => exact hmoved rfl rfl (by simp) h
  | spurious => cases ha
  | worked =>
    obtain ⟨hworking, h⟩ := Option.ite_none_right_eq_some.mp h
    obtain rfl := Option.some.inj h
    simp [Worker.rank, hworking, hstopped]
  | take =>
    obtain ⟨hthrough, hmonitor, hloop⟩ := Worker.take_eq h
    have hwaiting : w.loop = .waiting := by
      by_contra hloop
      exact absurd (hthrough.symm.trans (hw.waits hloop)) (by simp)
    have hrank : w.rank = 3 + w.monitor.owed := by
      simp [Worker.rank, hwaiting, hthrough, Monitor.rank, Waiter.distance]
    rw [hmonitor, hrank, Worker.rank, hloop, hmonitor]
    cases hnext : job.next w.monitor.shared with
    | none => exact ⟨by simp only [Option.isSome_none, Bool.false_eq_true, if_false]; omega, hstopped⟩
    | some s =>
      refine ⟨by simp only [Option.isSome_some, if_true]; omega, ?_⟩
      exact (job.kept _ _ hnext).trans hstopped

theorem Worker.Sound.enabled (hw : w.Sound job) (hstopped : job.running w.monitor.shared = false)
    (hloop : w.loop ≠ .ended) : ∃ a : InnerTurn, a.ends = true ∧ (innerTurn job w a).isSome = true := by
  cases hl : w.loop with
  | top => exact ⟨.top, rfl, by simp [innerTurn, hl]⟩
  | working => exact ⟨.worked, rfl, by simp [innerTurn, hl]⟩
  | ended => exact absurd hl hloop
  | waiting =>
    cases hwaiter : w.monitor.waiter with
    | away => exact ⟨.enter, rfl, by simp [innerTurn, hl, Worker.moved, monitorTurn, hwaiter]⟩
    | testing => exact ⟨.test, rfl, by simp [innerTurn, Worker.moved, monitorTurn, hwaiter]⟩
    | unready => exact ⟨.block, rfl, by simp [innerTurn, Worker.moved, monitorTurn, hwaiter]⟩
    | blocked =>
      have howed := hw.heard.blocked hwaiter (job.stopped _ hstopped)
      exact ⟨.notify, rfl, by simp [innerTurn, Worker.moved, monitorTurn, Nat.ne_of_gt howed]⟩
    | woken => exact ⟨.relock, rfl, by simp [innerTurn, Worker.moved, monitorTurn, hwaiter]⟩
    | through =>
      refine ⟨.take, rfl, ?_⟩
      simp only [innerTurn, Worker.take]
      cases job.next w.monitor.shared <;> simp [monitorTurn, hwaiter]

/-- A worker that is heard and told to stop ends in a bounded number of turns, whatever their order. -/
theorem Worker.Sound.ends {turns : List InnerTurn} (hw : w.Sound job)
    (hstopped : job.running w.monitor.shared = false) (hends : ∀ a ∈ turns, a.ends = true)
    (h : runFrom (innerTurn job) w turns = some w') :
    turns.length + w'.rank ≤ w.rank ∧
      (w'.loop = .ended ∨ ∃ a : InnerTurn, a.ends = true ∧ (innerTurn job w' a).isSome = true) := by
  induction turns generalizing w with
  | nil =>
    obtain rfl := Option.some.inj h
    exact ⟨Nat.le_of_eq (Nat.zero_add _), or_iff_not_imp_left.mpr fun hloop => hw.enabled hstopped hloop⟩
  | cons a rest ih =>
    obtain ⟨n, hstep, hrest⟩ := runFrom_cons.mp h
    obtain ⟨hrank, hstopped'⟩ := hw.rank_inner hstopped (hends a List.mem_cons_self) hstep
    obtain ⟨hlength, hended⟩ := ih (sound_inner hw hstep) hstopped'
      (fun b hb => hends b (List.mem_cons_of_mem _ hb)) hrest
    exact ⟨by rw [List.length_cons]; omega, hended⟩

end
end Stoatpp.Library
