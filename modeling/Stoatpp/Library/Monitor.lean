import Mathlib.Data.List.Basic
import Stoatpp.Library.Runs

/-!
# Waiting on a condition variable

One thread waits under a mutex until the shared data are ready; other threads change the data and
notify it. A change made under the mutex is seen by the test or followed by a notification that
wakes the waiter. One made without it can come, with its notification, between the test and the
block, and then the waiter sleeps although the data are ready.
-/

namespace Stoatpp.Library

/-- Where the waiter is; it holds the mutex where it tests, has tested, and is through. -/
inductive Waiter where
  | away
  | testing
  /-- the test has failed and the thread is about to block -/
  | unready
  | blocked
  /-- no longer blocked, and in need of the mutex -/
  | woken
  | through
  deriving DecidableEq

def Waiter.holds : Waiter → Bool
  | testing | unready | through => true
  | _ => false

/-- The data, the waiter, and how many notifications are still to come. -/
structure Monitor (σ : Type) where
  shared : σ
  waiter : Waiter := .away
  owed : ℕ := 0
  deriving DecidableEq

inductive MonitorTurn (σ : Type) where
  | enter
  | test
  | block
  | relock
  /-- the waiter does its work under the mutex and unlocks it -/
  | leave (f : σ → σ)
  /-- a change under the mutex, to be notified -/
  | guarded (f : σ → σ)
  | bare (f : σ → σ)
  | notify
  /-- a wake-up that nobody has caused -/
  | spurious

section
variable {σ : Type} (ready : σ → Bool)

def monitorTurn (m : Monitor σ) : MonitorTurn σ → Option (Monitor σ)
  | .enter => if m.waiter = .away then some { m with waiter := .testing } else none
  | .test =>
    if m.waiter = .testing then some { m with waiter := if ready m.shared then .through else .unready }
    else none
  | .block => if m.waiter = .unready then some { m with waiter := .blocked } else none
  | .relock => if m.waiter = .woken then some { m with waiter := .testing } else none
  | .leave f => if m.waiter = .through then some { m with shared := f m.shared, waiter := .away } else none
  | .guarded f =>
    if m.waiter.holds then none else some { m with shared := f m.shared, owed := m.owed + 1 }
  | .bare f => some { m with shared := f m.shared, owed := m.owed + 1 }
  | .notify =>
    if m.owed = 0 then none
    else some { m with owed := m.owed - 1, waiter := if m.waiter = .blocked then .woken else m.waiter }
  | .spurious => if m.waiter = .blocked then some { m with waiter := .woken } else none

/-- The waiter sleeps on data that are ready, and nobody is going to wake it. -/
def Stranded (m : Monitor σ) : Prop := m.waiter = .blocked ∧ ready m.shared = true ∧ m.owed = 0

/-- Readiness that the waiter has not seen will be notified. -/
structure Heard (m : Monitor σ) : Prop where
  unready : m.waiter = .unready → ready m.shared = false
  blocked : m.waiter = .blocked → ready m.shared = true → 0 < m.owed

/-- No change slips in between a failed test and the block and makes the data ready. -/
def Seen (m : Monitor σ) : MonitorTurn σ → Prop
  | .bare f => m.waiter = .unready → ready (f m.shared) = true → ready m.shared = true
  | _ => True

variable {ready} {m m' : Monitor σ} {t : MonitorTurn σ}

theorem Heard.not_stranded (h : Heard ready m) : ¬ Stranded ready m := by
  rintro ⟨hblocked, hready, hnone⟩
  have hpos := h.blocked hblocked hready
  omega

theorem heard_of {m : Monitor σ} (hunready : m.waiter ≠ .unready) (hblocked : m.waiter ≠ .blocked) :
    Heard ready m := ⟨fun h => absurd h hunready, fun h => absurd h hblocked⟩

theorem heard_step (hm : Heard ready m) (hseen : Seen ready m t) (h : monitorTurn ready m t = some m') :
    Heard ready m' := by
  cases t with
  | enter =>
    obtain ⟨-, h⟩ := Option.ite_none_right_eq_some.mp h
    obtain rfl := Option.some.inj h
    exact heard_of (by simp) (by simp)
  | test =>
    obtain ⟨-, h⟩ := Option.ite_none_right_eq_some.mp h
    obtain rfl := Option.some.inj h
    by_cases hready : ready m.shared = true
    · exact heard_of (by simp [hready]) (by simp [hready])
    · exact ⟨fun _ => Bool.eq_false_iff.mpr hready, fun _ h => absurd h hready⟩
  | block =>
    obtain ⟨hunready, h⟩ := Option.ite_none_right_eq_some.mp h
    obtain rfl := Option.some.inj h
    have hfalse := hm.unready hunready
    exact ⟨fun h => absurd h (by simp), fun _ hready => absurd (hfalse.symm.trans hready) (by simp)⟩
  | relock =>
    obtain ⟨-, h⟩ := Option.ite_none_right_eq_some.mp h
    obtain rfl := Option.some.inj h
    exact heard_of (by simp) (by simp)
  | leave f =>
    obtain ⟨-, h⟩ := Option.ite_none_right_eq_some.mp h
    obtain rfl := Option.some.inj h
    exact heard_of (by simp) (by simp)
  | guarded f =>
    obtain ⟨hfree, h⟩ := Option.ite_none_left_eq_some.mp h
    obtain rfl := Option.some.inj h
    exact ⟨fun hunready => absurd (congrArg Waiter.holds hunready) hfree, fun _ _ => Nat.succ_pos _⟩
  | bare f =>
    obtain rfl := Option.some.inj h
    refine ⟨fun hunready => ?_, fun _ _ => Nat.succ_pos _⟩
    by_contra hready
    have hbefore := hseen hunready (Bool.not_eq_false _ ▸ hready)
    rw [hm.unready hunready] at hbefore
    cases hbefore
  | notify =>
    obtain ⟨-, h⟩ := Option.ite_none_left_eq_some.mp h
    obtain rfl := Option.some.inj h
    by_cases hblocked : m.waiter = .blocked
    · exact heard_of (by simp [hblocked]) (by simp [hblocked])
    · simp only [if_neg hblocked]
      exact ⟨hm.unready, fun h => absurd h hblocked⟩
  | spurious =>
    obtain ⟨-, h⟩ := Option.ite_none_right_eq_some.mp h
    obtain rfl := Option.some.inj h
    exact heard_of (by simp) (by simp)

/-! ## Turns that change no data -/

def MonitorTurn.moves : MonitorTurn σ → Bool
  | .leave _ | .guarded _ | .bare _ => false
  | _ => true

theorem moves_step (ht : t.moves = true) (h : monitorTurn ready m t = some m') :
    m'.shared = m.shared ∧ (m.waiter = .away → m'.waiter = .away ∨ t = .enter) := by
  cases t with
  | enter =>
    obtain ⟨-, h⟩ := Option.ite_none_right_eq_some.mp h
    obtain rfl := Option.some.inj h
    exact ⟨rfl, fun _ => Or.inr rfl⟩
  | notify =>
    obtain ⟨-, h⟩ := Option.ite_none_left_eq_some.mp h
    obtain rfl := Option.some.inj h
    exact ⟨rfl, fun haway => Or.inl (by simp [haway])⟩
  | leave f => cases ht
  | guarded f => cases ht
  | bare f => cases ht
  | _ =>
    obtain ⟨hwaiter, h⟩ := Option.ite_none_right_eq_some.mp h
    obtain rfl := Option.some.inj h
    exact ⟨rfl, fun haway => absurd (hwaiter.symm.trans haway) (by simp)⟩

theorem seen_of_moves (ht : t.moves = true) : Seen ready m t := by
  cases t with
  | bare f => cases ht
  | _ => trivial

/-! ## Getting through -/

/-- The waiter's way to the test, and the notifications owed. -/
def MonitorTurn.quiet : MonitorTurn σ → Bool
  | test | block | relock | notify => true
  | _ => false

theorem moves_of_quiet (ht : t.quiet = true) : t.moves = true := by
  cases t with
  | leave f => cases ht
  | guarded f => cases ht
  | bare f => cases ht
  | _ => rfl

def Waiter.distance : Waiter → ℕ
  | .testing => 1
  | .woken => 2
  | .blocked => 3
  | .unready => 4
  | _ => 0

def Monitor.rank (m : Monitor σ) : ℕ := m.waiter.distance + m.owed

theorem quiet_step (hm : Heard ready m) (hready : ready m.shared = true) (ht : t.quiet = true)
    (h : monitorTurn ready m t = some m') :
    m'.shared = m.shared ∧ m'.rank < m.rank ∧ (m'.waiter = .away → m.waiter = .away) := by
  cases t with
  | test =>
    obtain ⟨htesting, h⟩ := Option.ite_none_right_eq_some.mp h
    obtain rfl := Option.some.inj h
    simp [Monitor.rank, htesting, hready, Waiter.distance]
  | block =>
    obtain ⟨hunready, -⟩ := Option.ite_none_right_eq_some.mp h
    exact absurd ((hm.unready hunready).symm.trans hready) (by simp)
  | relock =>
    obtain ⟨hwoken, h⟩ := Option.ite_none_right_eq_some.mp h
    obtain rfl := Option.some.inj h
    simp [Monitor.rank, hwoken, Waiter.distance]
  | notify =>
    obtain ⟨howed, h⟩ := Option.ite_none_left_eq_some.mp h
    obtain rfl := Option.some.inj h
    by_cases hblocked : m.waiter = .blocked
    · simp only [Monitor.rank, hblocked, if_true, Waiter.distance]
      exact ⟨trivial, by omega, fun h => by cases h⟩
    · simp only [Monitor.rank, if_neg hblocked]
      exact ⟨trivial, by omega, id⟩
  | _ => cases ht

end
end Stoatpp.Library
