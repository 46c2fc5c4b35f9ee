import Mathlib.Algebra.Ring.Int.Defs
import Mathlib.Data.Int.Cast.Basic

/-!
# Paced times

A paced loop has a due time that moves on by a gap at a time and may lag behind the clock by a
slack. The times it acts at, the latest first, are then as far apart as their number says, short
of the slack, and a window of time holds only so many.
-/

namespace Stoatpp.Library

variable {gap slack a b b' t : ℤ} {times kept : List ℤ}

/-- The `k`-th time from the front is `k + 1` gaps before `b`, if it were not for the slack. -/
def Behind (gap slack : ℤ) : ℤ → List ℤ → Prop
  | _, [] => True
  | b, t :: earlier => t + gap ≤ b + slack ∧ Behind gap slack (b - gap) earlier

def Spaced (gap slack : ℤ) : List ℤ → Prop
  | [] => True
  | t :: earlier => Behind gap slack t earlier ∧ Spaced gap slack earlier

/-- The `k`-th time, from the oldest on, is no less than `k` gaps behind `b`. -/
def NotAhead (gap b : ℤ) : List ℤ → Prop
  | [] => True
  | t :: earlier => b + gap * earlier.length ≤ t ∧ NotAhead gap b earlier

theorem NotAhead.le (h : NotAhead gap b times) {k : ℕ} (ht : times.reverse[k]? = some t) : b + gap * k ≤ t := by
  induction times with
  | nil => simp at ht
  | cons u earlier ih =>
    rw [List.reverse_cons, List.getElem?_append, List.length_reverse] at ht
    split_ifs at ht with hk
    · exact ih h.2 ht
    · obtain ⟨hzero, rfl⟩ := List.getElem?_eq_some_iff.mp ht
      rw [List.length_singleton] at hzero
      have hk : k = earlier.length := by omega
      simpa [hk] using h.1

theorem Behind.mono (h : Behind gap slack b times) (hb : b ≤ b') : Behind gap slack b' times := by
  induction times generalizing b b' with
  | nil => trivial
  | cons t earlier ih => exact ⟨Int.le_trans h.1 (by omega), ih h.2 (by omega)⟩

theorem Behind.sublist (hgap : 0 ≤ gap) (h : Behind gap slack b times) (hkept : kept.Sublist times) :
    Behind gap slack b kept := by
  induction hkept generalizing b with
  | slnil => trivial
  | cons t hkept ih => exact (ih h.2).mono (by omega)
  | cons_cons t hkept ih => exact ⟨h.1, ih h.2⟩

theorem Behind.of_tail (hfirst : ∀ t ∈ times, t + gap ≤ b + slack) (h : Behind gap slack (b - gap) times.tail) :
    Behind gap slack b times := by
  cases times with
  | nil => trivial
  | cons t earlier => exact ⟨hfirst t List.mem_cons_self, h⟩

theorem Spaced.sublist (hgap : 0 ≤ gap) (h : Spaced gap slack times) (hkept : kept.Sublist times) :
    Spaced gap slack kept := by
  induction hkept with
  | slnil => trivial
  | cons t hkept ih => exact ih h.2
  | cons_cons t hkept ih => exact ⟨h.1.sublist hgap hkept, ih h.2⟩

theorem Spaced.behind (hslack : 0 ≤ slack) (h : Spaced gap slack times) (hb : ∀ t ∈ times.head?, t + gap ≤ b) :
    Behind gap slack b times := by
  cases times with
  | nil => trivial
  | cons t earlier =>
    have ht := hb t rfl
    exact ⟨by omega, h.1.mono (by omega)⟩

theorem Behind.length_mul_le (h : Behind gap slack b times) (ha : ∀ t ∈ times, a ≤ t)
    (hslack : a ≤ b + slack) : a + gap * times.length ≤ b + slack := by
  induction times generalizing b with
  | nil => simpa using hslack
  | cons t earlier ih =>
    obtain ⟨hfirst, hrest⟩ := h
    have hle := ha t List.mem_cons_self
    have hih := ih hrest (fun u hu => ha u (List.mem_cons_of_mem _ hu)) (by omega)
    rw [List.length_cons, Nat.cast_succ, mul_add, mul_one]
    omega

/-- The number of times in a window. -/
theorem Spaced.window (hgap : 0 ≤ gap) (hslack : 0 ≤ slack) (h : Spaced gap slack times) (hab : a ≤ b) :
    gap * (times.filter fun t => a ≤ t ∧ t ≤ b).length ≤ b - a + slack + gap := by
  have hsub := h.sublist hgap (List.filter_sublist (p := fun t => decide (a ≤ t ∧ t ≤ b)))
  have hwithin : ∀ t ∈ times.filter fun t => decide (a ≤ t ∧ t ≤ b), a ≤ t ∧ t ≤ b :=
    fun t ht => of_decide_eq_true (List.mem_filter.mp ht).2
  generalize times.filter (fun t => decide (a ≤ t ∧ t ≤ b)) = inside at hsub hwithin ⊢
  cases inside with
  | nil =>
    rw [List.length_nil, Nat.cast_zero, mul_zero]
    omega
  | cons t earlier =>
    obtain ⟨hlow, hhigh⟩ := hwithin t List.mem_cons_self
    have hcount := hsub.1.length_mul_le (fun u hu => (hwithin u (List.mem_cons_of_mem _ hu)).1) (by omega)
    rw [List.length_cons, Nat.cast_succ, mul_add, mul_one]
    omega

end Stoatpp.Library
