import Mathlib.Order.Bounds.Basic
import Mathlib.Order.MinMax
import Mathlib.Tactic.SplitIfs

/-!
# Edit distance

An edit inserts, deletes or replaces one element of a list. The distance of two lists is given by
the recursion over their first elements and is the least number of edits that lead from the one
to the other: one more edit at the target lowers the distance by one at most, whatever the
source, and an optimal choice at each step of the recursion can be carried out.
-/

namespace Stoatpp.Library

variable {α : Type} {s t u : List α} {m n : ℕ}

inductive Edit : List α → List α → Prop where
  | insert (before after : List α) (a : α) : Edit (before ++ after) (before ++ a :: after)
  | delete (before after : List α) (a : α) : Edit (before ++ a :: after) (before ++ after)
  | substitute (before after : List α) (a b : α) :
    Edit (before ++ a :: after) (before ++ b :: after)

/-- One list from another by a number of edits. -/
inductive Edits : ℕ → List α → List α → Prop where
  | none (s : List α) : Edits 0 s s
  | more {n : ℕ} {s t u : List α} : Edits n s t → Edit t u → Edits (n + 1) s u

/-! ## Scripts of edits -/

theorem Edit.symm (h : Edit s t) : Edit t s := by
  cases h with
  | insert before after a => exact .delete before after a
  | delete before after a => exact .insert before after a
  | substitute before after a b => exact .substitute before after b a

theorem Edit.cons (c : α) (h : Edit s t) : Edit (c :: s) (c :: t) := by
  cases h with
  | insert before after a => exact .insert (c :: before) after a
  | delete before after a => exact .delete (c :: before) after a
  | substitute before after a b => exact .substitute (c :: before) after a b

theorem Edit.reverse (h : Edit s t) : Edit s.reverse t.reverse := by
  cases h with
  | insert before after a => simpa using Edit.insert after.reverse before.reverse a
  | delete before after a => simpa using Edit.delete after.reverse before.reverse a
  | substitute before after a b => simpa using Edit.substitute after.reverse before.reverse a b

theorem Edits.single (h : Edit s t) : Edits 1 s t := (Edits.none s).more h

theorem Edits.trans (h : Edits m s t) (h' : Edits n t u) : Edits (m + n) s u := by
  induction h' with
  | none t => exact h
  | more _ hedit ih => exact (ih h).more hedit

theorem Edits.symm (h : Edits n s t) : Edits n t s := by
  induction h with
  | none s => exact .none s
  | @more n s t u _ hedit ih =>
    have hback := (Edits.single hedit.symm).trans ih
    rwa [Nat.add_comm] at hback

theorem Edits.cons (c : α) (h : Edits n s t) : Edits n (c :: s) (c :: t) := by
  induction h with
  | none s => exact .none (c :: s)
  | more _ hedit ih => exact ih.more (hedit.cons c)

theorem Edits.reverse (h : Edits n s t) : Edits n s.reverse t.reverse := by
  induction h with
  | none s => exact .none s.reverse
  | more _ hedit ih => exact ih.more hedit.reverse

theorem Edits.reverse_iff : Edits n s.reverse t.reverse ↔ Edits n s t := by
  constructor
  · intro h
    simpa only [List.reverse_reverse] using h.reverse
  · exact Edits.reverse

theorem Edits.eq_of_zero (h : Edits 0 s t) : s = t := by
  cases h
  rfl

theorem Edits.insertAll (t : List α) : Edits t.length [] t := by
  induction t with
  | nil => exact .none []
  | cons b rest ih => exact ih.more (.insert [] rest b)

/-! ## The distance -/

variable [DecidableEq α]

def distance : List α → List α → ℕ
  | [], t => t.length
  | s, [] => s.length
  | a :: s, b :: t =>
    min (min (distance s (b :: t) + 1) (distance (a :: s) t + 1))
      (distance s t + if a = b then 0 else 1)

theorem distance_nil_left (t : List α) : distance [] t = t.length := by
  rw [distance]

theorem distance_nil_right (s : List α) : distance s [] = s.length := by
  cases s with
  | nil => exact distance_nil_left []
  | cons a s =>
    rw [distance]
    exact List.cons_ne_nil a s

theorem distance_cons_cons (a b : α) (s t : List α) :
    distance (a :: s) (b :: t) = min (min (distance s (b :: t) + 1) (distance (a :: s) t + 1))
      (distance s t + if a = b then 0 else 1) := by
  rw [distance]

theorem distance_le_max (s t : List α) : distance s t ≤ max s.length t.length := by
  induction s generalizing t with
  | nil => simp [distance_nil_left]
  | cons a s ih =>
    cases t with
    | nil => simp [distance_nil_right]
    | cons b t =>
      have hdiagonal := ih t
      rw [distance_cons_cons, List.length_cons, List.length_cons]
      split_ifs <;> omega

theorem distance_self (s : List α) : distance s s = 0 := by
  induction s with
  | nil => exact distance_nil_left []
  | cons a s ih =>
    rw [distance_cons_cons, if_pos rfl, ih]
    omega

/-! ## No script is shorter -/

theorem distance_cons_left_le (a : α) (s t : List α) : distance (a :: s) t ≤ distance s t + 1 := by
  cases t with
  | nil => simp [distance_nil_right]
  | cons b t =>
    rw [distance_cons_cons]
    omega

theorem distance_insert_le (s t : List α) (b : α) : distance s (b :: t) ≤ distance s t + 1 := by
  cases s with
  | nil => simp [distance_nil_left]
  | cons a s =>
    rw [distance_cons_cons]
    omega

theorem distance_delete_le (s t : List α) (b : α) : distance s t ≤ distance s (b :: t) + 1 := by
  induction s with
  | nil =>
    simp only [distance_nil_left, List.length_cons]
    omega
  | cons a s ih =>
    have hleft := distance_cons_left_le a s t
    rw [distance_cons_cons]
    split_ifs <;> omega

theorem distance_substitute_le (s t : List α) (b c : α) :
    distance s (c :: t) ≤ distance s (b :: t) + 1 := by
  induction s with
  | nil =>
    simp only [distance_nil_left, List.length_cons]
    omega
  | cons a s ih =>
    rw [distance_cons_cons, distance_cons_cons]
    split_ifs <;> omega

/-- What holds from every source goes on holding behind a common first element. -/
theorem distance_cons_right_le {k : ℕ} (h : ∀ s, distance s u ≤ distance s t + k) (c : α)
    (s : List α) : distance s (c :: u) ≤ distance s (c :: t) + k := by
  induction s with
  | nil =>
    have hnil := h []
    simp only [distance_nil_left] at hnil
    simp only [distance_nil_left, List.length_cons]
    omega
  | cons a s ih =>
    have habove := h (a :: s)
    have hdiagonal := h s
    rw [distance_cons_cons, distance_cons_cons]
    split_ifs <;> omega

theorem distance_append_right_le {k : ℕ} (h : ∀ s, distance s u ≤ distance s t + k)
    (before s : List α) : distance s (before ++ u) ≤ distance s (before ++ t) + k := by
  induction before generalizing s with
  | nil => exact h s
  | cons c before ih => exact distance_cons_right_le ih c s

theorem Edit.distance_le (h : Edit t u) (s : List α) : distance s u ≤ distance s t + 1 := by
  cases h with
  | insert before after a =>
    exact distance_append_right_le (fun s => distance_insert_le s after a) before s
  | delete before after a =>
    exact distance_append_right_le (fun s => distance_delete_le s after a) before s
  | substitute before after a b =>
    exact distance_append_right_le (fun s => distance_substitute_le s after a b) before s

theorem Edits.distance_le (h : Edits n s t) : distance s t ≤ n := by
  induction h with
  | none s => rw [distance_self]
  | @more n s t u _ hedit ih =>
    have hstep := hedit.distance_le s
    omega

/-! ## A script of this length -/

theorem distance_edits (s t : List α) : Edits (distance s t) s t := by
  induction s generalizing t with
  | nil =>
    rw [distance_nil_left]
    exact Edits.insertAll t
  | cons a s ihs =>
    induction t with
    | nil =>
      rw [distance_nil_right]
      exact (Edits.insertAll (a :: s)).symm
    | cons b t iht =>
      rw [distance_cons_cons]
      rcases min_choice (min (distance s (b :: t) + 1) (distance (a :: s) t + 1))
        (distance s t + if a = b then 0 else 1) with hmin | hmin
      · rw [hmin]
        rcases min_choice (distance s (b :: t) + 1) (distance (a :: s) t + 1) with hmin | hmin
        · rw [hmin, Nat.add_comm]
          exact (Edits.single (.delete [] s a)).trans (ihs (b :: t))
        · rw [hmin]
          exact iht.more (.insert [] t b)
      · rw [hmin]
        split_ifs with hab
        · rw [hab]
          exact (ihs t).cons b
        · exact ((ihs t).cons a).more (.substitute [] t a b)

theorem distance_isLeast (s t : List α) : IsLeast { n | Edits n s t } (distance s t) :=
  ⟨distance_edits s t, fun _ h => h.distance_le⟩

theorem distance_reverse (s t : List α) : distance s.reverse t.reverse = distance s t := by
  have hforth := (Edits.reverse (distance_edits s t)).distance_le
  have hback := (Edits.reverse_iff.mp (distance_edits s.reverse t.reverse)).distance_le
  omega

theorem distance_eq_zero_iff : distance s t = 0 ↔ s = t := by
  constructor
  · intro h
    exact Edits.eq_of_zero (h ▸ distance_edits s t)
  · rintro rfl
    exact distance_self s

theorem distance_comm (s t : List α) : distance s t = distance t s := by
  have hforth := (distance_edits s t).symm.distance_le
  have hback := (distance_edits t s).symm.distance_le
  omega

theorem distance_triangle (s t u : List α) : distance s u ≤ distance s t + distance t u :=
  ((distance_edits s t).trans (distance_edits t u)).distance_le

end Stoatpp.Library
