import Stoatpp.Library.Process

/-!
# Retry loops

Attempts are made one after the other, each from the state the one before it left, until one
finishes or throws. The attempts of a loop are those that go round again and the one that does
not, and its trace is theirs one after the other.
-/

namespace Stoatpp.Library
variable {χ ε α β σ τ : Type}

/-- `Sum.inl` goes round again, and a loop whose attempts run out is cut off. -/
def retryLoop (attempt : α → σ → Outcome χ ε (σ ⊕ β)) : List α → σ → Outcome χ ε β
  | [], _ => .cut
  | a :: rest, s => (attempt a s).andThen fun
    | .inl s' => retryLoop attempt rest s'
    | .inr b => .ret b

/-- All attempts of the list go round again, with this trace and into this state. -/
inductive AllAgain (attempt : α → σ → Outcome χ ε (σ ⊕ β)) : List α → σ → List ε → σ → Prop
  | nil (s : σ) : AllAgain attempt [] s [] s
  | cons {a : α} {rest : List α} {s s' s'' : σ} {t t' : List ε} :
      attempt a s = ⟨t, .done (.inl s')⟩ → AllAgain attempt rest s' t' s'' →
      AllAgain attempt (a :: rest) s (t ++ t') s''

variable {attempt : α → σ → Outcome χ ε (σ ⊕ β)} {a : α} {pre rest script : List α} {s s' s'' : σ}
  {t t' : List ε}

theorem retryLoop_again (h : attempt a s = ⟨t, .done (.inl s')⟩) :
    retryLoop attempt (a :: rest) s =
      ⟨t ++ (retryLoop attempt rest s').trace, (retryLoop attempt rest s').status⟩ := by
  simp only [retryLoop, h, Outcome.andThen]

theorem retryLoop_last (h : ∀ s', (attempt a s).status ≠ .done (.inl s')) :
    retryLoop attempt (a :: rest) s = retryLoop attempt [a] s := by
  simp only [retryLoop, Outcome.andThen]
  cases hs : (attempt a s).status with
  | done x =>
    cases x with
    | inl s' => exact absurd hs (h s')
    | inr b => rfl
  | thrown c => rfl
  | running => rfl

theorem AllAgain.loop (h : AllAgain attempt pre s t s') (rest : List α) :
    retryLoop attempt (pre ++ rest) s =
      ⟨t ++ (retryLoop attempt rest s').trace, (retryLoop attempt rest s').status⟩ := by
  induction h with
  | nil s => rfl
  | cons ha _ ih => rw [List.cons_append, retryLoop_again ha, ih, List.append_assoc]

/-- Either all attempts go round again, or the first that does not decides how the loop ends. -/
theorem retryLoop_split (attempt : α → σ → Outcome χ ε (σ ⊕ β)) (script : List α) (s : σ) :
    (∃ t s', AllAgain attempt script s t s' ∧ retryLoop attempt script s = ⟨t, .running⟩) ∨
    ∃ pre a rest t s', script = pre ++ a :: rest ∧ AllAgain attempt pre s t s' ∧
      (∀ s'', (attempt a s').status ≠ .done (.inl s'')) ∧
      retryLoop attempt script s =
        ⟨t ++ (retryLoop attempt [a] s').trace, (retryLoop attempt [a] s').status⟩ := by
  induction script generalizing s with
  | nil => exact Or.inl ⟨[], s, .nil s, rfl⟩
  | cons a rest ih =>
    by_cases h : ∃ s', (attempt a s).status = .done (.inl s')
    · obtain ⟨s', hs⟩ := h
      have ha : attempt a s = ⟨(attempt a s).trace, .done (.inl s')⟩ := by rw [← hs]
      rcases ih s' with ⟨t, u, hgo, hloop⟩ | ⟨pre, b, rest', t, u, hr, hgo, hb, hloop⟩
      · refine Or.inl ⟨_, u, .cons ha hgo, ?_⟩
        rw [retryLoop_again ha, hloop]
      · refine Or.inr ⟨a :: pre, b, rest', _, u, congrArg (a :: ·) hr, .cons ha hgo, hb, ?_⟩
        rw [retryLoop_again ha, hloop, List.append_assoc]
    · have hlast : ∀ s', (attempt a s).status ≠ .done (.inl s') := fun s' hs => h ⟨s', hs⟩
      exact Or.inr ⟨[], a, rest, [], s, rfl, .nil s, hlast, retryLoop_last hlast⟩

/-! ## Marks that each attempt leaves -/

section
variable {f : ε → Option τ} {g : σ → τ} {x x' : τ} {i : ℕ}

theorem retryLoop_marks_cons (ha : ∀ a s, (attempt a s).trace.filterMap f = [g s] ∨
      (attempt a s).trace.filterMap f = [] ∧ ∀ s', (attempt a s).status ≠ .done (.inl s')) :
    (retryLoop attempt (a :: rest) s).trace.filterMap f = [] ∨
    (retryLoop attempt (a :: rest) s).trace.filterMap f = [g s] ∨
    ∃ t s', attempt a s = ⟨t, .done (.inl s')⟩ ∧
      (retryLoop attempt (a :: rest) s).trace.filterMap f =
        g s :: (retryLoop attempt rest s').trace.filterMap f := by
  by_cases h : ∃ s', (attempt a s).status = .done (.inl s')
  · obtain ⟨s', hs⟩ := h
    have hagain : attempt a s = ⟨(attempt a s).trace, .done (.inl s')⟩ := by rw [← hs]
    refine Or.inr (Or.inr ⟨_, s', hagain, ?_⟩)
    rw [retryLoop_again hagain, List.filterMap_append]
    rcases ha a s with hm | ⟨-, hno⟩
    · rw [hm, List.singleton_append]
    · exact absurd hs (hno s')
  · have hlast : (retryLoop attempt (a :: rest) s).trace = (attempt a s).trace := by
      rw [retryLoop_last fun s' hs => h ⟨s', hs⟩]
      simp only [retryLoop, Outcome.andThen]
      cases hs : (attempt a s).status with
      | done x =>
        cases x with
        | inl s' => exact absurd ⟨s', hs⟩ h
        | inr b => exact List.append_nil _
      | thrown c => rfl
      | running => rfl
    rw [hlast]
    rcases ha a s with hm | ⟨hm, -⟩
    · exact Or.inr (Or.inl hm)
    · exact Or.inl hm

theorem retryLoop_marks_head (ha : ∀ a s, (attempt a s).trace.filterMap f = [g s] ∨
      (attempt a s).trace.filterMap f = [] ∧ ∀ s', (attempt a s).status ≠ .done (.inl s'))
    (hx : ((retryLoop attempt script s).trace.filterMap f)[0]? = some x) : x = g s := by
  cases script with
  | nil => simp [retryLoop, Outcome.cut] at hx
  | cons a rest =>
    rcases retryLoop_marks_cons ha with hm | hm | ⟨t, s', -, hm⟩ <;> rw [hm] at hx
    · simp at hx
    · exact (Option.some.inj hx).symm
    · exact (Option.some.inj hx).symm

/-- Two marks in a row are those of an attempt and of the state it goes round again in. -/
theorem retryLoop_marks_succ (ha : ∀ a s, (attempt a s).trace.filterMap f = [g s] ∨
      (attempt a s).trace.filterMap f = [] ∧ ∀ s', (attempt a s).status ≠ .done (.inl s'))
    (hx : ((retryLoop attempt script s).trace.filterMap f)[i]? = some x)
    (hx' : ((retryLoop attempt script s).trace.filterMap f)[i + 1]? = some x') :
    ∃ a u t u', script[i]? = some a ∧ attempt a u = ⟨t, .done (.inl u')⟩ ∧ x = g u ∧ x' = g u' := by
  induction script generalizing i s with
  | nil => simp [retryLoop, Outcome.cut] at hx
  | cons a rest ih =>
    rcases retryLoop_marks_cons ha with hm | hm | ⟨t, s', hagain, hm⟩ <;> rw [hm] at hx hx'
    · simp at hx
    · simp at hx'
    · cases i with
      | zero =>
        exact ⟨a, s, t, s', rfl, hagain, (Option.some.inj hx).symm, retryLoop_marks_head ha hx'⟩
      | succ i => exact ih hx hx'

end

end Stoatpp.Library
