import Mathlib.Logic.Basic

/-!
# Runs of a step function

A step takes a state and a choice the surroundings make; a choice that is not possible leads
nowhere. `Along` puts a condition on every step a run takes, and what each such step keeps the
whole run keeps.
-/

namespace Stoatpp.Library

variable {σ α : Type} {step : σ → α → Option σ} {s t : σ} {choices : List α}

/-- The state behind a list of choices, if each is possible when its turn comes. -/
def runFrom (step : σ → α → Option σ) (s : σ) (choices : List α) : Option σ :=
  choices.foldlM step s

/-- Every step from `s` on that the choices lead through meets `C` where it is taken. -/
def Along (step : σ → α → Option σ) (C : σ → α → Prop) : σ → List α → Prop
  | _, [] => True
  | s, a :: rest => C s a ∧ ∀ s', step s a = some s' → Along step C s' rest

instance Along.decidable (step : σ → α → Option σ) (C : σ → α → Prop) [∀ s a, Decidable (C s a)] :
    ∀ s choices, Decidable (Along step C s choices)
  | _, [] => isTrue trivial
  | s, a :: rest =>
    match h : step s a with
    | none => decidable_of_iff (C s a)
      ⟨fun hc => ⟨hc, fun _ hs => nomatch h.symm.trans hs⟩, And.left⟩
    | some s' =>
      have := Along.decidable step C s' rest
      decidable_of_iff (C s a ∧ Along step C s' rest)
        ⟨fun hc => ⟨hc.1, fun _ hs => Option.some.inj (h.symm.trans hs) ▸ hc.2⟩,
          fun hc => ⟨hc.1, hc.2 s' h⟩⟩

@[simp] theorem runFrom_nil : runFrom step s [] = some s := rfl

theorem runFrom_cons {a : α} :
    runFrom step s (a :: choices) = some t ↔
      ∃ s', step s a = some s' ∧ runFrom step s' choices = some t := by
  simp only [runFrom, List.foldlM_cons, Option.bind_eq_bind, Option.bind_eq_some_iff]

theorem runFrom_append {before after : List α} :
    runFrom step s (before ++ after) = some t ↔
      ∃ m, runFrom step s before = some m ∧ runFrom step m after = some t := by
  simp only [runFrom, List.foldlM_append, Option.bind_eq_bind, Option.bind_eq_some_iff]

theorem Along.cons {C : σ → α → Prop} {a : α} (hc : C s a) (hs : step s a = some t) (hrest : Along step C t choices) :
    Along step C s (a :: choices) :=
  ⟨hc, fun _ hs' => Option.some.inj (hs.symm.trans hs') ▸ hrest⟩

theorem Along.of_append {C : σ → α → Prop} {before after : List α} {m : σ}
    (hc : Along step C s (before ++ after)) (hrun : runFrom step s before = some m) :
    Along step C m after := by
  induction before generalizing s with
  | nil =>
    obtain rfl : s = m := by simpa using hrun
    exact hc
  | cons a rest ih =>
    obtain ⟨s', ha, hrest⟩ := runFrom_cons.mp hrun
    exact ih (hc.2 s' ha) hrest

/-- Two conditions that agree wherever an invariant holds are met along the same runs, if the
first keeps the invariant. -/
theorem along_congr {C C' : σ → α → Prop} {P : σ → Prop} (h : ∀ s a, P s → (C s a ↔ C' s a))
    (hstep : ∀ s a s', P s → C s a → step s a = some s' → P s') (hs : P s) :
    Along step C s choices ↔ Along step C' s choices := by
  induction choices generalizing s with
  | nil => exact Iff.rfl
  | cons a rest ih =>
    constructor
    · rintro ⟨hc, hrest⟩
      exact ⟨(h s a hs).mp hc, fun s' ha => (ih (hstep s a s' hs hc ha)).mp (hrest s' ha)⟩
    · rintro ⟨hc', hrest⟩
      have hc := (h s a hs).mpr hc'
      exact ⟨hc, fun s' ha => (ih (hstep s a s' hs hc ha)).mpr (hrest s' ha)⟩

theorem run_invariant {C : σ → α → Prop} {P : σ → Prop}
    (hstep : ∀ s a s', P s → C s a → step s a = some s' → P s') (hs : P s)
    (hc : Along step C s choices) (hrun : runFrom step s choices = some t) : P t := by
  induction choices generalizing s with
  | nil =>
    obtain rfl : s = t := by simpa using hrun
    exact hs
  | cons a rest ih =>
    obtain ⟨s', ha, hrest⟩ := runFrom_cons.mp hrun
    exact ih (hstep s a s' hs hc.1 ha) (hc.2 s' ha) hrest

/-- What holds of the choices made so far and of the state behind them. -/
theorem run_history {P : List α → σ → Prop} {before : List α}
    (hstep : ∀ before s a s', P before s → step s a = some s' → P (before ++ [a]) s') (hs : P before s)
    (hrun : runFrom step s choices = some t) : P (before ++ choices) t := by
  induction choices generalizing s before with
  | nil =>
    obtain rfl : s = t := by simpa using hrun
    rwa [List.append_nil]
  | cons a rest ih =>
    obtain ⟨s', ha, hrest⟩ := runFrom_cons.mp hrun
    rw [List.append_cons]
    exact ih (hstep before s a s' hs ha) hrest

theorem run_choices {C : σ → α → Prop} {P : σ → Prop} {Q : α → Prop}
    (hstep : ∀ s a s', P s → C s a → step s a = some s' → P s')
    (hQ : ∀ s a s', P s → C s a → step s a = some s' → Q a) (hs : P s)
    (hc : Along step C s choices) (hrun : runFrom step s choices = some t) : ∀ a ∈ choices, Q a := by
  induction choices generalizing s with
  | nil => exact List.forall_mem_nil _
  | cons a rest ih =>
    obtain ⟨s', ha, hrest⟩ := runFrom_cons.mp hrun
    exact List.forall_mem_cons.mpr
      ⟨hQ s a s' hs hc.1 ha, ih (hstep s a s' hs hc.1 ha) (hc.2 s' ha) hrest⟩

theorem along_of_forall {C : α → Prop} (h : ∀ a ∈ choices, C a) :
    Along step (fun _ a => C a) s choices := by
  induction choices generalizing s with
  | nil => exact trivial
  | cons a rest ih =>
    exact ⟨h a List.mem_cons_self, fun _ _ => ih fun b hb => h b (List.mem_cons_of_mem _ hb)⟩

/-- A condition that an invariant of all runs grants is met along each of them. -/
theorem along_invariant {C : σ → α → Prop} {P : σ → Prop}
    (hstep : ∀ s a s', P s → step s a = some s' → P s') (hC : ∀ s a, P s → C s a) (hs : P s)
    (choices : List α) : Along step C s choices := by
  induction choices generalizing s with
  | nil => exact trivial
  | cons a rest ih => exact ⟨hC s a hs, fun s' ha => ih (hstep s a s' hs ha)⟩

/-- Two systems that stay related as long as the steps of the first meet `C`. -/
theorem run_lockstep {τ : Type} {step' : τ → α → Option τ} {R : σ → τ → Prop} {C : σ → α → Prop}
    (hstep : ∀ s s' a t, R s s' → C s a → step s a = some t → ∃ t', step' s' a = some t' ∧ R t t')
    {s' : τ} (hs : R s s') (hc : Along step C s choices) (hrun : runFrom step s choices = some t) :
    ∃ t', runFrom step' s' choices = some t' ∧ R t t' := by
  induction choices generalizing s s' with
  | nil =>
    obtain rfl : s = t := by simpa using hrun
    exact ⟨s', rfl, hs⟩
  | cons a rest ih =>
    obtain ⟨m, ha, hrest⟩ := runFrom_cons.mp hrun
    obtain ⟨m', ha', hm⟩ := hstep s s' a m hs hc.1 ha
    obtain ⟨t', hrest', ht⟩ := ih hm (hc.2 m ha) hrest
    exact ⟨t', runFrom_cons.mpr ⟨m', ha', hrest'⟩, ht⟩

end Stoatpp.Library
