import Stoatpp.Library.Process

/-!
# What a process says on the way to its result

An observation picks some events out of a trace. `Reports` is a process that ends with a result
and whose observed events are these, in this order.
-/

namespace Stoatpp.Library.Process

variable {χ ε ω α β σ : Type} {seen : ε → Option ω}

theorem ended_of_done {x : Outcome χ ε α} {a : α} (h : x.status = .done a) : x.status ≠ .running := by
  rw [h]
  exact fun hrunning => by cases hrunning

def Reports (seen : ε → Option ω) (p : Process χ ε α) (a : α) (ws : List ω) : Prop :=
  ∃ n, (p.run n).status = .done a ∧ (p.run n).trace.filterMap seen = ws

variable {p : Process χ ε α} {f : α → Process χ ε β} {a a' : α} {b : β} {ws vs : List ω}

theorem Reports.yields (h : p.Reports seen a ws) : p.Yields a := by
  obtain ⟨n, hn, -⟩ := h
  exact ⟨n, hn⟩

theorem Reports.unique (h : p.Reports seen a ws) (h' : p.Reports seen a' vs) : a = a' ∧ ws = vs := by
  refine ⟨h.yields.unique h'.yields, ?_⟩
  obtain ⟨n, hn, hws⟩ := h
  obtain ⟨k, hk, hvs⟩ := h'
  have hrun := p.run_eq_of_ended (le_max_left n k) (ended_of_done hn)
  have hrun' := p.run_eq_of_ended (le_max_right n k) (ended_of_done hk)
  rw [← hws, ← hvs, ← hrun, hrun']

/-- A process that shows nothing is known by its result. -/
theorem Yields.reports (h : p.Yields a) (hsilent : ∀ e, p.Emits e → seen e = none) :
    p.Reports seen a [] := by
  obtain ⟨n, hn⟩ := h
  exact ⟨n, hn, List.filterMap_eq_nil_iff.mpr fun e he => hsilent e ⟨n, he⟩⟩

theorem reports_lift {x : Outcome χ ε α} :
    (lift x).Reports seen a ws ↔ x.status = .done a ∧ x.trace.filterMap seen = ws :=
  ⟨fun ⟨_, h⟩ => h, fun h => ⟨0, h⟩⟩

theorem reports_pure : (pure a : Process χ ε α).Reports seen a [] := ⟨0, rfl, rfl⟩

theorem Reports.bind (hp : p.Reports seen a ws) (hf : (f a).Reports seen b vs) :
    (p >>= f).Reports seen b (ws ++ vs) := by
  obtain ⟨n, hn, hws⟩ := hp
  obtain ⟨k, hk, hvs⟩ := hf
  have hrun := p.run_eq_of_ended (le_max_left n k) (ended_of_done hn)
  have hrun' := (f a).run_eq_of_ended (le_max_right n k) (ended_of_done hk)
  refine ⟨max n k, ?_⟩
  rw [bind_run, hrun, Outcome.andThen_done hn, hrun', List.filterMap_append, hws, hvs]
  exact ⟨hk, rfl⟩

variable {cond : σ → Bool} {body : σ → Process χ ε σ} {s t u : σ}

theorem reports_whileLoop_exit (hs : cond s = false) : (whileLoop cond body s).Reports seen s [] := by
  refine ⟨1, ?_⟩
  simp only [whileLoop, iterate, hs, Bool.false_eq_true, if_false]
  exact ⟨rfl, rfl⟩

theorem reports_whileLoop_step (hs : cond s = true) (hbody : (body s).Reports seen t ws)
    (hloop : (whileLoop cond body t).Reports seen u vs) :
    (whileLoop cond body s).Reports seen u (ws ++ vs) := by
  obtain ⟨n, hn, hws⟩ := hbody.bind hloop
  have hbelow : Outcome.ExtendedBy ((body s >>= whileLoop cond body).run n) _ :=
    bind_below_whileLoop hs n
  have hrun := hbelow.eq_of_ended (ended_of_done hn)
  exact ⟨n + 1, hrun ▸ hn, hrun ▸ hws⟩

end Stoatpp.Library.Process
