import Mathlib.Data.List.Basic

/-!
# Threads that run out of order

A task is what one thread has still to do. An operation may throw, which ends its task, and
an operation may be forked off to a thread of its own. The tasks stand in the order in which
they should run; `drain` runs them so. An operation that is performed early does not change
what the tasks drain to if it is independent of all that stands before it.
-/

namespace Stoatpp.Library

variable {σ ι : Type}

inductive Op (ι : Type) where
  | run (a : ι)
  | fork (a : ι)

def Op.arg : Op ι → ι
  | .run a => a
  | .fork a => a

section
variable (eff : ι → σ → σ × Bool)

/-- A task up to its end or the first operation that throws, with `false`; what is forked off
is performed at once. -/
def exec : List (Op ι) → σ → σ
  | [], s => s
  | .run a :: rest, s => if (eff a s).2 then exec rest (eff a s).1 else (eff a s).1
  | .fork a :: rest, s => exec rest (eff a s).1

def drain (tasks : List (List (Op ι))) (s : σ) : σ := tasks.foldl (fun s t => exec eff t s) s

/-- One operation of a task: the threads it forks off, what is left of it, and the new state. -/
def advance : List (Op ι) → σ → Option (List (List (Op ι)) × List (Op ι) × σ)
  | [], _ => none
  | .run a :: rest, s => some ([], if (eff a s).2 then rest else [], (eff a s).1)
  | .fork a :: rest, s => some ([[.run a]], rest, s)

/-- Neither changes what the other does or whether it throws. -/
structure Independent (a b : ι) : Prop where
  state : ∀ s, (eff b (eff a s).1).1 = (eff a (eff b s).1).1
  left : ∀ s, (eff a (eff b s).1).2 = (eff a s).2
  right : ∀ s, (eff b (eff a s).1).2 = (eff b s).2

/-- The operation a task performs next, if it does not only fork, is independent of the tasks
before it. -/
def Unhindered (before : List (List (Op ι))) (task : List (Op ι)) : Prop :=
  ∀ a rest, task = .run a :: rest → ∀ t ∈ before, ∀ op ∈ t, Independent eff op.arg a

end

variable {eff : ι → σ → σ × Bool}

@[simp] theorem drain_nil (s : σ) : drain eff [] s = s := rfl

@[simp] theorem drain_cons (t : List (Op ι)) (tasks : List (List (Op ι))) (s : σ) :
    drain eff (t :: tasks) s = drain eff tasks (exec eff t s) := rfl

@[simp] theorem drain_append (before after : List (List (Op ι))) (s : σ) :
    drain eff (before ++ after) s = drain eff after (drain eff before s) :=
  List.foldl_append ..

theorem drain_done {tasks : List (List (Op ι))} (h : ∀ t ∈ tasks, t = []) (s : σ) :
    drain eff tasks s = s := by
  induction tasks with
  | nil => rfl
  | cons t tasks ih =>
    obtain rfl := h t List.mem_cons_self
    exact ih fun u hu => h u (List.mem_cons_of_mem _ hu)

/-! ## Moving an operation to the front -/

theorem exec_independent {t : List (Op ι)} {a : ι} (h : ∀ op ∈ t, Independent eff op.arg a) (s : σ) :
    exec eff t (eff a s).1 = (eff a (exec eff t s)).1 ∧ (eff a (exec eff t s)).2 = (eff a s).2 := by
  induction t generalizing s with
  | nil => exact ⟨rfl, rfl⟩
  | cons op rest ih =>
    have hrest := ih fun op ho => h op (List.mem_cons_of_mem _ ho)
    cases op with
    | run b =>
      have hop : Independent eff b a := h _ List.mem_cons_self
      simp only [exec, hop.left, ← hop.state]
      -- `b` throws on both sides or on neither
      by_cases hb : (eff b s).2 = true
      · simp only [if_pos hb]
        exact ⟨(hrest _).1, (hrest _).2.trans (hop.right s)⟩
      · simp only [if_neg hb]
        exact ⟨trivial, hop.right s⟩
    | fork b =>
      have hop : Independent eff b a := h _ List.mem_cons_self
      simp only [exec, ← hop.state]
      exact ⟨(hrest _).1, (hrest _).2.trans (hop.right s)⟩

theorem drain_independent {tasks : List (List (Op ι))} {a : ι}
    (h : ∀ t ∈ tasks, ∀ op ∈ t, Independent eff op.arg a) (s : σ) :
    drain eff tasks (eff a s).1 = (eff a (drain eff tasks s)).1 ∧
      (eff a (drain eff tasks s)).2 = (eff a s).2 := by
  induction tasks generalizing s with
  | nil => exact ⟨rfl, rfl⟩
  | cons t tasks ih =>
    obtain ⟨hstate, hflag⟩ := exec_independent (h t List.mem_cons_self) s
    obtain ⟨ihstate, ihflag⟩ := ih (fun u hu => h u (List.mem_cons_of_mem _ hu)) (exec eff t s)
    rw [drain_cons, drain_cons, hstate]
    exact ⟨ihstate, ihflag.trans hflag⟩

theorem drain_advance {before forked : List (List (Op ι))} {t rest : List (Op ι)} {s s' : σ}
    (h : advance eff t s = some (forked, rest, s')) (hi : Unhindered eff before t)
    (after : List (List (Op ι))) :
    drain eff (before ++ forked ++ rest :: after) s' = drain eff (before ++ t :: after) s := by
  cases t with
  | nil => cases h
  | cons op t =>
    cases op with
    | run a =>
      obtain ⟨rfl, rfl, rfl⟩ : [] = forked ∧ (if (eff a s).2 then t else []) = rest ∧
          (eff a s).1 = s' := by simpa [advance] using h
      obtain ⟨hstate, hflag⟩ := drain_independent (hi a t rfl) s
      simp only [List.append_nil, drain_append, drain_cons, hstate, exec, hflag]
      by_cases ha : (eff a s).2 = true
      · simp only [if_pos ha]
      · simp only [if_neg ha, exec]
    | fork a =>
      -- the new thread stands right before what is left of its own
      obtain ⟨rfl, rfl, rfl⟩ : [[Op.run a]] = forked ∧ t = rest ∧ s = s' := by
        simpa [advance] using h
      simp only [drain_append, drain_cons, drain_nil, exec, ite_self]

end Stoatpp.Library
