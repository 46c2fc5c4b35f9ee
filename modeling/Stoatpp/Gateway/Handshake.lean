import Stoatpp.Gateway.Connection

/-!
# The authenticated flag

The flag follows the frames as they are handled, not as they come in: a frame may be handled
when its connection is closed and another one is open.
-/

namespace Stoatpp.Gateway
open Stoatpp.Library

/-- A greeting that is still to be handled has come in on a connection that is noted. -/
def Noted (greeted : List ℕ) (frame : Arrival) (todo : List Action) : Prop :=
  todo.any Action.isAuthenticated → frame.connection ∈ greeted

/-- The flag is set only while a connection is open on which a greeting has come in. -/
structure Greeted (cfg : Config) (g : Session) : Prop where
  flag : g.authenticated → g.socketOpen ∧ g.connection ∈ g.greeted
  queue : ∀ x ∈ g.queue, Noted g.greeted x.1 (actions cfg x.2)
  worker : Noted g.greeted g.worker.1 g.worker.2
  threads : ∀ x ∈ g.threads, Noted g.greeted x.1 x.2

/-- Whoever handles a greeting does so while its connection is open. -/
def Timely (g : Session) : Turn → Prop
  | .worker _ => g.worker.2.head?.any Action.isAuthenticated →
    g.socketOpen ∧ g.worker.1.connection = g.connection
  | .thread i _ => ∀ x ∈ g.threads[i]?, x.2.head?.any Action.isAuthenticated →
    g.socketOpen ∧ x.1.connection = g.connection
  | _ => True

instance (g : Session) (a : Turn) : Decidable (Timely g a) := by
  unfold Timely
  split <;> infer_instance

variable {cfg : Config} {g g' : Session}

/-! ## One step -/

theorem Noted.rest {greeted : List ℕ} {frame : Arrival} {a : Action} {rest : List Action}
    (h : Noted greeted frame (a :: rest)) (returns : Bool) :
    Noted greeted frame (if returns then rest else []) := by
  intro ht
  cases returns with
  | true => exact h (List.any_cons.trans (Bool.or_eq_true_iff.mpr (Or.inr ht)))
  | false => cases ht

theorem Noted.mono {greeted greeted' : List ℕ} {frame : Arrival} {todo : List Action}
    (h : Noted greeted frame todo) (hsub : greeted ⊆ greeted') : Noted greeted' frame todo :=
  fun ht => hsub (h ht)

theorem Greeted.received (hg : Greeted cfg g) (frame : Option Json) :
    Greeted cfg (g.onMessageReceived cfg frame) := by
  have hsub : g.greeted ⊆ (g.onMessageReceived cfg frame).greeted := by
    simp only [Session.onMessageReceived]
    split_ifs
    · exact List.subset_cons_self _ _
    · exact List.Subset.refl _
  refine ⟨fun ha => (hg.flag ha).imp_right fun h => hsub h, ?_, hg.worker.mono hsub,
    fun x hx => (hg.threads x hx).mono hsub⟩
  intro x hx
  rcases List.mem_append.mp hx with hx | hx
  · exact (hg.queue x hx).mono hsub
  · rw [List.mem_singleton.mp hx]
    intro hgreets
    simp only [Session.onMessageReceived, greets, hgreets, if_true]
    exact List.mem_cons_self

theorem Greeted.stopped (hg : Greeted cfg g) : (!g.socketOpen && g.authenticated) = false := by
  cases ha : g.authenticated with
  | false => exact Bool.and_false _
  | true =>
    rw [(hg.flag ha).1]
    rfl

theorem Greeted.performed (hg : Greeted cfg g) {frame : Arrival} {a : Action} {rest : List Action}
    (hnoted : Noted g.greeted frame (a :: rest))
    (htimely : a.isAuthenticated → g.socketOpen ∧ frame.connection = g.connection)
    (hflag : a.isAuthenticated || g.authenticated) : g.socketOpen ∧ g.connection ∈ g.greeted := by
  rcases Bool.or_eq_true_iff.mp hflag with ha | hflag
  · obtain ⟨hopen, hconnection⟩ := htimely ha
    have hmem := hnoted (List.any_cons.trans (Bool.or_eq_true_iff.mpr (Or.inl ha)))
    rw [hconnection] at hmem
    exact ⟨hopen, hmem⟩
  · exact hg.flag hflag

theorem turn_greeted (hurl : cfg.wsAuthInUrl = false) (g : Session) (a : Turn) (g' : Session)
    (hg : Greeted cfg g) (ha : Timely g a) (ht : turn cfg g a = some g') : Greeted cfg g' := by
  cases turn_transition ht with
  | connect => exact ⟨hg.flag, hg.queue, hg.worker, hg.threads⟩
  | tell => exact ⟨hg.flag, hg.queue, hg.worker, hg.threads⟩
  | untold => exact ⟨hg.flag, hg.queue, hg.worker, hg.threads⟩
  | join => exact ⟨hg.flag, hg.queue, hg.worker, hg.threads⟩
  | unschedule => exact ⟨hg.flag, hg.queue, hg.worker, hg.threads⟩
  | find => exact ⟨hg.flag, hg.queue, hg.worker, hg.threads⟩
  | miss => exact ⟨hg.flag, hg.queue, hg.worker, hg.threads⟩
  | stop =>
    exact ⟨fun hflag => absurd hflag (Bool.eq_false_iff.mp hg.stopped), hg.queue, hg.worker,
      hg.threads⟩
  | clear =>
    exact ⟨fun hflag => absurd hflag Bool.false_ne_true, hg.queue, hg.worker, hg.threads⟩
  | opened _ hclosed =>
    refine ⟨fun hflag => ?_, hg.queue, hg.worker, hg.threads⟩
    rw [hurl, Bool.false_or] at hflag
    exact absurd (hg.flag hflag).1 (Bool.eq_false_iff.mp hclosed)
  | message frame => exact hg.received frame
  | closed =>
    exact ⟨fun hflag => absurd hflag Bool.false_ne_true, hg.queue, hg.worker, hg.threads⟩
  | handle frame rest hq =>
    refine ⟨hg.flag, fun x hx => hg.queue x ?_, hg.queue frame ?_, hg.threads⟩
    · rw [hq]
      exact List.mem_cons_of_mem _ hx
    · rw [hq]
      exact List.mem_cons_self
  | handOver frame rest hq =>
    refine ⟨hg.flag, fun x hx => hg.queue x ?_, hg.worker, fun x hx => ?_⟩
    · rw [hq]
      exact List.mem_cons_of_mem _ hx
    · rcases List.mem_append.mp hx with hx | hx
      · exact hg.threads x hx
      · rw [List.mem_singleton.mp hx]
        exact hg.queue frame (hq ▸ List.mem_cons_self)
  | worker returns act rest hw =>
    have hnoted : Noted g.greeted g.worker.1 (act :: rest) := hw ▸ hg.worker
    have htimely : act.isAuthenticated → g.socketOpen ∧ g.worker.1.connection = g.connection :=
      fun hact => ha (by rw [hw]; exact hact)
    exact ⟨hg.performed hnoted htimely, hg.queue, hnoted.rest returns, hg.threads⟩
  | thread i returns frame act rest hi =>
    have hnoted : Noted g.greeted frame (act :: rest) := hg.threads _ (List.mem_of_getElem? hi)
    refine ⟨hg.performed hnoted fun hact => ha _ hi hact, hg.queue, hg.worker, fun x hx => ?_⟩
    rcases List.mem_or_eq_of_mem_set hx with hx | rfl
    · exact hg.threads x hx
    · exact hnoted.rest returns
  | beat => exact ⟨hg.flag, hg.queue, hg.worker, hg.threads⟩
  | watch => exact ⟨hg.flag, hg.queue, hg.worker, hg.threads⟩
  | watchStop =>
    exact ⟨fun hflag => absurd hflag (Bool.eq_false_iff.mp hg.stopped), hg.queue, hg.worker,
      hg.threads⟩
  | watchStart => exact ⟨hg.flag, hg.queue, hg.worker, hg.threads⟩

/-! ## Whole runs -/

/-- Whenever the flag is set, an Authenticated frame has come in on the connection that is open,
in any run in which each greeting is handled while its connection is open. -/
theorem authenticated_greeted (cfg : Config) (hurl : cfg.wsAuthInUrl = false) (turns : List Turn)
    (g : Session) (hrun : runFrom (turn cfg) {} turns = some g)
    (hc : Along (turn cfg) Timely {} turns) :
    g.authenticated → g.socketOpen ∧ g.connection ∈ g.greeted := by
  have hstart : Greeted cfg {} :=
    ⟨fun ha => absurd ha Bool.false_ne_true, List.forall_mem_nil _,
      fun ha => absurd ha Bool.false_ne_true, List.forall_mem_nil _⟩
  exact (run_invariant (turn_greeted hurl) hstart hc hrun).flag

def greeting : Json := .obj [("type", .str "Authenticated")]

theorem greeting_in_time : ∃ g, runFrom (turn {}) {}
    [.connect, .opened, .message (some greeting), .take, .worker true, .worker true] = some g ∧
    g.authenticated = true ∧ g.socketOpen = true ∧ g.connection ∈ g.greeted :=
  ⟨_, rfl, rfl, authenticated_greeted {} rfl
    [.connect, .opened, .message (some greeting), .take, .worker true, .worker true] _ rfl
    (by decide) rfl⟩

theorem greeting_too_late : ¬ ∀ (cfg : Config), cfg.wsAuthInUrl = false →
    ∀ (turns : List Turn) (g : Session), runFrom (turn cfg) {} turns = some g →
    g.authenticated → g.socketOpen ∧ g.connection ∈ g.greeted := by
  intro h
  have hlate := h {} rfl [.connect, .opened, .message (some greeting), .closed, .take,
    .worker true, .worker true, .opened] _ rfl rfl
  exact absurd hlate.2 (by decide)

end Stoatpp.Gateway
