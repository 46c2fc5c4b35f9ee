import Mathlib.Data.List.Basic
import Mathlib.Logic.Function.Basic
import Stoatpp.Library.Runs

/-!
# Listeners

Listeners are added to the list of a kind and never taken off it. A delivery takes a copy of the
list and calls the listeners in it one after the other until one of them throws; between its calls
anything else may happen. What a delivery calls is decided when it takes the copy.
-/

namespace Stoatpp.Library

variable {κ η α σ : Type}

structure Delivery (η α : Type) where
  item : α
  copy : List η
  called : ℕ
  failed : Bool

/-- One call of a listener, the delivery it is part of and whether it returned. -/
structure Call (η α : Type) where
  delivery : ℕ
  item : α
  listener : η
  returned : Bool

structure Desk (κ η α σ : Type) where
  listeners : κ → List η
  shared : σ
  deliveries : List (Delivery η α)
  calls : List (Call η α)

/-- Nothing is registered yet. -/
def Desk.fresh (κ η α : Type) {σ : Type} (s : σ) : Desk κ η α σ := ⟨fun _ => [], s, [], []⟩

inductive DeskTurn (κ η α : Type) where
  | register (k : κ) (l : η)
  | deliver (a : α)
  | call (i : ℕ)

section
variable [DecidableEq κ] (kind : α → κ) (skip : α → Bool) (perform : η → α → σ → σ × Bool)

def Desk.call (x : Desk κ η α σ) (i : ℕ) : Option (Desk κ η α σ) :=
  (x.deliveries[i]?).bind fun d =>
    if d.failed then none
    else (d.copy[d.called]?).map fun l =>
      let r := perform l d.item x.shared
      { x with
          shared := r.1
          deliveries := x.deliveries.set i { d with called := d.called + 1, failed := !r.2 }
          calls := x.calls ++ [⟨i, d.item, l, r.2⟩] }

end

def Desk.callsOf (x : Desk κ η α σ) (i : ℕ) : List (Call η α) := x.calls.filter (·.delivery = i)

def registered [DecidableEq κ] (k : κ) (turns : List (DeskTurn κ η α)) : List η :=
  turns.filterMap fun
    | .register k' l => if k' = k then some l else none
    | _ => none

/-- What the calls made so far say about a delivery. -/
structure Delivery.Served (d : Delivery η α) (calls : List (Call η α)) : Prop where
  item : ∀ c ∈ calls, c.item = d.item
  listeners : calls.map Call.listener = d.copy.take d.called
  within : d.called ≤ d.copy.length
  ongoing : d.failed = false → ∀ c ∈ calls, c.returned = true
  ended : d.failed = true → ∃ earlier last, calls = earlier ++ [last] ∧ last.returned = false ∧
    ∀ c ∈ earlier, c.returned = true

structure Desk.Sound (x : Desk κ η α σ) : Prop where
  served : ∀ (i : ℕ) (d : Delivery η α), x.deliveries[i]? = some d → d.Served (x.callsOf i)
  known : ∀ c ∈ x.calls, c.delivery < x.deliveries.length

/-- What a delivery was once it is still, and what was called stays called. -/
structure Desk.Later (x y : Desk κ η α σ) : Prop where
  listeners : ∀ k, x.listeners k <+: y.listeners k
  deliveries : ∀ (i : ℕ) (d : Delivery η α), x.deliveries[i]? = some d →
    ∃ d' : Delivery η α, y.deliveries[i]? = some d' ∧ d'.item = d.item ∧ d'.copy = d.copy
  calls : x.calls <+: y.calls

variable {kind : α → κ} {skip : α → Bool} {perform : η → α → σ → σ × Bool} {x y z : Desk κ η α σ}
  {d : Delivery η α} {calls : List (Call η α)} {l : η} {a : α} {i j : ℕ} {b : Bool}

theorem Delivery.Served.call (h : d.Served calls) (hfailed : d.failed = false)
    (hl : d.copy[d.called]? = some l) (i : ℕ) (b : Bool) :
    Delivery.Served { d with called := d.called + 1, failed := !b } (calls ++ [⟨i, d.item, l, b⟩]) where
  item c hc := by
    rcases List.mem_append.mp hc with hc | hc
    · exact h.item c hc
    · rw [List.mem_singleton.mp hc]
  listeners := by
    rw [List.map_append, h.listeners, List.take_add_one, hl]
    rfl
  within := by
    obtain ⟨hlt, -⟩ := List.getElem?_eq_some_iff.mp hl
    exact hlt
  ongoing hb c hc := by
    rcases List.mem_append.mp hc with hc | hc
    · exact h.ongoing hfailed c hc
    · rw [List.mem_singleton.mp hc]
      simpa using hb
  ended hb := ⟨calls, _, rfl, by simpa using hb, h.ongoing hfailed⟩

/-- Where another listener is called, the first of the list has been called before and has returned. -/
theorem Delivery.Served.first {rest : List η} {c : Call η α} (h : d.Served calls) (hcopy : d.copy = l :: rest)
    (hc : c ∈ calls) (hl : c.listener ≠ l) :
    ∃ first later, calls = first :: later ∧ first.listener = l ∧ first.returned = true := by
  cases hcalls : calls with
  | nil =>
    rw [hcalls] at hc
    cases hc
  | cons first later =>
    have hnames := h.listeners
    rw [hcalls, hcopy, List.map_cons] at hnames
    have hfirst : first.listener = l := by
      cases hn : d.called with
      | zero =>
        rw [hn] at hnames
        cases hnames
      | succ n =>
        rw [hn, List.take_succ_cons] at hnames
        exact (List.cons.inj hnames).1
    refine ⟨first, later, rfl, hfirst, ?_⟩
    cases hf : d.failed with
    | false => exact h.ongoing hf first (hcalls ▸ List.mem_cons_self)
    | true =>
      obtain ⟨earlier, last, hsplit, -, hreturned⟩ := h.ended hf
      rw [hcalls] at hsplit hc
      cases earlier with
      | nil =>
        rw [List.nil_append] at hsplit
        rw [hsplit, List.mem_singleton] at hc
        obtain rfl := (List.cons.inj hsplit).1
        exact absurd (hc ▸ hfirst) hl
      | cons e earlier =>
        rw [(List.cons.inj hsplit).1]
        exact hreturned e List.mem_cons_self

theorem Desk.Later.refl (x : Desk κ η α σ) : x.Later x :=
  ⟨fun _ => List.prefix_rfl, fun _ d hd => ⟨d, hd, rfl, rfl⟩, List.prefix_rfl⟩

theorem Desk.Later.trans (h : x.Later y) (h' : y.Later z) : x.Later z := by
  refine ⟨fun k => (h.listeners k).trans (h'.listeners k), fun i d hd => ?_, h.calls.trans h'.calls⟩
  obtain ⟨d', hd', hitem, hcopy⟩ := h.deliveries i d hd
  obtain ⟨d'', hd'', hitem', hcopy'⟩ := h'.deliveries i d' hd'
  exact ⟨d'', hd'', hitem'.trans hitem, hcopy'.trans hcopy⟩

/-- The items a listener has been called for, in the order of the calls. -/
def Desk.heard [DecidableEq η] (own : η) (x : Desk κ η α σ) : List α :=
  x.calls.filterMap fun c => if c.listener = own then some c.item else none

variable [DecidableEq κ] {turns before after : List (DeskTurn κ η α)} {t : DeskTurn κ η α}

variable [DecidableEq η] {s₀ : σ}

end Stoatpp.Library
