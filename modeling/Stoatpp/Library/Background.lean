import Mathlib.Data.List.Basic
import Mathlib.Logic.Function.Basic
import Stoatpp.Library.Runs

/-!
# A background thread behind a flag

A thread runs as long as a flag is set; the handle that joins it stands in a slot. To start it, a
caller tests the flag, sets it, creates the thread and puts the handle into the slot; to stop it, a
caller tests the flag, clears it and joins what the slot holds, or detaches it if that is the caller
itself. A handle put over another one, or joined twice, ends the program.
-/

namespace Stoatpp.Library

variable {ι : Type}

/-- A thread of the surroundings, or a background thread itself. -/
inductive Caller (ι : Type) where
  | other (i : ι)
  | own (k : ℕ)
  deriving DecidableEq

inductive Place where
  | idle
  /-- behind the test, with the flag clear -/
  | passed
  | announced
  | created (k : ℕ)
  /-- behind the test, with the flag set -/
  | found
  | cleared
  | joining (k : ℕ)
  deriving DecidableEq

structure Background (ι : Type) where
  running : Bool := false
  slot : Option ℕ := none
  /-- the threads created so far, and which of them are still in their loop -/
  alive : List Bool := []
  place : Caller ι → Place := fun _ => .idle
  terminated : Bool := false

namespace Background

def Alive (s : Background ι) (k : ℕ) : Prop := s.alive[k]? = some true

instance (s : Background ι) (k : ℕ) : Decidable (s.Alive k) := inferInstanceAs (Decidable (_ = _))

/-- A background thread calls only as long as it is there. -/
def Present (s : Background ι) : Caller ι → Prop
  | .other _ => True
  | .own k => s.Alive k

instance (s : Background ι) (c : Caller ι) : Decidable (s.Present c) :=
  match c with
  | .other _ => inferInstanceAs (Decidable True)
  | .own _ => inferInstanceAs (Decidable (_ = _))

variable [DecidableEq ι]

def toPlace (s : Background ι) (c : Caller ι) (p : Place) : Background ι :=
  { s with place := Function.update s.place c p }

/-- The next part of a call. -/
def proceed (s : Background ι) (c : Caller ι) : Option (Background ι) :=
  match s.place c with
  | .idle => none
  | .passed => some { s.toPlace c .announced with running := true }
  | .announced => some { s.toPlace c (.created s.alive.length) with alive := s.alive ++ [true] }
  | .created k =>
    if s.slot.isSome then some { s with terminated := true }
    else some { s.toPlace c .idle with slot := some k }
  | .found => some { s.toPlace c .cleared with running := false }
  | .cleared =>
    match s.slot with
    | none => some (s.toPlace c .idle)
    | some k => if c = .own k then some { s.toPlace c .idle with slot := none } else some (s.toPlace c (.joining k))
  | .joining k =>
    if s.Alive k then none
    else if s.slot = some k then some { s.toPlace c .idle with slot := none }
    else some { s with terminated := true }

end Background

inductive BackgroundTurn (ι : Type) where
  | start (c : Caller ι)
  | stop (c : Caller ι)
  | proceed (c : Caller ι)
  /-- the thread sees the flag clear and leaves its loop -/
  | leave (k : ℕ)

/-! ## What is kept -/

/-- What holds of the flag and the slot while a call is where it is. -/
def Place.Fits (c : Caller ι) (running : Bool) (slot : Option ℕ) : Place → Prop
  | .idle => slot.isSome = running
  | .passed => running = false ∧ slot = none
  | .announced | .created _ => running = true ∧ slot = none
  | .found => running = true ∧ slot.isSome = true
  | .cleared => running = false ∧ slot.isSome = true
  | .joining k => running = false ∧ slot = some k ∧ c ≠ .own k

/-- At most the call of `c` is under way. -/
structure Background.Tidy (s : Background ι) (c : Caller ι) : Prop where
  whole : s.terminated = false
  idle : ∀ d, d ≠ c → s.place d = .idle
  fits : (s.place c).Fits c s.running s.slot

/-- The thread that is there, if any, is the one in the slot or on its way to it. -/
def Background.Held (s : Background ι) (c : Caller ι) : Prop :=
  ∀ k, s.Alive k → s.slot = some k ∨ s.place c = .created k

variable {s : Background ι} {c : Caller ι}

section
variable [DecidableEq ι]

def backgroundTurn (s : Background ι) (t : BackgroundTurn ι) : Option (Background ι) :=
  if s.terminated then none
  else
    match t with
    | .start c =>
      if s.place c = .idle ∧ s.Present c then some (if s.running then s else s.toPlace c .passed) else none
    | .stop c =>
      if s.place c = .idle ∧ s.Present c then some (if s.running then s.toPlace c .found else s) else none
    | .proceed c => s.proceed c
    | .leave k =>
      if s.Alive k ∧ s.running = false ∧ s.place (.own k) = .idle then
        some { s with alive := s.alive.set k false }
      else none

/-- A call that does something begins while no other call is under way. -/
def Serial (s : Background ι) : BackgroundTurn ι → Prop
  | .start _ => s.running = false → ∀ d, s.place d = .idle
  | .stop _ => s.running = true → ∀ d, s.place d = .idle
  | _ => True

variable {s' : Background ι} {t : BackgroundTurn ι} {d : Caller ι} {p : Place} {k : ℕ}

def Caller.Outside (c : Caller ι) : Prop := ∀ k, c ≠ .own k

section
variable {running : Bool} {slot : Option ℕ} {alive : List Bool}

theorem Background.Tidy.move (h : s.Tidy c) (hfits : p.Fits c running slot) :
    Background.Tidy { s.toPlace c p with running := running, slot := slot, alive := alive } c where
  whole := h.whole
  idle d hd := (Function.update_of_ne hd _ _).trans (h.idle d hd)
  fits := by
    change (Function.update s.place c p c).Fits c running slot
    rwa [Function.update_self]

end

theorem Background.Tidy.rest (h : s.Tidy c) (hidle : s.place c = .idle) : ∀ d, s.Tidy d := by
  have hall (e : Caller ι) : s.place e = .idle := by
    by_cases he : e = c
    · rw [he, hidle]
    · exact h.idle e he
  have hfits := h.fits
  rw [hidle] at hfits
  exact fun d => ⟨h.whole, fun e _ => hall e, by rw [hall d]; exact hfits⟩

/-- The call is not made by a background thread. -/
def BackgroundTurn.Outside : BackgroundTurn ι → Prop
  | .start c | .stop c => c.Outside
  | _ => True

end
end Stoatpp.Library
