import Mathlib.Data.List.Basic

/-!
# Templates

A template is a list of fixed words and of holes that are filled in order. Templates whose words
disagree somewhere, or which differ in length, are never filled to the same list.
-/

namespace Stoatpp.Library

inductive Slot (ω κ : Type) where
  | word (w : ω)
  | hole (k : κ)
  deriving DecidableEq

def Slot.hole? {ω κ : Type} : Slot ω κ → Option κ
  | .word _ => none
  | .hole k => some k

section
variable {ω κ α : Type}

def holes (t : List (Slot ω κ)) : List κ := t.filterMap Slot.hole?

/-- The arguments in the holes, each as its hole writes it. -/
def fill (text : ω → α) (write : κ → α → α) : List (Slot ω κ) → List α → List α
  | [], _ => []
  | .word w :: t, args => text w :: fill text write t args
  | .hole k :: t, arg :: args => write k arg :: fill text write t args
  | .hole _ :: _, [] => []

def compatible [DecidableEq ω] : List (Slot ω κ) → List (Slot ω κ) → Bool
  | [], [] => true
  | .word v :: t, .word w :: u => v = w && compatible t u
  | .word _ :: t, .hole _ :: u => compatible t u
  | .hole _ :: t, _ :: u => compatible t u
  | [], _ :: _ => false
  | _ :: _, [] => false

variable {text : ω → α} {write : κ → α → α} {t u : List (Slot ω κ)} {args args' : List α}

theorem fill_append {more : List (Slot ω κ)} (hargs : args.length = (holes t).length) :
    fill text write (t ++ more) (args ++ args') = fill text write t args ++ fill text write more args' := by
  induction t generalizing args with
  | nil => rw [List.length_eq_zero_iff.mp hargs, List.nil_append, List.nil_append, fill, List.nil_append]
  | cons s t ih =>
    cases s with
    | word w => exact congrArg (text w :: ·) (ih hargs)
    | hole k =>
      obtain ⟨a, as, rfl⟩ := List.exists_cons_of_length_eq_add_one hargs
      exact congrArg (write k a :: ·) (ih (Nat.succ.inj hargs))

theorem fill_inj (hwrite : ∀ k a b, write k a = write k b → a = b) (hargs : args.length = (holes t).length)
    (hargs' : args'.length = (holes t).length) : fill text write t args = fill text write t args' ↔ args = args' := by
  refine ⟨fun h => ?_, congrArg _⟩
  induction t generalizing args args' with
  | nil => rw [List.length_eq_zero_iff.mp hargs, List.length_eq_zero_iff.mp hargs']
  | cons s t ih =>
    cases s with
    | word w => exact ih hargs hargs' (List.cons.inj h).2
    | hole k =>
      obtain ⟨a, as, rfl⟩ := List.exists_cons_of_length_eq_add_one hargs
      obtain ⟨b, bs, rfl⟩ := List.exists_cons_of_length_eq_add_one hargs'
      obtain ⟨harg, hrest⟩ := List.cons.inj h
      rw [hwrite k a b harg, ih (Nat.succ.inj hargs) (Nat.succ.inj hargs') hrest]

theorem compatible_of_fill [DecidableEq ω] (htext : ∀ v w, text v = text w → v = w)
    (hargs : args.length = (holes t).length) (hargs' : args'.length = (holes u).length)
    (h : fill text write t args = fill text write u args') : compatible t u = true := by
  induction t generalizing u args args' with
  | nil =>
    cases u with
    | nil => rfl
    | cons s u =>
      cases s with
      | word w => cases h
      | hole k =>
        obtain ⟨b, bs, rfl⟩ := List.exists_cons_of_length_eq_add_one hargs'
        cases h
  | cons s t ih =>
    cases s with
    | word v =>
      cases u with
      | nil => cases h
      | cons s' u =>
        cases s' with
        | word w =>
          obtain ⟨hword, hrest⟩ := List.cons.inj h
          have hcompatible := ih (u := u) hargs hargs' hrest
          simp only [compatible, htext v w hword, hcompatible, decide_true, Bool.and_self]
        | hole k =>
          obtain ⟨b, bs, rfl⟩ := List.exists_cons_of_length_eq_add_one hargs'
          exact ih hargs (Nat.succ.inj hargs') (List.cons.inj h).2
    | hole k =>
      obtain ⟨a, as, rfl⟩ := List.exists_cons_of_length_eq_add_one hargs
      cases u with
      | nil => cases h
      | cons s' u =>
        cases s' with
        | word w => exact ih (Nat.succ.inj hargs) hargs' (List.cons.inj h).2
        | hole k' =>
          obtain ⟨b, bs, rfl⟩ := List.exists_cons_of_length_eq_add_one hargs'
          exact ih (Nat.succ.inj hargs) (Nat.succ.inj hargs') (List.cons.inj h).2

end
end Stoatpp.Library
