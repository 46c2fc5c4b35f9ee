import Mathlib.Data.List.Basic

/-!
# Percent-decoding

An escape is a percent sign and two hexadecimal digits; everything else stands for itself. The
text is shorter behind each escape, so it is left as it is exactly if it has none.
-/

namespace Stoatpp.Library

abbrev Bytes := List UInt8

def hexValue? (c : UInt8) : Option UInt8 :=
  if 48 ≤ c ∧ c ≤ 57 then some (c - 48)
  else if 65 ≤ c ∧ c ≤ 70 then some (c - 55)
  else if 97 ≤ c ∧ c ≤ 102 then some (c - 87)
  else none

def percentDecode : Bytes → Bytes
  | 37 :: a :: b :: rest =>
    match hexValue? a, hexValue? b with
    | some x, some y => (16 * x + y) :: percentDecode rest
    | _, _ => 37 :: percentDecode (a :: b :: rest)
  | c :: rest => c :: percentDecode rest
  | [] => []

def HasEscape (s : Bytes) : Prop :=
  ∃ before a b after, s = before ++ 37 :: a :: b :: after ∧ (hexValue? a).isSome ∧ (hexValue? b).isSome

theorem percentDecode_length_le (s : Bytes) : (percentDecode s).length ≤ s.length := by
  fun_induction percentDecode s with
  | case1 a b rest x y hx hy ih => simp only [List.length_cons]; omega
  | case2 a b rest h ih => simpa using ih
  | case3 c rest h ih => simpa using ih
  | case4 => exact Nat.le_refl _

theorem hasEscape_cons {c : UInt8} {s : Bytes} (h : HasEscape s) : HasEscape (c :: s) := by
  obtain ⟨before, a, b, after, rfl, ha, hb⟩ := h
  exact ⟨c :: before, a, b, after, rfl, ha, hb⟩

/-- An escape of a longer text starts it or is one of the rest. -/
theorem hasEscape_of_cons {c : UInt8} {s : Bytes} (h : HasEscape (c :: s)) :
    (∃ a b rest, c = 37 ∧ s = a :: b :: rest ∧ (hexValue? a).isSome ∧ (hexValue? b).isSome) ∨
      HasEscape s := by
  obtain ⟨before, a, b, after, heq, ha, hb⟩ := h
  cases before with
  | nil =>
    obtain ⟨rfl, rfl⟩ := List.cons.inj heq
    exact Or.inl ⟨a, b, after, rfl, rfl, ha, hb⟩
  | cons x before =>
    obtain ⟨rfl, rfl⟩ := List.cons.inj heq
    exact Or.inr ⟨before, a, b, after, rfl, ha, hb⟩

theorem percentDecode_eq_self_iff (s : Bytes) : percentDecode s = s ↔ ¬ HasEscape s := by
  fun_induction percentDecode s with
  | case1 a b rest x y hb ha ih =>
    refine iff_of_false (fun heq => ?_) (not_not_intro
      ⟨[], a, b, rest, rfl, Option.isSome_of_eq_some ha, Option.isSome_of_eq_some hb⟩)
    have hlength := congrArg List.length heq
    have := percentDecode_length_le rest
    simp only [List.length_cons] at hlength
    omega
  | case2 a b rest h ih =>
    rw [List.cons.injEq, eq_self_iff_true, true_and, ih, not_iff_not]
    refine ⟨hasEscape_cons, fun hesc => (hasEscape_of_cons hesc).resolve_left ?_⟩
    rintro ⟨a', b', rest', -, heq, ha, hb⟩
    simp only [List.cons.injEq] at heq
    obtain ⟨rfl, rfl, -⟩ := heq
    obtain ⟨x, hx⟩ := Option.isSome_iff_exists.mp ha
    obtain ⟨y, hy⟩ := Option.isSome_iff_exists.mp hb
    exact h x y hx hy
  | case3 c rest h ih =>
    rw [List.cons.injEq, eq_self_iff_true, true_and, ih, not_iff_not]
    refine ⟨hasEscape_cons, fun hesc => (hasEscape_of_cons hesc).resolve_left ?_⟩
    rintro ⟨a, b, rest', rfl, rfl, -, -⟩
    exact h a b rest' rfl rfl
  | case4 =>
    refine iff_of_true rfl ?_
    rintro ⟨before, a, b, after, heq, -, -⟩
    simp at heq

theorem percentDecode_cons {c : UInt8} (hc : c ≠ 37) (rest : Bytes) :
    percentDecode (c :: rest) = c :: percentDecode rest := by
  rw [percentDecode]
  rintro a b rest' rfl
  exact absurd rfl hc

theorem percentDecode_append {s : Bytes} (hs : 37 ∉ s) (rest : Bytes) :
    percentDecode (s ++ rest) = s ++ percentDecode rest := by
  induction s with
  | nil => rfl
  | cons c s ih =>
    simp only [List.mem_cons, not_or] at hs
    rw [List.cons_append, percentDecode_cons (Ne.symm hs.1), ih hs.2, List.cons_append]

end Stoatpp.Library
