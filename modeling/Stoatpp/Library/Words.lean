import Mathlib.Algebra.Group.Nat.Defs
import Mathlib.Tactic.SplitIfs
import Mathlib.Tactic.Common

/-!
# Words and their bits

A word covers a mask when it has every bit of it, and the union of words picked from a list has
a bit when the starting word or one of those picked has it. A word is also the seven low bits
put below the rest of it, as bytes with a mark in the high bit spell it.
-/

namespace Stoatpp.Library

theorem byte_cases {P : UInt8 → Prop} [DecidablePred P]
    (h : ((List.range 256).all fun n => decide (P (UInt8.ofNat n))) = true) (b : UInt8) : P b := by
  have hb := List.all_eq_true.mp h b.toNat (List.mem_range.mpr b.toNat_lt)
  rw [UInt8.ofNat_toNat] at hb
  exact of_decide_eq_true hb

/-! ## Masks -/

section
variable {w : ℕ} {x p q : BitVec w}

theorem covers_iff : x &&& p = p ↔ ∀ i, p.getLsbD i = true → x.getLsbD i = true := by
  constructor
  · intro h i hi
    have hbit := congrArg (·.getLsbD i) h
    simp only [BitVec.getLsbD_and, hi, Bool.and_true] at hbit
    exact hbit
  · intro h
    apply BitVec.eq_of_getLsbD_eq
    intro i _
    rw [BitVec.getLsbD_and]
    cases hi : p.getLsbD i with
    | false => exact Bool.and_false _
    | true => rw [h i hi, Bool.and_true]

/-- A loop that adds what `word` gives for the elements with the property. -/
theorem foldl_or_bit {α : Type} {pick : α → Prop} [DecidablePred pick] {word : α → BitVec w} {i : ℕ}
    (xs : List α) (start : BitVec w) :
    (xs.foldl (fun acc a => if pick a then acc ||| word a else acc) start).getLsbD i = true ↔
      start.getLsbD i = true ∨ ∃ a ∈ xs, pick a ∧ (word a).getLsbD i = true := by
  induction xs generalizing start with
  | nil => simp
  | cons a rest ih =>
    have hsplit : (∃ b ∈ a :: rest, pick b ∧ (word b).getLsbD i = true) ↔
        (pick a ∧ (word a).getLsbD i = true) ∨ ∃ b ∈ rest, pick b ∧ (word b).getLsbD i = true := by
      simp only [List.mem_cons, or_and_right, exists_or, exists_eq_left]
    rw [List.foldl_cons, ih, hsplit]
    by_cases ha : pick a
    · rw [if_pos ha, BitVec.getLsbD_or, Bool.or_eq_true, or_assoc, and_iff_right ha]
    · rw [if_neg ha, iff_false_intro fun h : pick a ∧ _ => ha h.1, false_or]

end

/-! ## Groups of seven bits -/

theorem shiftLeft_split (b : BitVec 64) (s : ℕ) :
    ((b &&& 127#64) <<< s) ||| ((b >>> 7) <<< (s + 7)) = b <<< s := by
  have hmask : ∀ j < 64, (127#64).getLsbD j = decide (j < 7) := by decide
  apply BitVec.eq_of_getLsbD_eq
  intro i hi
  simp only [BitVec.getLsbD_or, BitVec.getLsbD_shiftLeft, BitVec.getLsbD_and, BitVec.getLsbD_ushiftRight, hi,
    decide_true, Bool.true_and, hmask (i - s) (by omega)]
  by_cases hlow : i < s
  · have hnext : i < s + 7 := by omega
    simp [hlow, hnext]
  · by_cases hgroup : i < s + 7
    · have hindex : i - s < 7 := by omega
      simp [hlow, hgroup, hindex]
    · have hindex : 7 + (i - (s + 7)) = i - s := by omega
      have habove : ¬ i - s < 7 := by omega
      simp [hlow, hgroup, hindex, habove]

theorem toBitVec_shiftLeft (x : UInt64) {shift : ℕ} (h : shift < 64) :
    (x <<< UInt64.ofNat shift).toBitVec = x.toBitVec <<< shift := by
  have hmod : shift % 2 ^ 64 % 64 = shift := by omega
  rw [UInt64.toBitVec_shiftLeft, BitVec.shiftLeft_eq']
  congr 1

theorem or_shiftLeft_split (val x : UInt64) {shift : ℕ} (h : shift + 7 < 64) :
    (val ||| (x &&& 0x7F) <<< UInt64.ofNat shift) ||| (x >>> 7) <<< UInt64.ofNat (shift + 7) =
      val ||| x <<< UInt64.ofNat shift := by
  apply UInt64.toBitVec_inj.mp
  have hsplit := shiftLeft_split x.toBitVec shift
  have hshift : shift < 64 := by omega
  rw [UInt64.toBitVec_or, UInt64.toBitVec_or, UInt64.toBitVec_or, toBitVec_shiftLeft _ hshift,
    toBitVec_shiftLeft _ h, toBitVec_shiftLeft _ hshift, BitVec.or_assoc]
  exact congrArg (val.toBitVec ||| ·) hsplit

theorem continued_byte (b : UInt8) :
    ((b &&& 0x7F) ||| 0x80) &&& 0x7F = b &&& 0x7F ∧ ((b &&& 0x7F) ||| 0x80) &&& 0x80 ≠ 0 := by
  revert b
  exact byte_cases (by decide +kernel)

theorem last_byte (b : UInt8) : (b &&& 0x7F) &&& 0x7F = b &&& 0x7F ∧ (b &&& 0x7F) &&& 0x80 = 0 := by
  revert b
  exact byte_cases (by decide +kernel)

theorem low_toNat (x : UInt64) : (x &&& 0x7F).toNat = x.toNat % 128 := by
  rw [UInt64.toNat_and]
  exact Nat.and_two_pow_sub_one_eq_mod x.toNat 7

theorem low_toUInt64 (x : UInt64) : (x.toUInt8 &&& 0x7F).toUInt64 = x &&& 0x7F := by
  apply UInt64.toNat_inj.mp
  have hbyte : (x.toUInt8 &&& 0x7F).toNat = x.toUInt8.toNat % 128 :=
    Nat.and_two_pow_sub_one_eq_mod x.toUInt8.toNat 7
  rw [UInt8.toNat_toUInt64, hbyte, low_toNat, UInt64.toNat_toUInt8]
  omega

theorem shiftRight_toNat (x : UInt64) : (x >>> 7).toNat = x.toNat / 128 := by
  rw [UInt64.toNat_shiftRight, Nat.shiftRight_eq_div_pow]
  rfl

/-- A value that needs another byte leaves room for seven bits above the shift. -/
theorem septet_room {x : UInt64} {shift : ℕ} (hlarge : 0x80 ≤ x) (hx : x.toNat * 2 ^ shift < 2 ^ 64) :
    shift + 7 < 64 ∧ (x >>> 7).toNat * 2 ^ (shift + 7) < 2 ^ 64 := by
  have hval : 128 ≤ x.toNat := UInt64.le_iff_toNat_le.mp hlarge
  constructor
  · have hpow : 2 ^ 7 * 2 ^ shift < 2 ^ 64 := Nat.lt_of_le_of_lt (Nat.mul_le_mul_right _ hval) hx
    rw [← Nat.pow_add] at hpow
    have hexp := (Nat.pow_lt_pow_iff_right (by decide : 1 < 2)).mp hpow
    omega
  · have hsplit : (x >>> 7).toNat * 2 ^ (shift + 7) = x.toNat / 128 * 128 * 2 ^ shift := by
      rw [shiftRight_toNat, Nat.pow_add, Nat.mul_comm (2 ^ shift), Nat.mul_assoc]
    rw [hsplit]
    exact Nat.lt_of_le_of_lt (Nat.mul_le_mul_right _ (Nat.div_mul_le_self _ _)) hx

/-- A byte that is not the last gives its seven bits and says that more follow. -/
theorem continued_septet (x : UInt64) : (((x &&& 0x7F) ||| 0x80).toUInt8 &&& 0x7F).toUInt64 = x &&& 0x7F ∧
    ((x &&& 0x7F) ||| 0x80).toUInt8 &&& 0x80 ≠ 0 := by
  have hbyte : ((x &&& 0x7F) ||| 0x80).toUInt8 = (x.toUInt8 &&& 0x7F) ||| 0x80 := by
    rw [UInt64.toUInt8_or, UInt64.toUInt8_and]
    rfl
  obtain ⟨hlow, hhigh⟩ := continued_byte x.toUInt8
  rw [hbyte, hlow, low_toUInt64]
  exact ⟨rfl, hhigh⟩

theorem last_septet {x : UInt64} (h : ¬ 0x80 ≤ x) :
    ((x &&& 0x7F).toUInt8 &&& 0x7F).toUInt64 = x ∧ (x &&& 0x7F).toUInt8 &&& 0x80 = 0 := by
  have hbyte : (x &&& 0x7F).toUInt8 = x.toUInt8 &&& 0x7F := by
    rw [UInt64.toUInt8_and]
    rfl
  have hsmall : x.toNat < 128 := Nat.lt_of_not_le fun hle => h (UInt64.le_iff_toNat_le.mpr hle)
  have hmask : x &&& 0x7F = x := by
    apply UInt64.toNat_inj.mp
    rw [low_toNat, Nat.mod_eq_of_lt hsmall]
  obtain ⟨hlow, hhigh⟩ := last_byte x.toUInt8
  rw [hbyte, hlow, low_toUInt64, hmask]
  exact ⟨rfl, hhigh⟩

end Stoatpp.Library
