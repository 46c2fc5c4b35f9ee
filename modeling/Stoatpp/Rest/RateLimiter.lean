import Mathlib.Logic.Function.Basic
import Mathlib.Data.List.TakeWhile
import Stoatpp.Model.Json

/-!
# The rate limiter

`utils::ratelimiter` keeps one entry for each bucket key. Instants are readings of the
steady clock in nanoseconds; the headers and the waits are in milliseconds.
-/

namespace Stoatpp.Rest

abbrev ms : ℤ := 1000000

structure BucketState where
  limit : ℤ
  remaining : ℤ
  resetAt : ℤ

abbrev Buckets := String → Option BucketState

namespace Buckets

def update (b : Buckets) (now : ℤ) (bucket : String) (limit remaining resetAfterMs : ℤ) : Buckets :=
  Function.update b bucket (some ⟨limit, remaining, now + resetAfterMs * ms⟩)

/-- The wait in whole milliseconds, rounded down by `duration_cast`. -/
def check (b : Buckets) (now : ℤ) (bucket : String) : ℤ :=
  match b bucket with
  | none => 0
  | some state =>
    if 0 < state.remaining then 0
    else if state.resetAt ≤ now then 0
    else int32 ((state.resetAt - now) / ms)

variable {b : Buckets} {now : ℤ} {bucket : String} {state : BucketState}

@[simp] theorem update_self (limit remaining reset : ℤ) :
    b.update now bucket limit remaining reset bucket =
      some ⟨limit, remaining, now + reset * ms⟩ := by
  simp [update]

theorem update_of_ne {other : String} (h : other ≠ bucket) (limit remaining reset : ℤ) :
    b.update now bucket limit remaining reset other = b other := by
  simp [update, h]

theorem check_limited (hs : b bucket = some state) (hr : state.remaining ≤ 0)
    (hn : now < state.resetAt) (hi : state.resetAt ≤ now + (2 ^ 31 - 1) * ms) :
    b.check now bucket = (state.resetAt - now) / ms := by
  simp only [check, hs, if_neg (not_lt.mpr hr), if_neg (not_le.mpr hn)]
  apply int32_of_range <;> simp only [ms] at hi ⊢ <;> omega

end Buckets

/-! ## Header numbers -/

def isSpace (c : Char) : Bool :=
  c = ' ' || c = '\t' || c = '\n' || c = '\x0b' || c = '\x0c' || c = '\r'

def digitsValue (cs : List Char) : ℕ := cs.foldl (fun n c => n * 10 + (c.toNat - '0'.toNat)) 0

/-- `std::stoi` on the characters behind leading blanks and the sign. -/
def stoiDigits (sign : ℤ) (cs : List Char) : Option ℤ :=
  let digits := cs.takeWhile Char.isDigit
  let n := sign * digitsValue digits
  if digits = [] then none
  else if n < -2 ^ 31 ∨ 2 ^ 31 ≤ n then none
  else some n

/-- `std::stoi`: trailing text is ignored, and `none` stands for the exception that no digits
or a value outside `int` raise. -/
def stoi (s : String) : Option ℤ :=
  match s.toList.dropWhile isSpace with
  | '-' :: cs => stoiDigits (-1) cs
  | '+' :: cs => stoiDigits 1 cs
  | cs => stoiDigits 1 cs

def numeral (s : String) : Option ℕ :=
  if s.toList ≠ [] ∧ s.toList.all Char.isDigit then some (digitsValue s.toList) else none

theorem stoi_range {s : String} {n : ℤ} (hs : stoi s = some n) : -2 ^ 31 ≤ n ∧ n < 2 ^ 31 := by
  have hd : ∀ sign cs, stoiDigits sign cs = some n → -2 ^ 31 ≤ n ∧ n < 2 ^ 31 := by
    intro sign cs hn
    simp only [stoiDigits] at hn
    split_ifs at hn with h1 h2
    simp only [Option.some.injEq] at hn
    omega
  unfold stoi at hs
  split at hs <;> exact hd _ _ hs

theorem stoi_unsigned {s : String} (h : ∀ c cs, s.toList = c :: cs → c.isDigit = true ∨ c = '.') :
    stoi s = stoiDigits 1 s.toList := by
  cases hs : s.toList with
  | nil => simp only [stoi, hs, List.dropWhile_nil]
  | cons c cs =>
    have hc : c.isDigit = true ∨ c = '.' := h c cs hs
    have hspace : isSpace c = false := by
      by_contra hsp
      simp only [isSpace, Bool.not_eq_false, Bool.or_eq_true, decide_eq_true_eq] at hsp
      rcases hsp with ((((rfl | rfl) | rfl) | rfl) | rfl) | rfl <;> exact absurd hc (by decide)
    simp only [stoi, hs, List.dropWhile_cons, hspace, Bool.false_eq_true, if_false]
    split
    · rename_i heq
      rw [(List.cons.inj heq).1] at hc
      exact absurd hc (by decide)
    · rename_i heq
      rw [(List.cons.inj heq).1] at hc
      exact absurd hc (by decide)
    · rfl

/-- Digits are read up to the point behind them. -/
theorem stoi_of_digits {s : String} {whole rest : List Char} (hs : s.toList = whole ++ rest)
    (hw : whole.all Char.isDigit = true) (hr : ∀ c cs, rest = c :: cs → c = '.') :
    stoi s = if whole = [] ∨ 2 ^ 31 ≤ digitsValue whole then none
      else some (digitsValue whole : ℤ) := by
  have htake : (whole ++ rest).takeWhile Char.isDigit = whole := by
    rw [List.takeWhile_append_of_pos (List.all_eq_true.mp hw)]
    cases rest with
    | nil => rw [List.takeWhile_nil, List.append_nil]
    | cons c cs =>
      rw [hr c cs rfl, List.takeWhile_cons_of_neg (by decide), List.append_nil]
  rw [stoi_unsigned, hs, stoiDigits, htake]
  · by_cases hne : whole = []
    · rw [if_pos hne, if_pos (Or.inl hne)]
    · simp only [hne, false_or, one_mul, if_false]
      split_ifs <;> first | rfl | omega
  · intro c cs hc
    rw [hs] at hc
    cases whole with
    | nil => exact Or.inr (hr c cs hc)
    | cons d ds =>
      rw [← (List.cons.inj hc).1]
      exact Or.inl (List.all_eq_true.mp hw d List.mem_cons_self)

theorem stoi_of_numeral {s : String} {n : ℕ} (h : numeral s = some n) :
    stoi s = if n < 2 ^ 31 then some (n : ℤ) else none := by
  simp only [numeral] at h
  split_ifs at h with hd
  rw [stoi_of_digits (List.append_nil _).symm hd.2 (fun _ _ hc => by cases hc), Option.some.inj h]
  simp only [hd.1, false_or]
  split_ifs <;> first | rfl | omega

end Stoatpp.Rest
