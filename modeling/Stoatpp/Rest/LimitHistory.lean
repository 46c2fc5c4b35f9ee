import Mathlib.Tactic.SplitIfs
import Stoatpp.Rest.Request

/-!
# The wait after a history of updates

Only the last update of a bucket counts, and the wait that `check` returns is the time left until
its reset in whole milliseconds. What is left over is dropped, so that a caller which sleeps that
long is early by the fraction, and does not sleep at all in the last millisecond.
-/

namespace Stoatpp.Rest

/-- One call of `ratelimiter::update`, at its reading of the clock. -/
structure LimitUpdate where
  time : ℤ
  bucket : String
  limit : ℤ
  remaining : ℤ
  resetAfterMs : ℤ
  isInt : -2 ^ 31 ≤ resetAfterMs ∧ resetAfterMs < 2 ^ 31

def LimitUpdate.apply (b : Buckets) (u : LimitUpdate) : Buckets :=
  b.update u.time u.bucket u.limit u.remaining u.resetAfterMs

def LimitUpdate.resetAt (u : LimitUpdate) : ℤ := u.time + u.resetAfterMs * ms

def limitsAfter (us : List LimitUpdate) : Buckets := us.foldl LimitUpdate.apply fun _ => none

def lastUpdate (us : List LimitUpdate) (bucket : String) : Option LimitUpdate :=
  (us.filter (·.bucket = bucket)).getLast?

def Buckets.isLimited (b : Buckets) (now : ℤ) (bucket : String) : Bool := 0 < b.check now bucket

/-- The last update leaves a request at this instant in its bucket, or its reset is over. -/
def Unlimited (us : List LimitUpdate) (bucket : String) (now : ℤ) : Prop :=
  ∀ u, lastUpdate us bucket = some u → 0 < u.remaining ∨ u.resetAt ≤ now

/-- No fraction of a millisecond is left of the time until the reset. -/
def WholeLeft (us : List LimitUpdate) (bucket : String) (now : ℤ) : Prop :=
  ∀ u, lastUpdate us bucket = some u → u.remaining ≤ 0 → now < u.resetAt → (u.resetAt - now) % ms = 0

variable {us : List LimitUpdate} {u : LimitUpdate} {bucket : String} {now : ℤ}

theorem lastUpdate_concat : lastUpdate (us ++ [u]) bucket =
    if u.bucket = bucket then some u else lastUpdate us bucket := by
  unfold lastUpdate
  rw [List.filter_append]
  split_ifs with h
  · rw [List.filter_cons_of_pos (by simpa using h), List.filter_nil, List.getLast?_concat]
  · rw [List.filter_cons_of_neg (by simpa using h), List.filter_nil, List.append_nil]

theorem lastUpdate_mem (hu : lastUpdate us bucket = some u) : u ∈ us :=
  (List.mem_filter.mp (List.mem_of_getLast? hu)).1

theorem limitsAfter_concat : limitsAfter (us ++ [u]) = LimitUpdate.apply (limitsAfter us) u := by
  simp only [limitsAfter, List.foldl_append, List.foldl_cons, List.foldl_nil]

theorem limitsAfter_eq (us : List LimitUpdate) (bucket : String) : limitsAfter us bucket =
    (lastUpdate us bucket).map fun u => ⟨u.limit, u.remaining, u.resetAt⟩ := by
  induction us using List.reverseRecOn with
  | nil => rfl
  | append_singleton us u ih =>
    rw [limitsAfter_concat, lastUpdate_concat, LimitUpdate.apply]
    split_ifs with h
    · rw [← h, Buckets.update_self]
      rfl
    · rw [Buckets.update_of_ne (Ne.symm h), ih]

/-! ## What `check` returns -/

theorem check_unlimited (h : Unlimited us bucket now) : (limitsAfter us).check now bucket = 0 := by
  unfold Buckets.check
  rw [limitsAfter_eq]
  cases hu : lastUpdate us bucket with
  | none => rfl
  | some u =>
    simp only [Option.map_some]
    split_ifs with hr hn
    · rfl
    · rfl
    · exact absurd (h u hu) (not_or.mpr ⟨hr, hn⟩)

theorem check_left (ht : ∀ u ∈ us, u.time ≤ now) (hu : lastUpdate us bucket = some u)
    (hr : u.remaining ≤ 0) (hn : now < u.resetAt) :
    (limitsAfter us).check now bucket = (u.resetAt - now) / ms := by
  have hs : limitsAfter us bucket = some ⟨u.limit, u.remaining, u.resetAt⟩ := by
    rw [limitsAfter_eq, hu, Option.map_some]
  apply Buckets.check_limited hs hr hn
  have htime : u.time ≤ now := ht u (lastUpdate_mem hu)
  have hint := u.isInt.2
  simp only [LimitUpdate.resetAt, ms]
  omega

theorem not_unlimited (h : ¬ Unlimited us bucket now) :
    ∃ u, lastUpdate us bucket = some u ∧ u.remaining ≤ 0 ∧ now < u.resetAt := by
  simp only [Unlimited, not_forall, not_or] at h
  obtain ⟨u, hu, hr, hn⟩ := h
  exact ⟨u, hu, Int.not_lt.mp hr, Int.not_le.mp hn⟩

theorem isLimited_iff (ht : ∀ u ∈ us, u.time ≤ now) : (limitsAfter us).isLimited now bucket = true ↔
    ∃ u, lastUpdate us bucket = some u ∧ u.remaining ≤ 0 ∧ now + ms ≤ u.resetAt := by
  unfold Buckets.isLimited
  rw [decide_eq_true_eq]
  constructor
  · intro hw
    have hl : ¬ Unlimited us bucket now := fun h => by
      rw [check_unlimited h] at hw
      exact Int.lt_irrefl 0 hw
    obtain ⟨u, hu, hr, hn⟩ := not_unlimited hl
    rw [check_left ht hu hr hn] at hw
    refine ⟨u, hu, hr, ?_⟩
    simp only [ms] at hw ⊢
    omega
  · rintro ⟨u, hu, hr, hn⟩
    rw [check_left ht hu hr (by simp only [ms] at hn; omega)]
    simp only [ms] at hn ⊢
    omega

theorem check_bounds (ht : ∀ u ∈ us, u.time ≤ now) (bucket : String) :
    0 ≤ (limitsAfter us).check now bucket ∧ (limitsAfter us).check now bucket ≤
      max 0 (((lastUpdate us bucket).map LimitUpdate.resetAfterMs).getD 0) := by
  by_cases h : Unlimited us bucket now
  · rw [check_unlimited h]
    omega
  · obtain ⟨u, hu, hr, hn⟩ := not_unlimited h
    have htime : u.time ≤ now := ht u (lastUpdate_mem hu)
    rw [check_left ht hu hr hn, hu, Option.map_some, Option.getD_some]
    simp only [LimitUpdate.resetAt, ms] at hn ⊢
    omega

/-- The wait is never negative nor longer than the last reset. That it is zero only for a bucket
that is not limited, and that a thread which sleeps it wakes up behind the reset, holds exactly
when what is left of the reset is a whole number of milliseconds. -/
theorem check_exact_iff (us : List LimitUpdate) (bucket : String) (now : ℤ)
    (ht : ∀ u ∈ us, u.time ≤ now) :
    let w := (limitsAfter us).check now bucket
    (0 ≤ w ∧ w ≤ max 0 (((lastUpdate us bucket).map LimitUpdate.resetAfterMs).getD 0)) ∧
    ((w = 0 ↔ Unlimited us bucket now) ∧
      (∀ u, lastUpdate us bucket = some u → u.remaining ≤ 0 → now < u.resetAt →
        ∀ late : ℕ, u.resetAt ≤ (Client.sleep ⟨now, limitsAfter us⟩ w late).now) ↔
      WholeLeft us bucket now) := by
  intro w
  have hw := check_bounds ht bucket
  refine ⟨hw, ?_⟩
  constructor
  · rintro ⟨-, hslept⟩ u hu hr hn
    have hs := hslept u hu hr hn 0
    rw [Client.sleep_now, max_eq_right hw.1, check_left ht hu hr hn] at hs
    simp only [ms] at hs ⊢
    omega
  · intro hwhole
    refine ⟨⟨fun hzero => ?_, check_unlimited⟩, fun u hu hr hn late => ?_⟩
    · by_contra hl
      obtain ⟨u, hu, hr, hn⟩ := not_unlimited hl
      have hleft := hwhole u hu hr hn
      have hcheck : w = (u.resetAt - now) / ms := check_left ht hu hr hn
      rw [hcheck] at hzero
      simp only [ms] at hzero hleft
      omega
    · have hleft := hwhole u hu hr hn
      rw [Client.sleep_now, max_eq_right hw.1, check_left ht hu hr hn]
      simp only [ms] at hleft ⊢
      omega

def exhausted (resetAfterMs : ℤ) (h : -2 ^ 31 ≤ resetAfterMs ∧ resetAfterMs < 2 ^ 31) : LimitUpdate :=
  ⟨0, "GET:/users/@me", 5, 0, resetAfterMs, h⟩

theorem second_left_exact :
    let us := [exhausted 1000 (by decide)]
    let w := (limitsAfter us).check 400000000 "GET:/users/@me"
    w = 600 ∧ (w = 0 ↔ Unlimited us "GET:/users/@me" 400000000) := by
  intro us w
  have hexact := check_exact_iff us "GET:/users/@me" 400000000 fun u hu => by
    rw [List.mem_singleton.mp hu]
    decide
  refine ⟨by decide, (hexact.2.mpr fun u hu _ _ => ?_).1⟩
  rw [← Option.some.inj hu]
  decide

/-- Half a millisecond before its reset the exhausted bucket is not limited. -/
theorem last_fraction_dropped :
    let us := [exhausted 1 (by decide)]
    (limitsAfter us).check 500000 "GET:/users/@me" = 0 ∧
      ¬ Unlimited us "GET:/users/@me" 500000 := by
  refine ⟨by decide, fun h => ?_⟩
  have hfree := h _ rfl
  exact absurd hfree (by decide)

end Stoatpp.Rest
