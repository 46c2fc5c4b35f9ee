import Mathlib.Algebra.Order.Field.Rat
import Mathlib.Tactic.Positivity
import Mathlib.Tactic.Linarith
import Stoatpp.Rest.Attempts
import Stoatpp.Rest.Upload

/-!
# The delay that a 429 states

Both retry loops take the delay from the body, else from a header, else from the configuration.
On its way to `sleep_for` it is an `int`: a JSON number is narrowed to one, the header is read
by `stoi`, which stops at the point of a decimal number and throws on values outside `int`, and
the upload multiplies by 1000.
-/

namespace Stoatpp.Rest
open Stoatpp.Library

/-- A number in decimal notation, with the digits behind the point if there is one. -/
structure Decimal where
  whole : List Char
  fraction : Option (List Char)
  areDigits : (whole ++ fraction.getD []).all Char.isDigit = true
  notEmpty : whole ++ fraction.getD [] ≠ []

namespace Decimal

def text (x : Decimal) : String := .ofList (x.whole ++ (x.fraction.map ('.' :: ·)).getD [])

def fractionDigits (x : Decimal) : List Char := x.fraction.getD []

def value (x : Decimal) : ℚ :=
  digitsValue x.whole + digitsValue x.fractionDigits / 10 ^ x.fractionDigits.length

variable {x : Decimal}

theorem text_ne_empty (x : Decimal) : x.text ≠ "" := by
  intro h
  have hl := congrArg String.toList h
  rw [text, String.toList_ofList] at hl
  have hne := x.notEmpty
  cases hf : x.fraction with
  | none => exact hne (by simpa [hf] using hl)
  | some ds => simp [hf] at hl

theorem stoi_text (x : Decimal) : stoi x.text =
    if x.whole = [] ∨ 2 ^ 31 ≤ digitsValue x.whole then none else some (digitsValue x.whole : ℤ) := by
  apply stoi_of_digits String.toList_ofList
  · have hd := x.areDigits
    rw [List.all_append, Bool.and_eq_true] at hd
    exact hd.1
  · intro c cs hc
    cases hf : x.fraction with
    | none => simp [hf] at hc
    | some ds =>
      rw [hf, Option.map_some, Option.getD_some] at hc
      exact (List.cons.inj hc).1.symm

theorem value_le_whole : x.value ≤ digitsValue x.whole ↔ digitsValue x.fractionDigits = 0 := by
  unfold value
  constructor
  · intro h
    by_contra hne
    have hpos : (0 : ℚ) < digitsValue x.fractionDigits := by
      exact_mod_cast Nat.pos_of_ne_zero hne
    have hf : (0 : ℚ) < digitsValue x.fractionDigits / 10 ^ x.fractionDigits.length := by positivity
    linarith
  · intro h
    rw [h, Nat.cast_zero, zero_div, add_zero]

end Decimal

/-- Where a 429 states how long to wait, and how long. -/
inductive StatedDelay where
  /-- the integer `retry_after` of the body, in milliseconds -/
  | body (n : ℕ)
  /-- the header, in the unit of the endpoint -/
  | header (x : Decimal)

namespace StatedDelay

/-- The reply states the delay in its body, or no number there and the delay in its header. -/
def In (s : StatedDelay) (j : Json) (header : String) : Prop :=
  match s with
  | .body n => j.get? "retry_after" = some (.int n)
  | .header x => (j.get? "retry_after").bind Json.number? = none ∧ header = x.text

/-- The delay in milliseconds, for a header that counts in `unit` milliseconds. -/
def delay (s : StatedDelay) (unit : ℕ) : ℚ :=
  match s with
  | .body n => n
  | .header x => x.value * unit

/-- The delay is a whole number that fits `int` on the way, or `stoi` throws on the header and the
configured delay happens to be as long. -/
def Fits (s : StatedDelay) (fallback : ℤ) (unit : ℕ) : Prop :=
  match s with
  | .body n => n < 2 ^ 31
  | .header x =>
    if x.whole = [] ∨ 2 ^ 31 ≤ digitsValue x.whole then x.value * unit ≤ (max 0 fallback : ℤ)
    else digitsValue x.fractionDigits = 0 ∧ digitsValue x.whole * unit < 2 ^ 31

end StatedDelay

/-! ## The delay in milliseconds -/

def delayMs (fallback : ℤ) (unit : ℕ) (j : Json) (header : String) : ℤ :=
  match (j.get? "retry_after").bind Json.number? with
  | some n => int32 n
  | none =>
    if header = "" then fallback
    else ((stoi header).map fun n => int32 (n * unit)).getD fallback

/-- The narrowing of the JSON number or the multiplication by the unit leaves `int`. -/
def Overflows (unit : ℕ) (j : Json) (header : String) : Prop :=
  match (j.get? "retry_after").bind Json.number? with
  | some n => int32 n ≠ n
  | none => ∃ n, stoi header = some n ∧ int32 (n * unit) ≠ n * unit

theorem retryAfter_eq (cfg : Config) (r : Reply) : retryAfter cfg r =
    delayMs cfg.ratelimitRetryDelayMs 1 r.body.toJson r.headers.resetAfter := by
  unfold retryAfter delayMs
  cases (r.body.toJson.get? "retry_after").bind Json.number? with
  | some n => rfl
  | none =>
    by_cases hh : r.headers.resetAfter = ""
    · simp only [hh, if_true]
    · simp only [hh, if_false]
      cases hn : stoi r.headers.resetAfter with
      | none => rfl
      | some n =>
        have hrange := stoi_range hn
        simp only [Option.map_some, Option.getD_some, Nat.cast_one, mul_one]
        exact (int32_of_range hrange.1 hrange.2).symm

theorem uploadRetryAfter_eq (cfg : Config) (r : UploadReply) : uploadRetryAfter cfg r =
    delayMs cfg.ratelimitRetryDelayMs 1000 r.body.toJson r.retryAfter := rfl

section
variable {j : Json} {header : String} {x : Decimal}

theorem body_fits_iff {n : ℕ} (hn : j.get? "retry_after" = some (.int n)) (fallback : ℤ) (unit : ℕ) :
    (n : ℚ) ≤ (max 0 (delayMs fallback unit j header) : ℤ) ∧ ¬ Overflows unit j header ↔
      n < 2 ^ 31 := by
  have hnum : (j.get? "retry_after").bind Json.number? = some (n : ℤ) := by
    rw [hn]
    rfl
  simp only [delayMs, Overflows, hnum, not_not]
  constructor
  · rintro ⟨-, hint⟩
    have hrange := int32_range (n : ℤ)
    omega
  · intro hlt
    have hint : int32 (n : ℤ) = n := int32_of_range (by omega) (by omega)
    rw [hint, max_eq_right (Int.natCast_nonneg n)]
    exact ⟨le_rfl, rfl⟩

theorem thrown_fits_iff (hj : (j.get? "retry_after").bind Json.number? = none)
    (hx : x.whole = [] ∨ 2 ^ 31 ≤ digitsValue x.whole) (d : ℚ) (fallback : ℤ) (unit : ℕ) :
    d ≤ (max 0 (delayMs fallback unit j x.text) : ℤ) ∧ ¬ Overflows unit j x.text ↔
      d ≤ (max 0 fallback : ℤ) := by
  have hnone : stoi x.text = none := by rw [x.stoi_text, if_pos hx]
  have hdelay : delayMs fallback unit j x.text = fallback := by
    simp only [delayMs, hj, if_neg x.text_ne_empty, hnone, Option.map_none, Option.getD_none]
  have hover : ¬ Overflows unit j x.text := by simp [Overflows, hj, hnone]
  rw [hdelay, and_iff_left hover]

theorem read_fits_iff (hj : (j.get? "retry_after").bind Json.number? = none)
    (hx : ¬ (x.whole = [] ∨ 2 ^ 31 ≤ digitsValue x.whole)) (fallback : ℤ) {unit : ℕ} (hu : 0 < unit) :
    x.value * unit ≤ (max 0 (delayMs fallback unit j x.text) : ℤ) ∧ ¬ Overflows unit j x.text ↔
      digitsValue x.fractionDigits = 0 ∧ digitsValue x.whole * unit < 2 ^ 31 := by
  have hsome : stoi x.text = some (digitsValue x.whole : ℤ) := by rw [x.stoi_text, if_neg hx]
  have hdelay : delayMs fallback unit j x.text = int32 ((digitsValue x.whole * unit : ℕ) : ℤ) := by
    simp only [delayMs, hj, if_neg x.text_ne_empty, hsome, Option.map_some, Option.getD_some,
      Nat.cast_mul]
  have hover : Overflows unit j x.text ↔ int32 ((digitsValue x.whole * unit : ℕ) : ℤ) ≠
      (digitsValue x.whole * unit : ℕ) := by
    simp only [Overflows, hj, hsome, Option.some.injEq, exists_eq_left', Nat.cast_mul]
  rw [hdelay, hover, not_not, ← Decimal.value_le_whole]
  have hunit : (0 : ℚ) < unit := by exact_mod_cast hu
  have hwhole : (((digitsValue x.whole * unit : ℕ) : ℤ) : ℚ) = digitsValue x.whole * unit := by
    push_cast
    rfl
  have hnonneg := Int.natCast_nonneg (digitsValue x.whole * unit)
  constructor
  · rintro ⟨hle, hint⟩
    rw [hint, max_eq_right hnonneg, hwhole] at hle
    have hrange := int32_range ((digitsValue x.whole * unit : ℕ) : ℤ)
    exact ⟨le_of_mul_le_mul_right hle hunit, by omega⟩
  · rintro ⟨hle, hlt⟩
    have hint : int32 ((digitsValue x.whole * unit : ℕ) : ℤ) = (digitsValue x.whole * unit : ℕ) :=
      int32_of_range (by omega) (by omega)
    rw [hint, max_eq_right hnonneg, hwhole]
    exact ⟨mul_le_mul_of_nonneg_right hle hunit.le, rfl⟩

theorem delayMs_fits_iff {s : StatedDelay} (hs : s.In j header) (fallback : ℤ) {unit : ℕ}
    (hu : 0 < unit) :
    s.delay unit ≤ (max 0 (delayMs fallback unit j header) : ℤ) ∧ ¬ Overflows unit j header ↔
      s.Fits fallback unit := by
  cases s with
  | body n => exact body_fits_iff hs fallback unit
  | header x =>
    obtain ⟨hj, rfl⟩ : _ ∧ header = x.text := hs
    by_cases hx : x.whole = [] ∨ 2 ^ 31 ≤ digitsValue x.whole
    · simp only [StatedDelay.Fits, if_pos hx]
      exact thrown_fits_iff hj hx _ fallback unit
    · simp only [StatedDelay.Fits, if_neg hx]
      exact read_fits_iff hj hx fallback hu

end

/-! ## The times of the attempts -/

def sentTime : Wire → Option ℤ
  | .sent _ _ _ time => some time
  | _ => none

def postTime : UploadEvent → Option ℤ
  | .posted _ time => some time

variable {cfg : Config} {hooks : Hooks} {req : Request} {a : Attempt} {r : Reply} {retries : ℤ}
  {c : Client} {e : Wire}

theorem sentTime_eq (e : Wire) : sentTime e = e.sent?.map Prod.snd := by
  cases e <;> rfl

theorem sentTime_answered (he : e ∈ (answered cfg hooks req a retries c).trace) :
    sentTime e = none := by
  rw [sentTime_eq, sent?_answered he, Option.map_none]

theorem attemptTurn_sent (a : Attempt) (s : ℤ × Client) :
    (attemptTurn cfg hooks req a s).trace.filterMap sentTime = [s.2.now] ∨
    (attemptTurn cfg hooks req a s).trace.filterMap sentTime = [] ∧
      ∀ s', (attemptTurn cfg hooks req a s).status ≠ .done (.inl s') := by
  rw [attemptTurn_trace]
  by_cases hr : Sendable hooks req
  · have hnil : (answered cfg hooks req a s.1 s.2).trace.filterMap sentTime = [] :=
      List.filterMap_eq_nil_iff.mpr fun e => sentTime_answered
    refine Or.inl ?_
    rw [attempt_answered hr, ← List.singleton_append, List.filterMap_append, List.filterMap_append,
      hnil]
    cases a.transport.acted <;> rfl
  · obtain ⟨fault, hf⟩ : ∃ fault, attempt cfg hooks req a s.1 s.2 = .throw (fault, s.2) :=
      attempt_refused hr
    refine Or.inr ⟨by rw [hf]; rfl, fun s' hs' => ?_⟩
    rw [attemptTurn_again, hf] at hs'
    simp at hs'

theorem attempt_limited (hres : cfg.httpRespectRatelimits = true) (ha : a.transport = .reply r)
    (h429 : r.status = 429) {n : ℤ} {c' : Client}
    (h : (attempt cfg hooks req a retries c).status = .done (.again n, c')) :
    c'.now = c.now + a.latency + max 0 (retryAfter cfg r) * ms + a.pause := by
  by_cases hr : Sendable hooks req
  · simp only [attempt_answered hr, answered, ha, afterReply, h429, hres, if_true,
      Outcome.bind_eq_andThen, Outcome.andThen, Outcome.emit, Outcome.pure_eq_ret,
      Outcome.ret_status, Status.done.injEq, Prod.mk.injEq] at h
    rw [← h.2, Client.sleep_now, noteHeaders_now, Client.after_now]
  · obtain ⟨fault, hf⟩ : ∃ fault, attempt cfg hooks req a retries c = .throw (fault, c) :=
      attempt_refused hr
    simp [hf] at h

theorem performRequest_sent {late : ℕ} {script : List Attempt} {i : ℕ} {time time' : ℤ}
    (h : ((performRequest cfg hooks req late script c).trace.filterMap sentTime)[i]? = some time)
    (h' : ((performRequest cfg hooks req late script c).trace.filterMap sentTime)[i + 1]? =
      some time') : ∃ req' a retries n c₁ c₂, script[i]? = some a ∧
      (attempt cfg hooks req' a retries c₁).status = .done (.again n, c₂) ∧
      time = c₁.now ∧ time' = c₂.now := by
  unfold performRequest at h h'
  cases hp : hooks.preHook req.method req.path req.body with
  | none => simp [hp] at h
  | some body =>
    simp only [hp, attemptLoop_eq] at h h'
    obtain ⟨a, u, t, u', ha, hagain, htime, htime'⟩ :=
      retryLoop_marks_succ (g := fun s => s.2.now) attemptTurn_sent h h'
    exact ⟨{ req with body := body }, a, u.1, u'.1, u.2, u'.2, ha,
      attemptTurn_again.mp (by rw [hagain]), htime, htime'⟩

theorem uploadFile_posted {file : Upload} {script : List UploadAttempt} {now time time' : ℤ} {i : ℕ}
    (h : ((uploadFile cfg file script now).trace.filterMap postTime)[i]? = some time)
    (h' : ((uploadFile cfg file script now).trace.filterMap postTime)[i + 1]? = some time') :
    ∃ a, script[i]? = some a ∧ time' = time + a.latency + uploadPause cfg a * ms + a.pause := by
  obtain ⟨a, s, t, s', ha, hagain, htime, htime'⟩ :=
    retryLoop_marks_succ (g := fun s => s.2) (fun a s => Or.inl (by rw [uploadAttempt_trace]; rfl)) h h'
  have hs := uploadAttempt_inl_iff.mp ⟨s', by rw [hagain]⟩
  rw [uploadAttempt_again hs.1 hs.2] at hagain
  have hnow := Sum.inl.inj (Status.done.inj (Outcome.mk.inj hagain).2)
  refine ⟨a, ha, ?_⟩
  rw [htime', htime, ← hnow]

/-! ## Whether the delay is kept -/

theorem slept {d : ℚ} {wait : ℤ} (hd : d ≤ wait) (time : ℤ) (pause : ℕ) :
    (time : ℚ) + d * ms ≤ (time + wait * ms + pause : ℤ) := by
  have hms : (0 : ℚ) ≤ (ms : ℤ) := by norm_num
  have hp : (0 : ℚ) ≤ pause := Nat.cast_nonneg pause
  have hw := mul_le_mul_of_nonneg_right hd hms
  push_cast at hw ⊢
  linarith

theorem of_slept {d : ℚ} {wait : ℤ} (h : ((0 + (0 : ℕ) : ℤ) : ℚ) + d * ms ≤ (wait * ms : ℤ)) :
    d ≤ wait := by
  push_cast at h
  linarith

/-- The delay is over when the next request is sent, in every call that gets this reply. -/
def KeptByRequests (fallback : ℤ) (d : ℚ) (r : Reply) : Prop :=
  ∀ (cfg : Config) (hooks : Hooks) (req : Request) (late : ℕ) (script : List Attempt) (c : Client)
    (i : ℕ) (a : Attempt) (time time' : ℤ),
    cfg.httpRespectRatelimits = true → cfg.ratelimitRetryDelayMs = fallback →
    script[i]? = some a → a.transport = .reply r →
    ((performRequest cfg hooks req late script c).trace.filterMap sentTime)[i]? = some time →
    ((performRequest cfg hooks req late script c).trace.filterMap sentTime)[i + 1]? = some time' →
    ((time + a.latency : ℤ) : ℚ) + d * ms ≤ time'

/-- The delay is over when the file is posted again, in every upload that gets this reply. -/
def KeptByUploads (fallback : ℤ) (d : ℚ) (r : UploadReply) : Prop :=
  ∀ (cfg : Config) (file : Upload) (script : List UploadAttempt) (now : ℤ) (i : ℕ) (a : UploadAttempt)
    (time time' : ℤ), cfg.ratelimitRetryDelayMs = fallback →
    script[i]? = some a → a.transport = .reply r →
    ((uploadFile cfg file script now).trace.filterMap postTime)[i]? = some time →
    ((uploadFile cfg file script now).trace.filterMap postTime)[i + 1]? = some time' →
    ((time + a.latency : ℤ) : ℚ) + d * ms ≤ time'

def twice (r : Reply) : List Attempt := [⟨0, .reply r, 0⟩, ⟨0, .lost false "", 0⟩]

theorem twice_sent (h429 : r.status = 429) (fallback : ℤ) :
    (performRequest { ratelimitRetryDelayMs := fallback } .none ⟨"GET", "/users/@me", .null⟩ 0 (twice r)
      (.fresh 0)).trace.filterMap sentTime =
    [0, max 0 (delayMs fallback 1 r.body.toJson r.headers.resetAfter) * ms] := by
  have hd := retryAfter_eq { ratelimitRetryDelayMs := fallback } r
  simp [performRequest, Hooks.none, attemptLoop, twice, attempt, supported, Json.isNull, afterReply,
    afterLoss, h429, Outcome.andThen, Outcome.emit, Outcome.ret, Outcome.cut, waitTime, Client.fresh,
    Buckets.check, Transport.acted, Client.sleep, Client.after, hd]
  rfl

theorem keptByRequests_iff (h429 : r.status = 429) (fallback : ℤ) (d : ℚ) :
    KeptByRequests fallback d r ↔
      d ≤ (max 0 (delayMs fallback 1 r.body.toJson r.headers.resetAfter) : ℤ) := by
  constructor
  · intro h
    have hsent := twice_sent h429 fallback
    have hkept := h { ratelimitRetryDelayMs := fallback } .none ⟨"GET", "/users/@me", .null⟩ 0 (twice r)
      (.fresh 0) 0 ⟨0, .reply r, 0⟩ 0 _ rfl rfl rfl rfl (by rw [hsent]; rfl) (by rw [hsent]; rfl)
    exact of_slept hkept
  · intro hd cfg hooks req late script c i a time time' hres hfb ha ht hx hx'
    obtain ⟨req', b, retries, n, c₁, c₂, hb, hagain, rfl, rfl⟩ := performRequest_sent hx hx'
    obtain rfl : a = b := Option.some.inj (ha.symm.trans hb)
    rw [attempt_limited hres ht h429 hagain, retryAfter_eq, hfb]
    exact slept hd _ _

theorem twice_posted {u : UploadReply} (h429 : u.status = 429) (fallback : ℤ) (file : Upload) :
    (uploadFile { ratelimitRetryDelayMs := fallback } file [⟨0, .reply u, 0⟩, ⟨0, .lost "", 0⟩]
      0).trace.filterMap postTime =
    [0, max 0 (delayMs fallback 1000 u.body.toJson u.retryAfter) * ms] := by
  have hd := uploadRetryAfter_eq { ratelimitRetryDelayMs := fallback } u
  simp [uploadFile, retryLoop, uploadAttempt, afterUploadReply, afterUploadLoss, h429,
    Outcome.andThen, Outcome.emit, Outcome.ret, Outcome.cut, postTime, hd]

theorem keptByUploads_iff {u : UploadReply} (h429 : u.status = 429) (fallback : ℤ) (d : ℚ) :
    KeptByUploads fallback d u ↔ d ≤ (max 0 (delayMs fallback 1000 u.body.toJson u.retryAfter) : ℤ) := by
  constructor
  · intro h
    have hposted := twice_posted h429 fallback ⟨"/attachments", "", [], ""⟩
    have hkept := h { ratelimitRetryDelayMs := fallback } _ _ 0 0 ⟨0, .reply u, 0⟩ 0 _ rfl rfl rfl
      (by rw [hposted]; rfl) (by rw [hposted]; rfl)
    exact of_slept hkept
  · intro hd cfg file script now i a time time' hfb ha ht hx hx'
    obtain ⟨b, hb, rfl⟩ := uploadFile_posted hx hx'
    obtain rfl : a = b := Option.some.inj (ha.symm.trans hb)
    have hp : uploadPause cfg a = max 0 (delayMs fallback 1000 u.body.toJson u.retryAfter) := by
      simp only [uploadPause, ht, uploadRetryAfter_eq, hfb]
    rw [hp]
    exact slept hd _ _

/-- Both loops wait as long as a 429 says, without an overflow on the way, exactly when the delay
fits: below 2^31 milliseconds in the body, or a whole number in the header that is below 2^31
with the unit multiplied in, or else no longer than the configured delay. -/
theorem delays_kept_iff (s : StatedDelay) (fallback : ℤ) :
    (∀ r : Reply, r.status = 429 → s.In r.body.toJson r.headers.resetAfter →
      (KeptByRequests fallback (s.delay 1) r ∧ ¬ Overflows 1 r.body.toJson r.headers.resetAfter ↔
        s.Fits fallback 1)) ∧
    (∀ r : UploadReply, r.status = 429 → s.In r.body.toJson r.retryAfter →
      (KeptByUploads fallback (s.delay 1000) r ∧ ¬ Overflows 1000 r.body.toJson r.retryAfter ↔
        s.Fits fallback 1000)) := by
  constructor
  · intro r h429 hs
    rw [keptByRequests_iff h429]
    exact delayMs_fits_iff hs fallback Nat.one_pos
  · intro r h429 hs
    rw [keptByUploads_iff h429]
    exact delayMs_fits_iff hs fallback (by omega)

def bodyReply (n : ℕ) : Reply := ⟨429, .json (.obj [("retry_after", .int n)]), ⟨"", "", "", ""⟩⟩

def headerReply (text : String) : UploadReply := ⟨429, .empty, text, by decide⟩

def twoSeconds : StatedDelay := .header ⟨['2'], none, rfl, by decide⟩

theorem whole_delays_kept : KeptByRequests 500 1500 (bodyReply 1500) ∧
    KeptByUploads 500 (twoSeconds.delay 1000) (headerReply "2") := by
  constructor
  · exact (((delays_kept_iff (.body 1500) 500).1 (bodyReply 1500) rfl rfl).mpr (by
      simp only [StatedDelay.Fits]
      norm_num)).1
  · refine (((delays_kept_iff twoSeconds 500).2 (headerReply "2") rfl ⟨rfl, rfl⟩).mpr ?_).1
    rw [twoSeconds, StatedDelay.Fits, if_neg (by decide)]
    decide

/-- Narrowed to `int`, a delay of 2^31 milliseconds is negative, and so are 2147484 seconds in
milliseconds: the next attempt is made at once. -/
theorem long_delays_dropped :
    ((performRequest {} .none ⟨"GET", "/users/@me", .null⟩ 0 (twice (bodyReply 2147483648))
        (.fresh 0)).trace.filterMap sentTime = [0, 0] ∧
      ¬ KeptByRequests 500 2147483648 (bodyReply 2147483648)) ∧
    ¬ KeptByUploads 500 2147484000 (headerReply "2147484") := by
  have hbody : delayMs 500 1 (bodyReply 2147483648).body.toJson "" = -2147483648 := by decide
  have hheader : delayMs 500 1000 .null "2147484" = -2147483296 := by decide
  refine ⟨⟨?_, fun h => ?_⟩, fun h => ?_⟩
  · have hsent := twice_sent (r := bodyReply 2147483648) rfl 500
    rw [show (bodyReply 2147483648).headers.resetAfter = "" from rfl, hbody] at hsent
    exact hsent
  · have hle := (keptByRequests_iff rfl 500 _).mp h
    rw [show (bodyReply 2147483648).headers.resetAfter = "" from rfl, hbody] at hle
    norm_num at hle
  · have hle := (keptByUploads_iff rfl 500 _).mp h
    rw [show (headerReply "2147484").body.toJson = .null from rfl,
      show (headerReply "2147484").retryAfter = "2147484" from rfl, hheader] at hle
    norm_num at hle

end Stoatpp.Rest
