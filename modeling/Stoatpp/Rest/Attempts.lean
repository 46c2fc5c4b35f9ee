import Stoatpp.Rest.Request

/-!
# How many attempts one request takes

The retry loop goes round again after a lost connection, which counts against
`http_retry_count`, and after a 429 while rate limits are respected, which counts against
nothing. A server that keeps answering 429 keeps the call for as long as it likes.
-/

namespace Stoatpp.Rest
open Stoatpp.Library

def Attempt.lost (a : Attempt) : Bool :=
  match a.transport with
  | .lost _ _ => true
  | .reply _ => false

/-- The hook returns, and the body it leaves and the method can be sent. -/
def Reaches (hooks : Hooks) (req : Request) : Prop :=
  ∃ body, hooks.preHook req.method req.path req.body = some body ∧
    (!body.isNull && (hooks.dump body).isNone) = false ∧ supported req.method = true

/-- What an attempt is answered with ends the loop. -/
def Decides (cfg : Config) (a : Attempt) (retries : ℤ) : Prop :=
  match a.transport with
  | .lost _ _ => cfg.httpRetryCount ≤ retries
  | .reply r => cfg.httpRespectRatelimits = true → r.status ≠ 429

def EndsWithin (cfg : Config) (hooks : Hooks) (req : Request) (late : ℕ) (outcomes : ℕ → Attempt)
    (c : Client) (n : ℕ) : Prop :=
  (performRequest cfg hooks req late ((List.range n).map outcomes) c).status ≠ .running

variable {cfg : Config} {hooks : Hooks} {req : Request} {a : Attempt} {retries : ℤ} {c : Client}
  {h : List Wire}

/-! ## One attempt -/

theorem report_ends {P : Prop} (hP : P) (status : ℤ) (message : String) :
    (report hooks req status message c).Meets h (fun _ _ => P) (fun _ _ => P) fun _ => False := by
  unfold report
  cases hooks.errorCb with
  | none => exact Outcome.meets_ret hP
  | some cb =>
    apply Outcome.meets_emit_andThen
    by_cases hcb : cb req.method req.path status message = true
    · rw [if_pos hcb]
      exact Outcome.meets_ret hP
    · rw [if_neg hcb]
      exact Outcome.meets_throw hP

/-- The loop goes on with `n` retries, or the attempt decides it. -/
def GoesOn (cfg : Config) (a : Attempt) (retries : ℤ) : Next → Prop
  | .again n => ¬ Decides cfg a retries ∧ n = if a.lost then retries + 1 else retries
  | .finished _ => Decides cfg a retries

theorem attempt_ends (hdump : (!req.body.isNull && (hooks.dump req.body).isNone) = false)
    (hs : supported req.method = true) :
    (attempt cfg hooks req a retries c).Meets h (fun _ x => GoesOn cfg a retries x.1)
      (fun _ _ => Decides cfg a retries) fun _ => False := by
  refine attempt_rule (fun hr => absurd ⟨hdump, hs⟩ hr) fun _ => ?_
  unfold answered
  cases ht : a.transport with
  | lost acted error =>
    simp only [afterLoss, Outcome.bind_eq_andThen, Outcome.pure_eq_ret]
    by_cases hretry : retries < cfg.httpRetryCount
    · rw [if_pos hretry]
      refine Outcome.meets_ret ⟨?_, by simp [Attempt.lost, ht]⟩
      simpa only [Decides, ht, not_le] using hretry
    · rw [if_neg hretry]
      have hd : Decides cfg a retries := by simpa only [Decides, ht, not_lt] using hretry
      exact (report_ends hd _ _).andThen fun _ _ hd => Outcome.meets_ret hd
  | reply r =>
    simp only [afterReply, Outcome.bind_eq_andThen, Outcome.pure_eq_ret]
    apply Outcome.meets_emit_andThen
    by_cases h429 : r.status = 429
    · rw [if_pos h429]
      by_cases hres : cfg.httpRespectRatelimits = true
      · rw [if_pos hres]
        refine Outcome.meets_ret ⟨?_, by simp [Attempt.lost, ht]⟩
        simp only [Decides, ht]
        exact fun hd => hd hres h429
      · rw [if_neg hres]
        have hd : Decides cfg a retries := by
          simp only [Decides, ht]
          exact fun hr => absurd hr hres
        exact (report_ends hd _ _).andThen fun _ _ hd => Outcome.meets_throw hd
    · rw [if_neg h429]
      have hd : Decides cfg a retries := by
        simp only [Decides, ht]
        exact fun _ => h429
      by_cases hbad : r.status < 200 ∨ 300 ≤ r.status
      · rw [if_pos hbad]
        cases errorMessage hooks r.status r.body.toJson with
        | none => exact Outcome.meets_throw hd
        | some message => exact (report_ends hd _ _).andThen fun _ _ hd => Outcome.meets_ret hd
      · rw [if_neg hbad]
        exact Outcome.meets_ret hd

/-! ## The loop -/

/-- No attempt so far has been answered for good, and the lost ones were few enough. -/
def Open (cfg : Config) (script : List Attempt) (retries : ℤ) : Prop :=
  (∀ a ∈ script, ∀ r, a.transport = .reply r → cfg.httpRespectRatelimits = true ∧ r.status = 429) ∧
    script.countP Attempt.lost ≤ (cfg.httpRetryCount - retries).toNat

theorem open_cons {rest : List Attempt} : Open cfg (a :: rest) retries ↔
    ¬ Decides cfg a retries ∧ Open cfg rest (if a.lost then retries + 1 else retries) := by
  unfold Open Decides
  simp only [List.forall_mem_cons, List.countP_cons]
  cases ht : a.transport with
  | lost acted error =>
    have hl : a.lost = true := by simp [Attempt.lost, ht]
    simp only [reduceCtorEq, false_imp_iff, implies_true, true_and, hl, if_true, not_le]
    constructor
    · rintro ⟨hr, hn⟩
      exact ⟨by omega, hr, by omega⟩
    · rintro ⟨hlt, hr, hn⟩
      exact ⟨hr, by omega⟩
  | reply r =>
    have hl : a.lost = false := by simp [Attempt.lost, ht]
    simp only [hl, Bool.false_eq_true, if_false, Nat.add_zero, Transport.reply.injEq, forall_eq',
      Classical.not_imp, not_not]
    exact and_assoc

theorem attemptLoop_running_iff
    (hdump : (!req.body.isNull && (hooks.dump req.body).isNone) = false)
    (hs : supported req.method = true) (script : List Attempt) :
    (attemptLoop cfg hooks req script retries c).status = .running ↔ Open cfg script retries := by
  induction script generalizing retries c with
  | nil => simp [attemptLoop, Outcome.cut, Open]
  | cons a rest ih =>
    have hm : (attempt cfg hooks req a retries c).Meets [] _ _ _ := attempt_ends hdump hs
    rw [open_cons]
    unfold Outcome.Meets at hm
    simp only [attemptLoop, Outcome.bind_eq_andThen, Outcome.andThen]
    cases hstatus : (attempt cfg hooks req a retries c).status with
    | done x =>
      obtain ⟨next, c'⟩ := x
      rw [hstatus] at hm
      cases next with
      | again n =>
        obtain ⟨hd, rfl⟩ := hm
        simp only [ih, hd, not_false_eq_true, true_and]
      | finished response =>
        have hd : Decides cfg a retries := hm
        simp [hd]
    | thrown x =>
      rw [hstatus] at hm
      simp [hm]
    | running =>
      rw [hstatus] at hm
      exact hm.elim

theorem endsWithin_iff (late : ℕ) (outcomes : ℕ → Attempt) {n : ℕ} (hn : 0 < n) :
    EndsWithin cfg hooks req late outcomes c n ↔
      ¬ (Reaches hooks req ∧ Open cfg ((List.range n).map outcomes) 0) := by
  unfold EndsWithin performRequest Reaches
  cases hp : hooks.preHook req.method req.path req.body with
  | none => simp [Outcome.throw]
  | some body =>
    simp only [Option.some.injEq, exists_eq_left']
    by_cases hr : Sendable hooks { req with body := body }
    · simp only [hr, and_self, true_and]
      exact not_congr (attemptLoop_running_iff (by exact hr.1) (by exact hr.2) _)
    · simp only [hr, false_and, not_false_eq_true, iff_true]
      obtain ⟨m, rfl⟩ := Nat.exists_eq_succ_of_ne_zero hn.ne'
      obtain ⟨fault, hf⟩ : ∃ fault, attempt cfg hooks { req with body := body } (outcomes 0) 0
          (c.sleep (waitTime cfg req c) late) = .throw fault :=
        (attempt_refused hr).imp' _ fun _ hf => hf
      rw [List.range_succ_eq_map, List.map_cons, attemptLoop, hf]
      simp [Outcome.andThen, Outcome.throw]

/-! ## The bound -/

theorem countP_lost {script : List Attempt} (h : ∀ a ∈ script, ∀ r, a.transport ≠ .reply r) :
    script.countP Attempt.lost = script.length := by
  rw [List.countP_eq_length]
  intro a ha
  cases ht : a.transport with
  | lost acted error => simp [Attempt.lost, ht]
  | reply r => exact absurd ht (h a ha r)

/-- A number of attempts that depends on `http_retry_count` only bounds a call exactly when the
server does not keep it busy with 429s. -/
theorem attempts_bounded_iff (cfg : Config) (hooks : Hooks) (req : Request) (late : ℕ)
    (outcomes : ℕ → Attempt) (c : Client) (extra : ℤ → ℕ) :
    let n := 1 + cfg.httpRetryCount.toNat + extra cfg.httpRetryCount
    EndsWithin cfg hooks req late outcomes c n ↔
      cfg.httpRespectRatelimits = false ∨ ¬ Reaches hooks req ∨
      (∃ i < n, ∃ r, (outcomes i).transport = .reply r ∧ r.status ≠ 429) ∨
      cfg.httpRetryCount.toNat < ((List.range n).map outcomes).countP Attempt.lost := by
  intro n
  rw [endsWithin_iff late outcomes (by omega), Open, sub_zero, not_and, not_and, not_le]
  constructor
  · intro h
    by_cases hr : Reaches hooks req
    · by_cases hreply : ∃ i < n, ∃ r, (outcomes i).transport = .reply r ∧ r.status ≠ 429
      · exact Or.inr (Or.inr (Or.inl hreply))
      · by_cases hres : cfg.httpRespectRatelimits = true
        · refine Or.inr (Or.inr (Or.inr (h hr ?_)))
          simp only [List.forall_mem_map, List.mem_range]
          intro i hi r ht
          exact ⟨hres, by_contra fun h429 => hreply ⟨i, hi, r, ht, h429⟩⟩
        · exact Or.inl (Bool.eq_false_iff.mpr hres)
    · exact Or.inr (Or.inl hr)
  · intro h hr hopen
    rcases h with hres | hnot | ⟨i, hi, r, ht, h429⟩ | hlost
    · -- where a 429 ends the loop, no attempt was answered and all were lost
      rw [countP_lost fun a ha r ht => by simpa [hres] using hopen a ha r ht]
      simp only [List.length_map, List.length_range]
      omega
    · exact absurd hr hnot
    · exact absurd (hopen _ (List.mem_map_of_mem (List.mem_range.mpr hi)) r ht).2 h429
    · exact hlost

def rateLimited : Attempt := ⟨0, .reply ⟨429, .empty, ⟨"", "", "", ""⟩⟩, 0⟩

theorem rate_limited_unbounded : ¬ ∃ bound : ℤ → ℕ, ∀ (cfg : Config) (hooks : Hooks) (req : Request)
    (late : ℕ) (outcomes : ℕ → Attempt) (c : Client),
    EndsWithin cfg hooks req late outcomes c (bound cfg.httpRetryCount) := by
  rintro ⟨bound, h⟩
  have hends := h {} .none ⟨"GET", "/users/@me", .null⟩ 0 (fun _ => rateLimited) (.fresh 0)
  rcases Nat.eq_zero_or_pos (bound ({} : Config).httpRetryCount) with hzero | hpos
  · rw [hzero] at hends
    exact hends rfl
  · refine (endsWithin_iff 0 _ hpos).mp hends ⟨⟨.null, rfl, rfl, by decide⟩, fun a ha r ht => ?_, ?_⟩
    · obtain ⟨i, -, rfl⟩ := List.mem_map.mp ha
      obtain rfl := Transport.reply.inj ht
      exact ⟨rfl, rfl⟩
    · rw [List.countP_eq_zero.mpr]
      · exact Nat.zero_le _
      · intro a ha
        obtain ⟨i, -, rfl⟩ := List.mem_map.mp ha
        exact Bool.false_ne_true

end Stoatpp.Rest
