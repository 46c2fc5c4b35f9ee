import Stoatpp.Rest.Request

/-!
# What the server processes of one request

A request is repeated after a connection failure, as often as `http_retry_count` allows, and
after a 429. A failure that comes after the server acted makes it act again, so the
requests it processes are counted by the failures of that kind.
-/

namespace Stoatpp.Rest
open Stoatpp.Library

def processed (method path : String) (h : List Wire) : ℕ :=
  h.countP fun
    | .acted m p => m = method && p = path
    | _ => false

theorem processed_append (method path : String) (h h' : List Wire) :
    processed method path (h ++ h') = processed method path h + processed method path h' :=
  List.countP_append

/-- The connection failed after the server had processed the request. -/
def Attempt.lostReply (a : Attempt) : Bool :=
  match a.transport with
  | .lost acted _ => acted
  | .reply _ => false

variable {cfg : Config} {hooks : Hooks} {req : Request} {a : Attempt} {retries : ℤ} {c : Client}
  {method path : String} {h : List Wire} {R : List Wire → Prop}

theorem report_processed {status : ℤ} {message : String} :
    (report hooks req status message c).Meets h
      (fun h' _ => processed method path h' = processed method path h)
      (fun h' _ => processed method path h' = processed method path h) R := by
  have hr : processed method path (h ++ [.reported req.method req.path status message]) =
      processed method path h := by
    rw [processed_append]
    rfl
  unfold report
  cases hooks.errorCb with
  | none => exact Outcome.meets_ret rfl
  | some cb =>
    apply Outcome.meets_emit_andThen
    by_cases hcb : cb req.method req.path status message = true
    · rw [if_pos hcb]
      exact Outcome.meets_ret hr
    · rw [if_neg hcb]
      exact Outcome.meets_throw hr

theorem afterLoss_processed {error : String} {pause : ℕ} :
    (afterLoss cfg hooks req error pause retries c).Meets h
      (fun h' x => processed method path h' = processed method path h ∧
        ∀ n, x.1 = .again n → retries < cfg.httpRetryCount ∧ n = retries + 1)
      (fun h' _ => processed method path h' = processed method path h) R := by
  simp only [afterLoss, Outcome.bind_eq_andThen, Outcome.pure_eq_ret]
  by_cases hretry : retries < cfg.httpRetryCount
  · rw [if_pos hretry]
    refine Outcome.meets_ret ⟨rfl, fun n hn => ?_⟩
    cases hn
    exact ⟨hretry, rfl⟩
  · rw [if_neg hretry]
    exact report_processed.andThen fun h' _ hp => Outcome.meets_ret ⟨hp, by simp⟩

theorem afterReply_processed {r : Reply} {pause : ℕ} :
    (afterReply cfg hooks req r pause retries c).Meets h
      (fun h' x => processed method path h' = processed method path h ∧
        ∀ n, x.1 = .again n → r.status = 429 ∧ n = retries)
      (fun h' _ => processed method path h' = processed method path h) R := by
  have hr : processed method path (h ++ [.reply req.method req.path r.headers c.now]) =
      processed method path h := by
    rw [processed_append]
    rfl
  simp only [afterReply, Outcome.bind_eq_andThen, Outcome.pure_eq_ret]
  apply Outcome.meets_emit_andThen
  rw [← hr]
  by_cases h429 : r.status = 429
  · rw [if_pos h429]
    by_cases hres : cfg.httpRespectRatelimits = true
    · rw [if_pos hres]
      refine Outcome.meets_ret ⟨rfl, fun n hn => ?_⟩
      cases hn
      exact ⟨h429, rfl⟩
    · rw [if_neg hres]
      exact report_processed.andThen fun h' _ hp => Outcome.meets_throw hp
  · rw [if_neg h429]
    by_cases hbad : r.status < 200 ∨ 300 ≤ r.status
    · rw [if_pos hbad]
      cases errorMessage hooks r.status r.body.toJson with
      | none => exact Outcome.meets_throw rfl
      | some message =>
        exact report_processed.andThen fun h' _ hp => Outcome.meets_ret ⟨hp, by simp⟩
    · rw [if_neg hbad]
      exact Outcome.meets_ret ⟨rfl, by simp⟩

def share (method path : String) (req : Request) (a : Attempt) : ℕ :=
  if a.transport.acted && req.method = method && req.path = path then 1 else 0

theorem attempt_processed (method path : String) :
    (attempt cfg hooks req a retries c).Meets h
      (fun h' x => processed method path h' = processed method path h + share method path req a ∧
        ∀ n, x.1 = .again n → retries < cfg.httpRetryCount ∧ n = retries + 1 ∧
            a.lostReply = a.transport.acted ∨ a.transport.acted = false ∧ n = retries)
      (fun h' _ => processed method path h' ≤ processed method path h + share method path req a)
      R := by
  refine attempt_rule (fun _ _ => Nat.le_add_right _ _) fun _ => ?_
  have hshare : processed method path ((h ++ [.sent req.method req.path req.body c.now]) ++
      (if a.transport.acted = true then [.acted req.method req.path] else [])) =
      processed method path h + share method path req a := by
    rw [processed_append, processed_append]
    unfold share
    cases a.transport.acted <;> simp [processed, List.countP_cons]
  unfold answered Attempt.lostReply
  cases ht : a.transport with
  | lost acted error =>
    rw [ht] at hshare
    refine afterLoss_processed.imp (fun h' x hx => ⟨hx.1.trans hshare, fun n hn => Or.inl ?_⟩)
      (fun h' _ hx => (hx.trans hshare).le) fun _ hr => hr
    exact ⟨(hx.2 n hn).1, (hx.2 n hn).2, rfl⟩
  | reply r =>
    rw [ht] at hshare
    refine afterReply_processed.imp (fun h' x hx => ⟨hx.1.trans hshare, fun n hn => Or.inr ?_⟩)
      (fun h' _ hx => (hx.trans hshare).le) fun _ hr => hr
    exact ⟨by simp [Transport.acted, (hx.2 n hn).1], (hx.2 n hn).2⟩

theorem share_le (method path : String) (req : Request) (a : Attempt) :
    share method path req a ≤ 1 := by
  unfold share
  split_ifs <;> omega

theorem share_refused (method path : String) (req : Request) (ha : a.transport.acted = false) :
    share method path req a = 0 := by
  simp [share, ha]

theorem share_other (a : Attempt) (hne : ¬ (req.method = method ∧ req.path = path)) :
    share method path req a = 0 := by
  unfold share
  rw [if_neg]
  simp only [Bool.and_eq_true, decide_eq_true_eq, and_assoc]
  exact fun hs => hne hs.2

/-- How often the server can process a request: once, and once more for each reply that is lost
after it acted and for each retry. -/
def allowance (cfg : Config) (script : List Attempt) (retries : ℤ) : ℕ :=
  1 + min (script.countP Attempt.lostReply) (cfg.httpRetryCount - retries).toNat

theorem allowance_again {rest : List Attempt} {n : ℤ}
    (hn : retries < cfg.httpRetryCount ∧ n = retries + 1 ∧ a.lostReply = a.transport.acted ∨
      a.transport.acted = false ∧ n = retries) :
    share method path req a + allowance cfg rest n ≤ allowance cfg (a :: rest) retries := by
  have hle := share_le method path req a
  simp only [allowance, List.countP_cons]
  rcases hn with ⟨hlt, rfl, hlost⟩ | ⟨hacted, rfl⟩
  · by_cases hacted : a.transport.acted = true
    · rw [if_pos (hlost.trans hacted)]
      omega
    · rw [share_refused method path req (Bool.eq_false_iff.mpr hacted)]
      omega
  · rw [share_refused method path req hacted]
    omega

theorem attemptLoop_processed {script : List Attempt} {N : ℕ}
    (hN : processed method path h + (if req.method = method ∧ req.path = path then
      allowance cfg script retries else 0) ≤ N) :
    (attemptLoop cfg hooks req script retries c).Meets h
      (fun h' _ => processed method path h' ≤ N) (fun h' _ => processed method path h' ≤ N)
      (fun h' => processed method path h' ≤ N) := by
  induction script generalizing h c retries with
  | nil => exact Outcome.meets_cut (by omega)
  | cons a rest ih =>
    have hle : processed method path h + share method path req a ≤ N := by
      have hs := share_le method path req a
      split_ifs at hN with hm
      · simp only [allowance] at hN
        omega
      · rw [share_other a hm]
        exact hN
    refine ((attempt_processed method path).imp (fun _ _ hx => hx) (fun h' _ hx => hx.trans hle)
      fun _ hr => hr).andThen fun h' x hx => ?_
    obtain ⟨next, c'⟩ := x
    cases next with
    | finished response => exact Outcome.meets_ret (hx.1.trans_le hle)
    | again n =>
      apply ih
      have hagain : share method path req a + allowance cfg rest n ≤ _ :=
        allowance_again (hx.2 n rfl)
      rw [hx.1]
      split_ifs at hN ⊢ with hm
      · omega
      · rw [share_other a hm]
        exact hN

theorem performRequest_processed {late : ℕ} {script : List Attempt} {N : ℕ}
    (hN : processed method path h + (if req.method = method ∧ req.path = path then
      allowance cfg script 0 else 0) ≤ N) :
    (performRequest cfg hooks req late script c).Meets h
      (fun h' _ => processed method path h' ≤ N) (fun h' _ => processed method path h' ≤ N)
      (fun h' => processed method path h' ≤ N) := by
  unfold performRequest
  cases hooks.preHook req.method req.path req.body with
  | none => exact Outcome.meets_throw (le_of_add_le_left hN)
  | some body => exact attemptLoop_processed hN

end Stoatpp.Rest
