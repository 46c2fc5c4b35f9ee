import Stoatpp.Rest.Attempts

/-!
# How a call ends and what the error callback hears

A call that fails is reported to the error callback and returns or throws. The report of an HTTP
error builds its message from the body: an object without a `type` and an `error` is dumped, and
so is the object that wraps the bytes of a body which is no JSON. `dump` throws on bytes that are
not valid UTF-8, and then neither the callback nor the caller hears of the status.
-/

namespace Stoatpp.Rest
open Stoatpp.Library

/-- The callbacks return, and `dump` throws on strings that are not valid UTF-8 and on nothing else. -/
structure Calm (hooks : Hooks) (cb : String → String → ℤ → String → Bool) : Prop where
  callback : hooks.errorCb = some cb
  returns : ∀ method path status message, cb method path status message = true
  dumps : ∀ j, (hooks.dump j).isSome = j.clean

/-- `parse` accepts valid UTF-8 only. -/
def Body.Parsed (b : Body) : Prop := ∀ j, b = .json j → j.clean = true

def requests (t : List Wire) : ℕ :=
  t.countP fun
    | .sent _ _ _ _ => true
    | _ => false

def reports (t : List Wire) : ℕ :=
  t.countP fun
    | .reported _ _ _ _ => true
    | _ => false

def Attempt.status (a : Attempt) : ℤ :=
  match a.transport with
  | .lost _ _ => 0
  | .reply r => r.status

/-- A response with the status of the attempt, reported once unless it is a success, or a
`RateLimitError` after a 429 that is not waited for, reported once. -/
def Settled (cfg : Config) (a : Attempt) (o : Act (Response × Client)) : Prop :=
  match o.status with
  | .done (response, _) =>
    response.status = a.status ∧ reports o.trace = if response.success then 0 else 1
  | .thrown (.rateLimit _ _, _) =>
    a.status = 429 ∧ cfg.httpRespectRatelimits = false ∧ reports o.trace = 1
  | _ => False

def Reported (cfg : Config) (script : List Attempt) (o : Act (Response × Client)) : Prop :=
  ∃ k a, requests o.trace = k + 1 ∧ script[k]? = some a ∧ Settled cfg a o

/-! ## The condition -/

def deciding (cfg : Config) : List Attempt → ℤ → Option Attempt
  | [], _ => none
  | a :: rest, retries =>
    match a.transport with
    | .lost _ _ =>
      if retries < cfg.httpRetryCount then deciding cfg rest (retries + 1) else some a
    | .reply r =>
      if r.status = 429 ∧ cfg.httpRespectRatelimits = true then deciding cfg rest retries
      else some a

/-- The bytes of a body that is no JSON are valid UTF-8. -/
def Body.dumpable : Body → Bool
  | .unparsable bytes => validUtf8 bytes
  | _ => true

def Attempt.Reportable (a : Attempt) : Prop :=
  match a.transport with
  | .lost _ _ => True
  | .reply r => (200 ≤ r.status ∧ r.status < 300) ∨ r.status = 429 ∨ r.body.dumpable = true

variable {cfg : Config} {hooks : Hooks} {cb : String → String → ℤ → String → Bool} {req : Request}
  {a : Attempt} {rest : List Attempt} {retries : ℤ} {c : Client} {t t' : List Wire}

@[simp] theorem requests_append : requests (t ++ t') = requests t + requests t' := List.countP_append
@[simp] theorem reports_append : reports (t ++ t') = reports t + reports t' := List.countP_append

theorem decides_lost {acted : Bool} {error : String} (ht : a.transport = .lost acted error) :
    Decides cfg a retries ↔ cfg.httpRetryCount ≤ retries := by
  simp only [Decides, ht]

theorem decides_reply {r : Reply} (ht : a.transport = .reply r) :
    Decides cfg a retries ↔ ¬ (r.status = 429 ∧ cfg.httpRespectRatelimits = true) := by
  simp only [Decides, ht]
  exact ⟨fun h hr => h hr.2 hr.1, fun h hres h429 => h ⟨h429, hres⟩⟩

theorem deciding_self (h : Decides cfg a retries) : deciding cfg (a :: rest) retries = some a := by
  simp only [deciding]
  cases ht : a.transport with
  | lost acted error => exact if_neg (not_lt.mpr ((decides_lost ht).mp h))
  | reply r => exact if_neg ((decides_reply ht).mp h)

theorem deciding_rest (h : ¬ Decides cfg a retries) : deciding cfg (a :: rest) retries =
    deciding cfg rest (if a.lost then retries + 1 else retries) := by
  rw [deciding]
  split
  · next acted error ht =>
    rw [decides_lost ht, not_le] at h
    rw [if_pos h]
    simp only [Attempt.lost, ht, if_true]
  · next r ht =>
    rw [decides_reply ht, not_not] at h
    rw [if_pos h]
    simp only [Attempt.lost, ht, Bool.false_eq_true, if_false]

/-! ## One attempt -/

theorem report_calm (hc : Calm hooks cb) (status : ℤ) (message : String) :
    report hooks req status message c =
      ⟨[.reported req.method req.path status message], .done ()⟩ := by
  simp only [report, hc.callback, hc.returns, if_true]
  rfl

theorem errorMessage_wrapped (status : ℤ) (bytes : List UInt8) :
    errorMessage hooks status (Body.unparsable bytes).toJson =
      hooks.dump (.obj [("raw_body", .raw bytes)]) := rfl

theorem errorMessage_isSome (hc : Calm hooks cb) {b : Body} (hb : b.Parsed) (status : ℤ) :
    (errorMessage hooks status b.toJson).isSome = b.dumpable := by
  cases b with
  | empty => rfl
  | json j =>
    have hdump : (hooks.dump j).isSome = true := (hc.dumps j).trans (hb j rfl)
    unfold errorMessage
    simp only [Body.toJson, Body.dumpable]
    by_cases hobj : j.isObject = true
    · simp only [hobj, if_true]
      cases j.text? "type" <;> cases j.text? "permission" <;> cases j.text? "error" <;>
        first | rfl | exact hdump
    · simp only [hobj, Bool.false_eq_true, if_false, Option.isSome_some]
  | unparsable bytes =>
    have hdump := hc.dumps (.obj [("raw_body", .raw bytes)])
    simp only [Json.clean, Json.cleanFields, Bool.and_true] at hdump
    rw [errorMessage_wrapped, hdump, Body.dumpable]

theorem attempt_again (hr : Sendable hooks req) (h : ¬ Decides cfg a retries) :
    ∃ t c', attempt cfg hooks req a retries c =
      ⟨t, .done (.again (if a.lost then retries + 1 else retries), c')⟩ ∧
      requests t = 1 ∧ reports t = 0 := by
  rw [attempt_answered hr]
  unfold answered Attempt.lost
  cases ht : a.transport with
  | lost acted error =>
    rw [decides_lost ht, not_le] at h
    simp only [afterLoss, if_pos h]
    refine ⟨_, _, rfl, ?_⟩
    cases acted <;> exact ⟨rfl, rfl⟩
  | reply r =>
    rw [decides_reply ht, not_not] at h
    simp only [afterReply, if_pos h.1, if_pos h.2]
    refine ⟨_, _, rfl, ?_⟩
    cases (Transport.reply r).acted <;> exact ⟨rfl, rfl⟩

theorem not_success {status : ℤ} (hbad : status < 200 ∨ 300 ≤ status) (j : Json) :
    ¬ Response.success ⟨status, j⟩ := by
  unfold Response.success
  dsimp only
  omega

inductive Ends (cfg : Config) (a : Attempt) : Act (Next × Client) → Prop
  | finished (t : List Wire) (response : Response) (c : Client) : requests t = 1 →
      response.status = a.status → (reports t = if response.success then 0 else 1) → a.Reportable →
      Ends cfg a ⟨t, .done (.finished response, c)⟩
  | limited (t : List Wire) (message : String) (delay : ℤ) (c : Client) : requests t = 1 →
      a.status = 429 → cfg.httpRespectRatelimits = false → reports t = 1 → a.Reportable →
      Ends cfg a ⟨t, .thrown (.rateLimit message delay, c)⟩
  | dump (t : List Wire) (c : Client) : requests t = 1 → ¬ a.Reportable →
      Ends cfg a ⟨t, .thrown (.dump, c)⟩

theorem attempt_lost_ends (hr : Sendable hooks req) (hc : Calm hooks cb) {acted : Bool} {error : String}
    (ht : a.transport = .lost acted error) (h : cfg.httpRetryCount ≤ retries) :
    Ends cfg a (attempt cfg hooks req a retries c) := by
  rw [attempt_answered hr]
  simp only [answered, ht, afterLoss, if_neg (not_lt.mpr h), report_calm hc,
    Outcome.bind_eq_andThen, Outcome.andThen, Outcome.pure_eq_ret, Outcome.ret]
  refine .finished _ _ _ ?_ ?_ ?_ ?_
  · cases acted <;> rfl
  · simp only [Attempt.status, ht]
  · cases acted <;> rfl
  · simp only [Attempt.Reportable, ht]

theorem attempt_reply_ends (hr : Sendable hooks req) (hc : Calm hooks cb) {r : Reply} (ht : a.transport = .reply r)
    (hp : r.body.Parsed) (h : ¬ (r.status = 429 ∧ cfg.httpRespectRatelimits = true)) :
    Ends cfg a (attempt cfg hooks req a retries c) := by
  have hstatus : a.status = r.status := by simp only [Attempt.status, ht]
  have hreport : a.Reportable ↔
      (200 ≤ r.status ∧ r.status < 300) ∨ r.status = 429 ∨ r.body.dumpable = true := by
    simp only [Attempt.Reportable, ht]
  rw [attempt_answered hr]
  simp only [answered, ht, afterReply]
  by_cases h429 : r.status = 429
  · have hres : ¬ cfg.httpRespectRatelimits = true := fun hres => h ⟨h429, hres⟩
    simp only [if_pos h429, if_neg hres, report_calm hc, Outcome.bind_eq_andThen, Outcome.andThen,
      Outcome.emit, Outcome.throw]
    refine .limited _ _ _ _ ?_ (hstatus.trans h429) (Bool.eq_false_iff.mpr hres) ?_
      (hreport.mpr (Or.inr (Or.inl h429)))
    · cases (Transport.reply r).acted <;> rfl
    · cases (Transport.reply r).acted <;> rfl
  by_cases hbad : r.status < 200 ∨ 300 ≤ r.status
  · have hmessage := errorMessage_isSome hc hp r.status
    simp only [if_neg h429, if_pos hbad]
    cases hm : errorMessage hooks r.status r.body.toJson with
    | none =>
      rw [hm] at hmessage
      simp only [Outcome.bind_eq_andThen, Outcome.andThen, Outcome.emit, Outcome.throw]
      refine .dump _ _ ?_ fun ha => ?_
      · cases (Transport.reply r).acted <;> rfl
      · rcases hreport.mp ha with hgood | hlimit | hdump
        · omega
        · exact h429 hlimit
        · rw [hdump] at hmessage
          exact absurd hmessage Bool.false_ne_true
    | some message =>
      rw [hm] at hmessage
      simp only [report_calm hc, Outcome.bind_eq_andThen, Outcome.andThen, Outcome.emit,
        Outcome.pure_eq_ret, Outcome.ret]
      refine .finished _ _ _ ?_ hstatus.symm ?_ (hreport.mpr (Or.inr (Or.inr hmessage.symm)))
      · cases (Transport.reply r).acted <;> rfl
      · rw [if_neg (not_success hbad _)]
        cases (Transport.reply r).acted <;> rfl
  · have hgood : 200 ≤ r.status ∧ r.status < 300 := by omega
    simp only [if_neg h429, if_neg hbad, Outcome.bind_eq_andThen, Outcome.andThen, Outcome.emit,
      Outcome.pure_eq_ret, Outcome.ret]
    refine .finished _ _ _ ?_ hstatus.symm ?_ (hreport.mpr (Or.inl hgood))
    · cases (Transport.reply r).acted <;> rfl
    · have hok : Response.success ⟨r.status, r.body.toJson⟩ := hgood
      rw [if_pos hok]
      cases (Transport.reply r).acted <;> rfl

theorem attempt_decided (hr : Sendable hooks req) (hc : Calm hooks cb)
    (hp : ∀ r, a.transport = .reply r → r.body.Parsed) (h : Decides cfg a retries) :
    Ends cfg a (attempt cfg hooks req a retries c) := by
  cases ht : a.transport with
  | lost acted error => exact attempt_lost_ends hr hc ht ((decides_lost ht).mp h)
  | reply r => exact attempt_reply_ends hr hc ht (hp r ht) ((decides_reply ht).mp h)

/-! ## The loop -/

theorem Ends.loop {o : Act (Next × Client)} (h : Ends cfg a o)
    (ho : attempt cfg hooks req a retries c = o) (rest : List Attempt) :
    requests (attemptLoop cfg hooks req (a :: rest) retries c).trace = 1 ∧
      (Settled cfg a (attemptLoop cfg hooks req (a :: rest) retries c) ↔ a.Reportable) := by
  simp only [attemptLoop, Outcome.bind_eq_andThen, Outcome.andThen, ho]
  cases h with
  | finished t response c ht hs hn hrep =>
    simp only [Outcome.pure_eq_ret, Outcome.ret, List.append_nil]
    exact ⟨ht, fun _ => hrep, fun _ => ⟨hs, hn⟩⟩
  | limited t message delay c ht hs hres hn hrep =>
    exact ⟨ht, fun _ => hrep, fun _ => ⟨hs, hres, hn⟩⟩
  | dump t c ht hrep => exact ⟨ht, fun hset => hset.elim, fun ha => absurd ha hrep⟩

theorem attemptLoop_again (hr : Sendable hooks req) (h : ¬ Decides cfg a retries) (rest : List Attempt)
    (c : Client) : ∃ t c',
    let o := attemptLoop cfg hooks req rest (if a.lost then retries + 1 else retries) c'
    attemptLoop cfg hooks req (a :: rest) retries c = ⟨t ++ o.trace, o.status⟩ ∧
      requests t = 1 ∧ reports t = 0 := by
  obtain ⟨t, c', ha, hcount⟩ : ∃ t c', attempt cfg hooks req a retries c = _ ∧ _ := attempt_again hr h
  refine ⟨t, c', ?_, hcount⟩
  simp only [attemptLoop, Outcome.bind_eq_andThen, Outcome.andThen, ha]

theorem attemptLoop_settled (hr : Sendable hooks req) (hc : Calm hooks cb) {script : List Attempt}
    (hp : ∀ a ∈ script, ∀ r, a.transport = .reply r → r.body.Parsed)
    (hends : (attemptLoop cfg hooks req script retries c).status ≠ .running) :
    ∃ k a, requests (attemptLoop cfg hooks req script retries c).trace = k + 1 ∧
      script[k]? = some a ∧ deciding cfg script retries = some a ∧
      (Settled cfg a (attemptLoop cfg hooks req script retries c) ↔ a.Reportable) := by
  induction script generalizing retries c with
  | nil => exact absurd rfl hends
  | cons a rest ih =>
    have hpa : ∀ r, a.transport = .reply r → r.body.Parsed := hp a List.mem_cons_self
    by_cases h : Decides cfg a retries
    · obtain ⟨hcount, hiff⟩ := (attempt_decided (c := c) hr hc hpa h).loop rfl rest
      exact ⟨0, a, hcount, rfl, deciding_self h, hiff⟩
    · obtain ⟨t, c', heq, hsent, hreports⟩ := attemptLoop_again hr h rest c
      rw [heq] at hends ⊢
      obtain ⟨k, b, hcount, hk, hdec, hiff⟩ := ih (fun b hb => hp b (List.mem_cons_of_mem _ hb)) hends
      refine ⟨k + 1, b, ?_, hk, (deciding_rest h).trans hdec, ?_⟩
      · rw [requests_append, hsent, hcount, Nat.add_comm]
      · rw [← hiff]
        simp only [Settled, reports_append, hreports, Nat.zero_add]

theorem sendable_iff {body : Json} (hc : Calm hooks cb) :
    (!body.isNull && (hooks.dump body).isNone) = false ↔ body.clean = true := by
  have hdump := hc.dumps body
  cases body with
  | null => simp [Json.isNull, Json.clean]
  | _ =>
    rw [← hdump]
    simp [Json.isNull]

/-- A call that ends does so with the status of its last attempt and reports every failure once,
exactly when the body that the hook leaves can be dumped and the attempt that decides the call is
no HTTP error whose body is neither JSON nor valid UTF-8. -/
theorem failure_reported_iff (cfg : Config) (hooks : Hooks)
    (cb : String → String → ℤ → String → Bool) (req : Request) (body : Json) (late : ℕ)
    (script : List Attempt) (c : Client) (hc : Calm hooks cb) (hs : supported req.method = true)
    (hbody : hooks.preHook req.method req.path req.body = some body)
    (hp : ∀ a ∈ script, ∀ r, a.transport = .reply r → r.body.Parsed)
    (hends : (performRequest cfg hooks req late script c).status ≠ .running) :
    Reported cfg script (performRequest cfg hooks req late script c) ↔
      body.clean = true ∧ ∀ a, deciding cfg script 0 = some a → a.Reportable := by
  simp only [performRequest, hbody] at hends ⊢
  by_cases hclean : body.clean = true
  · simp only [hclean, true_and]
    have hr : Sendable hooks { req with body := body } := ⟨(sendable_iff hc).mpr hclean, hs⟩
    obtain ⟨k, a, hcount, hk, hdec, hiff⟩ := attemptLoop_settled hr hc hp hends
    constructor
    · rintro ⟨k', a', hcount', hk', hset⟩ b hb
      obtain rfl : k = k' := by omega
      obtain rfl : a = a' := Option.some.inj (hk.symm.trans hk')
      obtain rfl : a = b := Option.some.inj (hdec.symm.trans hb)
      exact hiff.mp hset
    · intro h
      exact ⟨k, a, hcount, hk, hiff.mpr (h a hdec)⟩
  · simp only [hclean, Bool.false_eq_true, false_and, iff_false]
    rintro ⟨k, a, hcount, hk, -⟩
    cases script with
    | nil => simp at hk
    | cons b rest =>
      -- the first attempt throws before it sends anything
      obtain ⟨fault, hf⟩ : ∃ fault, attempt cfg hooks { req with body := body } b 0
          (c.sleep (waitTime cfg req c) late) = .throw fault :=
        (attempt_refused fun hr => hclean ((sendable_iff hc).mp hr.1)).imp' _ fun _ hf => hf
      rw [attemptLoop, hf] at hcount
      exact absurd hcount (by simp [Outcome.andThen, Outcome.throw, requests])

/-- `dump` as far as it throws. -/
def dumping : Hooks :=
  ⟨fun j => if j.clean then some "" else none, fun _ _ body => some body, some fun _ _ _ _ => true⟩

theorem dumping_calm : Calm dumping fun _ _ _ _ => true where
  callback := rfl
  returns _ _ _ _ := rfl
  dumps j := by
    simp only [dumping]
    cases j.clean <;> rfl

def getSelf : Request := ⟨"GET", "/users/@me", .null⟩

def answeredWith (status : ℤ) (body : Body) : Attempt :=
  ⟨0, .reply ⟨status, body, ⟨"", "", "", ""⟩⟩, 0⟩

theorem page_in_utf8_reported : Reported {} [answeredWith 502 (.unparsable [60, 104, 49, 62])]
    (performRequest {} dumping getSelf 0 [answeredWith 502 (.unparsable [60, 104, 49, 62])]
      (.fresh 0)) := by
  refine (failure_reported_iff {} dumping _ getSelf .null 0 _ (.fresh 0) dumping_calm (by decide) rfl
    (fun a ha r ht => ?_) (fun hrun => ?_)).mpr ⟨rfl, fun a ha => ?_⟩
  · rw [List.mem_singleton.mp ha] at ht
    rw [← Transport.reply.inj ht]
    intro j hj
    cases hj
  · have hopen := (attemptLoop_running_iff rfl (by decide) _).mp hrun
    exact absurd (hopen.1 _ List.mem_cons_self _ rfl).2 (by decide)
  · rw [← Option.some.inj ha]
    exact Or.inr (Or.inr (by decide))

/-- A page in Latin-1 from a proxy: `dump` throws on it, and the callback is not called. -/
theorem page_in_latin1_lost :
    let script := [answeredWith 502 (.unparsable [60, 233, 62])]
    let o := performRequest {} dumping getSelf 0 script (.fresh 0)
    ((∃ c, o.status = .thrown (.dump, c)) ∧ reports o.trace = 0) ∧ ¬ Reported {} script o := by
  intro script o
  have hv : validUtf8 [60, 233, 62] = false := by decide
  have ho : ∃ t c, o = ⟨t, .thrown (.dump, c)⟩ ∧ reports t = 0 := by
    simp [o, script, performRequest, dumping, attemptLoop, attempt, getSelf, Json.isNull, supported,
      answeredWith, afterReply, errorMessage_wrapped, Json.clean, Json.cleanFields, hv, Outcome.andThen,
      Outcome.emit, Outcome.throw, Transport.acted, reports]
  obtain ⟨t, c, ho, hreports⟩ := ho
  rw [ho]
  refine ⟨⟨⟨c, rfl⟩, hreports⟩, ?_⟩
  rintro ⟨_, _, _, _, hset⟩
  exact hset

end Stoatpp.Rest
