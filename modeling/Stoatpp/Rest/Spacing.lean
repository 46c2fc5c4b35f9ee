import Stoatpp.Rest.Request

/-!
# Requests and the limits the server set

A reply that exhausts a bucket asks for a pause before the next request of the same method
and path. The client looks the pause up under the key it built itself, stores it under the
key the reply names, rounds it down to milliseconds, and does not look it up again inside the
retry loop. `Upheld` says that none of this matters in a run, and the requests of such a run
are spaced as the replies asked.
-/

namespace Stoatpp.Rest
open Stoatpp.Library

/-- The three headers are there, with nothing remaining for `n` milliseconds. -/
def Carries (h : Headers) (n : ℕ) : Prop :=
  h.limit ≠ "" ∧ numeral h.remaining = some 0 ∧ numeral h.resetAfter = some n

/-- A request sent later than a reply keeps the pause the reply asked for. -/
def Spaced : Wire → Wire → Prop
  | .reply method path headers time, .sent method' path' _ time' =>
    method = method' → path = path' → ∀ n, Carries headers n → time + n * ms ≤ time'
  | _, _ => True

/-! ## Bucket keys -/

theorem supported_cases {method : String} (h : supported method = true) :
    method = "GET" ∨ method = "POST" ∨ method = "PATCH" ∨ method = "PUT" ∨ method = "DELETE" := by
  simpa only [supported, Bool.or_eq_true, decide_eq_true_eq, or_assoc] using h

theorem bucket_injective {req req' : Request} (h : supported req.method = true)
    (h' : supported req'.method = true) (hb : req.bucket = req'.bucket) :
    req.method = req'.method ∧ req.path = req'.path := by
  have hl := congrArg String.toList hb
  simp only [Request.bucket, String.toList_append] at hl
  rcases supported_cases h with hm | hm | hm | hm | hm <;>
    rcases supported_cases h' with hm' | hm' | hm' | hm' | hm' <;>
    rw [hm, hm'] at hl <;> simp at hl <;>
    exact ⟨hm.trans hm'.symm, String.toList_inj.mp hl⟩

/-! ## What the run must uphold -/

section
variable (cfg : Config)

/-- The reply names no bucket or the one of the request, or it exhausts nothing and the bucket
it names is the one of no request. -/
def OwnBucket (req : Request) (h : Headers) : Prop :=
  h.bucket = "" ∨ h.bucket = req.bucket ∨
    (∀ n, ¬ Carries h n) ∧ ∀ req' : Request, supported req'.method = true → h.bucket ≠ req'.bucket

/-- The pause a reply asks for is noted, and kept when the request is repeated at once. -/
def Kept (req : Request) (a : Attempt) : Prop :=
  match a.transport with
  | .lost _ _ => True
  | .reply r => OwnBucket req r.headers ∧ ∀ n, Carries r.headers n →
      (stoi r.headers.limit).isSome ∧ n < 2 ^ 31 ∧
      (r.status = 429 → n * ms ≤ max 0 (retryAfter cfg r) * ms + a.pause)

/-- The wait of a limited call does not end before the bucket is reset although `check` drops a
fraction of a millisecond. -/
def Overslept (call : Call) (c : Client) : Prop :=
  ∀ state, c.buckets call.request.bucket = some state → state.remaining ≤ 0 →
    c.now < state.resetAt → (state.resetAt - c.now) % ms ≤ call.late

variable (hooks : Hooks)

def Upheld : List Call → Client → Prop
  | [], _ => True
  | call :: rest, c => Overslept call (c.after call.idle) ∧
      (∀ a ∈ call.script, Kept cfg call.request a) ∧
      ∀ c', clientAfter (call.perform cfg hooks c) = some c' → Upheld rest c'

end

/-! ## The invariant -/

/-- The events are spaced, and every pause asked for is over or noted in the bucket. -/
structure Guarded (h : List Wire) (c : Client) : Prop where
  spaced : h.Pairwise Spaced
  noted : ∀ (req : Request) headers time n, .reply req.method req.path headers time ∈ h → Carries headers n →
    time + n * ms ≤ c.now ∨ ∃ state, c.buckets req.bucket = some state ∧
      state.remaining ≤ 0 ∧ time + n * ms ≤ state.resetAt
  known : ∀ method path headers time, .reply method path headers time ∈ h → supported method = true
  bounded : ∀ key state, c.buckets key = some state → state.resetAt ≤ c.now + (2 ^ 31 - 1) * ms

/-- Every pause asked for of this request is over. -/
def Clear (h : List Wire) (req : Request) (now : ℤ) : Prop :=
  ∀ headers time n, .reply req.method req.path headers time ∈ h → Carries headers n →
    time + n * ms ≤ now

variable {cfg : Config} {hooks : Hooks} {h : List Wire} {c c' : Client} {req : Request}

theorem Guarded.later (hg : Guarded h c) (hb : c'.buckets = c.buckets) (hn : c.now ≤ c'.now) :
    Guarded h c' where
  spaced := hg.spaced
  noted req headers time n hm hc := by
    rw [hb]
    rcases hg.noted req headers time n hm hc with hd | hs
    · exact Or.inl (hd.trans hn)
    · exact Or.inr hs
  known := hg.known
  bounded key state hs := by
    rw [hb] at hs
    have hk := hg.bounded key state hs
    omega

/-- The events that neither ask for a pause nor have to keep one. -/
def Quiet : Wire → Prop
  | .acted _ _ => True
  | .reported _ _ _ _ => True
  | _ => False

theorem spaced_of_not_sent {e : Wire} (he : ∀ method path body time, e ≠ .sent method path body time)
    (x : Wire) : Spaced x e := by
  cases e with
  | sent method path body time => exact absurd rfl (he method path body time)
  | reply => cases x <;> trivial
  | acted => cases x <;> trivial
  | reported => cases x <;> trivial

theorem Quiet.ne_sent {e : Wire} (he : Quiet e) : ∀ method path body time, e ≠ .sent method path body time := by
  rintro _ _ _ _ rfl
  exact he

theorem Quiet.ne_reply {e : Wire} (he : Quiet e) :
    ∀ method path headers time, .reply method path headers time ≠ e := by
  rintro _ _ _ _ rfl
  exact he

theorem Guarded.append {es : List Wire} (hg : Guarded h c) (hs : (h ++ es).Pairwise Spaced)
    (hr : ∀ method path headers time, .reply method path headers time ∉ es) : Guarded (h ++ es) c where
  spaced := hs
  noted req headers time n hm hc := by
    rw [List.mem_append] at hm
    exact hg.noted req headers time n (hm.resolve_right (hr _ _ _ _)) hc
  known method path headers time hm := by
    rw [List.mem_append] at hm
    exact hg.known method path headers time (hm.resolve_right (hr _ _ _ _))
  bounded := hg.bounded

theorem spaced_append (hs : h.Pairwise Spaced) {e : Wire} (he : ∀ x ∈ h, Spaced x e) :
    (h ++ [e]).Pairwise Spaced := by
  rw [List.pairwise_append]
  refine ⟨hs, List.pairwise_singleton _ _, fun x hx y hy => ?_⟩
  rw [List.mem_singleton] at hy
  subst hy
  exact he x hx

theorem Guarded.quiet {es : List Wire} (hg : Guarded h c) (he : ∀ e ∈ es, Quiet e) :
    Guarded (h ++ es) c := by
  apply hg.append
  · rw [List.pairwise_append]
    refine ⟨hg.spaced, ?_, fun x _ y hy => spaced_of_not_sent (he y hy).ne_sent x⟩
    exact List.pairwise_of_forall_mem_list fun x _ y hy => spaced_of_not_sent (he y hy).ne_sent x
  · intro method path headers time hm
    exact (he _ hm).ne_reply _ _ _ _ rfl

theorem Clear.append {es : List Wire} {now : ℤ} (hc : Clear h req now)
    (hr : ∀ method path headers time, .reply method path headers time ∉ es) :
    Clear (h ++ es) req now := by
  intro headers time n hm
  rw [List.mem_append] at hm
  exact hc headers time n (hm.resolve_right (hr _ _ _ _))

theorem Clear.later {now now' : ℤ} (hc : Clear h req now) (hn : now ≤ now') : Clear h req now' :=
  fun headers time n hm hcar => (hc headers time n hm hcar).trans hn

theorem spaced_sent (hc : Clear h req c.now) :
    ∀ x ∈ h, Spaced x (.sent req.method req.path req.body c.now) := by
  intro x hx
  cases x with
  | reply method path headers time =>
    rintro rfl rfl n hn
    exact hc headers time n hx hn
  | sent => trivial
  | acted => trivial
  | reported => trivial

theorem Guarded.sent {es : List Wire} (hg : Guarded h c) (hc : Clear h req c.now)
    (he : ∀ e ∈ es, Quiet e) : Guarded ((h ++ [.sent req.method req.path req.body c.now]) ++ es) c :=
  (hg.append (spaced_append hg.spaced (spaced_sent hc)) (by simp)).quiet he

theorem Clear.sent {es : List Wire} {now : ℤ} (hc : Clear h req now) (he : ∀ e ∈ es, Quiet e) :
    Clear ((h ++ [.sent req.method req.path req.body now]) ++ es) req now :=
  (hc.append (by simp)).append fun _ _ _ _ hm => (he _ hm).ne_reply _ _ _ _ rfl

theorem clear_of_check {call : Call} (hr : cfg.httpRespectRatelimits = true) (hg : Guarded h c)
    (ho : Overslept call c) :
    Clear h call.request (c.sleep (waitTime cfg call.request c) call.late).now := by
  intro headers time n hm hc
  have hw : c.now ≤ (c.sleep (waitTime cfg call.request c) call.late).now := by
    simp only [Client.sleep_now, ms]
    omega
  rcases hg.noted _ _ _ _ hm hc with hd | ⟨state, hs, hrem, hd⟩
  · exact hd.trans hw
  · by_cases hn : state.resetAt ≤ c.now
    · exact hd.trans (hn.trans hw)
    · rw [not_le] at hn
      have hcheck := Buckets.check_limited hs hrem hn (hg.bounded _ _ hs)
      have hlate := ho state hs hrem hn
      rw [Client.sleep_now, waitTime, if_pos hr, hcheck]
      simp only [ms] at *
      omega

def bucketId (req : Request) (headers : Headers) : String :=
  if headers.bucket = "" then req.bucket else headers.bucket

theorem noteHeaders_cases (req : Request) (headers : Headers) (c : Client) :
    noteHeaders req headers c = c ∨ ∃ limit remaining resetAfter,
      stoi headers.remaining = some remaining ∧ stoi headers.resetAfter = some resetAfter ∧
      noteHeaders req headers c = c.update (bucketId req headers) limit remaining resetAfter := by
  unfold noteHeaders
  by_cases hh : headers.limit ≠ "" ∧ headers.remaining ≠ "" ∧ headers.resetAfter ≠ ""
  · rw [if_pos hh]
    cases h1 : stoi headers.limit with
    | none => exact Or.inl rfl
    | some limit =>
      cases h2 : stoi headers.remaining with
      | none => exact Or.inl rfl
      | some remaining =>
        cases h3 : stoi headers.resetAfter with
        | none => exact Or.inl rfl
        | some resetAfter => exact Or.inr ⟨limit, remaining, resetAfter, rfl, rfl, rfl⟩
  · rw [if_neg hh]
    exact Or.inl rfl

theorem numeral_ne_empty {s : String} {n : ℕ} (hs : numeral s = some n) : s ≠ "" := by
  rintro rfl
  simp [numeral] at hs

theorem noteHeaders_carried {headers : Headers} {n : ℕ} (hc : Carries headers n)
    (ho : OwnBucket req headers) (hl : (stoi headers.limit).isSome) (hn : n < 2 ^ 31) :
    ∃ limit, noteHeaders req headers c = c.update req.bucket limit 0 n := by
  obtain ⟨limit, hlimit⟩ := Option.isSome_iff_exists.mp hl
  have hrem := stoi_of_numeral hc.2.1
  have hreset := stoi_of_numeral hc.2.2
  have hkey : (if headers.bucket = "" then req.bucket else headers.bucket) = req.bucket := by
    rcases ho with hb | hb | hb
    · rw [if_pos hb]
    · rw [hb, ite_self]
    · exact absurd hc (hb.1 n)
  rw [if_pos (by decide)] at hrem
  rw [if_pos hn] at hreset
  refine ⟨limit, ?_⟩
  unfold noteHeaders
  rw [if_pos ⟨hc.1, numeral_ne_empty hc.2.1, numeral_ne_empty hc.2.2⟩]
  simp only [hlimit, hrem, hreset, hkey, Nat.cast_zero]

theorem bucketId_ne {headers : Headers} {req' : Request} (ho : OwnBucket req headers)
    (hs : supported req.method = true) (hs' : supported req'.method = true)
    (hne : ¬ (req'.method = req.method ∧ req'.path = req.path)) :
    req'.bucket ≠ bucketId req headers := by
  have hown : req'.bucket ≠ req.bucket := fun he => hne (bucket_injective hs' hs he)
  unfold bucketId
  split_ifs with hb
  · exact hown
  · rcases ho with h1 | h1 | h1
    · exact absurd h1 hb
    · rw [h1]
      exact hown
    · exact (h1.2 req' hs').symm

/-- The pause that the reply asks for is noted, and those noted before it stay so. -/
theorem Guarded.noted_reply {headers : Headers} (hg : Guarded h c) (hc : Clear h req c.now)
    (hs : supported req.method = true) (ho : OwnBucket req headers)
    (hk : ∀ n, Carries headers n → (stoi headers.limit).isSome ∧ n < 2 ^ 31) {req' : Request}
    {headers' : Headers} {time : ℤ} {n : ℕ}
    (hm : .reply req'.method req'.path headers' time ∈ h ++ [.reply req.method req.path headers c.now])
    (hcar : Carries headers' n) :
    time + n * ms ≤ c.now ∨ ∃ state, (noteHeaders req headers c).buckets req'.bucket = some state ∧
      state.remaining ≤ 0 ∧ time + n * ms ≤ state.resetAt := by
  rw [List.mem_append, List.mem_singleton] at hm
  by_cases hreq : req'.method = req.method ∧ req'.path = req.path
  · rcases hm with hm | hm
    · rw [hreq.1, hreq.2] at hm
      exact Or.inl (hc _ _ _ hm hcar)
    · simp only [Wire.reply.injEq] at hm
      obtain ⟨-, -, rfl, rfl⟩ := hm
      obtain ⟨limit, he⟩ := noteHeaders_carried hcar ho (hk n hcar).1 (hk n hcar).2 (c := c)
      have hb : req'.bucket = req.bucket := by rw [Request.bucket, hreq.1, hreq.2, Request.bucket]
      rw [he, hb]
      exact Or.inr ⟨_, Buckets.update_self limit 0 n, le_refl 0, le_refl _⟩
  · have hm' : .reply req'.method req'.path headers' time ∈ h := by
      rcases hm with hm | hm
      · exact hm
      · simp only [Wire.reply.injEq] at hm
        exact absurd ⟨hm.1, hm.2.1⟩ hreq
    have hne := bucketId_ne ho hs (hg.known _ _ _ _ hm') hreq
    rcases hg.noted _ _ _ _ hm' hcar with hd | hd
    · exact Or.inl hd
    · rcases noteHeaders_cases req headers c with he | ⟨_, _, _, -, -, he⟩
      · rw [he]
        exact Or.inr hd
      · rw [he]
        simp only [Client.update_buckets, Buckets.update_of_ne hne]
        exact Or.inr hd

theorem Guarded.bounded_reply {headers : Headers} (hg : Guarded h c) (req : Request) {key : String}
    {state : BucketState} (hstate : (noteHeaders req headers c).buckets key = some state) :
    state.resetAt ≤ c.now + (2 ^ 31 - 1) * ms := by
  rcases noteHeaders_cases req headers c with he | ⟨limit, remaining, resetAfter, -, hr, he⟩
  · rw [he] at hstate
    exact hg.bounded key state hstate
  · rw [he] at hstate
    by_cases hkey : key = bucketId req headers
    · rw [hkey, Client.update_buckets, Buckets.update_self, Option.some.injEq] at hstate
      have hrange := (stoi_range hr).2
      rw [← hstate]
      simp only [ms]
      omega
    · simp only [Client.update_buckets, Buckets.update_of_ne hkey] at hstate
      exact hg.bounded key state hstate

theorem Guarded.reply {headers : Headers} (hg : Guarded h c) (hc : Clear h req c.now)
    (hs : supported req.method = true) (ho : OwnBucket req headers)
    (hk : ∀ n, Carries headers n → (stoi headers.limit).isSome ∧ n < 2 ^ 31) :
    Guarded (h ++ [.reply req.method req.path headers c.now]) (noteHeaders req headers c) := by
  have hnow : (noteHeaders req headers c).now = c.now := noteHeaders_now req headers c
  refine ⟨spaced_append hg.spaced fun x _ => spaced_of_not_sent (by simp) x, ?_, ?_, ?_⟩
  · intro req' headers' time n hm hcar
    rw [hnow]
    exact hg.noted_reply hc hs ho hk hm hcar
  · intro method path headers' time hm
    rw [List.mem_append, List.mem_singleton] at hm
    rcases hm with hm | hm
    · exact hg.known _ _ _ _ hm
    · simp only [Wire.reply.injEq] at hm
      rw [hm.1]
      exact hs
  · intro key state hstate
    rw [hnow]
    exact hg.bounded_reply req hstate

/-! ## The retry loop -/

/-- The state an attempt leaves is guarded, and clear if the request is sent again. -/
def Prepared (req : Request) (h : List Wire) (x : Next × Client) : Prop :=
  Guarded h x.2 ∧ ∀ retries, x.1 = .again retries → Clear h req x.2.now

variable {a : Attempt} {retries : ℤ}

theorem report_meets {status : ℤ} {message : String} (hg : Guarded h c) :
    (report hooks req status message c).Meets h (fun h' _ => Guarded h' c)
      (fun h' x => Guarded h' x.2) (·.Pairwise Spaced) := by
  have hreported : Guarded (h ++ [.reported req.method req.path status message]) c :=
    hg.quiet (by simp [Quiet])
  unfold report
  cases hooks.errorCb with
  | none => exact Outcome.meets_ret hg
  | some cb =>
    apply Outcome.meets_emit_andThen
    by_cases hcb : cb req.method req.path status message = true
    · rw [if_pos hcb]
      exact Outcome.meets_ret hreported
    · rw [if_neg hcb]
      exact Outcome.meets_throw hreported

theorem reported_finished {status : ℤ} {message : String} {response : Response}
    (hg : Guarded h c) :
    ((report hooks req status message c).andThen fun _ => .ret (.finished response, c)).Meets h
      (Prepared req) (fun h' x => Guarded h' x.2) (·.Pairwise Spaced) :=
  (report_meets hg).andThen fun _ _ hg' => Outcome.meets_ret ⟨hg', by simp⟩

theorem afterLoss_meets {error : String} {pause : ℕ} (hg : Guarded h c) (hc : Clear h req c.now) :
    (afterLoss cfg hooks req error pause retries c).Meets h (Prepared req)
      (fun h' x => Guarded h' x.2) (·.Pairwise Spaced) := by
  have hlater : c.now ≤ (c.sleep 1000 pause).now := by
    simp only [Client.sleep_now, ms]
    omega
  simp only [afterLoss, Outcome.bind_eq_andThen, Outcome.pure_eq_ret]
  by_cases hretry : retries < cfg.httpRetryCount
  · rw [if_pos hretry]
    exact Outcome.meets_ret ⟨hg.later rfl hlater, fun _ _ => hc.later hlater⟩
  · rw [if_neg hretry]
    exact reported_finished hg

theorem afterReply_meets {r : Reply} {pause : ℕ} (hr : cfg.httpRespectRatelimits = true)
    (hg : Guarded h c) (hc : Clear h req c.now) (hs : supported req.method = true)
    (hk : Kept cfg req ⟨0, .reply r, pause⟩) :
    (afterReply cfg hooks req r pause retries c).Meets h (Prepared req)
      (fun h' x => Guarded h' x.2) (·.Pairwise Spaced) := by
  have hg' := hg.reply hc hs hk.1 fun n hn => ⟨(hk.2 n hn).1, (hk.2 n hn).2.1⟩
  have hnow : (noteHeaders req r.headers c).now = c.now := noteHeaders_now req r.headers c
  simp only [afterReply, Outcome.bind_eq_andThen, Outcome.pure_eq_ret, hr, if_true]
  apply Outcome.meets_emit_andThen
  by_cases h429 : r.status = 429
  · rw [if_pos h429]
    refine Outcome.meets_ret ⟨hg'.later rfl ?_, fun _ _ => ?_⟩
    · simp only [Client.sleep_now, ms]
      omega
    · intro headers time n hm hcar
      simp only [Client.sleep_now, hnow]
      rw [List.mem_append, List.mem_singleton] at hm
      rcases hm with hm | hm
      · have hd := hc headers time n hm hcar
        simp only [ms] at hd ⊢
        omega
      · simp only [Wire.reply.injEq] at hm
        obtain ⟨-, -, rfl, rfl⟩ := hm
        have hd : n * ms ≤ max 0 (retryAfter cfg r) * ms + pause := (hk.2 n hcar).2.2 h429
        omega
  · rw [if_neg h429]
    by_cases hbad : r.status < 200 ∨ 300 ≤ r.status
    · rw [if_pos hbad]
      cases errorMessage hooks r.status r.body.toJson with
      | none => exact Outcome.meets_throw hg'
      | some message => exact reported_finished hg'
    · rw [if_neg hbad]
      exact Outcome.meets_ret ⟨hg', by simp⟩

theorem attempt_meets (hr : cfg.httpRespectRatelimits = true) (hg : Guarded h c)
    (hc : Clear h req c.now) (hk : Kept cfg req a) :
    (attempt cfg hooks req a retries c).Meets h (Prepared req)
      (fun h' x => Guarded h' x.2) (·.Pairwise Spaced) := by
  refine attempt_rule (fun _ _ => hg) fun hsend => ?_
  have hquiet : ∀ e ∈ (if a.transport.acted = true then [Wire.acted req.method req.path] else []),
      Quiet e := by
    intro e he
    split_ifs at he
    · rw [List.mem_singleton] at he
      rw [he]
      trivial
    · cases he
  have hlater : c.now ≤ (c.after a.latency).now := by
    simp only [Client.after_now]
    omega
  have hg' := (hg.sent hc hquiet).later (Client.after_buckets c a.latency) hlater
  have hc' := (hc.sent hquiet).later hlater
  unfold Kept at hk
  unfold answered
  cases ht : a.transport with
  | lost acted error =>
    rw [ht] at hg' hc'
    exact afterLoss_meets hg' hc'
  | reply r =>
    rw [ht] at hg' hc' hk
    exact afterReply_meets hr hg' hc' hsend.2 hk

theorem attemptLoop_meets (hr : cfg.httpRespectRatelimits = true) {script : List Attempt}
    (hg : Guarded h c) (hc : Clear h req c.now) (hk : ∀ a ∈ script, Kept cfg req a) :
    (attemptLoop cfg hooks req script retries c).Meets h (fun h' x => Guarded h' x.2)
      (fun h' x => Guarded h' x.2) (·.Pairwise Spaced) := by
  induction script generalizing h c retries with
  | nil => exact Outcome.meets_cut hg.spaced
  | cons a rest ih =>
    rw [List.forall_mem_cons] at hk
    refine (attempt_meets hr hg hc hk.1).andThen fun h' x hx => ?_
    obtain ⟨next, c'⟩ := x
    cases next with
    | again n => exact ih hx.1 (hx.2 n rfl) hk.2
    | finished response => exact Outcome.meets_ret hx.1

/-! ## Whole runs -/

theorem perform_meets (hr : cfg.httpRespectRatelimits = true) {call : Call} (hg : Guarded h c)
    (ho : Overslept call (c.after call.idle)) (hk : ∀ a ∈ call.script, Kept cfg call.request a) :
    (call.perform cfg hooks c).Meets h (fun h' x => Guarded h' x.2)
      (fun h' x => Guarded h' x.2) (·.Pairwise Spaced) := by
  have hidle : Guarded h (c.after call.idle) := by
    apply hg.later (Client.after_buckets c call.idle)
    simp only [Client.after_now]
    omega
  unfold Call.perform performRequest
  cases hooks.preHook call.request.method call.request.path call.request.body with
  | none => exact Outcome.meets_throw hidle
  | some body =>
    refine attemptLoop_meets hr (hidle.later rfl ?_) (clear_of_check hr hidle ho) hk
    simp only [Client.sleep_now, ms]
    omega

theorem runCalls_spaced (hr : cfg.httpRespectRatelimits = true) {calls : List Call}
    (hg : Guarded h c) (hu : Upheld cfg hooks calls c) :
    (h ++ runCalls cfg hooks calls c).Pairwise Spaced := by
  induction calls generalizing h c with
  | nil => simpa only [runCalls, List.append_nil] using hg.spaced
  | cons call rest ih =>
    obtain ⟨ho, hk, hrest⟩ := hu
    have hm : (call.perform cfg hooks c).Meets h (fun h' x => Guarded h' x.2)
        (fun h' x => Guarded h' x.2) (·.Pairwise Spaced) := perform_meets hr hg ho hk
    simp only [runCalls]
    unfold Outcome.Meets at hm
    cases hs : (call.perform cfg hooks c).status with
    | done x =>
      have ha : clientAfter (call.perform cfg hooks c) = some x.2 := by simp only [clientAfter, hs]
      rw [hs] at hm
      simpa only [ha, Option.map_some, Option.getD_some, List.append_assoc] using ih hm (hrest _ ha)
    | thrown x =>
      have ha : clientAfter (call.perform cfg hooks c) = some x.2 := by simp only [clientAfter, hs]
      rw [hs] at hm
      simpa only [ha, Option.map_some, Option.getD_some, List.append_assoc] using ih hm (hrest _ ha)
    | running =>
      have ha : clientAfter (call.perform cfg hooks c) = none := by simp only [clientAfter, hs]
      rw [hs] at hm
      simpa only [ha, Option.map_none, Option.getD_none, List.append_nil] using hm

/-- In a run that upholds the limits every request is sent after the pauses asked for. -/
theorem requests_spaced (cfg : Config) (hooks : Hooks) (hr : cfg.httpRespectRatelimits = true)
    (calls : List Call) (now : ℤ) (hu : Upheld cfg hooks calls (.fresh now)) :
    (runCalls cfg hooks calls (.fresh now)).Pairwise Spaced := by
  have hg : Guarded [] (.fresh now) := ⟨List.Pairwise.nil, by simp, by simp, by simp [Client.fresh]⟩
  simpa only [List.nil_append] using runCalls_spaced hr hg hu

def fetchSelf (headers : Headers) : Call :=
  ⟨⟨"GET", "/users/@me", .null⟩, 2000000, 0, [⟨5000000, .reply ⟨200, .empty, headers⟩, 0⟩]⟩

theorem fetchSelf_twice_spaced : (runCalls {} .none
    [fetchSelf ⟨"", "5", "0", "1000"⟩, fetchSelf ⟨"", "5", "4", "1000"⟩]
    (.fresh 0)).Pairwise Spaced := by
  apply requests_spaced {} .none rfl
  have hkept : ∀ remaining, ∀ a ∈ (fetchSelf ⟨"", "5", remaining, "1000"⟩).script,
      Kept {} (fetchSelf ⟨"", "5", remaining, "1000"⟩).request a := by
    intro remaining a ha
    rw [fetchSelf, List.mem_singleton] at ha
    subst ha
    refine ⟨Or.inl rfl, fun n hn => ?_⟩
    have hlimit : stoi "5" = some 5 := by decide
    have hreset : numeral "1000" = some 1000 := by decide
    have hn' : n = 1000 := Option.some.inj (hn.2.2.symm.trans hreset)
    subst hn'
    refine ⟨Option.isSome_iff_exists.mpr ⟨5, hlimit⟩, by decide, fun h => ?_⟩
    exact absurd (show (200 : ℤ) = 429 from h) (by decide)
  refine ⟨by simp [Overslept, Client.fresh], hkept "0", fun c hc => ?_⟩
  cases hc
  refine ⟨fun state hs _ _ => ?_, hkept "4", fun _ _ => trivial⟩
  cases hs
  decide

/-- The reply names its bucket `users`, so the next check finds no entry. -/
theorem named_bucket_not_spaced : ¬ (runCalls {} .none
    [fetchSelf ⟨"users", "5", "0", "1000"⟩, fetchSelf ⟨"users", "5", "4", "1000"⟩]
    (.fresh 0)).Pairwise Spaced := by
  intro h
  have hrun : runCalls {} .none
      [fetchSelf ⟨"users", "5", "0", "1000"⟩, fetchSelf ⟨"users", "5", "4", "1000"⟩] (.fresh 0) =
      [.sent "GET" "/users/@me" .null 2000000, .acted "GET" "/users/@me",
        .reply "GET" "/users/@me" ⟨"users", "5", "0", "1000"⟩ 7000000,
        .sent "GET" "/users/@me" .null 9000000, .acted "GET" "/users/@me",
        .reply "GET" "/users/@me" ⟨"users", "5", "4", "1000"⟩ 14000000] := by
    rfl
  rw [hrun] at h
  simp only [List.pairwise_cons, List.forall_mem_cons] at h
  have hs := h.2.2.1.1 rfl rfl 1000 ⟨by decide, by decide, by decide⟩
  exact absurd hs (by decide)

end Stoatpp.Rest
