import Stoatpp.Library.RetryLoop
import Stoatpp.Rest.RateLimiter

/-!
# `perform_request`

One request with its retry loop. What the network, the clock and the scheduler do is a list
of attempts; a request whose list runs out is still waiting for its reply. The trace records
what goes over the wire and when, and what the error callback is told.
-/

namespace Stoatpp.Rest
open Stoatpp.Library

/-- The rate-limit headers of a reply, empty where the header is absent. -/
structure Headers where
  bucket : String
  limit : String
  remaining : String
  resetAfter : String

/-- A response body and what `json::parse` makes of it. -/
inductive Body where
  | empty
  | json (j : Json)
  | unparsable (bytes : List UInt8)

structure Reply where
  status : ℤ
  body : Body
  headers : Headers

inductive Transport where
  /-- a connection failure, and whether the server had processed the request before it -/
  | lost (acted : Bool) (error : String)
  | reply (r : Reply)

/-- `latency` passes from the request to its outcome, `pause` from there to the next request
beyond the sleep that is asked for. -/
structure Attempt where
  latency : ℕ
  transport : Transport
  pause : ℕ

structure Request where
  method : String
  path : String
  body : Json

structure Response where
  status : ℤ
  body : Json

def Response.success (r : Response) : Prop := 200 ≤ r.status ∧ r.status < 300

instance (r : Response) : Decidable r.success := inferInstanceAs (Decidable (_ ∧ _))

structure Client where
  now : ℤ
  buckets : Buckets

inductive Fault where
  | rateLimit (message : String) (retryAfter : ℤ)
  | unsupported (message : String)
  /-- `dump()` of a string that is not valid UTF-8 -/
  | dump
  /-- an exception of the request hook or of the error callback -/
  | hook

/-- The part of `ClientConfig` that requests read, with its defaults. -/
structure Config where
  httpRetryCount : ℤ := 3
  httpRespectRatelimits : Bool := true
  ratelimitRetryDelayMs : ℤ := 500

/-- `json::dump` and the two callbacks; `none` and `false` stand for a throw. -/
structure Hooks where
  dump : Json → Option String
  preHook : String → String → Json → Option Json
  errorCb : Option (String → String → ℤ → String → Bool)

def Hooks.none : Hooks := ⟨fun _ => some "", fun _ _ body => some body, Option.none⟩

inductive Wire where
  | sent (method path : String) (body : Json) (time : ℤ)
  /-- the server processed the request -/
  | acted (method path : String)
  | reply (method path : String) (headers : Headers) (time : ℤ)
  | reported (method path : String) (status : ℤ) (message : String)

def Wire.sent? : Wire → Option (Request × ℤ)
  | .sent method path body time => some (⟨method, path, body⟩, time)
  | _ => none

abbrev Act := Outcome (Fault × Client) Wire

namespace Client

def fresh (now : ℤ) : Client := ⟨now, fun _ => none⟩

def after (c : Client) (ns : ℕ) : Client := { c with now := c.now + ns }

/-- `sleep_for`, which wakes up `late` nanoseconds after the time asked for. -/
def sleep (c : Client) (wait : ℤ) (late : ℕ) : Client :=
  { c with now := c.now + max 0 wait * ms + late }

def update (c : Client) (bucket : String) (limit remaining resetAfter : ℤ) : Client :=
  { c with buckets := c.buckets.update c.now bucket limit remaining resetAfter }

@[simp] theorem update_now (c : Client) (bucket : String) (limit remaining resetAfter : ℤ) :
    (c.update bucket limit remaining resetAfter).now = c.now := rfl
@[simp] theorem update_buckets (c : Client) (bucket : String) (limit remaining resetAfter : ℤ) :
    (c.update bucket limit remaining resetAfter).buckets =
      c.buckets.update c.now bucket limit remaining resetAfter := rfl
@[simp] theorem after_buckets (c : Client) (n : ℕ) : (c.after n).buckets = c.buckets := rfl
@[simp] theorem after_now (c : Client) (n : ℕ) : (c.after n).now = c.now + n := rfl
@[simp] theorem sleep_now (c : Client) (w : ℤ) (n : ℕ) :
    (c.sleep w n).now = c.now + max 0 w * ms + n := rfl

end Client

def Request.bucket (req : Request) : String := req.method ++ ":" ++ req.path

def supported (method : String) : Bool :=
  method = "GET" || method = "POST" || method = "PATCH" || method = "PUT" || method = "DELETE"

def Body.toJson : Body → Json
  | .empty => .null
  | .json j => j
  | .unparsable bytes => .obj [("raw_body", .raw bytes)]

def noteHeaders (req : Request) (h : Headers) (c : Client) : Client :=
  let bucketId := if h.bucket = "" then req.bucket else h.bucket
  if h.limit ≠ "" ∧ h.remaining ≠ "" ∧ h.resetAfter ≠ "" then
    match stoi h.limit, stoi h.remaining, stoi h.resetAfter with
    | some limit, some remaining, some resetAfter =>
      c.update bucketId limit remaining resetAfter
    | _, _, _ => c
  else c

@[simp] theorem noteHeaders_now (req : Request) (h : Headers) (c : Client) :
    (noteHeaders req h c).now = c.now := by
  unfold noteHeaders
  dsimp only
  split
  · split <;> rfl
  · rfl

variable (cfg : Config) (hooks : Hooks)

/-- How long a 429 makes the client wait, in milliseconds. -/
def retryAfter (r : Reply) : ℤ :=
  match (r.body.toJson.get? "retry_after").bind Json.number? with
  | some n => int32 n
  | none =>
    if r.headers.resetAfter = "" then cfg.ratelimitRetryDelayMs
    else (stoi r.headers.resetAfter).getD cfg.ratelimitRetryDelayMs

def errorMessage (status : ℤ) (body : Json) : Option String :=
  if body.isObject then
    match body.text? "type", body.text? "permission", body.text? "error" with
    | some type, some permission, _ => some (type ++ " (missing permission: " ++ permission ++ ")")
    | some type, none, _ => some type
    | none, _, some error => some error
    | none, _, none => hooks.dump body
  else some ("HTTP error " ++ toString status)

def report (req : Request) (status : ℤ) (message : String) (c : Client) : Act Unit :=
  match hooks.errorCb with
  | none => return ()
  | some cb => do
    .emit [.reported req.method req.path status message]
    if cb req.method req.path status message then return () else .throw (.hook, c)

inductive Next where
  | again (retries : ℤ)
  | finished (response : Response)

def afterLoss (req : Request) (error : String) (pause : ℕ) (retries : ℤ) (c : Client) :
    Act (Next × Client) := do
  let message := "Connection failed on " ++ req.method ++ " " ++ req.path ++ ": " ++ error
  if retries < cfg.httpRetryCount then return (.again (retries + 1), c.sleep 1000 pause)
  else
    report hooks req 0 message c
    return (.finished ⟨0, .obj [("error", .str message)]⟩, c)

def afterReply (req : Request) (r : Reply) (pause : ℕ) (retries : ℤ) (c : Client) :
    Act (Next × Client) := do
  .emit [.reply req.method req.path r.headers c.now]
  let c := noteHeaders req r.headers c
  if r.status = 429 then
    if cfg.httpRespectRatelimits then return (.again retries, c.sleep (retryAfter cfg r) pause)
    else
      report hooks req r.status "Rate limit hit" c
      .throw (.rateLimit ("Rate limit hit on " ++ req.path) (retryAfter cfg r), c)
  else if r.status < 200 ∨ 300 ≤ r.status then
    match errorMessage hooks r.status r.body.toJson with
    | none => .throw (.dump, c)
    | some message =>
      report hooks req r.status message c
      return (.finished ⟨r.status, r.body.toJson⟩, c)
  else return (.finished ⟨r.status, r.body.toJson⟩, c)

def Transport.acted : Transport → Bool
  | .lost acted _ => acted
  | .reply r => r.status ≠ 429

def attempt (req : Request) (a : Attempt) (retries : ℤ) (c : Client) : Act (Next × Client) := do
  if !req.body.isNull && (hooks.dump req.body).isNone then .throw (.dump, c)
  else if !supported req.method then
    .throw (.unsupported ("Unsupported HTTP method: " ++ req.method), c)
  else
    .emit [.sent req.method req.path req.body c.now]
    .emit (if a.transport.acted then [.acted req.method req.path] else [])
    match a.transport with
    | .lost _ error => afterLoss cfg hooks req error a.pause retries (c.after a.latency)
    | .reply r => afterReply cfg hooks req r a.pause retries (c.after a.latency)

/-- The body can be dumped and the method is one of the five. -/
abbrev Sendable (hooks : Hooks) (req : Request) : Prop :=
  (!req.body.isNull && (hooks.dump req.body).isNone) = false ∧ supported req.method = true

/-- What follows the request of an attempt. -/
def answered (req : Request) (a : Attempt) (retries : ℤ) (c : Client) : Act (Next × Client) :=
  match a.transport with
  | .lost _ error => afterLoss cfg hooks req error a.pause retries (c.after a.latency)
  | .reply r => afterReply cfg hooks req r a.pause retries (c.after a.latency)

section
variable {cfg hooks} {req : Request} {a : Attempt} {retries : ℤ} {c : Client}

theorem attempt_answered (hr : Sendable hooks req) : attempt cfg hooks req a retries c =
      ⟨.sent req.method req.path req.body c.now ::
        ((if a.transport.acted then [.acted req.method req.path] else []) ++
          (answered cfg hooks req a retries c).trace), (answered cfg hooks req a retries c).status⟩ := by
  unfold attempt
  rw [if_neg (Bool.eq_false_iff.mp hr.1), if_neg (by simp [hr.2])]
  rfl

theorem attempt_refused (hr : ¬ Sendable hooks req) :
    ∃ fault, attempt cfg hooks req a retries c = .throw (fault, c) := by
  unfold attempt
  by_cases hdump : (!req.body.isNull && (hooks.dump req.body).isNone) = true
  · exact ⟨.dump, by rw [if_pos hdump]⟩
  · have hs : (!supported req.method) = true := by
      rw [Bool.not_eq_true] at hdump
      simpa [hdump] using hr
    exact ⟨_, by rw [if_neg hdump, if_pos hs]⟩

/-- An attempt throws at once, or it is its request and what follows. -/
theorem attempt_rule {h : List Wire} {Q : List Wire → Next × Client → Prop}
    {E : List Wire → Fault × Client → Prop} {R : List Wire → Prop}
    (hrefused : ¬ Sendable hooks req → ∀ fault, E h (fault, c))
    (hsent : Sendable hooks req → (answered cfg hooks req a retries c).Meets
      ((h ++ [.sent req.method req.path req.body c.now]) ++
        (if a.transport.acted then [.acted req.method req.path] else [])) Q E R) :
    (attempt cfg hooks req a retries c).Meets h Q E R := by
  by_cases hr : Sendable hooks req
  · have hmeets := hsent hr
    unfold Outcome.Meets at hmeets ⊢
    rw [attempt_answered hr]
    simpa only [List.append_assoc, List.cons_append, List.nil_append] using hmeets
  · obtain ⟨fault, hf⟩ : ∃ fault, attempt cfg hooks req a retries c = .throw (fault, c) :=
      attempt_refused hr
    rw [hf]
    exact Outcome.meets_throw (hrefused hr fault)

end

/-- `while (true)`, as long as the network answers. -/
def attemptLoop (req : Request) : List Attempt → ℤ → Client → Act (Response × Client)
  | [], _, _ => .cut
  | a :: rest, retries, c => do
    let (next, c) ← attempt cfg hooks req a retries c
    match next with
    | .again retries => attemptLoop req rest retries c
    | .finished response => return (response, c)

/-- One round of the loop, from the retries made and the client to the next ones or to the end. -/
def attemptTurn (req : Request) (a : Attempt) (s : ℤ × Client) :
    Act ((ℤ × Client) ⊕ (Response × Client)) :=
  (attempt cfg hooks req a s.1 s.2).andThen fun
    | (.again retries, c) => .ret (.inl (retries, c))
    | (.finished response, c) => .ret (.inr (response, c))

variable {cfg hooks} in
theorem attemptTurn_trace {req : Request} {a : Attempt} {s : ℤ × Client} :
    (attemptTurn cfg hooks req a s).trace = (attempt cfg hooks req a s.1 s.2).trace := by
  simp only [attemptTurn, Outcome.andThen]
  cases (attempt cfg hooks req a s.1 s.2).status with
  | done x =>
    obtain ⟨next, c'⟩ := x
    cases next <;> exact List.append_nil _
  | thrown fault => rfl
  | running => rfl

variable {cfg hooks} in
theorem attemptTurn_again {req : Request} {a : Attempt} {s s' : ℤ × Client} :
    (attemptTurn cfg hooks req a s).status = .done (.inl s') ↔
      (attempt cfg hooks req a s.1 s.2).status = .done (.again s'.1, s'.2) := by
  simp only [attemptTurn, Outcome.andThen]
  cases (attempt cfg hooks req a s.1 s.2).status with
  | done x =>
    obtain ⟨next, c'⟩ := x
    cases next <;> simp [Prod.ext_iff]
  | thrown fault => simp
  | running => simp

theorem attemptLoop_eq (req : Request) (script : List Attempt) (retries : ℤ) (c : Client) :
    attemptLoop cfg hooks req script retries c =
      retryLoop (attemptTurn cfg hooks req) script (retries, c) := by
  induction script generalizing retries c with
  | nil => rfl
  | cons a rest ih =>
    simp only [attemptLoop, retryLoop, attemptTurn, Outcome.bind_eq_andThen, Outcome.andThen]
    cases (attempt cfg hooks req a retries c).status with
    | done x =>
      obtain ⟨next, c'⟩ := x
      cases next with
      | again n => simp [ih]
      | finished response => simp
    | thrown fault => rfl
    | running => rfl

def waitTime (req : Request) (c : Client) : ℤ :=
  if cfg.httpRespectRatelimits then c.buckets.check c.now req.bucket else 0

/-- `late` passes between the check and the first request beyond the sleep asked for. -/
def performRequest (req : Request) (late : ℕ) (script : List Attempt) (c : Client) :
    Act (Response × Client) :=
  match hooks.preHook req.method req.path req.body with
  | none => .throw (.hook, c)
  | some body =>
    attemptLoop cfg hooks { req with body := body } script 0 (c.sleep (waitTime cfg req c) late)

/-! ## The requests of a trace -/

section
variable {cfg hooks} {req : Request} {a : Attempt} {retries : ℤ} {c : Client} {e : Wire} {script : List Attempt}

theorem sent?_report {status : ℤ} {message : String}
    (he : e ∈ (report hooks req status message c).trace) : e.sent? = none := by
  unfold report at he
  cases hcb : hooks.errorCb with
  | none => simp [hcb] at he
  | some cb =>
    simp only [hcb, Outcome.bind_eq_andThen, Outcome.mem_andThen, Outcome.emit_trace,
      List.mem_singleton] at he
    rcases he with rfl | ⟨-, -, he⟩
    · rfl
    · split_ifs at he <;> simp at he

theorem sent?_afterLoss {error : String} {pause : ℕ}
    (he : e ∈ (afterLoss cfg hooks req error pause retries c).trace) : e.sent? = none := by
  simp only [afterLoss] at he
  split_ifs at he with hretry
  · simp at he
  · simp only [Outcome.bind_eq_andThen, Outcome.mem_andThen, Outcome.pure_eq_ret, Outcome.ret_trace,
      List.not_mem_nil, and_false, exists_false, or_false] at he
    exact sent?_report he

theorem sent?_afterReply {r : Reply} {pause : ℕ}
    (he : e ∈ (afterReply cfg hooks req r pause retries c).trace) : e.sent? = none := by
  simp only [afterReply, Outcome.bind_eq_andThen, Outcome.mem_andThen, Outcome.emit_trace,
    List.mem_singleton] at he
  rcases he with rfl | ⟨-, -, he⟩
  · rfl
  · split_ifs at he with h429 hres hbad
    · simp at he
    · simp only [Outcome.mem_andThen, Outcome.throw_trace, List.not_mem_nil, and_false,
        exists_false, or_false] at he
      exact sent?_report he
    · cases hm : errorMessage hooks r.status r.body.toJson with
      | none => simp [hm] at he
      | some message =>
        simp only [hm, Outcome.mem_andThen, Outcome.pure_eq_ret, Outcome.ret_trace,
          List.not_mem_nil, and_false, exists_false, or_false] at he
        exact sent?_report he
    · simp at he

theorem sent?_answered (he : e ∈ (answered cfg hooks req a retries c).trace) : e.sent? = none := by
  unfold answered at he
  cases ht : a.transport with
  | lost acted error =>
    rw [ht] at he
    exact sent?_afterLoss he
  | reply r =>
    rw [ht] at he
    exact sent?_afterReply he

/-- An attempt makes its own request and no other. -/
theorem sent?_attempt (he : e ∈ (attempt cfg hooks req a retries c).trace) {x : Request × ℤ}
    (hx : e.sent? = some x) : x.1 = req := by
  by_cases hr : Sendable hooks req
  · rw [attempt_answered hr] at he
    rcases List.mem_cons.mp he with rfl | he
    · obtain rfl := Option.some.inj hx
      rfl
    · rcases List.mem_append.mp he with he | he
      · split_ifs at he
        · rw [List.mem_singleton.mp he] at hx
          cases hx
        · cases he
      · rw [sent?_answered he] at hx
        cases hx
  · obtain ⟨fault, hf⟩ : ∃ fault, attempt cfg hooks req a retries c = .throw (fault, c) :=
      attempt_refused hr
    rw [hf] at he
    cases he

theorem sent?_attemptLoop (he : e ∈ (attemptLoop cfg hooks req script retries c).trace) {x : Request × ℤ}
    (hx : e.sent? = some x) : x.1 = req := by
  induction script generalizing retries c with
  | nil => cases he
  | cons a rest ih =>
    simp only [attemptLoop, Outcome.bind_eq_andThen, Outcome.mem_andThen] at he
    rcases he with he | ⟨⟨next, c'⟩, -, he⟩
    · exact sent?_attempt he hx
    · cases next with
      | again n => exact ih he
      | finished response => cases he

theorem attemptLoop_goes_out (hsend : Sendable hooks req) (a : Attempt) (script : List Attempt) :
    ∃ rest, (attemptLoop cfg hooks req (a :: script) retries c).trace =
      .sent req.method req.path req.body c.now :: rest := by
  have hfirst : (attempt cfg hooks req a retries c).trace = .sent req.method req.path req.body c.now :: _ :=
    congrArg Outcome.trace (attempt_answered hsend)
  simp only [attemptLoop, Outcome.bind_eq_andThen]
  obtain ⟨rest, hrest⟩ := Outcome.trace_prefix_andThen (attempt cfg hooks req a retries c) _
  rw [← hrest, hfirst]
  exact ⟨_, rfl⟩

/-- A request that can be sent goes out at once, and again for each attempt. -/
theorem performRequest_goes_out {late : ℕ} {body : Json}
    (hhook : hooks.preHook req.method req.path req.body = some body)
    (hsend : Sendable hooks { req with body := body }) (hscript : script ≠ []) :
    ∃ time rest, (performRequest cfg hooks req late script c).trace = .sent req.method req.path body time :: rest ∧
      ∀ e ∈ rest, ∀ x, e.sent? = some x → x.1 = { req with body := body } := by
  obtain ⟨a, script, rfl⟩ := List.exists_cons_of_ne_nil hscript
  simp only [performRequest, hhook]
  obtain ⟨rest, hrest⟩ := @attemptLoop_goes_out cfg hooks _ 0 (c.sleep (waitTime cfg req c) late) hsend a script
  refine ⟨_, rest, hrest, fun e he x hx => ?_⟩
  have hmem : e ∈ (attemptLoop cfg hooks { req with body := body } (a :: script) 0
      (c.sleep (waitTime cfg req c) late)).trace := hrest.symm ▸ List.mem_cons_of_mem _ he
  exact sent?_attemptLoop hmem hx

end

/-! ## Calls one after the other -/

structure Call where
  request : Request
  idle : ℕ
  late : ℕ
  script : List Attempt

def Call.perform (call : Call) (c : Client) : Act (Response × Client) :=
  performRequest cfg hooks call.request call.late call.script (c.after call.idle)

def clientAfter (o : Act (Response × Client)) : Option Client :=
  match o.status with
  | .done (_, c) => some c
  | .thrown (_, c) => some c
  | .running => none

def runCalls : List Call → Client → List Wire
  | [], _ => []
  | call :: rest, c =>
    let o := call.perform cfg hooks c
    o.trace ++ ((clientAfter o).map (runCalls rest)).getD []

end Stoatpp.Rest
