import Stoatpp.Library.ReadModifyWrite
import Stoatpp.Rest.Request

/-!
# Calls that fetch, change and send back

A call of two requests, as one of many on threads of their own: a GET, and a PATCH with what the call
makes of the answer. Each attempt of `perform_request` is a step. A PATCH may reach the server and its
reply be lost, so that it is sent again or reported as failed although the server has made the change.
-/

namespace Stoatpp.Rest
open Stoatpp.Library

/-- The client a request finds at one of its attempts, since all threads share the clock and the
limiter, how the attempt goes, and whether a server that does not answer with a success has made the
change all the same. -/
structure Encounter where
  client : Client
  attempt : Attempt
  made : Bool := false

def Reply.success (r : Reply) : Bool := 200 ≤ r.status && r.status < 300

def Transport.makes (made : Bool) : Transport → Bool
  | .lost _ _ => made
  | .reply r => r.success || made

def Wire.isActed : Wire → Bool
  | .acted _ _ => true
  | _ => false

def ending : Status (Fault × Client) (Response × Client) → Status Unit Response
  | .done (response, _) => .done response
  | .thrown _ => .thrown ()
  | .running => .running

/-- How the loop goes on, unless an exception ends it. -/
def next? : Status (Fault × Client) (Next × Client) → Option Next
  | .done (next, _) => some next
  | _ => none

/-- A server whose GET succeeds answers with this document. -/
def Encounter.serving (e : Encounter) (document : Json) : Encounter :=
  match e.attempt.transport with
  | .lost _ _ => e
  | .reply r =>
    if r.success then { e with attempt := { e.attempt with transport := .reply { r with body := .json document } } }
    else e

/-- The hooks may throw, but do not rewrite what is sent. -/
def KeepsBodies (hooks : Hooks) : Prop :=
  ∀ method path body body', hooks.preHook method path body = some body' → body' = body

section
variable (cfg : Config) (hooks : Hooks)

/-- One attempt of a request that has been repeated so often: how it goes on, and the body of which
the server makes something. The hook has run before the first attempt and has left the same body. -/
def encounter (req : Request) (retries : ℤ) (e : Encounter) : Option Next × Option Json :=
  match hooks.preHook req.method req.path req.body with
  | none => (none, none)
  | some body =>
    let o := attempt cfg hooks { req with body := body } e.attempt retries e.client
    (next? o.status, if o.trace.any Wire.isActed && e.attempt.transport.makes e.made then some body else none)

/-- How a request ends whose attempts are steps of their own. -/
def meet (req : Request) : List Encounter → ℤ → Status Unit Response
  | [], _ => .running
  | e :: rest, retries =>
    match (encounter cfg hooks req retries e).1 with
    | none => .thrown ()
    | some (.again n) => meet req rest n
    | some (.finished response) => .done response

/-- The call on a resource, and the server's part in it: how it answers a GET and what it makes of
the fields of a PATCH. -/
structure PatchCall (α : Type) where
  path : String
  document : α → Json
  /-- what is sent, or how the call ends without a PATCH -/
  change : Json → Except Bool α
  fields : α → Json
  heed : Json → α
  heed_fields : ∀ v, heed (fields v) = v

inductive Phase (α : Type) where
  | fetching (retries : ℤ)
  | sending (v : α) (retries : ℤ)
  | ended (success : Bool)

def Phase.stage {α : Type} : Phase α → Stage α
  | .fetching _ => .ready
  | .sending v _ => .holding v
  | .ended success => .done success

namespace PatchCall
variable {α : Type}

/-- What the server holds from then on stands in the second place, if it makes the change. -/
def step (call : PatchCall α) (e : Encounter) (v : α) : Phase α → Phase α × Option α
  | .fetching retries =>
    match (encounter cfg hooks ⟨"GET", call.path, .null⟩ retries (e.serving (call.document v))).1 with
    | none => (.ended false, none)
    | some (.again n) => (.fetching n, none)
    | some (.finished response) =>
      if response.success then
        match call.change response.body with
        | .ok w => (.sending w 0, none)
        | .error success => (.ended success, none)
      else (.ended false, none)
  | .sending w retries =>
    let (next, heard) := encounter cfg hooks ⟨"PATCH", call.path, call.fields w⟩ retries e
    match next with
    | none => (.ended false, heard.map call.heed)
    | some (.again n) => (.sending w n, heard.map call.heed)
    | some (.finished response) => (.ended (decide response.success), heard.map call.heed)
  | .ended success => (.ended success, none)

/-- What the call sends where the server holds this value. -/
def edit (call : PatchCall α) (v : α) : Except Bool α := call.change (call.document v)

end PatchCall

def actPatch {ι α : Type} (calls : ι → PatchCall α) (i : ι) (e : Encounter) (v : α) (p : Phase α) :
    Phase α × Option α :=
  (calls i).step cfg hooks e v p

end

def patchEdits {ι α : Type} (calls : ι → PatchCall α) (i : ι) (v : α) : Except Bool α := (calls i).edit v

variable {cfg : Config} {hooks : Hooks} {req : Request} {a : Attempt} {retries : ℤ} {c c' : Client} {e : Encounter}
  {response : Response} {α : Type}

/-! ## One attempt -/

/-- Whatever the client, this comes next, or an exception does. -/
def Settles (o : Client → Act (Next × Client)) : Prop :=
  (∃ next, ∀ c, ∃ c', (o c).status = .done (next, c')) ∨ ∀ c, ∃ x, (o c).status = .thrown x

theorem report_status (hooks : Hooks) (req : Request) (status : ℤ) (message : String) :
    (∀ c, (report hooks req status message c).status = .done ()) ∨
      ∀ c, (report hooks req status message c).status = .thrown (.hook, c) := by
  unfold report
  cases hooks.errorCb with
  | none => exact Or.inl fun _ => rfl
  | some cb =>
    by_cases hcb : cb req.method req.path status message = true
    · exact Or.inl fun c => by simp [Outcome.andThen, hcb]
    · exact Or.inr fun c => by simp [Outcome.andThen, hcb]

theorem report_settles (status : ℤ) (message : String) (next : Next) (f : Client → Client) :
    Settles fun c => (report hooks req status message (f c)).andThen fun _ => .ret (next, f c) := by
  rcases report_status hooks req status message with hs | hs
  · exact Or.inl ⟨next, fun c => ⟨f c, congrArg Outcome.status (Outcome.andThen_done (hs (f c)) _)⟩⟩
  · exact Or.inr fun c => ⟨(.hook, f c), by simp [Outcome.andThen, hs]⟩

theorem afterLoss_finished {error : String} {pause : ℕ}
    (h : (afterLoss cfg hooks req error pause retries c).status = .done (.finished response, c')) :
    ¬ response.success := by
  simp only [afterLoss, Outcome.bind_eq_andThen, Outcome.pure_eq_ret] at h
  split_ifs at h
  · cases h
  · rcases report_status hooks req 0 ("Connection failed on " ++ req.method ++ " " ++ req.path ++ ": " ++ error) with
      hs | hs
    · rw [Outcome.andThen_done (hs c)] at h
      cases h
      exact fun hok => absurd hok.1 (show ¬ (200 : ℤ) ≤ 0 by decide)
    · simp [Outcome.andThen, hs] at h

theorem afterReply_finished {r : Reply} {pause : ℕ}
    (h : (afterReply cfg hooks req r pause retries c).status = .done (.finished response, c')) :
    r.status ≠ 429 ∧ response = ⟨r.status, r.body.toJson⟩ := by
  simp only [afterReply, Outcome.bind_eq_andThen, Outcome.pure_eq_ret] at h
  rw [Outcome.andThen_done (Outcome.emit_status _)] at h
  split_ifs at h with h429 hres hbad
  · cases h
  · rcases report_status hooks req r.status "Rate limit hit" with hs | hs
    · rw [Outcome.andThen_done (hs _)] at h
      cases h
    · simp [Outcome.andThen, hs] at h
  · refine ⟨h429, ?_⟩
    cases hm : errorMessage hooks r.status r.body.toJson with
    | none => simp [hm] at h
    | some message =>
      rw [hm] at h
      rcases report_status hooks req r.status message with hs | hs
      · simp only [Outcome.andThen_done (hs _)] at h
        cases h
        rfl
      · simp [Outcome.andThen, hs] at h
  · cases h
    exact ⟨h429, rfl⟩

/-- Only a reply ends the loop with a success, and the server has acted on the request. -/
theorem attempt_succeeds (h : (attempt cfg hooks req a retries c).status = .done (.finished response, c'))
    (hok : response.success) : ∃ r, a.transport = .reply r ∧ r.success = true ∧
      response = ⟨r.status, r.body.toJson⟩ ∧
      (attempt cfg hooks req a retries c).trace.any Wire.isActed = true := by
  by_cases hr : Sendable hooks req
  · rw [attempt_answered hr] at h ⊢
    unfold answered at h
    cases ht : a.transport with
    | lost acted error =>
      rw [ht] at h
      exact absurd hok (afterLoss_finished h)
    | reply r =>
      rw [ht] at h
      obtain ⟨hstatus, rfl⟩ := afterReply_finished h
      have hsuccess : r.success = true := by
        rw [Reply.success, Bool.and_eq_true, decide_eq_true_eq, decide_eq_true_eq]
        exact hok
      exact ⟨r, rfl, hsuccess, rfl, by simp [Transport.acted, hstatus, Wire.isActed]⟩
  · obtain ⟨fault, hf⟩ : ∃ fault, attempt cfg hooks req a retries c = .throw (fault, c) := attempt_refused hr
    rw [hf] at h
    cases h

theorem afterLoss_settles (error : String) (pause : ℕ) (f : Client → Client) :
    Settles fun c => afterLoss cfg hooks req error pause retries (f c) := by
  simp only [afterLoss, Outcome.bind_eq_andThen, Outcome.pure_eq_ret]
  by_cases hretry : retries < cfg.httpRetryCount
  · simp only [if_pos hretry]
    exact Or.inl ⟨_, fun c => ⟨_, rfl⟩⟩
  · simp only [if_neg hretry]
    exact report_settles _ _ _ f

theorem afterReply_settles (r : Reply) (pause : ℕ) (f : Client → Client) :
    Settles fun c => afterReply cfg hooks req r pause retries (f c) := by
  simp only [afterReply, Outcome.bind_eq_andThen, Outcome.pure_eq_ret, Settles,
    Outcome.andThen_done (Outcome.emit_status _)]
  by_cases h429 : r.status = 429
  · by_cases hres : cfg.httpRespectRatelimits = true
    · simp only [if_pos h429, if_pos hres]
      exact Or.inl ⟨_, fun c => ⟨_, rfl⟩⟩
    · simp only [if_pos h429, if_neg hres]
      refine Or.inr fun c => ?_
      rcases report_status hooks req r.status "Rate limit hit" with hs | hs
      · exact ⟨_, congrArg Outcome.status (Outcome.andThen_done (hs _) _)⟩
      · refine ⟨(.hook, noteHeaders req r.headers (f c)), ?_⟩
        simp only [Outcome.andThen, hs]
  · simp only [if_neg h429]
    by_cases hbad : r.status < 200 ∨ 300 ≤ r.status
    · simp only [if_pos hbad]
      cases errorMessage hooks r.status r.body.toJson with
      | none => exact Or.inr fun c => ⟨_, rfl⟩
      | some message => exact report_settles _ _ _ fun c => noteHeaders req r.headers (f c)
    · simp only [if_neg hbad]
      exact Or.inl ⟨_, fun c => ⟨_, rfl⟩⟩

theorem attempt_settles (cfg : Config) (hooks : Hooks) (req : Request) (a : Attempt) (retries : ℤ) :
    Settles (attempt cfg hooks req a retries) := by
  by_cases hr : Sendable hooks req
  · have hanswered : Settles (answered cfg hooks req a retries) := by
      unfold answered
      cases a.transport with
      | lost acted error => exact afterLoss_settles error a.pause fun c => c.after a.latency
      | reply r => exact afterReply_settles r a.pause fun c => c.after a.latency
    obtain ⟨next, hnext⟩ | hthrown := hanswered
    · exact Or.inl ⟨next, fun c => by rw [attempt_answered hr]; exact hnext c⟩
    · exact Or.inr fun c => by rw [attempt_answered hr]; exact hthrown c
  · refine Or.inr fun c => ?_
    obtain ⟨fault, hf⟩ : ∃ fault, attempt cfg hooks req a retries c = .throw (fault, c) := attempt_refused hr
    exact ⟨_, by rw [hf]; rfl⟩

theorem next?_finished {o : Act (Next × Client)} (h : next? o.status = some (.finished response)) :
    ∃ c', o.status = .done (.finished response, c') := by
  cases hs : o.status with
  | done x =>
    rw [hs] at h
    obtain ⟨next, c'⟩ := x
    obtain rfl := Option.some.inj h
    exact ⟨c', rfl⟩
  | thrown fault =>
    rw [hs] at h
    cases h
  | running =>
    rw [hs] at h
    cases h

theorem meet_attemptLoop {body : Json} (hp : hooks.preHook req.method req.path req.body = some body)
    (encounters : List Encounter) (retries : ℤ) (c : Client) :
    meet cfg hooks req encounters retries = ending (attemptLoop cfg hooks { req with body := body }
      (encounters.map Encounter.attempt) retries c).status := by
  induction encounters generalizing retries c with
  | nil => rfl
  | cons e rest ih =>
    simp only [meet, encounter, hp, List.map_cons, attemptLoop, Outcome.bind_eq_andThen]
    rcases attempt_settles cfg hooks { req with body := body } e.attempt retries with ⟨next, hnext⟩ | hthrown
    · obtain ⟨c₁, hmet⟩ := hnext e.client
      obtain ⟨c₂, hloop⟩ := hnext c
      rw [hmet, Outcome.andThen_done hloop]
      cases next with
      | again n => exact ih n c₂
      | finished response => rfl
    · obtain ⟨x, hmet⟩ := hthrown e.client
      obtain ⟨y, hloop⟩ := hthrown c
      simp only [hmet, next?, Outcome.andThen, hloop, ending]

/-- The clients that the attempts find do not matter: together they are `perform_request`. -/
theorem meet_performRequest (cfg : Config) (hooks : Hooks) (req : Request) (late : ℕ) (e : Encounter)
    (rest : List Encounter) (c : Client) : meet cfg hooks req (e :: rest) 0 =
      ending (performRequest cfg hooks req late ((e :: rest).map Encounter.attempt) c).status := by
  unfold performRequest
  cases hp : hooks.preHook req.method req.path req.body with
  | none => simp only [meet, encounter, hp, Outcome.throw_status, ending]
  | some body => exact meet_attemptLoop hp (e :: rest) 0 _

/-- A server that has answered a request with a success makes something of the body. -/
theorem encounter_heard (hhook : KeepsBodies hooks)
    (h : (encounter cfg hooks req retries e).1 = some (.finished response)) (hok : response.success) :
    (encounter cfg hooks req retries e).2 = some req.body := by
  unfold encounter at h ⊢
  cases hp : hooks.preHook req.method req.path req.body with
  | none =>
    rw [hp] at h
    cases h
  | some body =>
    rw [hp] at h
    obtain rfl := hhook _ _ _ _ hp
    obtain ⟨c', hstatus⟩ := next?_finished h
    obtain ⟨r, ht, hr, -, hacted⟩ := attempt_succeeds hstatus hok
    simp [hacted, ht, Transport.makes, hr]

/-- The server makes something of the body that was to be sent, or of none. -/
theorem encounter_body (hhook : KeepsBodies hooks) :
    (encounter cfg hooks req retries e).2 = none ∨ (encounter cfg hooks req retries e).2 = some req.body := by
  unfold encounter
  cases hp : hooks.preHook req.method req.path req.body with
  | none => exact Or.inl rfl
  | some body =>
    obtain rfl := hhook _ _ _ _ hp
    dsimp only
    split_ifs
    · exact Or.inr rfl
    · exact Or.inl rfl

/-- A GET that succeeds brings the document the server holds. -/
theorem encounter_serving {document : Json}
    (h : (encounter cfg hooks req retries (e.serving document)).1 = some (.finished response))
    (hok : response.success) : response.body = document := by
  unfold encounter at h
  cases hp : hooks.preHook req.method req.path req.body with
  | none =>
    rw [hp] at h
    cases h
  | some body =>
    rw [hp] at h
    obtain ⟨c', hstatus⟩ := next?_finished h
    obtain ⟨r, ht, hr, rfl, -⟩ := attempt_succeeds hstatus hok
    unfold Encounter.serving at ht
    cases htransport : e.attempt.transport with
    | lost acted error =>
      simp [htransport] at ht
    | reply r' =>
      simp only [htransport] at ht
      split_ifs at ht with hsuccess
      · obtain rfl := Transport.reply.inj ht
        rfl
      · rw [htransport] at ht
        obtain rfl := Transport.reply.inj ht
        exact absurd hr hsuccess

/-! ## The call -/

theorem counts_phase {ι : Type} {s : Exchange ι (Phase α) α} {i : ι} :
    s.Counts Phase.stage i ↔ i ∈ s.written ∨ s.party i = .ended true := by
  unfold Exchange.Counts
  cases s.party i <;> simp [Phase.stage]

/-- A call reads the value, holds what it sends for as long as it tries, and reports a success only
when the server has made the change. -/
theorem patchCall_follows {ι : Type} (hhook : KeepsBodies hooks) (calls : ι → PatchCall α) :
    Follows (actPatch cfg hooks calls) (patchEdits calls) Phase.stage := by
  intro i e v p
  cases p with
  | fetching retries =>
    simp only [actPatch, PatchCall.step]
    cases hnext : (encounter cfg hooks ⟨"GET", (calls i).path, .null⟩ retries
        (e.serving ((calls i).document v))).1 with
    | none => exact .fails nofun
    | some next =>
      cases next with
      | again n => exact .waits _
      | finished response =>
        by_cases hok : response.success
        · have hbody := encounter_serving hnext hok
          simp only [if_pos hok, hbody]
          cases hc : (calls i).change ((calls i).document v) with
          | ok w => exact .reads hc
          | error success => exact .skips hc
        · simp only [if_neg hok]
          exact .fails nofun
  | sending w retries =>
    have hheard := @encounter_heard cfg hooks ⟨"PATCH", (calls i).path, (calls i).fields w⟩ retries e
    have hbody := @encounter_body cfg hooks ⟨"PATCH", (calls i).path, (calls i).fields w⟩ retries e hhook
    simp only [actPatch, PatchCall.step]
    generalize encounter cfg hooks ⟨"PATCH", (calls i).path, (calls i).fields w⟩ retries e = outcome at hheard hbody
    obtain ⟨next, heard⟩ := outcome
    obtain rfl | rfl : heard = none ∨ heard = some ((calls i).fields w) := hbody
    · -- the server has not made the change at this attempt
      cases next with
      | none => exact .fails nofun
      | some next =>
        cases next with
        | again n => exact .waits _
        | finished response =>
          have hfailed : ¬ response.success := fun hok => by cases hheard hhook rfl hok
          simp only [decide_eq_false hfailed]
          exact .fails nofun
    · simp only [Option.map_some, (calls i).heed_fields]
      cases next with
      | none => exact .writes w (Or.inr ⟨false, rfl⟩)
      | some next =>
        cases next with
        | again n => exact .writes w (Or.inl rfl)
        | finished response => exact .writes w (Or.inr ⟨_, rfl⟩)
  | ended success => exact .waits _

end Stoatpp.Rest
