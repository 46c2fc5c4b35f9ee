import Stoatpp.Library.RetryLoop
import Stoatpp.Rest.Request

/-!
# `upload_file`

The upload has a retry loop of its own. A lost connection and a 429 count against the same
`http_retry_count`; the last 429 is returned like any other answer.
-/

namespace Stoatpp.Rest
open Stoatpp.Library

/-- What is posted as the part `file` of the form. -/
structure Upload where
  path : String
  filename : String
  data : List UInt8
  mimeType : String

/-- `retryAfter` is empty where the header is absent. -/
structure UploadReply where
  status : ℤ
  body : Body
  retryAfter : String
  isStatus : 100 ≤ status

inductive UploadTransport where
  | lost (error : String)
  | reply (r : UploadReply)

structure UploadAttempt where
  latency : ℕ
  transport : UploadTransport
  pause : ℕ

inductive UploadEvent where
  | posted (file : Upload) (time : ℤ)

abbrev UploadAct := Outcome Empty UploadEvent

section
variable (cfg : Config)

def uploadRetryAfter (r : UploadReply) : ℤ :=
  match (r.body.toJson.get? "retry_after").bind Json.number? with
  | some n => int32 n
  | none =>
    if r.retryAfter = "" then cfg.ratelimitRetryDelayMs
    else ((stoi r.retryAfter).map fun n => int32 (n * 1000)).getD cfg.ratelimitRetryDelayMs

def afterUploadLoss (error : String) (pause : ℕ) (retries now : ℤ) :
    UploadAct ((ℤ × ℤ) ⊕ Response × ℤ) :=
  if retries < cfg.httpRetryCount then return .inl (retries + 1, now + 1000 * ms + pause)
  else return .inr (⟨0, .obj [("error", .str ("File upload to Autumn failed: " ++ error))]⟩, now)

def afterUploadReply (r : UploadReply) (pause : ℕ) (retries now : ℤ) :
    UploadAct ((ℤ × ℤ) ⊕ Response × ℤ) :=
  if r.status = 429 ∧ retries < cfg.httpRetryCount then
    return .inl (retries + 1, now + max 0 (uploadRetryAfter cfg r) * ms + pause)
  else return .inr (⟨r.status, r.body.toJson⟩, now)

/-- One round, from the retries made and the time to the next ones or to the response. -/
def uploadAttempt (file : Upload) (a : UploadAttempt) (s : ℤ × ℤ) :
    UploadAct ((ℤ × ℤ) ⊕ Response × ℤ) := do
  .emit [.posted file s.2]
  match a.transport with
  | .lost error => afterUploadLoss cfg error a.pause s.1 (s.2 + a.latency)
  | .reply r => afterUploadReply cfg r a.pause s.1 (s.2 + a.latency)

def uploadFile (file : Upload) (script : List UploadAttempt) (now : ℤ) : UploadAct (Response × ℤ) :=
  retryLoop (uploadAttempt cfg file) script (0, now)

end

def UploadAttempt.lost (a : UploadAttempt) : Bool :=
  match a.transport with
  | .lost _ => true
  | .reply _ => false

def UploadAttempt.limited (a : UploadAttempt) : Bool :=
  match a.transport with
  | .lost _ => false
  | .reply r => r.status = 429

/-- What `upload_file` returns if this attempt is its last. -/
def UploadAttempt.response (a : UploadAttempt) : Response :=
  match a.transport with
  | .lost error => ⟨0, .obj [("error", .str ("File upload to Autumn failed: " ++ error))]⟩
  | .reply r => ⟨r.status, r.body.toJson⟩

def uploadPause (cfg : Config) (a : UploadAttempt) : ℤ :=
  match a.transport with
  | .lost _ => 1000
  | .reply r => max 0 (uploadRetryAfter cfg r)

variable {cfg : Config} {file : Upload} {a : UploadAttempt} {s s' : ℤ × ℤ} {pre : List UploadAttempt}
  {t : List UploadEvent}

theorem UploadAttempt.response_status : a.response.status = 0 ↔ a.lost = true := by
  unfold response lost
  cases a.transport with
  | lost error => simp
  | reply r =>
    have hr := r.isStatus
    simp only [Bool.false_eq_true, iff_false]
    omega

/-! ## One attempt -/

theorem uploadAttempt_again (ha : a.lost = true ∨ a.limited = true) (hs : s.1 < cfg.httpRetryCount) :
    uploadAttempt cfg file a s = ⟨[.posted file s.2], .done (.inl
      (s.1 + 1, s.2 + a.latency + uploadPause cfg a * ms + a.pause))⟩ := by
  unfold uploadAttempt UploadAttempt.lost UploadAttempt.limited uploadPause at *
  cases ht : a.transport with
  | lost error => simp [afterUploadLoss, hs, Outcome.andThen, Outcome.emit, Outcome.ret]
  | reply r =>
    have h429 : r.status = 429 := by simpa [ht] using ha
    simp [afterUploadReply, h429, hs, Outcome.andThen, Outcome.emit, Outcome.ret]

theorem uploadAttempt_last (ha : (a.lost = true ∨ a.limited = true) → cfg.httpRetryCount ≤ s.1) :
    uploadAttempt cfg file a s =
      ⟨[.posted file s.2], .done (.inr (a.response, s.2 + a.latency))⟩ := by
  unfold uploadAttempt UploadAttempt.lost UploadAttempt.limited UploadAttempt.response at *
  cases ht : a.transport with
  | lost error =>
    have hs : ¬ s.1 < cfg.httpRetryCount := not_lt.mpr (ha (by simp [ht]))
    simp [afterUploadLoss, hs, Outcome.andThen, Outcome.emit, Outcome.ret]
  | reply r =>
    have hs : ¬ (r.status = 429 ∧ s.1 < cfg.httpRetryCount) := fun h =>
      absurd (ha (by simp [ht, h.1])) (not_le.mpr h.2)
    simp [afterUploadReply, hs, Outcome.andThen, Outcome.emit, Outcome.ret]

theorem uploadAttempt_trace (a : UploadAttempt) (s : ℤ × ℤ) :
    (uploadAttempt cfg file a s).trace = [.posted file s.2] := by
  by_cases h : (a.lost = true ∨ a.limited = true) ∧ s.1 < cfg.httpRetryCount
  · rw [uploadAttempt_again h.1 h.2]
  · rw [uploadAttempt_last fun ha => not_lt.mp fun hs => h ⟨ha, hs⟩]

theorem uploadAttempt_inl_iff : (∃ s', (uploadAttempt cfg file a s).status = .done (.inl s')) ↔
    (a.lost = true ∨ a.limited = true) ∧ s.1 < cfg.httpRetryCount := by
  by_cases h : (a.lost = true ∨ a.limited = true) ∧ s.1 < cfg.httpRetryCount
  · simp only [h, and_self, iff_true]
    exact ⟨_, by rw [uploadAttempt_again h.1 h.2]⟩
  · rw [uploadAttempt_last fun ha => not_lt.mp fun hs => h ⟨ha, hs⟩]
    simp [h]

/-! ## The loop -/

theorem allAgain_upload (h : AllAgain (uploadAttempt cfg file) pre s t s') :
    (∀ a ∈ pre, a.lost = true ∨ a.limited = true) ∧ t.length = pre.length ∧
      s'.1 = s.1 + pre.length ∧ (pre ≠ [] → s'.1 ≤ cfg.httpRetryCount) := by
  induction h with
  | nil s => simp
  | @cons a rest s s' s'' t t' ha _ ih =>
    obtain ⟨hall, hlen, hcount, hbudget⟩ := ih
    have hagain := uploadAttempt_inl_iff.mp ⟨s', by rw [ha]⟩
    rw [uploadAttempt_again hagain.1 hagain.2] at ha
    obtain ⟨rfl, hs⟩ := Outcome.mk.inj ha
    have hs' : s'.1 = s.1 + 1 := by rw [← Sum.inl.inj (Status.done.inj hs)]
    refine ⟨List.forall_mem_cons.mpr ⟨hagain.1, hall⟩, ?_, ?_, fun _ => ?_⟩
    · rw [List.length_append, hlen, List.length_singleton, List.length_cons, Nat.add_comm]
    · rw [hcount, hs', List.length_cons]
      push_cast
      omega
    · by_cases hrest : rest = []
      · rw [hcount, hs', hrest, List.length_nil]
        omega
      · exact hbudget hrest

theorem range_at {α : Type} (outcomes : ℕ → α) {k n : ℕ} (h : k < n) : ∃ rest,
    (List.range n).map outcomes = (List.range k).map outcomes ++ outcomes k :: rest := by
  obtain ⟨m, rfl⟩ : ∃ m, n = k + (m + 1) := ⟨n - k - 1, by omega⟩
  refine ⟨(List.range m).map fun i => outcomes (k + (i + 1)), ?_⟩
  rw [List.range_add, List.map_append, List.map_map, List.range_succ_eq_map, List.map_cons,
    List.map_map]
  rfl

theorem range_split {outcomes : ℕ → UploadAttempt} {n : ℕ} {rest : List UploadAttempt}
    (h : (List.range n).map outcomes = pre ++ a :: rest) :
    pre.length < n ∧ a = outcomes pre.length ∧ pre = (List.range pre.length).map outcomes := by
  have hlen := congrArg List.length h
  simp only [List.length_map, List.length_range, List.length_append, List.length_cons] at hlen
  have hlt : pre.length < n := by omega
  obtain ⟨rest', hr⟩ := range_at outcomes hlt
  rw [h] at hr
  obtain ⟨hpre, hrest⟩ := List.append_inj hr (by rw [List.length_map, List.length_range])
  exact ⟨hlt, (List.cons.inj hrest).1, hpre⟩

/-- The upload ends with its attempt `k`, the first whose outcome is neither a lost connection nor
a 429 or else the last of the budget, and returns the response to it. -/
theorem upload_ends (cfg : Config) (file : Upload) (outcomes : ℕ → UploadAttempt) (now : ℤ) :
    ∃ k : ℕ, (k : ℤ) < max 0 cfg.httpRetryCount + 1 ∧
      (∀ i < k, (outcomes i).lost = true ∨ (outcomes i).limited = true) ∧
      ((outcomes k).lost = true ∨ (outcomes k).limited = true →
        (k : ℤ) + 1 = max 0 cfg.httpRetryCount + 1) ∧
      ((outcomes k).response.status = 0 ↔ (outcomes k).lost = true) ∧
      ∀ n, k < n → ∃ t ended, uploadFile cfg file ((List.range n).map outcomes) now =
        ⟨t, .done ((outcomes k).response, ended)⟩ ∧ t.length = k + 1 := by
  set budget := (max 0 cfg.httpRetryCount).toNat with hb
  rcases retryLoop_split (uploadAttempt cfg file) ((List.range (budget + 1)).map outcomes) (0, now)
    with ⟨t, s', hgo, -⟩ | ⟨pre, a, rest, t, s', hscript, hgo, hlast, -⟩
  · -- more rounds than the budget has retries
    obtain ⟨-, -, hcount, hle⟩ := allAgain_upload hgo
    have hbudget := hle (by simp)
    rw [hcount, List.length_map, List.length_range] at hbudget
    push_cast at hbudget
    omega
  · obtain ⟨hlt, rfl, hpre⟩ := range_split hscript
    obtain ⟨hall, hposts, hcount, -⟩ := allAgain_upload hgo
    set k := pre.length with hk
    have hcount' : s'.1 = k := by rw [hcount, zero_add]
    have hend : (outcomes k).lost = true ∨ (outcomes k).limited = true →
        cfg.httpRetryCount ≤ s'.1 := fun ha => by
      by_contra hs
      obtain ⟨s'', hs''⟩ := uploadAttempt_inl_iff.mpr ⟨ha, not_le.mp hs⟩
      exact hlast s'' hs''
    refine ⟨k, by omega, fun i hi => hall _ ?_, fun ha => ?_, UploadAttempt.response_status,
      fun n hn => ?_⟩
    · rw [hpre]
      exact List.mem_map_of_mem (List.mem_range.mpr hi)
    · have hspent := hend ha
      omega
    · obtain ⟨rest', hr⟩ := range_at outcomes hn
      refine ⟨t ++ [.posted file s'.2], s'.2 + (outcomes k).latency, ?_, ?_⟩
      · rw [hr, ← hpre, uploadFile, hgo.loop, retryLoop]
        rw [uploadAttempt_last hend]
        simp [Outcome.andThen, Outcome.ret]
      · rw [List.length_append, hposts, List.length_singleton]

end Stoatpp.Rest
