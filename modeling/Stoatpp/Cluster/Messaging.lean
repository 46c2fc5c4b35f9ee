import Stoatpp.Model.Entities
import Stoatpp.Rest.Retries

/-!
# `send_message`

The cluster creates the message on a thread of its own, tells the callback once the request
has ended and, if asked to, deletes the message some seconds later.
-/

namespace Stoatpp.Cluster
open Stoatpp.Library Stoatpp.Rest

inductive Delivery where
  | wire (w : Wire)
  | callback (message : Message) (success : Bool)

def Delivery.wire? : Delivery → Option Wire
  | .wire w => some w
  | .callback _ _ => none

structure Schedule where
  late : ℕ
  script : List Attempt

def messagesPath (channelId : String) : String := "/channels/" ++ channelId ++ "/messages"

section
variable (cfg : Config) (hooks : Hooks)

def createMessage (channelId : String) (payload : MessagePayload) (s : Schedule) (c : Client) :
    Act (Response × Client) :=
  performRequest cfg hooks ⟨"POST", messagesPath channelId, payload.toJson⟩ s.late s.script c

def deleteMessage (channelId messageId : String) (s : Schedule) (c : Client) :
    Act (Response × Client) :=
  performRequest cfg hooks ⟨"DELETE", messagesPath channelId ++ "/" ++ messageId, .null⟩
    s.late s.script c

/-- A request of the cluster, whose exceptions are told apart no further. -/
def onWire {α : Type} (x : Act α) : Outcome Unit Delivery α :=
  (x.mapEvents .wire).orElse fun _ => .throw ()

/-- `if (callback) callback(…)`; a callback that gives `false` throws. -/
def notify (callback : Option (Message → Bool → Bool)) (message : Message) (success : Bool) :
    Outcome Unit Delivery Unit :=
  match callback with
  | none => return ()
  | some cb => do
    .emit [.callback message success]
    if cb message success then return () else .throw ()

variable (callback : Option (Message → Bool → Bool))

def trySend (channelId : String) (payload : MessagePayload) (s : Schedule) (c : Client) :
    Outcome Unit Delivery (Option (String × Client)) := do
  let (res, c) ← onWire (createMessage cfg hooks channelId payload s c)
  if res.success then
    let msg := Message.fromJson res.body
    notify callback msg true
    return some (msg.id, c)
  else if (hooks.dump res.body).isNone then .throw ()
  else
    notify callback {} false
    return none

/-- `masquerade_handler` gives the payload to send, or throws. -/
def sendMessage (masquerade : String → MessagePayload → Option MessagePayload) (channelId : String)
    (payloadRaw : MessagePayload) (create delete : Schedule) (c : Client) :
    Outcome Unit Delivery Unit :=
  match masquerade channelId payloadRaw with
  | none => .throw ()
  | some payload => do
    let sent ← (trySend cfg hooks callback channelId payload create c).orElse fun _ => do
      notify callback {} false
      return none
    match sent with
    | none => return ()
    | some (msgId, c) =>
      if 0 < payload.deleteAfter then
        let _ ← onWire (deleteMessage cfg hooks channelId msgId delete
          (c.sleep (payload.deleteAfter * 1000) 0))
        return ()
      else return ()

end

/-! ## How often the message is created -/

def created (channelId : String) (h : List Delivery) : ℕ :=
  processed "POST" (messagesPath channelId) (h.filterMap Delivery.wire?)

theorem created_append (channelId : String) (h h' : List Delivery) :
    created channelId (h ++ h') = created channelId h + created channelId h' := by
  simp only [created, List.filterMap_append, processed_append]

theorem created_wire (channelId : String) (h : List Wire) :
    created channelId (h.map .wire) = processed "POST" (messagesPath channelId) h := by
  simp only [created, List.filterMap_map]
  congr 1
  exact List.filterMap_some

variable {cfg : Config} {hooks : Hooks} {callback : Option (Message → Bool → Bool)}
  {channelId : String} {h : List Delivery} {N : ℕ}

theorem notify_created {message : Message} {success : Bool} (hN : created channelId h ≤ N) :
    (notify callback message success).Meets h (fun h' _ => created channelId h' ≤ N)
      (fun h' _ => created channelId h' ≤ N) (fun h' => created channelId h' ≤ N) := by
  unfold notify
  cases callback with
  | none => exact Outcome.meets_ret hN
  | some cb =>
    have hn : created channelId (h ++ [.callback message success]) ≤ N := by
      rw [created_append]
      exact hN
    apply Outcome.meets_emit_andThen
    by_cases hcb : cb message success = true
    · rw [if_pos hcb]
      exact Outcome.meets_ret hn
    · rw [if_neg hcb]
      exact Outcome.meets_throw hn

theorem onWire_created {req : Request} {late : ℕ} {script : List Attempt} {c : Client}
    (hN : created channelId h + (if req.method = "POST" ∧ req.path = messagesPath channelId then
      allowance cfg script 0 else 0) ≤ N) :
    (onWire (performRequest cfg hooks req late script c)).Meets h
      (fun h' _ => created channelId h' ≤ N) (fun h' _ => created channelId h' ≤ N)
      (fun h' => created channelId h' ≤ N) := by
  have hp : (performRequest cfg hooks req late script c).Meets []
      (fun t _ => processed "POST" (messagesPath channelId) t ≤ N - created channelId h)
      (fun t _ => processed "POST" (messagesPath channelId) t ≤ N - created channelId h)
      (fun t => processed "POST" (messagesPath channelId) t ≤ N - created channelId h) := by
    apply performRequest_processed
    simp only [processed, List.countP_nil]
    omega
  have hh : created channelId h ≤ N := by omega
  refine Outcome.Meets.orElse (Outcome.Meets.mapEvents ?_) fun _ _ hn => Outcome.meets_throw hn
  simp only [created_append, created_wire]
  exact hp.imp (fun _ _ ht => by omega) (fun _ _ ht => by omega) fun _ ht => by omega

theorem trySend_created {payload : MessagePayload} {s : Schedule} {c : Client}
    (hN : created channelId h + allowance cfg s.script 0 ≤ N) :
    (trySend cfg hooks callback channelId payload s c).Meets h
      (fun h' _ => created channelId h' ≤ N) (fun h' _ => created channelId h' ≤ N)
      (fun h' => created channelId h' ≤ N) := by
  refine (onWire_created (by simpa using hN)).andThen fun h' x hn => ?_
  obtain ⟨res, c'⟩ := x
  by_cases hs : res.success
  · simp only [hs, if_true]
    exact (notify_created hn).andThen fun _ _ hn' => Outcome.meets_ret hn'
  · simp only [hs, if_false]
    by_cases hd : (hooks.dump res.body).isNone = true
    · rw [if_pos hd]
      exact Outcome.meets_throw hn
    · rw [if_neg hd]
      exact (notify_created hn).andThen fun _ _ hn' => Outcome.meets_ret hn'

/-- One call creates its message once, and once more for each reply that is lost after the
server acted, as far as retries are allowed. -/
theorem sendMessage_created (cfg : Config) (hooks : Hooks)
    (callback : Option (Message → Bool → Bool))
    (masquerade : String → MessagePayload → Option MessagePayload) (channelId : String)
    (payload : MessagePayload) (create delete : Schedule) (c : Client) :
    created channelId
      (sendMessage cfg hooks callback masquerade channelId payload create delete c).trace ≤
    1 + min (create.script.countP Attempt.lostReply) cfg.httpRetryCount.toNat := by
  have hN : allowance cfg create.script 0 =
      1 + min (create.script.countP Attempt.lostReply) cfg.httpRetryCount.toNat := by
    rw [allowance, sub_zero]
  rw [← hN]
  suffices hm : (sendMessage cfg hooks callback masquerade channelId payload create delete c).Meets []
      (fun t _ => created channelId t ≤ allowance cfg create.script 0)
      (fun t _ => created channelId t ≤ allowance cfg create.script 0)
      (fun t => created channelId t ≤ allowance cfg create.script 0) from hm.trace
  unfold sendMessage
  cases masquerade channelId payload with
  | none => exact Outcome.meets_throw (Nat.zero_le _)
  | some payload =>
    refine ((trySend_created (Nat.zero_add _).le).orElse fun _ _ hn =>
      (notify_created hn).andThen fun _ _ hn' => Outcome.meets_ret hn').andThen fun h' sent hn => ?_
    cases sent with
    | none => exact Outcome.meets_ret hn
    | some sent =>
      by_cases hd : 0 < payload.deleteAfter
      · simp only [hd, if_true]
        refine (onWire_created ?_).andThen fun _ _ hn' => Outcome.meets_ret hn'
        rw [if_neg (by simp)]
        exact hn
      · simp only [hd, if_false]
        exact Outcome.meets_ret hn

def lostOnce : Schedule :=
  ⟨0, [⟨0, .lost true "Read", 0⟩, ⟨0, .reply ⟨200, .empty, ⟨"", "", "", ""⟩⟩, 0⟩]⟩

theorem lost_reply_creates_twice : ¬ ∀ (cfg : Config) (hooks : Hooks)
    (callback : Option (Message → Bool → Bool))
    (masquerade : String → MessagePayload → Option MessagePayload) (channelId : String)
    (payload : MessagePayload) (create delete : Schedule) (c : Client),
    created channelId
      (sendMessage cfg hooks callback masquerade channelId payload create delete c).trace ≤ 1 := by
  intro h
  have htwice := h {} .none none (fun _ payload => some payload) "01CHANNEL" ⟨"hello", none, [], none,
    [], [], none, 0⟩ lostOnce ⟨0, []⟩ (.fresh 0)
  exact absurd htwice (by decide)

end Stoatpp.Cluster
