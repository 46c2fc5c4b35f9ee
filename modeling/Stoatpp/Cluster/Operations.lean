import Stoatpp.Cluster.MemberRoles
import Stoatpp.Cluster.Messaging

/-!
# The operations with a callback

Each operation makes its requests on a thread of its own and tells its callback how they
ended. The requests, the moderation hook and the callback stand in one `try`, and its `catch`
tells the callback of a failure, whoever threw.
-/

namespace Stoatpp.Cluster
open Stoatpp.Library Stoatpp.Rest

inductive Notice where
  | wire (w : Wire)
  | moderation (userId action reason : String)
  | cached (usr : User)
  | callback (success : Bool)

def Notice.told? : Notice → Option Bool
  | .callback success => some success
  | _ => none

def told (t : List Notice) : List Bool := t.filterMap Notice.told?

/-- What an operation finds around it; handlers that give `false` or `none` throw, and `what` is
the text of the exception that is caught. -/
structure Situation where
  cfg : Config := {}
  hooks : Hooks := .none
  onModerationAction : Option (String → String → String → Bool) := none
  masquerade : String → MessagePayload → Option MessagePayload := fun _ payload => some payload
  cachedUser : String → Option User := fun _ => none
  first : Schedule
  second : Schedule := ⟨0, []⟩
  client : Client
  what : String := ""

/-! ## The requests -/

def memberPath (serverId userId : String) : String := "/servers/" ++ serverId ++ "/members/" ++ userId

def banPath (serverId userId : String) : String := "/servers/" ++ serverId ++ "/bans/" ++ userId

def banRequest (serverId userId reason : String) : Request :=
  ⟨"PUT", banPath serverId userId, .obj (if reason = "" then [] else [("reason", .str reason)])⟩

def unbanRequest (serverId userId : String) : Request := ⟨"DELETE", banPath serverId userId, .null⟩

def kickRequest (serverId userId : String) : Request := ⟨"DELETE", memberPath serverId userId, .null⟩

def timeoutRequest (serverId userId durationIso : String) : Request :=
  ⟨"PATCH", memberPath serverId userId, .obj [("timeout", .str durationIso)]⟩

def editPath (channelId messageId : String) : String := messagesPath channelId ++ "/" ++ messageId

def contentRequest (channelId messageId newContent : String) : Request :=
  ⟨"PATCH", editPath channelId messageId, .obj [("content", .str newContent)]⟩

def payloadRequest (channelId messageId : String) (payload : MessagePayload) : Request :=
  ⟨"PATCH", editPath channelId messageId, MessagePayload.object [
    ("attachments",
      if payload.attachments = [] then none else some (MessagePayload.texts payload.attachments)),
    ("content", some (.str (if payload.content = "" then " " else payload.content))),
    ("embeds", MessagePayload.nonempty (payload.embeds.filter MessagePayload.hasContent))]⟩

def roleRequest (serverId name : String) : Request :=
  ⟨"POST", "/servers/" ++ serverId ++ "/roles", .obj [("name", .str name)]⟩

def memberRequest (serverId userId : String) : Request := ⟨"GET", memberPath serverId userId, .null⟩

/-! ## The parts of an operation -/

namespace Situation
variable (x : Situation)

def request (req : Request) (s : Schedule) (c : Client) : Outcome Unit Notice (Response × Client) :=
  ((performRequest x.cfg x.hooks req s.late s.script c).mapEvents .wire).orElse fun _ => .throw ()

def response (req : Request) : Outcome Unit Notice Response := do
  let (res, _) ← request x req x.first x.client
  return res

end Situation

def tell {α : Type} (callback : Option (α → Bool → Bool)) (value : α) (success : Bool) :
    Outcome Unit Notice Unit :=
  match callback with
  | none => return ()
  | some cb => do
    .emit [.callback success]
    if cb value success then return () else .throw ()

def notifying {ρ α : Type} (requests : Outcome Unit Notice ρ) (hook : ρ → Outcome Unit Notice Unit)
    (callback : Option (α → Bool → Bool)) (value : ρ → α) (success : ρ → Bool) (failed : α) :
    Outcome Unit Notice Unit :=
  (do
    let r ← requests
    hook r
    tell callback (value r) (success r)).orElse fun _ => tell callback failed false

namespace Situation
variable (x : Situation)

def moderate (userId action reason : String) (res : Response) : Outcome Unit Notice Unit :=
  match x.onModerationAction with
  | some hook =>
    if res.success then do
      .emit [.moderation userId action reason]
      if hook userId action reason then return () else .throw ()
    else return ()
  | none => return ()

def moderating (req : Request) (userId action reason : String) (callback : Option (Bool → Bool)) :
    Outcome Unit Notice Unit :=
  notifying (response x req) (moderate x userId action reason) (callback.map fun cb (_ : Unit) => cb)
    (fun _ => ()) (fun res => res.success) ()

def fetching {α : Type} (req : Request) (parse : Json → α) (default : α)
    (callback : Option (α → Bool → Bool)) : Outcome Unit Notice Unit :=
  notifying (response x req) (fun _ => return ()) callback
    (fun res => if res.success then parse res.body else default) (fun res => res.success) default

/-! ## Moderation -/

def banUser (serverId userId reason : String) (callback : Option (Bool → Bool)) :
    Outcome Unit Notice Unit :=
  moderating x (banRequest serverId userId reason) userId "ban" reason callback

def unbanUser (serverId userId : String) (callback : Option (Bool → Bool)) :
    Outcome Unit Notice Unit :=
  moderating x (unbanRequest serverId userId) userId "unban" "" callback

def kickMember (serverId userId : String) (callback : Option (Bool → Bool)) :
    Outcome Unit Notice Unit :=
  moderating x (kickRequest serverId userId) userId "kick" "" callback

def timeoutMember (serverId userId durationIso : String) (callback : Option (Bool → Bool)) :
    Outcome Unit Notice Unit :=
  moderating x (timeoutRequest serverId userId durationIso) userId "timeout" durationIso callback

/-! ## Messages, roles and members -/

def editMessage (channelId messageId newContent : String)
    (callback : Option (Message → Bool → Bool)) : Outcome Unit Notice Unit :=
  fetching x (contentRequest channelId messageId newContent) Message.fromJson {} callback

def editMessagePayload (channelId messageId : String) (payload : MessagePayload)
    (callback : Option (Message → Bool → Bool)) : Outcome Unit Notice Unit :=
  fetching x (payloadRequest channelId messageId payload) Message.fromJson {} callback

def createRole (serverId name : String) (callback : Option (Role → Bool → Bool)) :
    Outcome Unit Notice Unit :=
  fetching x (roleRequest serverId name) Role.fromJson {} callback

def fetchMember (serverId userId : String) (callback : Option (Member → Bool → Bool)) :
    Outcome Unit Notice Unit :=
  fetching x (memberRequest serverId userId) Member.fromJson {} callback

/-- The error text and whether the member has the role; each body is dumped into the log. -/
def roleRequests (serverId userId roleId : String) : Outcome Unit Notice (String × Bool) := do
  let (res, c) ← request x (memberRequest serverId userId) x.first x.client
  if (x.hooks.dump res.body).isNone then .throw ()
  else if res.success then
    match RoleCall.edit ⟨.add, roleId⟩ (Member.fromJson res.body) with
    | none => return ("", true)
    | some roles =>
      if (x.hooks.dump (memberDocument roles)).isNone then .throw ()
      else
        let (res, _) ← request x ⟨"PATCH", memberPath serverId userId, memberDocument roles⟩ x.second c
        return (if res.success then "" else patchError res, res.success)
  else return ("GET_MEMBER_FAILED", false)

def addRoleToMember (serverId userId roleId : String) (callback : Option (Bool → String → Bool)) :
    Outcome Unit Notice Unit :=
  notifying (roleRequests x serverId userId roleId) (fun _ => return ())
    (callback.map fun cb error success => cb success error) Prod.fst Prod.snd x.what

/-! ## Users -/

def withProfile (usr : User) (res : Response) : User :=
  if res.success then
    { usr with
      bio := res.body.text? "content" <|> usr.bio
      banner := User.background res.body <|> usr.banner }
  else { usr with bio := some "", banner := some "" }

def profileRequest (userId : String) (usr : User) (s : Schedule) (c : Client) :
    Outcome Unit Notice (Option User) := do
  let (res, _) ← request x ⟨"GET", "/users/" ++ userId ++ "/profile", .null⟩ s c
  .emit [.cached (withProfile usr res)]
  return some (withProfile usr res)

def userRequests (userId : String) : Outcome Unit Notice (Option User) :=
  match x.cachedUser userId with
  | some usr => profileRequest x userId usr x.first x.client
  | none => do
    let (res, c) ← request x ⟨"GET", "/users/" ++ userId, .null⟩ x.first x.client
    if res.success then profileRequest x userId (User.fromJson res.body) x.second c
    else return none

/-- A cached user with a bio is passed on at once, outside of any `try`. -/
def fetchUser (userId : String) (callback : Option (User → Bool → Bool)) : Outcome Unit Notice Unit :=
  match (x.cachedUser userId).filter (·.bio.isSome) with
  | some usr => tell callback usr true
  | none => notifying (userRequests x userId) (fun _ => return ()) callback (·.getD {}) (·.isSome) {}

end Situation

namespace Situation
variable (x : Situation)

def succeeds (req : Request) : Bool := (x.response req).achieves (·.success)

def Moderated (req : Request) (userId action reason : String) (cb : Bool → Bool) : Prop :=
  (x.response req).Settles fun res =>
    (∀ hook, x.onModerationAction = some hook → res.success → hook userId action reason = true) ∧
      cb res.success = true

def Fetched {α : Type} (req : Request) (parse : Json → α) (default : α) (cb : α → Bool → Bool) : Prop :=
  (x.response req).Settles fun res =>
    cb (if res.success then parse res.body else default) res.success = true

end Situation

def Delivery.notice : Delivery → Notice
  | .wire w => .wire w
  | .callback _ success => .callback success

/-- The operations with the callback they are given, which tells whether it returns. -/
inductive Operation where
  | sendMessage (channelId : String) (payload : MessagePayload) (callback : Message → Bool → Bool)
  | editMessage (channelId messageId newContent : String) (callback : Message → Bool → Bool)
  | editMessagePayload (channelId messageId : String) (payload : MessagePayload)
      (callback : Message → Bool → Bool)
  | banUser (serverId userId reason : String) (callback : Bool → Bool)
  | unbanUser (serverId userId : String) (callback : Bool → Bool)
  | kickMember (serverId userId : String) (callback : Bool → Bool)
  | timeoutMember (serverId userId durationIso : String) (callback : Bool → Bool)
  | addRoleToMember (serverId userId roleId : String) (callback : Bool → String → Bool)
  | createRole (serverId name : String) (callback : Role → Bool → Bool)
  | fetchMember (serverId userId : String) (callback : Member → Bool → Bool)
  | fetchUser (userId : String) (callback : User → Bool → Bool)

namespace Operation
variable (x : Situation)

def perform : Operation → Outcome Unit Notice Unit
  | sendMessage channelId payload cb =>
    (Cluster.sendMessage x.cfg x.hooks (some cb) x.masquerade channelId payload x.first x.second
      x.client).mapEvents Delivery.notice
  | editMessage channelId messageId newContent cb => x.editMessage channelId messageId newContent (some cb)
  | editMessagePayload channelId messageId payload cb =>
    x.editMessagePayload channelId messageId payload (some cb)
  | banUser serverId userId reason cb => x.banUser serverId userId reason (some cb)
  | unbanUser serverId userId cb => x.unbanUser serverId userId (some cb)
  | kickMember serverId userId cb => x.kickMember serverId userId (some cb)
  | timeoutMember serverId userId durationIso cb =>
    x.timeoutMember serverId userId durationIso (some cb)
  | addRoleToMember serverId userId roleId cb => x.addRoleToMember serverId userId roleId (some cb)
  | createRole serverId name cb => x.createRole serverId name (some cb)
  | fetchMember serverId userId cb => x.fetchMember serverId userId (some cb)
  | fetchUser userId cb => x.fetchUser userId (some cb)

def succeeded : Operation → Bool
  | sendMessage channelId payload _ =>
    match x.masquerade channelId payload with
    | none => false
    | some payload => x.succeeds ⟨"POST", messagesPath channelId, payload.toJson⟩
  | editMessage channelId messageId newContent _ =>
    x.succeeds (contentRequest channelId messageId newContent)
  | editMessagePayload channelId messageId payload _ =>
    x.succeeds (payloadRequest channelId messageId payload)
  | banUser serverId userId reason _ => x.succeeds (banRequest serverId userId reason)
  | unbanUser serverId userId _ => x.succeeds (unbanRequest serverId userId)
  | kickMember serverId userId _ => x.succeeds (kickRequest serverId userId)
  | timeoutMember serverId userId durationIso _ =>
    x.succeeds (timeoutRequest serverId userId durationIso)
  | addRoleToMember serverId userId roleId _ =>
    (x.roleRequests serverId userId roleId).achieves Prod.snd
  | createRole serverId name _ => x.succeeds (roleRequest serverId name)
  | fetchMember serverId userId _ => x.succeeds (memberRequest serverId userId)
  | fetchUser userId _ =>
    match (x.cachedUser userId).filter (·.bio.isSome) with
    | some _ => true
    | none => (x.userRequests userId).achieves (·.isSome)

/-- The requests end; if no exception ends them, the hook returns where it is called, and so does
the callback when it is told how they ended. -/
def Undisturbed : Operation → Prop
  | sendMessage channelId payload cb => ∃ sent, x.masquerade channelId payload = some sent ∧
    (x.response ⟨"POST", messagesPath channelId, sent.toJson⟩).Settles fun res =>
      if res.success then cb (Message.fromJson res.body) true = true
      else (x.hooks.dump res.body).isNone ∨ cb {} false = true
  | editMessage channelId messageId newContent cb =>
    x.Fetched (contentRequest channelId messageId newContent) Message.fromJson {} cb
  | editMessagePayload channelId messageId payload cb =>
    x.Fetched (payloadRequest channelId messageId payload) Message.fromJson {} cb
  | banUser serverId userId reason cb =>
    x.Moderated (banRequest serverId userId reason) userId "ban" reason cb
  | unbanUser serverId userId cb => x.Moderated (unbanRequest serverId userId) userId "unban" "" cb
  | kickMember serverId userId cb => x.Moderated (kickRequest serverId userId) userId "kick" "" cb
  | timeoutMember serverId userId durationIso cb =>
    x.Moderated (timeoutRequest serverId userId durationIso) userId "timeout" durationIso cb
  | addRoleToMember serverId userId roleId cb =>
    (x.roleRequests serverId userId roleId).Settles fun r => cb r.2 r.1 = true
  | createRole serverId name cb => x.Fetched (roleRequest serverId name) Role.fromJson {} cb
  | fetchMember serverId userId cb =>
    x.Fetched (memberRequest serverId userId) Member.fromJson {} cb
  | fetchUser userId cb =>
    match (x.cachedUser userId).filter (·.bio.isSome) with
    | some _ => True
    | none => (x.userRequests userId).Settles fun usr => cb (usr.getD {}) usr.isSome = true

end Operation

/-! ## One `try` -/

variable {x : Situation} {α β ρ : Type}

def Quiet (o : Outcome Unit Notice α) : Prop := told o.trace = []

theorem told_append (s t : List Notice) : told (s ++ t) = told s ++ told t := List.filterMap_append

theorem quiet_ret (a : α) : Quiet (.ret a) := rfl

theorem quiet_throw : Quiet (.throw () : Outcome Unit Notice α) := rfl

theorem Quiet.andThen {o : Outcome Unit Notice α} {f : α → Outcome Unit Notice β} (ho : Quiet o)
    (hf : ∀ a, Quiet (f a)) : Quiet (o.andThen f) := by
  unfold Quiet Outcome.andThen at *
  cases o.status with
  | done a => rw [told_append, ho, hf, List.nil_append]
  | thrown c => exact ho
  | running => exact ho

theorem told_andThen {o : Outcome Unit Notice α} {f : α → Outcome Unit Notice β}
    (hf : ∀ a, Quiet (f a)) : told (o.andThen f).trace = told o.trace := by
  unfold Quiet Outcome.andThen at *
  cases o.status with
  | done a => rw [told_append, hf, List.append_nil]
  | thrown c => rfl
  | running => rfl

theorem told_wire (t : List Wire) : told (t.map .wire) = [] := by
  induction t with
  | nil => rfl
  | cons w t ih => exact ih

theorem quiet_request (req : Request) (s : Schedule) (c : Client) : Quiet (x.request req s c) := by
  unfold Quiet Situation.request
  rcases Outcome.orElse_trace ((performRequest x.cfg x.hooks req s.late s.script c).mapEvents .wire)
    (fun _ => (.throw () : Outcome Unit Notice _)) with ht | ⟨_, ht⟩
  · rw [ht]
    exact told_wire _
  · rw [ht, told_append]
    exact List.append_eq_nil_iff.mpr ⟨told_wire _, rfl⟩

theorem quiet_response (req : Request) : Quiet (x.response req) :=
  (quiet_request _ _ _).andThen fun _ => quiet_ret _

theorem tell_told (cb : α → Bool → Bool) (value : α) (success : Bool) :
    told (tell (some cb) value success).trace = [success] := by
  unfold tell
  by_cases h : cb value success = true
  · simp [h, Outcome.andThen, told, Notice.told?]
  · simp [h, Outcome.andThen, told, Notice.told?]

theorem tell_status (cb : α → Bool → Bool) (value : α) (success : Bool) :
    (tell (some cb) value success).status = if cb value success then .done () else .thrown () := by
  unfold tell
  by_cases h : cb value success = true
  · simp [h, Outcome.andThen]
  · simp [h, Outcome.andThen, Outcome.throw]

/-- What a hook may do: it says nothing to the callback, ends, and throws only after a success. -/
structure Hooking (hook : ρ → Outcome Unit Notice Unit) (success : ρ → Bool) : Prop where
  quiet : ∀ r, Quiet (hook r)
  ends : ∀ r, (hook r).status = .done () ∨ (hook r).status = .thrown () ∧ success r = true

/-- The callback is called once, and told the truth, exactly when nobody threw behind the requests. -/
theorem notifying_told {requests : Outcome Unit Notice ρ} {hook : ρ → Outcome Unit Notice Unit}
    {cb : α → Bool → Bool} {value : ρ → α} {success : ρ → Bool} {failed : α}
    (hq : Quiet requests) (hh : Hooking hook success) :
    told (notifying requests hook (some cb) value success failed).trace = [requests.achieves success] ↔
      requests.Settles fun r => (hook r).status = .done () ∧ cb (value r) (success r) = true := by
  unfold Quiet at hq
  unfold notifying Outcome.achieves Outcome.Settles Outcome.orElse
  simp only [Outcome.bind_eq_andThen]
  cases hr : requests.status with
  | running => simp [Outcome.andThen, hr, hq]
  | thrown c => simp [Outcome.andThen, hr, told_append, hq, tell_told]
  | done r =>
    have hqr : told (hook r).trace = [] := hh.quiet r
    rcases hh.ends r with he | ⟨he, hs⟩
    · by_cases hcb : cb (value r) (success r) = true
      · simp [Outcome.andThen, hr, he, tell_status, told_append, hq, hqr, tell_told, hcb]
      · simp [Outcome.andThen, hr, he, tell_status, told_append, hq, hqr, tell_told, hcb]
    · simp [Outcome.andThen, hr, he, told_append, hq, hqr, tell_told, hs]

/-! ## The families -/

theorem hooking_none (success : ρ → Bool) :
    Hooking (fun _ => (return () : Outcome Unit Notice Unit)) success :=
  ⟨fun _ => rfl, fun _ => Or.inl rfl⟩

/-- The hook is silent to the callback, and it throws only where it is called and refuses. -/
theorem moderate_cases (userId action reason : String) (res : Response) :
    Quiet (x.moderate userId action reason res) ∧
    ((x.moderate userId action reason res).status = .done () ∧
        (∀ hook, x.onModerationAction = some hook → res.success → hook userId action reason = true) ∨
      (x.moderate userId action reason res).status = .thrown () ∧ res.success ∧
        ∃ hook, x.onModerationAction = some hook ∧ hook userId action reason = false) := by
  unfold Quiet Situation.moderate
  cases x.onModerationAction with
  | none => exact ⟨rfl, Or.inl ⟨rfl, fun _ h => (nomatch h)⟩⟩
  | some hook =>
    by_cases hs : res.success
    · cases hr : hook userId action reason with
      | true => simp [hs, hr, Outcome.andThen, told, Notice.told?]
      | false => simp [hs, hr, Outcome.andThen, Outcome.throw, told, Notice.told?]
    · simp [hs, told]

theorem moderate_status (userId action reason : String) (res : Response) :
    (x.moderate userId action reason res).status = .done () ↔
      ∀ hook, x.onModerationAction = some hook → res.success → hook userId action reason = true := by
  obtain ⟨-, ⟨hd, hall⟩ | ⟨ht, hs, hook, hset, hr⟩⟩ :=
    moderate_cases (x := x) userId action reason res
  · exact iff_of_true hd hall
  · refine iff_of_false (by simp [ht]) fun hall => ?_
    rw [hall hook hset hs] at hr
    cases hr

theorem hooking_moderate (userId action reason : String) :
    Hooking (x.moderate userId action reason) fun res => res.success where
  quiet res := (moderate_cases userId action reason res).1
  ends res := (moderate_cases userId action reason res).2.imp And.left fun h => ⟨h.1, decide_eq_true h.2.1⟩

theorem moderating_told (req : Request) (userId action reason : String) (cb : Bool → Bool) :
    told (x.moderating req userId action reason (some cb)).trace = [x.succeeds req] ↔
      x.Moderated req userId action reason cb := by
  refine (notifying_told (quiet_response req) (hooking_moderate userId action reason)).trans ?_
  simp only [moderate_status]
  rfl

theorem fetching_told (req : Request) (parse : Json → α) (default : α) (cb : α → Bool → Bool) :
    told (x.fetching req parse default (some cb)).trace = [x.succeeds req] ↔
      x.Fetched req parse default cb := by
  refine (notifying_told (quiet_response req) (hooking_none _)).trans ?_
  simp only [Outcome.pure_eq_ret, Outcome.ret_status, true_and]
  rfl

theorem quiet_roleRequests (serverId userId roleId : String) :
    Quiet (x.roleRequests serverId userId roleId) := by
  refine (quiet_request _ _ _).andThen fun r => ?_
  obtain ⟨res, c⟩ := r
  dsimp only
  split_ifs
  · exact quiet_throw
  · cases RoleCall.edit ⟨.add, roleId⟩ (Member.fromJson res.body) with
    | none => exact quiet_ret _
    | some roles =>
      dsimp only
      split_ifs
      · exact quiet_throw
      · exact (quiet_request _ _ _).andThen fun _ => quiet_ret _
  · exact quiet_ret _

theorem addRoleToMember_told (serverId userId roleId : String) (cb : Bool → String → Bool) :
    told (x.addRoleToMember serverId userId roleId (some cb)).trace =
        [(x.roleRequests serverId userId roleId).achieves Prod.snd] ↔
      (x.roleRequests serverId userId roleId).Settles fun r => cb r.2 r.1 = true := by
  refine (notifying_told (quiet_roleRequests serverId userId roleId) (hooking_none _)).trans ?_
  simp only [Outcome.pure_eq_ret, Outcome.ret_status, true_and]

theorem quiet_profileRequest (userId : String) (usr : User) (s : Schedule) (c : Client) :
    Quiet (x.profileRequest userId usr s c) :=
  (quiet_request _ _ _).andThen fun _ => rfl

theorem quiet_userRequests (userId : String) : Quiet (x.userRequests userId) := by
  unfold Situation.userRequests
  cases x.cachedUser userId with
  | some usr => exact quiet_profileRequest userId usr _ _
  | none =>
    refine (quiet_request _ _ _).andThen fun r => ?_
    obtain ⟨res, c⟩ := r
    dsimp only
    split_ifs
    · exact quiet_profileRequest userId _ _ c
    · exact quiet_ret _

theorem fetchUser_told (userId : String) (cb : User → Bool → Bool) :
    told ((Operation.fetchUser userId cb).perform x).trace = [(Operation.fetchUser userId cb).succeeded x] ↔
      (Operation.fetchUser userId cb).Undisturbed x := by
  simp only [Operation.perform, Operation.succeeded, Operation.Undisturbed, Situation.fetchUser]
  cases (x.cachedUser userId).filter (·.bio.isSome) with
  | some usr => simp only [tell_told]
  | none =>
    refine (notifying_told (quiet_userRequests userId) (hooking_none _)).trans ?_
    simp only [Outcome.pure_eq_ret, Outcome.ret_status, true_and]

/-! ## `send_message` -/

theorem onWire_notice (req : Request) (s : Schedule) (c : Client) :
    (onWire (performRequest x.cfg x.hooks req s.late s.script c)).mapEvents Delivery.notice =
      x.request req s c := by
  unfold onWire Situation.request
  rw [Outcome.mapEvents_orElse]
  unfold Outcome.mapEvents
  simp only [List.map_map]
  rfl

theorem notify_notice (cb : Message → Bool → Bool) (message : Message) (success : Bool) :
    (notify (some cb) message success).mapEvents Delivery.notice = tell (some cb) message success := by
  unfold notify tell
  simp only [Outcome.bind_eq_andThen, Outcome.mapEvents_andThen]
  split_ifs <;> rfl

/-- What the thread does before it thinks of deleting the message again. -/
def Situation.sending (x : Situation) (cb : Message → Bool → Bool) (req : Request) :
    Outcome Unit Notice (Option (String × Client)) :=
  (do
    let (res, c) ← x.request req x.first x.client
    if res.success then
      tell (some cb) (Message.fromJson res.body) true
      return some ((Message.fromJson res.body).id, c)
    else if (x.hooks.dump res.body).isNone then .throw ()
    else
      tell (some cb) {} false
      return none).orElse fun _ => do
    tell (some cb) {} false
    return none

theorem sending_told (cb : Message → Bool → Bool) (req : Request) :
    told (x.sending cb req).trace = [x.succeeds req] ↔ (x.response req).Settles fun res =>
      if res.success then cb (Message.fromJson res.body) true = true
      else (x.hooks.dump res.body).isNone ∨ cb {} false = true := by
  have hq : told (x.request req x.first x.client).trace = [] := quiet_request _ _ _
  unfold Situation.sending Situation.succeeds Situation.response Outcome.achieves Outcome.Settles
    Outcome.orElse
  simp only [Outcome.bind_eq_andThen]
  cases hr : (x.request req x.first x.client).status with
  | running => simp [Outcome.andThen, hr, hq]
  | thrown c =>
    by_cases hcb : cb {} false = true
    · simp [Outcome.andThen, hr, told_append, hq, tell_told, tell_status, hcb]
    · simp [Outcome.andThen, hr, told_append, hq, tell_told, tell_status, hcb]
  | done r =>
    obtain ⟨res, c⟩ := r
    by_cases hs : res.success
    · by_cases hcb : cb (Message.fromJson res.body) true = true
      · simp [Outcome.andThen, hr, told_append, hq, tell_told, tell_status, hs, hcb]
      · by_cases hcb' : cb {} false = true <;>
          simp [Outcome.andThen, hr, told_append, hq, tell_told, tell_status, hs, hcb, hcb']
    · by_cases hd : (x.hooks.dump res.body).isNone = true
      · by_cases hcb : cb {} false = true <;>
          simp [Outcome.andThen, Outcome.throw, hr, told_append, hq, tell_told, tell_status, hs, hd, hcb]
      · by_cases hcb : cb {} false = true <;>
          simp [Outcome.andThen, hr, told_append, hq, tell_told, tell_status, hs, hd, hcb]

theorem trySend_notice (cb : Message → Bool → Bool) (channelId : String) (sent : MessagePayload) :
    ((trySend x.cfg x.hooks (some cb) channelId sent x.first x.client).orElse fun _ => do
      notify (some cb) {} false
      return none).mapEvents Delivery.notice =
        x.sending cb ⟨"POST", messagesPath channelId, sent.toJson⟩ := by
  rw [Outcome.mapEvents_orElse]
  unfold trySend createMessage Situation.sending
  simp only [Outcome.bind_eq_andThen, Outcome.mapEvents_andThen, onWire_notice, notify_notice]
  congr 2
  funext r
  split_ifs
  · rw [Outcome.mapEvents_andThen, notify_notice]
    rfl
  · rfl
  · rw [Outcome.mapEvents_andThen, notify_notice]
    rfl

theorem sendMessage_told (channelId : String) (payload : MessagePayload) (cb : Message → Bool → Bool) :
    told ((Operation.sendMessage channelId payload cb).perform x).trace =
        [(Operation.sendMessage channelId payload cb).succeeded x] ↔
      (Operation.sendMessage channelId payload cb).Undisturbed x := by
  simp only [Operation.perform, Operation.succeeded, Operation.Undisturbed, sendMessage]
  cases x.masquerade channelId payload with
  | none => simp [Outcome.mapEvents, Outcome.throw, told]
  | some sent =>
    simp only [Option.some.injEq, exists_eq_left']
    rw [← sending_told, Outcome.bind_eq_andThen, Outcome.mapEvents_andThen, trySend_notice, told_andThen]
    intro a
    cases a with
    | none => rfl
    | some r =>
      obtain ⟨msgId, c⟩ := r
      dsimp only
      split_ifs
      · rw [Outcome.bind_eq_andThen, Outcome.mapEvents_andThen, deleteMessage, onWire_notice]
        exact (quiet_request _ _ _).andThen fun _ => quiet_ret _
      · rfl

/-! ## All operations -/

/-- The callback of an operation is called once, and told whether the requests succeeded, exactly
when nothing disturbs the operation. -/
theorem called_once_iff (op : Operation) (x : Situation) :
    told (op.perform x).trace = [op.succeeded x] ↔ op.Undisturbed x := by
  cases op with
  | sendMessage channelId payload cb => exact sendMessage_told channelId payload cb
  | editMessage channelId messageId newContent cb => exact fetching_told _ _ _ cb
  | editMessagePayload channelId messageId payload cb => exact fetching_told _ _ _ cb
  | banUser serverId userId reason cb => exact moderating_told _ _ _ _ cb
  | unbanUser serverId userId cb => exact moderating_told _ _ _ _ cb
  | kickMember serverId userId cb => exact moderating_told _ _ _ _ cb
  | timeoutMember serverId userId durationIso cb => exact moderating_told _ _ _ _ cb
  | addRoleToMember serverId userId roleId cb => exact addRoleToMember_told serverId userId roleId cb
  | createRole serverId name cb => exact fetching_told _ _ _ cb
  | fetchMember serverId userId cb => exact fetching_told _ _ _ cb
  | fetchUser userId cb => exact fetchUser_told userId cb

def accepted : Schedule := ⟨0, [⟨0, .reply ⟨204, .empty, ⟨"", "", "", ""⟩⟩, 0⟩]⟩

theorem throwing_callback_called_again : ¬ ∀ (op : Operation) (x : Situation),
    (op.perform x).status ≠ .running → told (op.perform x).trace = [op.succeeded x] := by
  intro h
  have htold := h (.banUser "s" "u" "spam" fun success => !success)
    { first := accepted, client := .fresh 0 } fun he => (nomatch he)
  revert htold
  decide

end Stoatpp.Cluster
