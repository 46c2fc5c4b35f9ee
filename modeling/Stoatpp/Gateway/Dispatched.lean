import Stoatpp.Gateway.HandleEvent

/-!
# What is dispatched for a frame

Every typed event is made of a frame of its type: the frame that came in, or one that a Bulk
frame holds at some depth.
-/

namespace Stoatpp.Gateway
open Stoatpp.Library

/-- The frame itself, or a frame inside a Bulk frame. -/
inductive Within : Json → Json → Prop where
  | self (j : Json) : Within j j
  | bulk {j item inner : Json} {items : List Json} (htype : j.text? "type" = some "Bulk")
      (hv : j.get? "v" = some (.arr items)) (hitem : item ∈ items) (h : Within item inner) :
    Within j inner

theorem Within.eq_self {j inner : Json} (hw : Within j inner) (hj : j.text? "type" ≠ some "Bulk") :
    inner = j := by
  cases hw with
  | self => rfl
  | bulk htype => exact absurd htype hj

/-- The frame an event is made of, for the events that change servers, channels or members. -/
def MadeOf (user : User) (type : String) (j : Json) : Event → Prop
  | .ready e => type = "Ready" ∧ readyOf user j = some e
  | .channelCreate e => type = "ChannelCreate" ∧ e = channelCreateOf j
  | .channelDelete id => type = "ChannelDelete" ∧ id = textOf j "id"
  | .serverCreate e => type = "ServerCreate" ∧ serverCreateOf j = some e
  | .serverUpdate e => type = "ServerUpdate" ∧ e = updateOf j
  | .serverDelete id => type = "ServerDelete" ∧ id = textOf j "id"
  | .serverMemberJoin e => type = "ServerMemberJoin" ∧ e = serverMemberJoinOf j
  | .serverMemberLeave serverId userId =>
    type = "ServerMemberLeave" ∧ serverId = textOf j "id" ∧ userId = textOf j "user"
  | .serverRoleCreate e => type = "ServerRoleCreate" ∧ serverRoleCreateOf j = some e
  | .serverRoleUpdate e => type = "ServerRoleUpdate" ∧ e = serverRoleUpdateOf j
  | .serverRoleDelete serverId roleId =>
    type = "ServerRoleDelete" ∧ serverId = serverOf j ∧ roleId = textOf j "role_id"
  | _ => True

variable {user : User} {e : Event}

theorem dispatch_mem {e' : Event} (h : .dispatch e ∈ (Handling.dispatch e').trace) : e = e' := by
  simpa [Handling.dispatch] using h

theorem dispatch_andThen {α : Type} {x : Handling α} {f : α → Event} (hx : x.trace = [])
    (h : .dispatch e ∈ (x.andThen fun a => Handling.dispatch (f a)).trace) :
    ∃ a, x.status = .done a ∧ e = f a := by
  rw [Outcome.mem_andThen, hx] at h
  obtain ⟨a, ha, hf⟩ := h.resolve_left List.not_mem_nil
  exact ⟨a, ha, dispatch_mem hf⟩

theorem ofOption_trace {α : Type} (o : Option α) : (Handling.ofOption o).trace = [] := by
  cases o <;> rfl

theorem ofOption_done {α : Type} {o : Option α} {a : α} (h : (Handling.ofOption o).status = .done a) :
    o = some a := by
  cases o with
  | none => cases h
  | some b =>
    obtain rfl : b = a := by simpa [Handling.ofOption] using h
    rfl

theorem andThen_trace {α β : Type} {x : Handling α} {f : α → Handling β} (hx : x.trace = [])
    (hf : ∀ a, (f a).trace = []) : (x.andThen f).trace = [] := by
  rw [List.eq_nil_iff_forall_not_mem]
  intro a ha
  simp only [Outcome.mem_andThen, hx, hf, List.not_mem_nil, and_false, exists_false, or_false] at ha

theorem mandatory_trace (j : Json) (key : String) : (mandatory j key).trace = [] := by
  unfold mandatory
  cases j.get? key with
  | none => rfl
  | some value => exact ofOption_trace _

theorem userSettingsUpdateOf_trace (j : Json) : (userSettingsUpdateOf j).trace = [] :=
  andThen_trace (mandatory_trace j _) fun _ => andThen_trace (mandatory_trace j _) fun _ => rfl

theorem userPresenceUpdateOf_trace (j : Json) : (userPresenceUpdateOf j).trace = [] :=
  andThen_trace (mandatory_trace j _) fun _ => andThen_trace (mandatory_trace j _) fun _ => rfl

theorem webhookUpdateOf_trace (j : Json) : (webhookUpdateOf j).trace = [] :=
  andThen_trace (mandatory_trace j _) fun _ => andThen_trace (mandatory_trace j _) fun _ =>
    andThen_trace (mandatory_trace j _) fun _ => rfl

theorem voiceStateUpdateOf_trace (j : Json) : (voiceStateUpdateOf j).trace = [] :=
  andThen_trace (mandatory_trace j _) fun _ => andThen_trace (mandatory_trace j _) fun _ => rfl

theorem madeOf_of_mem {type : String} {j : Json} (h : .dispatch e ∈ (handleTyped user type j).trace) :
    MadeOf user type j e := by
  unfold handleTyped at h
  split at h
  case h_1 => simp at h
  case h_2 => simp at h
  case h_3 =>
    split at h
    · simp at h
    · simp at h
  case h_5 =>
    obtain ⟨r, hr, rfl⟩ := dispatch_andThen (ofOption_trace _) h
    exact ⟨rfl, ofOption_done hr⟩
  case h_14 =>
    obtain ⟨r, hr, rfl⟩ := dispatch_andThen (ofOption_trace _) h
    exact ⟨rfl, ofOption_done hr⟩
  case h_23 =>
    obtain ⟨r, hr, rfl⟩ := dispatch_andThen (ofOption_trace _) h
    exact ⟨rfl, ofOption_done hr⟩
  case h_26 =>
    obtain ⟨r, -, rfl⟩ := dispatch_andThen (userSettingsUpdateOf_trace j) h
    exact trivial
  case h_27 =>
    obtain ⟨r, -, rfl⟩ := dispatch_andThen (userPresenceUpdateOf_trace j) h
    exact trivial
  case h_28 =>
    obtain ⟨r, -, rfl⟩ := dispatch_andThen (webhookUpdateOf_trace j) h
    exact trivial
  case h_29 =>
    obtain ⟨r, -, rfl⟩ := dispatch_andThen (voiceStateUpdateOf_trace j) h
    exact trivial
  case h_30 => simp at h
  all_goals
    obtain rfl := dispatch_mem h
    simp only [MadeOf, and_self]

/-! ## Bulk frames -/

/-- The event is the raw event of the frame, or is made of the frame or of one inside it. -/
def Comes (user : User) (j : Json) (e : Event) : Prop :=
  (∃ type data, e = .raw type data) ∨ ∃ inner type, Within j inner ∧
    inner.text? "type" = some type ∧ type ≠ "Bulk" ∧ MadeOf user type inner e

theorem Comes.bulk {j item : Json} {items : List Json} (htype : j.text? "type" = some "Bulk")
    (hv : j.get? "v" = some (.arr items)) (hitem : item ∈ items) (h : Comes user item e) :
    Comes user j e := by
  rcases h with h | ⟨inner, type, hw, h⟩
  · exact Or.inl h
  · exact Or.inr ⟨inner, type, .bulk htype hv hitem hw, h⟩

mutual

theorem comes_of_mem (j : Json) (h : .dispatch e ∈ (handleEvent user j).trace) : Comes user j e := by
  cases j with
  | obj fields =>
    simp only [handleEvent] at h
    split at h
    · simp at h
    · next type htype =>
      rcases Outcome.mem_andThen.mp h with h | ⟨_, -, h⟩
      · exact Or.inl ⟨_, _, dispatch_mem h⟩
      · split_ifs at h with hbulk
        · obtain ⟨items, hv, item, hitem, hc⟩ := comes_of_v fields h
          exact Comes.bulk (hbulk ▸ htype) hv hitem hc
        · exact Or.inr ⟨_, type, .self _, htype, hbulk, madeOf_of_mem h⟩
  | _ => simp [handleEvent] at h

theorem comes_of_v (fields : List (String × Json)) (h : .dispatch e ∈ (handleV user fields).trace) :
    ∃ items, fields.lookup "v" = some (.arr items) ∧ ∃ item ∈ items, Comes user item e := by
  cases fields with
  | nil => simp [handleV] at h
  | cons x rest =>
    obtain ⟨key, value⟩ := x
    simp only [handleV] at h
    split_ifs at h with hkey
    · obtain ⟨items, rfl, hc⟩ := comes_of_array value h
      exact ⟨items, by rw [hkey, List.lookup_cons, beq_self_eq_true], hc⟩
    · obtain ⟨items, hv, hc⟩ := comes_of_v rest h
      exact ⟨items, by rw [List.lookup_cons, beq_false_of_ne (Ne.symm hkey)]; exact hv, hc⟩

theorem comes_of_array (j : Json) (h : .dispatch e ∈ (handleArray user j).trace) :
    ∃ items, j = .arr items ∧ ∃ item ∈ items, Comes user item e := by
  cases j with
  | arr items => exact ⟨items, rfl, comes_of_all items h⟩
  | _ => simp [handleArray] at h

theorem comes_of_all (items : List Json) (h : .dispatch e ∈ (handleAll user items).trace) :
    ∃ item ∈ items, Comes user item e := by
  cases items with
  | nil => simp [handleAll] at h
  | cons j rest =>
    rcases Outcome.mem_andThen.mp h with h | ⟨_, -, h⟩
    · exact ⟨j, List.mem_cons_self, comes_of_mem j h⟩
    · obtain ⟨item, hitem, hc⟩ := comes_of_all rest h
      exact ⟨item, List.mem_cons_of_mem _ hitem, hc⟩

end

/-! ## The servers of an event -/

theorem mapM_mem {α β : Type} {f : α → Option β} {xs : List α} {ys : List β} (h : xs.mapM f = some ys) :
    ∀ y ∈ ys, ∃ x ∈ xs, f x = some y := by
  induction xs generalizing ys with
  | nil =>
    obtain rfl : [] = ys := by simpa using h
    exact List.forall_mem_nil _
  | cons x xs ih =>
    simp only [List.mapM_cons, Option.bind_eq_bind, Option.bind_eq_some_iff, Option.pure_def,
      Option.some.injEq] at h
    obtain ⟨y, hy, zs, hzs, rfl⟩ := h
    refine List.forall_mem_cons.mpr ⟨⟨x, List.mem_cons_self, hy⟩, fun z hz => ?_⟩
    obtain ⟨w, hw, he⟩ := ih hzs z hz
    exact ⟨w, List.mem_cons_of_mem _ hw, he⟩

theorem readyOf_server {j : Json} {r : Events.Ready} (h : readyOf user j = some r) {s : Server}
    (hs : s ∈ r.servers) : ∃ doc ∈ listOf j "servers", Server.fromJson doc = some s := by
  simp only [readyOf, Option.bind_eq_bind, Option.bind_eq_some_iff, Option.pure_def,
    Option.some.injEq] at h
  obtain ⟨servers, hservers, rfl⟩ := h
  exact mapM_mem hservers s hs

theorem serverCreateOf_server {j : Json} {c : Events.ServerCreate} (h : serverCreateOf j = some c) :
    Server.fromJson (((j.get? "server").bind Json.object?).getD j) = some c.server := by
  obtain ⟨s, hs, rfl⟩ := Option.map_eq_some_iff.mp h
  exact hs

end Stoatpp.Gateway
