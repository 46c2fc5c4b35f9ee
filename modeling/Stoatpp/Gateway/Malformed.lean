import Stoatpp.Gateway.Dispatched

/-!
# Frames that make the gateway throw

`handle_event` tests the fields it reads for their type, with three exceptions: four kinds of
frames have fields that are read as strings as soon as they are there, and the documents of
servers and roles get an id without a look at what they are.
-/

namespace Stoatpp.Gateway
open Stoatpp.Library

/-- The fields a frame of the type has read as strings without a test. -/
def unguarded : String → List String
  | "UserSettingsUpdate" => ["id", "key"]
  | "UserPresenceUpdate" => ["id", "status"]
  | "WebhookUpdate" => ["channel_id", "webhook_id"]
  | "VoiceStateUpdate" => ["channel_id", "user_id"]
  | _ => []

def NotText (j : Json) (key : String) : Prop := ∃ value, j.get? key = some value ∧ value.string? = none

/-- `value["id"] = …` throws. -/
def Unsettable (value : Json) : Prop := value.isObject = false ∧ value.isNull = false

def BadRoles (doc : Json) : Prop :=
  ∃ fields, doc.get? "roles" = some (.obj fields) ∧ ∃ x ∈ fields, Unsettable x.2

def serverDocuments (j : Json) : String → List Json
  | "Ready" => listOf j "servers"
  | "ServerCreate" => [((j.get? "server").bind Json.object?).getD j]
  | _ => []

inductive Malformed : Json → Prop where
  | field {j : Json} {type key : String} (htype : j.text? "type" = some type)
      (hkey : key ∈ unguarded type) (h : NotText j key) : Malformed j
  | roles {j doc : Json} {type : String} (htype : j.text? "type" = some type)
      (hdoc : doc ∈ serverDocuments j type) (h : BadRoles doc) : Malformed j
  | role {j role : Json} (htype : j.text? "type" = some "ServerRoleCreate")
      (hid : textOf j "role_id" ≠ "") (hrole : j.get? "role" = some role) (h : Unsettable role) :
    Malformed j
  | bulk {j item : Json} {items : List Json} (htype : j.text? "type" = some "Bulk")
      (hv : j.get? "v" = some (.arr items)) (hitem : item ∈ items) (h : Malformed item) : Malformed j

/-- The part of it that concerns frames other than Bulk frames. -/
def Throws (j : Json) (type : String) : Prop :=
  (∃ key ∈ unguarded type, NotText j key) ∨ (∃ doc ∈ serverDocuments j type, BadRoles doc) ∨
    (type = "ServerRoleCreate" ∧ textOf j "role_id" ≠ "" ∧
      ∃ role, j.get? "role" = some role ∧ Unsettable role)

theorem malformed_iff {j : Json} {type : String} (htype : j.text? "type" = some type) :
    Malformed j ↔ Throws j type ∨ type = "Bulk" ∧
      ∃ items, j.get? "v" = some (.arr items) ∧ ∃ item ∈ items, Malformed item := by
  constructor
  · intro h
    cases h with
    | field htype' hkey h =>
      obtain rfl := Option.some.inj (htype.symm.trans htype')
      exact Or.inl (Or.inl ⟨_, hkey, h⟩)
    | roles htype' hdoc h =>
      obtain rfl := Option.some.inj (htype.symm.trans htype')
      exact Or.inl (Or.inr (Or.inl ⟨_, hdoc, h⟩))
    | role htype' hid hrole h =>
      obtain rfl := Option.some.inj (htype.symm.trans htype')
      exact Or.inl (Or.inr (Or.inr ⟨rfl, hid, _, hrole, h⟩))
    | bulk htype' hv hitem h =>
      obtain rfl := Option.some.inj (htype.symm.trans htype')
      exact Or.inr ⟨rfl, _, hv, _, hitem, h⟩
  · rintro ((⟨key, hkey, h⟩ | ⟨doc, hdoc, h⟩ | ⟨rfl, hid, role, hrole, h⟩) | ⟨rfl, items, hv, item, hitem, h⟩)
    · exact .field htype hkey h
    · exact .roles htype hdoc h
    · exact .role htype hid hrole h
    · exact .bulk htype hv hitem h

theorem not_malformed_of_untyped {j : Json} (h : j.text? "type" = none) : ¬ Malformed j := by
  intro hm
  cases hm with
  | field htype => simp [h] at htype
  | roles htype => simp [h] at htype
  | role htype => simp [h] at htype
  | bulk htype => simp [h] at htype

/-! ## What throws -/

theorem set?_eq_none {value : Json} {key : String} {new : Json} :
    value.set? key new = none ↔ Unsettable value := by
  cases value <;> simp [Json.set?, Unsettable, Json.isObject, Json.isNull]

theorem mapM_eq_none {α β : Type} {f : α → Option β} {xs : List α} :
    xs.mapM f = none ↔ ∃ x ∈ xs, f x = none := by
  induction xs with
  | nil => simp
  | cons x xs ih =>
    simp only [List.mapM_cons, List.mem_cons, exists_eq_or_imp, ← ih]
    cases f x with
    | none => simp
    | some y => cases xs.mapM f <;> simp

theorem serverFromJson_eq_none {doc : Json} : Server.fromJson doc = none ↔ BadRoles doc := by
  have hroles : Server.fromJson doc = none ↔
      Server.rolesFromJson ((doc.get? "roles").getD .null) = none := by
    unfold Server.fromJson
    cases Server.rolesFromJson ((doc.get? "roles").getD .null) <;> simp
  rw [hroles, BadRoles]
  cases hdoc : doc.get? "roles" with
  | none => simp [Server.rolesFromJson]
  | some roles =>
    cases roles with
    | obj fields => simp [Server.rolesFromJson, mapM_eq_none, set?_eq_none]
    | _ => simp [Server.rolesFromJson]

theorem readyOf_eq_none {self : User} {j : Json} :
    readyOf self j = none ↔ ∃ doc ∈ listOf j "servers", BadRoles doc := by
  simp only [← serverFromJson_eq_none, ← mapM_eq_none]
  unfold readyOf
  cases (listOf j "servers").mapM Server.fromJson <;> simp

theorem serverCreateOf_eq_none {j : Json} :
    serverCreateOf j = none ↔ BadRoles (((j.get? "server").bind Json.object?).getD j) := by
  rw [serverCreateOf, Option.map_eq_none_iff, serverFromJson_eq_none]

theorem serverRoleCreateOf_eq_none {j : Json} : serverRoleCreateOf j = none ↔
    textOf j "role_id" ≠ "" ∧ ∃ role, j.get? "role" = some role ∧ Unsettable role := by
  rw [serverRoleCreateOf, Option.map_eq_none_iff, roleOf]
  cases j.get? "role" with
  | none => simp
  | some role =>
    rw [Option.map_eq_none_iff]
    split_ifs with hid
    · simp [hid]
    · simp [hid, set?_eq_none]

theorem mandatory_andThen_returns {α : Type} {j : Json} {key : String} {f : String → Handling α}
    {P : Prop} (hf : ∀ s, (f s).returns = true ↔ P) :
    ((mandatory j key).andThen f).returns = true ↔ ¬ NotText j key ∧ P := by
  have hdone : (∃ s, (mandatory j key).status = .done s) ↔ ¬ NotText j key := by
    unfold mandatory NotText
    cases j.get? key with
    | none => simp
    | some value => cases h : value.string? <;> simp [Handling.ofOption, h]
  rw [Outcome.returns_andThen, ← hdone]
  simp only [hf, exists_and_right]

theorem ofOption_andThen_returns {α β : Type} {o : Option α} {f : α → Handling β}
    (hf : ∀ a, (f a).returns = true) :
    ((Handling.ofOption o).andThen f).returns = true ↔ ¬ o = none := by
  rw [Outcome.returns_andThen]
  cases o <;> simp [Handling.ofOption, hf]

theorem dispatched_returns {α : Type} {x : Handling α} {f : α → Event} :
    (x.andThen fun a => Handling.dispatch (f a)).returns = true ↔ x.returns = true := by
  rw [Outcome.returns_andThen, Outcome.returns_iff]
  exact exists_congr fun a => and_iff_left rfl

theorem mandatory_twice_returns {α : Type} {j : Json} {key key' : String}
    {f : String → String → Handling α} (hf : ∀ s t, (f s t).returns = true) :
    ((mandatory j key).andThen fun s => (mandatory j key').andThen (f s)).returns = true ↔
      ∀ k ∈ [key, key'], ¬ NotText j k := by
  have hinner (s : String) : ((mandatory j key').andThen (f s)).returns = true ↔ ¬ NotText j key' := by
    rw [mandatory_andThen_returns fun t => iff_of_true (hf s t) trivial, and_true]
  rw [mandatory_andThen_returns hinner]
  simp

/-- The `type` of a frame is known to be a string where a webhook update reads it. -/
theorem webhookUpdateOf_returns {j : Json} {type : String} (htype : j.text? "type" = some type) :
    (webhookUpdateOf j).returns = true ↔ ∀ k ∈ ["channel_id", "webhook_id"], ¬ NotText j k := by
  have htext : ¬ NotText j "type" := by
    rintro ⟨value, hvalue, hno⟩
    simp [Json.text?, hvalue, hno] at htype
  refine mandatory_twice_returns fun s t => ?_
  exact (mandatory_andThen_returns (P := True) fun _ => iff_of_true rfl trivial).mpr ⟨htext, trivial⟩

theorem not_throws_iff {j : Json} {type : String} {fields : List String}
    (hfields : unguarded type = fields) (hdocs : serverDocuments j type = [])
    (hrole : type ≠ "ServerRoleCreate") :
    (∀ k ∈ fields, ¬ NotText j k) ↔ ¬ Throws j type := by
  simp [Throws, hfields, hdocs, hrole]

theorem handleTyped_returns {self : User} {type : String} {j : Json}
    (htype : j.text? "type" = some type) :
    (handleTyped self type j).returns = true ↔ ¬ Throws j type := by
  have hguarded {x : Handling Unit} (hx : x.returns = true) (hfields : unguarded type = [])
      (hdocs : serverDocuments j type = []) (hrole : type ≠ "ServerRoleCreate") :
      x.returns = true ↔ ¬ Throws j type :=
    iff_of_true hx ((not_throws_iff hfields hdocs hrole).mp (List.forall_mem_nil _))
  unfold handleTyped
  split
  case h_3 =>
    refine hguarded ?_ rfl rfl (by decide)
    split
    · rfl
    · rfl
  case h_5 =>
    rw [Outcome.bind_eq_andThen, ofOption_andThen_returns fun _ => rfl, readyOf_eq_none]
    simp [Throws, unguarded, serverDocuments]
  case h_14 =>
    rw [Outcome.bind_eq_andThen, ofOption_andThen_returns fun _ => rfl, serverCreateOf_eq_none]
    simp [Throws, unguarded, serverDocuments]
  case h_23 =>
    rw [Outcome.bind_eq_andThen, ofOption_andThen_returns fun _ => rfl, serverRoleCreateOf_eq_none]
    simp [Throws, unguarded, serverDocuments]
  case h_26 =>
    exact (dispatched_returns.trans (mandatory_twice_returns fun _ _ => rfl)).trans
      (not_throws_iff rfl rfl (by decide))
  case h_27 =>
    exact (dispatched_returns.trans (mandatory_twice_returns fun _ _ => rfl)).trans
      (not_throws_iff rfl rfl (by decide))
  case h_28 =>
    exact (dispatched_returns.trans (webhookUpdateOf_returns htype)).trans
      (not_throws_iff rfl rfl (by decide))
  case h_29 =>
    exact (dispatched_returns.trans (mandatory_twice_returns fun _ _ => rfl)).trans
      (not_throws_iff rfl rfl (by decide))
  case h_30 =>
    refine hguarded rfl ?_ ?_ (by assumption)
    · unfold unguarded
      split <;> first | contradiction | rfl
    · unfold serverDocuments
      split <;> first | contradiction | rfl
  all_goals exact hguarded rfl rfl rfl (by decide)

/-! ## Frames in Bulk frames -/

theorem handleV_eq (self : User) (fields : List (String × Json)) :
    handleV self fields = handleAll self (listOf (.obj fields) "v") := by
  have harray : handleV self fields =
      handleArray self (((Json.obj fields).get? "v").getD .null) := by
    induction fields with
    | nil => rfl
    | cons x rest ih =>
      obtain ⟨key, value⟩ := x
      rw [handleV, Json.get?, Json.lookup_field]
      by_cases hkey : key = "v"
      · rw [if_pos hkey, if_pos hkey.symm]
        rfl
      · rw [if_neg hkey, if_neg (Ne.symm hkey)]
        exact ih
  rw [harray, listOf]
  cases (Json.obj fields).get? "v" with
  | none => rfl
  | some value => cases value <;> rfl

theorem handleEvent_typed {self : User} {j : Json} {type : String} (htype : j.text? "type" = some type) :
    handleEvent self j = (Handling.dispatch (.raw type j)).andThen fun _ =>
      if type = "Bulk" then handleAll self (listOf j "v") else handleTyped self type j := by
  cases j with
  | obj fields =>
    rw [handleEvent, htype, handleV_eq]
    rfl
  | _ => cases htype

theorem handleEvent_untyped {self : User} {j : Json} (htype : j.text? "type" = none) :
    handleEvent self j = .ret () := by
  cases j with
  | obj fields =>
    rw [handleEvent, htype]
    rfl
  | _ => rfl

theorem handleAll_returns {self : User} {items : List Json} :
    (handleAll self items).returns = true ↔ ∀ j ∈ items, (handleEvent self j).returns = true := by
  induction items with
  | nil => simp [handleAll, Outcome.returns]
  | cons j rest ih =>
    rw [handleAll, Outcome.bind_eq_andThen, Outcome.returns_andThen, ih, List.forall_mem_cons,
      Outcome.returns_iff, exists_and_right]

theorem lookup_sizeOf {fields : List (String × Json)} {key : String} {value : Json}
    (h : fields.lookup key = some value) : sizeOf value < sizeOf fields := by
  induction fields with
  | nil => cases h
  | cons x rest ih =>
    obtain ⟨key', value'⟩ := x
    rw [Json.lookup_field] at h
    simp only [List.cons.sizeOf_spec, Prod.mk.sizeOf_spec]
    split_ifs at h with hkey
    · obtain rfl := Option.some.inj h
      omega
    · have := ih h
      omega

/-- What holds of a frame if it holds of the frames in its list holds of every frame. -/
theorem frame_induction {P : Json → Prop} (h : ∀ j, (∀ item ∈ listOf j "v", P item) → P j)
    (j : Json) : P j := by
  induction hn : sizeOf j using Nat.strong_induction_on generalizing j with
  | h n ih =>
    refine h j fun item hitem => ih (sizeOf item) ?_ item rfl
    rw [← hn]
    cases j with
    | obj fields =>
      obtain ⟨value, hvalue, hitems⟩ : ∃ value, fields.lookup "v" = some value ∧
          item ∈ (Json.array? value).getD [] := by
        cases hv : fields.lookup "v" with
        | none => simp [listOf, Json.get?, hv] at hitem
        | some value => exact ⟨value, rfl, by simpa [listOf, Json.get?, hv] using hitem⟩
      have hlt := lookup_sizeOf hvalue
      cases value with
      | arr items =>
        have hmem : sizeOf item < sizeOf items := List.sizeOf_lt_of_mem hitems
        simp only [Json.arr.sizeOf_spec, Json.obj.sizeOf_spec] at hlt ⊢
        omega
      | _ => exact absurd hitems List.not_mem_nil
    | _ => exact absurd hitem List.not_mem_nil

theorem mem_listOf {j item : Json} {key : String} :
    item ∈ listOf j key ↔ ∃ items, j.get? key = some (.arr items) ∧ item ∈ items := by
  rw [listOf]
  cases j.get? key with
  | none => simp
  | some value => cases value <;> simp [Json.array?]

theorem stops_iff_malformed (self : User) (j : Json) :
    ¬ (handleEvent self j).returns = true ↔ Malformed j := by
  induction j using frame_induction with
  | h j ih =>
    rw [not_iff_comm, iff_comm]
    cases htype : j.text? "type" with
    | none =>
      rw [handleEvent_untyped htype]
      exact iff_of_true rfl (not_malformed_of_untyped htype)
    | some type =>
      rw [handleEvent_typed htype, Outcome.returns_andThen, malformed_iff htype]
      by_cases hbulk : type = "Bulk"
      · subst hbulk
        have hthrows : ¬ Throws j "Bulk" := by simp [Throws, unguarded, serverDocuments]
        have hinside : (∃ items, j.get? "v" = some (.arr items) ∧ ∃ item ∈ items, Malformed item) ↔
            ∃ item ∈ listOf j "v", Malformed item := by
          simp only [mem_listOf]
          tauto
        have hall : (∀ item ∈ listOf j "v", (handleEvent self item).returns = true) ↔
            ∀ item ∈ listOf j "v", ¬ Malformed item :=
          forall₂_congr fun item hitem => (not_iff_comm.mp (ih item hitem)).symm
        simp only [if_true, handleAll_returns, hall, hthrows, hinside, false_or, true_and, not_exists,
          not_and]
        exact ⟨fun ⟨_, _, h⟩ => h, fun h => ⟨(), rfl, h⟩⟩
      · simp only [hbulk, if_false, handleTyped_returns htype, false_and, or_false]
        exact ⟨fun ⟨_, _, h⟩ => h, fun h => ⟨(), rfl, h⟩⟩

/-- A frame is handled to its end exactly if it is not malformed. -/
theorem handleEvent_returns_iff (self : User) (j : Json) :
    (handleEvent self j).returns = true ↔ ¬ Malformed j :=
  (not_iff_comm.mp (stops_iff_malformed self j)).symm

def numericSettings : Json :=
  .obj [("id", .int 7), ("key", .str "theme"), ("type", .str "UserSettingsUpdate")]

def textRole : Json :=
  .obj [("id", .str "01S"), ("roles", .obj [("01R", .str "admin")]), ("type", .str "ServerCreate")]

def numericRole : Json :=
  .obj [("id", .str "01S"), ("role", .int 1), ("role_id", .str "01R"), ("type", .str "ServerRoleCreate")]

theorem unguarded_frames_throw :
    (handleEvent {} numericSettings).returns = false ∧ (handleEvent {} textRole).returns = false ∧
      (handleEvent {} numericRole).returns = false ∧
      (handleEvent {} (.obj [("type", .str "Bulk"), ("v", .arr [textRole])])).returns = false :=
  ⟨rfl, rfl, rfl, rfl⟩

end Stoatpp.Gateway
