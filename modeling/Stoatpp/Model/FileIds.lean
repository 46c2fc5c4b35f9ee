import Stoatpp.Model.Entities

/-!
# The file ids in the models

Six fields of the models hold the id of an Autumn file. Users and members look at `id` before `_id`,
servers at `_id` before `id`, and channels at `id` only.
-/

namespace Stoatpp

inductive FilePlace where
  | userAvatar
  | profileBackground
  | memberAvatar
  | serverIcon
  | serverBanner
  | channelIcon

namespace FilePlace

def value? (document : Json) : FilePlace → Option Json
  | userAvatar => document.get? "avatar"
  | profileBackground => (document.get? "profile").bind (·.get? "background")
  | memberAvatar => document.get? "avatar"
  | serverIcon => document.get? "icon"
  | serverBanner => document.get? "banner"
  | channelIcon => document.get? "icon"

/-- What the model of the document has for this field; a server document can make its parser throw. -/
def extracted (document : Json) : FilePlace → Option (Option String)
  | userAvatar => some (User.fromJson document).avatar
  | profileBackground => some (User.fromJson document).banner
  | memberAvatar => some (Member.fromJson document).avatar
  | serverIcon => (Server.fromJson document).map (·.icon)
  | serverBanner => (Server.fromJson document).map (·.banner)
  | channelIcon => some (Channel.fromJson document).icon

def keys : FilePlace → String × String
  | serverIcon => ("_id", "id")
  | serverBanner => ("_id", "id")
  | channelIcon => ("id", "id")
  | _ => ("id", "_id")

def read (v : Json) (p : FilePlace) : Option String := fileId p.keys.1 p.keys.2 v

variable {document v : Json} {p : FilePlace} {id : Option String}

theorem server_files {s : Server} (hs : Server.fromJson document = some s) :
    s.icon = (document.get? "icon").bind (fileId "_id" "id") ∧
      s.banner = (document.get? "banner").bind (fileId "_id" "id") := by
  obtain ⟨roles, -, hroles⟩ := Option.bind_eq_some_iff.mp hs
  obtain rfl := Option.some.inj hroles
  exact ⟨rfl, rfl⟩

theorem eq_read (hv : p.value? document = some v) (hid : p.extracted document = some id) : id = p.read v := by
  cases p with
  | profileBackground =>
    obtain ⟨profile, hprofile, hbackground⟩ := Option.bind_eq_some_iff.mp hv
    obtain rfl := Option.some.inj hid
    cases profile with
    | obj fields =>
      simp only [User.fromJson, hprofile, Option.bind_some, Json.object?, Option.getD_some, User.background,
        hbackground]
      rfl
    | _ => cases hbackground
  | serverIcon =>
    obtain ⟨s, hs, rfl⟩ := Option.map_eq_some_iff.mp hid
    exact ((server_files hs).1).trans (congrArg (·.bind (fileId "_id" "id")) hv)
  | serverBanner =>
    obtain ⟨s, hs, rfl⟩ := Option.map_eq_some_iff.mp hid
    exact ((server_files hs).2).trans (congrArg (·.bind (fileId "_id" "id")) hv)
  | userAvatar =>
    obtain rfl := Option.some.inj hid
    exact congrArg (·.bind (fileId "id" "_id")) hv
  | memberAvatar =>
    obtain rfl := Option.some.inj hid
    exact congrArg (·.bind (fileId "id" "_id")) hv
  | channelIcon =>
    obtain rfl := Option.some.inj hid
    exact congrArg (·.bind (fileId "id" "id")) hv

def documentOf (v : Json) : FilePlace → Json
  | userAvatar => .obj [("avatar", v)]
  | profileBackground => .obj [("profile", .obj [("background", v)])]
  | memberAvatar => .obj [("avatar", v)]
  | serverIcon => .obj [("icon", v)]
  | serverBanner => .obj [("banner", v)]
  | channelIcon => .obj [("icon", v)]

theorem documentOf_carries (p : FilePlace) (v : Json) :
    p.value? (p.documentOf v) = some v ∧ p.extracted (p.documentOf v) = some (p.read v) := by
  cases p <;> exact ⟨rfl, rfl⟩

/-- The file ids of two documents with the same value agree. -/
def Agree (v : Json) : Prop :=
  ∀ (p q : FilePlace) (d e : Json) (id id' : Option String), p.value? d = some v → q.value? e = some v →
    p.extracted d = some id → q.extracted e = some id' → id = id'

theorem agree_iff_read : Agree v ↔ ∀ p q : FilePlace, p.read v = q.read v := by
  constructor
  · intro h p q
    obtain ⟨hp, hpid⟩ := documentOf_carries p v
    obtain ⟨hq, hqid⟩ := documentOf_carries q v
    exact h p q _ _ _ _ hp hq hpid hqid
  · intro h p q d e id id' hp hq hid hid'
    rw [eq_read hp hid, eq_read hq hid', h p q]

/-- The same id comes out in all six places exactly if the value has no string under `_id`, or the
same one under `id`. -/
theorem file_ids_agree_iff (v : Json) : Agree v ↔ v.text? "_id" = none ∨ v.text? "_id" = v.text? "id" := by
  rw [agree_iff_read]
  cases v with
  | str s =>
    refine iff_of_true (fun p q => ?_) (Or.inl rfl)
    cases p <;> cases q <;> rfl
  | obj fields =>
    have hread (key other : String) : fileId key other (.obj fields) =
      ((Json.obj fields).text? key <|> (Json.obj fields).text? other) := rfl
    constructor
    · intro h
      have hchannel := h userAvatar channelIcon
      have hserver := h serverIcon channelIcon
      simp only [read, keys, hread] at hchannel hserver
      cases hid : (Json.obj fields).text? "id" with
      | none =>
        rw [hid] at hchannel
        exact Or.inl hchannel
      | some id =>
        rw [hid] at hserver
        cases hother : (Json.obj fields).text? "_id" with
        | none => exact Or.inl rfl
        | some other =>
          rw [hother] at hserver
          exact Or.inr hserver
    · intro h p q
      have hsame (p : FilePlace) : p.read (.obj fields) = (Json.obj fields).text? "id" := by
        rcases h with hnone | hequal
        · cases p <;> simp [read, keys, hread, hnone]
        · cases p <;> simp [read, keys, hread, hequal]
      rw [hsame p, hsame q]
  | _ =>
    refine iff_of_true (fun p q => ?_) (Or.inl rfl)
    cases p <;> cases q <;> rfl

theorem autumn_file_lost :
    let file := Json.obj [("_id", .str "f")]
    (Channel.fromJson (.obj [("icon", file)])).icon = none ∧
    (Server.fromJson (.obj [("icon", file)])).map (·.icon) = some (some "f") ∧ ¬ Agree file := by
  intro file
  refine ⟨by decide, by decide, fun h => ?_⟩
  have hsame := h serverIcon channelIcon (.obj [("icon", file)]) (.obj [("icon", file)]) _ _ rfl rfl rfl rfl
  exact absurd hsame (by decide)

end FilePlace

end Stoatpp
