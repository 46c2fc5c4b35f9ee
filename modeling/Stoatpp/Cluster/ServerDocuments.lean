import Stoatpp.Cluster.CacheRuns
import Stoatpp.Gateway.Dispatched

/-!
# The documents of the servers

A cached server keeps the document it was read from beside its typed fields. An update writes
all it gives into the document, and name and owner into the typed fields. The two agree as long
as every update spares the other fields.
-/

namespace Stoatpp.Cluster
open Stoatpp.Library Stoatpp.Gateway

/-! ## The document behind an update -/

/-- What the data of an update gives for a field, the last where it gives several. -/
def given (data : Json) (key : String) : Option Json := data.items.reverse.lookup key

/-- Fields can be set on objects and on null only. -/
def Writable : Json → Prop
  | .null => True
  | .obj _ => True
  | _ => False

namespace Store
variable {data raw : Json} {clear : List String}

theorem setFields_get (items : List (String × Json)) (hw : Writable raw) :
    (setFields items raw).2 = true ∧ Writable (setFields items raw).1 ∧
      ∀ k, (setFields items raw).1.get? k = (items.reverse.lookup k <|> raw.get? k) := by
  induction items generalizing raw with
  | nil => exact ⟨rfl, hw, fun k => rfl⟩
  | cons item rest ih =>
    obtain ⟨key, value⟩ := item
    obtain ⟨raw', hset, hw'⟩ : ∃ raw', raw.set? key value = some raw' ∧ Writable raw' := by
      cases raw with
      | null => exact ⟨_, rfl, trivial⟩
      | obj fields => exact ⟨_, rfl, trivial⟩
      | _ => exact hw.elim
    obtain ⟨hdone, hwritable, hget⟩ := ih hw'
    simp only [setFields, hset]
    refine ⟨hdone, hwritable, fun k => ?_⟩
    rw [hget, Json.get?_set? hset, List.reverse_cons, List.lookup_append, Json.lookup_field]
    cases rest.reverse.lookup k with
    | some v => rfl
    | none => split_ifs <;> rfl

theorem clearFields_get (hw : Writable raw) (k : String) :
    (clearFields clear raw).1.get? k = if k ∈ clear then none else raw.get? k := by
  cases raw with
  | null =>
    have hnull : (clearFields clear .null).1 = .null := by
      cases clear <;> rfl
    rw [hnull]
    exact (ite_self _).symm
  | obj fields =>
    induction clear generalizing fields with
    | nil => rfl
    | cons field rest ih =>
      have herase := ih (fields.filter (·.1 ≠ field)) trivial
      simp only [clearFields, Json.erase?]
      rw [herase]
      change (if k ∈ rest then none else (fields.filter (·.1 ≠ field)).lookup k) = _
      rw [Json.lookup_filter_ne]
      by_cases hk : k = field
      · rw [if_pos hk, ite_self, if_pos (hk ▸ List.mem_cons_self)]
      · rw [if_neg hk]
        simp only [List.mem_cons, hk, false_or]
        rfl
  | _ => exact hw.elim

theorem updateRaw_get (hw : Writable raw) (k : String) : (updateRaw data clear raw).1.get? k =
    if k ∈ clear then none else (given data k <|> raw.get? k) := by
  obtain ⟨hdone, hwritable, hget⟩ := setFields_get data.items hw
  unfold updateRaw
  rcases hset : setFields data.items raw with ⟨raw', done⟩
  rw [hset] at hdone hwritable hget
  obtain rfl : done = true := hdone
  refine (clearFields_get hwritable k).trans ?_
  rw [hget]
  rfl

/-- On any other document the first change throws. -/
theorem updateRaw_unwritable (hw : ¬ Writable raw) : (updateRaw data clear raw).1 = raw := by
  have hset : ∀ key value, raw.set? key value = none := by
    intro key value
    cases raw with
    | null => exact absurd trivial hw
    | obj fields => exact absurd trivial hw
    | _ => rfl
  have herase : ∀ key, raw.erase? key = none := by
    intro key
    cases raw with
    | obj fields => exact absurd trivial hw
    | _ => rfl
  have hclear : (clearFields clear raw).1 = raw := by
    cases clear with
    | nil => rfl
    | cons field rest => simp only [clearFields, herase]
  unfold updateRaw
  cases data.items with
  | nil => exact hclear
  | cons item rest => simp only [setFields, hset]

end Store

theorem get?_of_not_given {data : Json} {k : String} (h : given data k = none) : data.get? k = none := by
  cases data with
  | obj fields =>
    rw [given, List.lookup_eq_none_iff] at h
    exact List.lookup_eq_none_iff.mpr fun p hp => h p (List.mem_reverse.mpr hp)
  | _ => rfl

/-! ## Faithful servers -/

def nameIn (v : Option Json) : String := (v.bind Json.string?).getD ""

def textIn (v : Option Json) : Option String := v.bind Json.string?

def fileIn (v : Option Json) : Option String := v.bind (fileId "_id" "id")

def flagsIn (v : Option Json) : ℤ := (v.bind Json.int32?).getD 0

/-- The typed fields are those of the document, read once more. -/
def Faithful (s : Server) : Prop :=
  ∃ t, Server.fromJson s.raw = some t ∧ s.name = t.name ∧ s.owner = t.owner ∧
    s.description = t.description ∧ s.icon = t.icon ∧ s.banner = t.banner ∧ s.flags = t.flags

/-- The same over the fields of the document. -/
structure Reads (field : String → Option Json) (s : Server) : Prop where
  roles : (Server.rolesFromJson ((field "roles").getD .null)).isSome
  name : nameIn (field "name") = s.name
  owner : nameIn (field "owner") = s.owner
  description : textIn (field "description") = s.description
  icon : fileIn (field "icon") = s.icon
  banner : fileIn (field "banner") = s.banner
  flags : flagsIn (field "flags") = s.flags

theorem reads_fromJson {j : Json} {t : Server} (h : Server.fromJson j = some t) :
    t.raw = j ∧ Reads j.get? t := by
  simp only [Server.fromJson, Option.bind_eq_bind, Option.bind_eq_some_iff, Option.pure_def,
    Option.some.injEq] at h
  obtain ⟨roles, hroles, rfl⟩ := h
  exact ⟨rfl, Option.isSome_iff_exists.mpr ⟨roles, hroles⟩, rfl, rfl, rfl, rfl, rfl, rfl⟩

theorem fromJson_isSome {j : Json}
    (h : (Server.rolesFromJson ((j.get? "roles").getD .null)).isSome) : ∃ t, Server.fromJson j = some t := by
  obtain ⟨roles, hroles⟩ := Option.isSome_iff_exists.mp h
  simp only [Server.fromJson, hroles]
  exact ⟨_, rfl⟩

theorem faithful_iff {s : Server} : Faithful s ↔ Reads s.raw.get? s := by
  constructor
  · rintro ⟨t, ht, hname, howner, hdescription, hicon, hbanner, hflags⟩
    obtain ⟨-, hr⟩ := reads_fromJson ht
    exact ⟨hr.roles, hr.name.trans hname.symm, hr.owner.trans howner.symm,
      hr.description.trans hdescription.symm, hr.icon.trans hicon.symm,
      hr.banner.trans hbanner.symm, hr.flags.trans hflags.symm⟩
  · intro h
    obtain ⟨t, ht⟩ := fromJson_isSome h.roles
    obtain ⟨-, hr⟩ := reads_fromJson ht
    exact ⟨t, ht, h.name.symm.trans hr.name, h.owner.symm.trans hr.owner,
      h.description.symm.trans hr.description, h.icon.symm.trans hr.icon,
      h.banner.symm.trans hr.banner, h.flags.symm.trans hr.flags⟩

theorem faithful_fromJson {j : Json} {s : Server} (h : Server.fromJson j = some s) : Faithful s := by
  obtain ⟨hraw, hr⟩ := reads_fromJson h
  rw [faithful_iff, hraw]
  exact hr

/-! ## Updates -/

/-- An update that clears the field or gives it makes of the document what is there anyway. -/
def Spares {α : Type} (e : Events.Update) (key : String) (read : Option Json → α) (value : α) : Prop :=
  (key ∈ e.clear → read none = value) ∧
    (key ∉ e.clear → ∀ v, given e.data key = some v → read (some v) = value)

/-- The fields that are not kept up are spared; name and owner are given as strings, if at all. -/
structure Sparing (e : Events.Update) (s : Server) : Prop where
  name : Spares e "name" nameIn ((e.data.text? "name").getD s.name)
  owner : Spares e "owner" nameIn ((e.data.text? "owner").getD s.owner)
  description : Spares e "description" textIn s.description
  icon : Spares e "icon" fileIn s.icon
  banner : Spares e "banner" fileIn s.banner
  flags : Spares e "flags" flagsIn s.flags
  roles : "roles" ∉ e.clear → ∀ v, given e.data "roles" = some v → (Server.rolesFromJson v).isSome

/-- On a document nothing can be set in, name and owner must stay. -/
def Keeps (e : Events.Update) (s : Server) : Prop :=
  (Writable s.raw → Sparing e s) ∧
    (¬ Writable s.raw → (e.data.text? "name").getD s.name = s.name ∧
      (e.data.text? "owner").getD s.owner = s.owner)

theorem Spares.read {α : Type} {e : Events.Update} {key : String} {read : Option Json → α}
    {raw : Json} {old new : α} (hs : Spares e key read new) (hold : read (raw.get? key) = old)
    (hnew : given e.data key = none → new = old) :
    read (if key ∈ e.clear then none else (given e.data key <|> raw.get? key)) = new := by
  split_ifs with hkey
  · exact hs.1 hkey
  · cases hg : given e.data key with
    | some v => exact hs.2 hkey v hg
    | none => exact hold.trans (hnew hg).symm

theorem text?_of_not_given {data : Json} {key value : String} (h : given data key = none) :
    (data.text? key).getD value = value := by
  rw [Json.text?, get?_of_not_given h]
  rfl

theorem faithful_update {e : Events.Update} {s : Server} (hf : Faithful s) (hk : Keeps e s) :
    Faithful (Store.updateServer e s).1 := by
  rw [faithful_iff] at hf ⊢
  by_cases hw : Writable s.raw
  · have hs : Sparing e s := hk.1 hw
    have hget : (Store.updateServer e s).1.raw.get? = fun key =>
        if key ∈ e.clear then none else (given e.data key <|> s.raw.get? key) :=
      funext fun key => Store.updateRaw_get hw key
    rw [hget]
    refine ⟨?_, hs.name.read hf.name text?_of_not_given, hs.owner.read hf.owner text?_of_not_given,
      hs.description.read hf.description fun _ => rfl, hs.icon.read hf.icon fun _ => rfl,
      hs.banner.read hf.banner fun _ => rfl, hs.flags.read hf.flags fun _ => rfl⟩
    split_ifs with hkey
    · rfl
    · cases hg : given e.data "roles" with
      | some v => exact hs.roles hkey v hg
      | none => exact hf.roles
  · obtain ⟨hname, howner⟩ := hk.2 hw
    have hraw : (Store.updateServer e s).1.raw = s.raw := Store.updateRaw_unwritable hw
    rw [hraw]
    exact ⟨hf.roles, hf.name.trans hname.symm, hf.owner.trans howner.symm, hf.description,
      hf.icon, hf.banner, hf.flags⟩

/-! ## Whole runs -/

/-- The turn is an erasure, or an event that a frame is dispatched as. -/
def FromGateway : CacheTurn → Prop
  | .event e => ∃ self j, e ∈ frameEvents self j
  | .erase _ => True
  | _ => False

def KeepsDocuments (h : Caching) (a : CacheTurn) : Prop :=
  ∀ e s, a = .event (.serverUpdate e) → h.store.getServer e.id = some s → Keeps e s

variable {d : Dispatching} {h h' : Caching} {a : CacheTurn}

theorem serverAfter_faithful {e : Event} {id : String} {before : Option Server} {s : Server}
    (hb : ∀ t, before = some t → Faithful t) (hfrom : ∃ self j, e ∈ frameEvents self j)
    (hk : ∀ u t, e = .serverUpdate u → id = u.id → before = some t → Keeps u t)
    (hs : Store.serverAfter id before e = some s) : Faithful s := by
  obtain ⟨self, j, he⟩ := hfrom
  have hcomes := comes_of_mem j (mem_frameEvents.mp he)
  cases Store.serverAfter_comes hs with
  | kept ht => exact hb s ht
  | listed hmem _ =>
    rcases hcomes with ⟨type, data, h⟩ | ⟨inner, type, -, -, -, -, hready⟩
    · cases h
    · obtain ⟨doc, -, hdoc⟩ := readyOf_server hready hmem
      exact faithful_fromJson hdoc
  | created _ =>
    rcases hcomes with ⟨type, data, h⟩ | ⟨inner, type, -, -, -, -, hcreate⟩
    · cases h
    · exact faithful_fromJson (serverCreateOf_server hcreate)
  | @updated u t ht hid => exact faithful_update (hb t ht) (hk u t rfl hid.symm ht)
  | @roleCreated _ t ht => exact hb t ht
  | @roleUpdated _ t ht => exact hb t ht
  | @roleDeleted _ _ t ht => exact hb t ht

theorem faithful_turn (h : Caching) (a : CacheTurn) (h' : Caching)
    (hf : ∀ id s, h.store.getServer id = some s → Faithful s)
    (ha : FromGateway a ∧ KeepsDocuments h a) (ht : cacheTurn d h a = some h') :
    ∀ id s, h'.store.getServer id = some s → Faithful s := by
  intro id s hs
  rw [getServer_turn ht] at hs
  cases a with
  | event e =>
    refine serverAfter_faithful (hf id) ha.1 (fun u t hu hid ht => ?_) hs
    exact ha.2 u t (congrArg CacheTurn.event hu) (hid ▸ ht)
  | erase i =>
    simp only [serverBehind] at hs
    split_ifs at hs
    exact hf id s hs
  | cacheServer x => exact ha.1.elim
  | cacheMember m => exact ha.1.elim

/-- In a run of gateway events whose updates spare the fields that are not kept up, the typed
fields of every cached server are those of its document. -/
theorem typed_fields_follow (d : Dispatching) (turns : List CacheTurn) (h : Caching)
    (hrun : runFrom (cacheTurn d) {} turns = some h)
    (hc : Along (cacheTurn d) (fun h a => FromGateway a ∧ KeepsDocuments h a) {} turns) :
    ∀ id s, h.store.getServer id = some s → Faithful s := by
  have hstart : ∀ id s, ({} : Caching).store.getServer id = some s → Faithful s :=
    fun _ _ hs => (nomatch hs)
  exact run_invariant faithful_turn hstart hc hrun

def updateFrame (key : String) (value : Json) : Json :=
  .obj [("data", .obj [(key, value)]), ("id", .str "s"), ("type", .str "ServerUpdate")]

def updated (key value : String) : List CacheTurn :=
  [typedEvent (.obj [("_id", .str "s"), ("type", .str "ServerCreate")]),
    typedEvent (updateFrame key (.str value))]

theorem typedEvent_fromGateway {j : Json} {e : Event} (h : (frameEvents {} j)[1]? = some e) :
    FromGateway (typedEvent j) := by
  have hturn : typedEvent j = .event e := by
    rw [typedEvent, frameTurns, List.getElem?_map, h]
    rfl
  rw [hturn]
  exact ⟨{}, j, List.mem_of_getElem? h⟩

theorem renamed_follows : ∃ h s, runFrom (cacheTurn {}) {} (updated "name" "new") = some h ∧
    h.store.getServer "s" = some s ∧ s.name = "new" ∧ Faithful s := by
  have hrun : ∃ h s, runFrom (cacheTurn {}) {} (updated "name" "new") = some h ∧
      h.store.getServer "s" = some s ∧ s.name = "new" := ⟨_, _, rfl, rfl, rfl⟩
  obtain ⟨h, s, hrun, hs, hname⟩ := hrun
  have hc : Along (cacheTurn {}) (fun h a => FromGateway a ∧ KeepsDocuments h a) {}
      (updated "name" "new") := by
    refine ⟨⟨typedEvent_fromGateway rfl, fun _ _ he => (nomatch he)⟩, fun h₁ ht₁ =>
      ⟨⟨typedEvent_fromGateway rfl, fun e s he hs => ?_⟩, fun _ _ => trivial⟩⟩
    obtain rfl := Option.some.inj ht₁
    obtain rfl := Event.serverUpdate.inj (CacheTurn.event.inj he)
    obtain rfl := Option.some.inj hs
    have hname : Spares (updateOf (updateFrame "name" (.str "new"))) "name" nameIn "new" :=
      ⟨fun hkey => absurd hkey List.not_mem_nil, fun _ v hv => by
        obtain rfl := Option.some.inj hv
        rfl⟩
    have hrest : ∀ {α : Type} (key : String) (read : Option Json → α) (value : α),
        given (.obj [("name", .str "new")]) key = none →
        Spares (updateOf (updateFrame "name" (.str "new"))) key read value := fun key read value hg =>
      ⟨fun hkey => absurd hkey List.not_mem_nil, fun _ v hv => nomatch hg.symm.trans hv⟩
    exact ⟨fun _ => ⟨hname, hrest _ _ _ rfl, hrest _ _ _ rfl, hrest _ _ _ rfl, hrest _ _ _ rfl,
      hrest _ _ _ rfl, fun _ v hv => (nomatch hv)⟩, fun hw => absurd trivial hw⟩
  exact ⟨h, s, hrun, hs, hname, typed_fields_follow {} _ h hrun hc "s" s hs⟩

theorem description_falls_behind : ¬ ∀ (d : Dispatching) (turns : List CacheTurn) (h : Caching),
    (∀ a ∈ turns, FromGateway a) → runFrom (cacheTurn d) {} turns = some h →
    ∀ id s, h.store.getServer id = some s → Faithful s := by
  intro hall
  have hrun : ∃ h s, runFrom (cacheTurn {}) {} (updated "description" "new") = some h ∧
      h.store.getServer "s" = some s ∧ s.description = none ∧
      s.raw.get? "description" = some (.str "new") := ⟨_, _, rfl, rfl, rfl, rfl⟩
  obtain ⟨h, s, hrun, hs, hnone, hraw⟩ := hrun
  have hfrom : ∀ a ∈ updated "description" "new", FromGateway a :=
    List.forall_mem_cons.mpr ⟨typedEvent_fromGateway rfl,
      List.forall_mem_cons.mpr ⟨typedEvent_fromGateway rfl, List.forall_mem_nil _⟩⟩
  have hread := (faithful_iff.mp (hall {} _ h hfrom hrun "s" s hs)).description
  rw [hraw, hnone] at hread
  cases hread

end Stoatpp.Cluster
