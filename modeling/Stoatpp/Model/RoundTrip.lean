import Stoatpp.Library.Keyed
import Stoatpp.Model.Serialize

/-!
# Reading a model back

What `to_json` writes is read back by `from_json`, whatever spelling the first document had:
each typed field either covers the spelling it came from or was not there and still is not.
-/

namespace Stoatpp
open Stoatpp.Library Json

/-! ## Overlays -/

theorem overlay_obj (fs : List (String × Json)) (fields : List (String × Option Json)) :
    ∃ fs', (Json.obj fs).overlay fields = some (.obj fs') := by
  induction fields generalizing fs with
  | nil => exact ⟨fs, rfl⟩
  | cons x rest ih =>
    obtain ⟨key, value⟩ := x
    cases value with
    | none => exact ih fs
    | some value => exact ih (insertField key value fs)

theorem get?_overlay {j j' : Json} {fields : List (String × Option Json)}
    (hnodup : (fields.map Prod.fst).Nodup) (h : j.overlay fields = some j') (k : String) :
    j'.get? k = ((fields.lookup k).join <|> j.get? k) := by
  induction fields generalizing j with
  | nil =>
    obtain rfl : j = j' := by simpa [overlay] using h
    rfl
  | cons x rest ih =>
    obtain ⟨key, value⟩ := x
    obtain ⟨hkey, hrest⟩ := List.nodup_cons.mp hnodup
    have habsent : rest.lookup key = none := by
      refine List.lookup_eq_none_iff.mpr fun y hy => ?_
      have hne : key ≠ y.1 := fun heq => hkey (List.mem_map.mpr ⟨y, hy, heq.symm⟩)
      simpa using hne
    rw [overlay, List.foldlM_cons, Option.bind_eq_bind, Option.bind_eq_some_iff] at h
    obtain ⟨m, hm, h⟩ := h
    rw [ih hrest h, List.lookup_cons]
    cases value with
    | none =>
      obtain rfl := Option.some.inj hm
      by_cases hk : k = key
      · simp [hk, habsent]
      · rw [beq_false_of_ne hk]
    | some value =>
      rw [get?_set? hm]
      by_cases hk : k = key
      · simp [hk, habsent]
      · rw [beq_false_of_ne hk, if_neg hk]

/-- An optional field is read as it was, written over or not. -/
theorem bind_overlaid {β : Type} {read : Json → Option β} {write : β → Json}
    (h : ∀ b, read (write b) = some b) (x : Option Json) :
    ((x.bind read).map write <|> x).bind read = x.bind read := by
  cases hx : x.bind read with
  | none => exact hx
  | some b => exact h b

variable {j j' : Json} {k a b s : String}

theorem get?_kept {x : Option Json} (h : j'.get? k = (x <|> x)) : j'.get? k = x := by
  rw [h]
  cases x <;> rfl

theorem text_written (h : j'.get? k = some (.str s)) (d : String) : (j'.text? k).getD d = s := by
  rw [text?, h]
  rfl

theorem text?_kept (h : j'.get? k = ((j.text? k).map .str <|> j.get? k)) : j'.text? k = j.text? k := by
  have hread : ∀ b, string? (.str b) = some b := fun _ => rfl
  rw [text?, h]
  exact bind_overlaid hread (j.get? k)

theorem ownId_written (h : j'.get? "id" = some (.str s)) : ownId j' = s := by
  rw [ownId, text?, h]
  rfl

theorem file_kept (h : j'.get? k = (((j.get? k).bind (fileId a b)).map .str <|> j.get? k)) :
    (j'.get? k).bind (fileId a b) = (j.get? k).bind (fileId a b) := by
  have hread : ∀ id, fileId a b (.str id) = some id := fun _ => rfl
  rw [h]
  exact bind_overlaid hread (j.get? k)

theorem int32_int32 (n : ℤ) : int32 (int32 n) = int32 n := by
  have hlow := BitVec.le_toInt (BitVec.ofInt 32 n)
  have hhigh := BitVec.toInt_lt (x := BitVec.ofInt 32 n)
  exact int32_of_range hlow hhigh

/-- A number, or the zero that stands for it, is written as the integer it was read as. -/
theorem number_written (h : j'.get? k = some (.int (((j.get? k).bind int32?).getD 0))) :
    ((j'.get? k).bind int32?).getD 0 = ((j.get? k).bind int32?).getD 0 := by
  rw [h]
  change int32 _ = _
  cases hread : (j.get? k).bind int32? with
  | none => decide
  | some n =>
    obtain ⟨value, -, hvalue⟩ := Option.bind_eq_some_iff.mp hread
    obtain ⟨n', -, rfl⟩ := Option.map_eq_some_iff.mp hvalue
    exact int32_int32 n'

theorem bool_written {v : Bool} (h : j'.get? k = some (.bool v)) :
    ((j'.get? k).bind bool?).getD false = v := by
  rw [h]
  rfl

def strings (j : Json) (k : String) : List String :=
  (((j.get? k).bind array?).getD []).filterMap string?

theorem strings_written {items : List String} (h : j'.get? k = some (texts items)) :
    strings j' k = items := by
  rw [strings, h]
  change (items.map Json.str).filterMap string? = items
  have hread : string? ∘ Json.str = some := rfl
  rw [List.filterMap_map, hread, List.filterMap_some]

/-! ## The models -/

/-- What is compared of a model is everything but the document it was read from. -/
def User.typed (u : User) : User := { u with raw := .null }

/-- A user is a bot by an object or by a truth value and is written back as the object. -/
theorem User.bot_written (h : j'.get? "bot" = some (if (User.fromJson j).bot then
    .obj ((User.fromJson j).botOwner.map fun o => ("owner", Json.str o)).toList else .null)) :
    (User.fromJson j').bot = (User.fromJson j).bot ∧
      (User.fromJson j').botOwner = (User.fromJson j).botOwner := by
  cases hb : j.get? "bot" with
  | none =>
    simp only [User.fromJson, hb] at h ⊢
    rw [h]
    exact ⟨rfl, rfl⟩
  | some value =>
    simp only [User.fromJson, hb] at h ⊢
    rw [h]
    cases value with
    | obj fields =>
      refine ⟨rfl, ?_⟩
      change ((((Json.obj fields).text? "owner").map fun o => ("owner", Json.str o)).toList.lookup
        "owner").bind string? = (Json.obj fields).text? "owner"
      cases (Json.obj fields).text? "owner" <;> rfl
    | bool b => cases b <;> exact ⟨rfl, rfl⟩
    | _ => exact ⟨rfl, rfl⟩

/-- A nested object is written only when it has a field, and then hides the one it came from. -/
theorem present_cases (fields : List (String × Option Json)) (x : Option Json) :
    (present fields <|> x) = x ∨
      (present fields <|> x) = some (.obj (fields.filterMap fun y => y.2.map (y.1, ·))) := by
  rw [present]
  cases fields.filterMap fun y => y.2.map (y.1, ·) with
  | nil => exact .inl rfl
  | cons y rest => exact .inr rfl

def part (j : Json) (k : String) : Json := ((j.get? k).bind object?).getD .null

theorem part_written {f g : Json → Option String}
    (hread : ∀ x y, f (.obj ([(a, x.map Json.str), (b, y.map Json.str)].filterMap fun z => z.2.map (z.1, ·))) = x ∧
      g (.obj ([(a, x.map Json.str), (b, y.map Json.str)].filterMap fun z => z.2.map (z.1, ·))) = y)
    (h : j'.get? k = (present [(a, (f (part j k)).map .str), (b, (g (part j k)).map .str)] <|> j.get? k)) :
    f (part j' k) = f (part j k) ∧ g (part j' k) = g (part j k) := by
  obtain hsame | hnew := present_cases [(a, (f (part j k)).map .str), (b, (g (part j k)).map .str)] (j.get? k)
  · have hpart : part j' k = part j k := by rw [part, h.trans hsame, part]
    rw [hpart]
    exact ⟨rfl, rfl⟩
  · have hpart : part j' k = .obj ([(a, (f (part j k)).map Json.str),
        (b, (g (part j k)).map Json.str)].filterMap fun z => z.2.map (z.1, ·)) := by
      rw [part, h.trans hnew]
      rfl
    rw [hpart]
    exact hread _ _

theorem User.read_back (fs : List (String × Json)) :
    ∃ j', (User.fromJson (.obj fs)).toJson = some j' ∧
      (User.fromJson j').typed = (User.fromJson (.obj fs)).typed := by
  obtain ⟨fs', hj'⟩ := overlay_obj fs _
  have hget := get?_overlay (by simp) (show (User.fromJson (.obj fs)).toJson = some (.obj fs') from hj')
  have hid := ownId_written (hget "id")
  have husername := text_written (hget "username") ""
  have hdiscriminator := text_written (hget "discriminator") ""
  have hdisplay := text?_kept (hget "display_name")
  have havatar := file_kept (hget "avatar")
  have hflags := number_written (hget "flags")
  obtain ⟨hbanner, hbio⟩ := part_written (f := User.background) (g := (·.text? "content"))
    (fun x y => by cases x <;> cases y <;> exact ⟨rfl, rfl⟩) (hget "profile")
  obtain ⟨hpresence, htext⟩ := part_written (f := (·.text? "presence")) (g := (·.text? "text"))
    (fun x y => by cases x <;> cases y <;> exact ⟨rfl, rfl⟩) (hget "status")
  obtain ⟨hbot, howner⟩ := User.bot_written (hget "bot")
  refine ⟨.obj fs', hj', User.mk.injEq .. |>.mpr ?_⟩
  exact ⟨hid, husername, hdiscriminator, hdisplay,
    havatar, hbanner, hbio, htext, hpresence, hbot, howner, hflags, rfl⟩

def Member.typed (m : Member) : Member := { m with raw := .null }

/-- A member that had no `joined_at`, or an empty one, has an empty one again. -/
theorem Member.joined_kept (h : j'.get? "joined_at" =
    ((if (Member.fromJson j).joinedAt ≠ "" then some (.str (Member.fromJson j).joinedAt) else none) <|>
      j.get? "joined_at")) : (Member.fromJson j').joinedAt = (Member.fromJson j).joinedAt := by
  by_cases hempty : (Member.fromJson j).joinedAt = ""
  · rw [if_neg (not_not_intro hempty)] at h
    simp only [Member.fromJson, text?, h]
    rfl
  · rw [if_pos hempty] at h
    exact text_written h ""

theorem Member.read_back (fs : List (String × Json)) :
    ∃ j', (Member.fromJson (.obj fs)).toJson = some j' ∧
      (Member.fromJson j').typed = (Member.fromJson (.obj fs)).typed := by
  obtain ⟨fs', hj'⟩ := overlay_obj fs _
  have hget := get?_overlay (by simp) (show (Member.fromJson (.obj fs)).toJson = some (.obj fs') from hj')
  have hid := text_written (hget "user_id") (Member.keyUser (Member.key (.obj fs')))
  have hserver := text_written (hget "server_id") (((Member.key (.obj fs')).text? "server").getD "")
  have hnickname := text?_kept (hget "nickname")
  have havatar := file_kept (hget "avatar")
  have hroles := strings_written (hget "roles")
  have hjoined := Member.joined_kept (hget "joined_at")
  have htimeout := text?_kept (hget "timeout")
  refine ⟨.obj fs', hj', Member.mk.injEq .. |>.mpr ?_⟩
  exact ⟨hid, hserver, hnickname, havatar, hroles, hjoined, htimeout, rfl⟩

def Role.typed (r : Role) : Role := { r with raw := .null }

theorem Role.read_back (fs : List (String × Json)) :
    ∃ fs', (Role.fromJson (.obj fs)).toJson = some (.obj fs') ∧
      (Role.fromJson (.obj fs')).typed = (Role.fromJson (.obj fs)).typed := by
  obtain ⟨fs', hj'⟩ := overlay_obj fs _
  have hget := get?_overlay (by simp) (show (Role.fromJson (.obj fs)).toJson = some (.obj fs') from hj')
  have hid := ownId_written (hget "id")
  have hname := text_written (hget "name") ""
  have hcolour := text?_kept (hget "colour")
  have hrank := number_written (hget "rank")
  have hpermissions := congrArg (Option.getD · .null) (hget "permissions")
  refine ⟨fs', hj', Role.mk.injEq .. |>.mpr ?_⟩
  exact ⟨hid, hname, hcolour, hrank, hpermissions, rfl⟩

def Channel.typed (c : Channel) : Channel := { c with raw := .null }

theorem Channel.read_back (fs : List (String × Json)) :
    ∃ j', (Channel.fromJson (.obj fs)).toJson = some j' ∧
      (Channel.fromJson j').typed = (Channel.fromJson (.obj fs)).typed := by
  obtain ⟨fs', hj'⟩ := overlay_obj fs _
  have hget := get?_overlay (by simp) (show (Channel.fromJson (.obj fs)).toJson = some (.obj fs') from hj')
  have hid := ownId_written (hget "id")
  have htype := text_written (hget "channel_type") ""
  have hserver := text?_kept (hget "server")
  have hname := text?_kept (hget "name")
  have hdescription := text?_kept (hget "description")
  have hicon := file_kept (hget "icon")
  have hnsfw := bool_written (hget "nsfw")
  have hdefault := get?_kept (hget "default_permissions")
  have hrole := get?_kept (hget "role_permissions")
  refine ⟨.obj fs', hj', Channel.mk.injEq .. |>.mpr ?_⟩
  exact ⟨hid, htype, hserver, hname, hdescription, hicon, hnsfw, hdefault, hrole, rfl⟩

def Emoji.typed (e : Emoji) : Emoji := { e with raw := .null }

theorem Emoji.read_back (fs : List (String × Json)) :
    ∃ j', (Emoji.fromJson (.obj fs)).toJson = some j' ∧
      (Emoji.fromJson j').typed = (Emoji.fromJson (.obj fs)).typed := by
  obtain ⟨fs', hj'⟩ := overlay_obj fs _
  have hget := get?_overlay (by simp) (show (Emoji.fromJson (.obj fs)).toJson = some (.obj fs') from hj')
  have hid := ownId_written (hget "id")
  have hname := text_written (hget "name") ""
  have hserver := text?_kept (hget "server_id")
  have hcreator := text_written (hget "creator_id") ""
  have hanimated := bool_written (hget "animated")
  refine ⟨.obj fs', hj', Emoji.mk.injEq .. |>.mpr ?_⟩
  exact ⟨hid, hname, hserver, hcreator, hanimated, rfl⟩

def Webhook.typed (w : Webhook) : Webhook := { w with raw := .null }

theorem Webhook.read_back (fs : List (String × Json)) :
    ∃ j', (Webhook.fromJson (.obj fs)).toJson = some j' ∧
      (Webhook.fromJson j').typed = (Webhook.fromJson (.obj fs)).typed := by
  obtain ⟨fs', hj'⟩ := overlay_obj fs _
  have hget := get?_overlay (by simp) (show (Webhook.fromJson (.obj fs)).toJson = some (.obj fs') from hj')
  have hid := ownId_written (hget "id")
  have hname := text_written (hget "name") ""
  have hchannel := text_written (hget "channel_id") ""
  have havatar := text?_kept (hget "avatar")
  have htoken := text?_kept (hget "token")
  refine ⟨.obj fs', hj', Webhook.mk.injEq .. |>.mpr ?_⟩
  exact ⟨hid, hname, hchannel, havatar, htoken, rfl⟩

def Message.typed (m : Message) : Message := { m with raw := .null }

theorem Message.read_back (fs : List (String × Json)) :
    ∃ j', (Message.fromJson (.obj fs)).toJson = some j' ∧
      (Message.fromJson j').typed = (Message.fromJson (.obj fs)).typed := by
  obtain ⟨fs', hj'⟩ := overlay_obj fs _
  have hget := get?_overlay (by simp) (show (Message.fromJson (.obj fs)).toJson = some (.obj fs') from hj')
  have hid := ownId_written (hget "id")
  have hchannel := text_written (hget "channel") ""
  have hauthor := text_written (hget "author") ""
  have hcontent := text?_kept (hget "content")
  have hedited := text?_kept (hget "edited_at")
  have hmentions := strings_written (hget "mentions")
  have hreplies := strings_written (hget "replies")
  have hembeds := congrArg (Option.getD · (.arr [])) (hget "embeds")
  have hattachments := congrArg (Option.getD · (.arr [])) (hget "attachments")
  refine ⟨.obj fs', hj', Message.mk.injEq .. |>.mpr ?_⟩
  exact ⟨hid, hchannel, hauthor, hcontent, hedited, hmentions, hreplies, hembeds, hattachments, rfl⟩

/-! ## Servers -/

/-- What is compared of a server's roles is the map from their ids to their typed fields. -/
def Server.roleMap (s : Server) (id : String) : Option Role := (Keyed.lookup Role.id id s.roles).map Role.typed

def Server.typed (s : Server) : Server := { s with roles := [], raw := .null }

/-- The entries of the role array, or of the role object, of a document. -/
def Server.roleEntries (j : Json) : List Json :=
  match j.get? "roles" with
  | some (.arr items) => items
  | some (.obj fields) => fields.map Prod.snd
  | _ => []

/-- A role as it is read from the value under its id. -/
def Role.entry (x : String × Json) : Role := Role.fromJson ((x.2.set? "id" (.str x.1)).getD .null)

theorem rolesFromJson_entries {fields : List (String × Json)} (h : ∀ x ∈ fields, x.2.isObject) :
    Server.rolesFromJson (.obj fields) = some (fields.map Role.entry) := by
  rw [Server.rolesFromJson]
  induction fields with
  | nil => rfl
  | cons x rest ih =>
    obtain ⟨key, value⟩ := x
    have hvalue := h _ List.mem_cons_self
    cases value with
    | obj fs =>
      rw [List.mapM_cons, ih fun x hx => h x (List.mem_cons_of_mem _ hx)]
      rfl
    | _ => cases hvalue

theorem roles_read {j : Json} (h : ∀ x ∈ Server.roleEntries j, x.isObject) : ∃ roles : List Role,
    Server.rolesFromJson ((j.get? "roles").getD .null) = some roles ∧
      ∀ r ∈ roles, ∃ fs, r = Role.fromJson (.obj fs) := by
  have hobject {value : Json} (hvalue : value.isObject) : ∃ fs, value = .obj fs := by
    cases value with
    | obj fs => exact ⟨fs, rfl⟩
    | _ => cases hvalue
  simp only [Server.roleEntries] at h
  cases hroles : j.get? "roles" with
  | none => exact ⟨[], rfl, fun _ hr => absurd hr List.not_mem_nil⟩
  | some value =>
    rw [hroles] at h
    cases value with
    | arr items =>
      refine ⟨items.map Role.fromJson, rfl, fun r hr => ?_⟩
      obtain ⟨item, hitem, rfl⟩ := List.mem_map.mp hr
      obtain ⟨fs, rfl⟩ := hobject (h item hitem)
      exact ⟨fs, rfl⟩
    | obj fields =>
      have hfields : ∀ x ∈ fields, x.2.isObject := fun x hx => h x.2 (List.mem_map.mpr ⟨x, hx, rfl⟩)
      refine ⟨fields.map Role.entry, rolesFromJson_entries hfields, fun r hr => ?_⟩
      obtain ⟨⟨key, value⟩, hx, rfl⟩ := List.mem_map.mp hr
      obtain ⟨fs, rfl⟩ := hobject (hfields _ hx)
      exact ⟨insertField "id" (.str key) fs, rfl⟩
    | _ => exact ⟨[], rfl, fun _ hr => absurd hr List.not_mem_nil⟩

theorem insertField_perm {key : String} {fields : List (String × Json)} (value : Json)
    (h : key ∉ fields.map Prod.fst) : (insertField key value fields).Perm ((key, value) :: fields) := by
  induction fields with
  | nil => exact List.Perm.refl _
  | cons field rest ih =>
    obtain ⟨key', value'⟩ := field
    rw [List.map_cons, List.mem_cons, not_or] at h
    rw [insertField, if_neg h.1]
    split_ifs
    · exact List.Perm.refl _
    · exact ((ih h.2).cons _).trans (List.Perm.swap _ _ _)

def Role.document (r : Role) : Json := r.toJson.getD .null

theorem rolesToJson_documents {roles : List Role} (h : ∀ r ∈ roles, ∃ fs, r = Role.fromJson (.obj fs))
    (hnodup : (roles.map Role.id).Nodup) : ∃ fields, Server.rolesToJson roles = some (.obj fields) ∧
      fields.Perm (roles.map fun r => (r.id, r.document)) := by
  -- the roles before this one have left fields under other ids
  suffices hfold : ∀ acc : List (String × Json), (acc.map Prod.fst ++ roles.map Role.id).Nodup →
      ∃ fields, roles.foldlM (fun j r => do j.set? r.id (← r.toJson)) (Json.obj acc) = some (.obj fields) ∧
        fields.Perm (acc ++ roles.map fun r => (r.id, r.document)) from hfold [] hnodup
  clear hnodup
  induction roles with
  | nil => exact fun acc _ => ⟨acc, rfl, by rw [List.map_nil, List.append_nil]⟩
  | cons r rest ih =>
    intro acc hacc
    obtain ⟨fs, rfl⟩ := h r List.mem_cons_self
    obtain ⟨fs', hjson, -⟩ := Role.read_back fs
    generalize Role.fromJson (.obj fs) = r at hjson hacc ⊢
    have hdocument : r.document = .obj fs' := by rw [Role.document, hjson, Option.getD_some]
    have hfresh : r.id ∉ acc.map Prod.fst := by
      intro hmem
      exact (List.nodup_append.mp hacc).2.2 _ hmem _ List.mem_cons_self rfl
    have hperm := insertField_perm (.obj fs') hfresh
    have hids : (((r.id, Json.obj fs') :: acc).map Prod.fst ++ rest.map Role.id).Nodup :=
      List.perm_middle.nodup_iff.mp hacc
    obtain ⟨fields, hrest, hfields⟩ := ih (fun r hr => h r (List.mem_cons_of_mem _ hr))
      (insertField r.id (.obj fs') acc) (((hperm.map Prod.fst).append_right _).nodup_iff.mpr hids)
    refine ⟨fields, ?_, hfields.trans ?_⟩
    · rw [List.foldlM_cons, hjson]
      exact hrest
    · rw [List.map_cons, hdocument]
      exact (hperm.append_right _).trans List.perm_middle.symm

theorem Role.typed_congr {j j' : Json} (hid : ownId j = ownId j')
    (h : ∀ k, k ≠ "id" → j.get? k = j'.get? k) : (Role.fromJson j).typed = (Role.fromJson j').typed := by
  have hname := h "name" (by decide)
  have hcolour := h "colour" (by decide)
  have hrank := h "rank" (by decide)
  have hpermissions := h "permissions" (by decide)
  simp only [Role.typed, Role.fromJson, text?, hid, hname, hcolour, hrank, hpermissions]

theorem Role.entry_document {r : Role} (h : ∃ fs, r = Role.fromJson (.obj fs)) :
    (Role.entry (r.id, r.document)).typed = r.typed := by
  obtain ⟨fs, rfl⟩ := h
  obtain ⟨fs', hjson, htyped⟩ := Role.read_back fs
  generalize Role.fromJson (.obj fs) = r at hjson htyped ⊢
  have hid : ownId (.obj fs') = r.id := congrArg Role.id htyped
  have hentry : Role.entry (r.id, r.document) = Role.fromJson (.obj (insertField "id" (.str r.id) fs')) := by
    rw [Role.entry, Role.document, hjson]
    rfl
  have hget (k : String) : (Json.obj (insertField "id" (.str r.id) fs')).get? k =
      if k = "id" then some (.str r.id) else (Json.obj fs').get? k := lookup_insertField "id" (.str r.id) fs' k
  rw [hentry, ← htyped]
  refine Role.typed_congr ((ownId_written (hget "id")).trans hid.symm) fun k hk => ?_
  rw [hget, if_neg hk]

theorem Role.document_isObject {r : Role} (h : ∃ fs, r = Role.fromJson (.obj fs)) : r.document.isObject := by
  obtain ⟨fs, rfl⟩ := h
  obtain ⟨fs', hjson, -⟩ := Role.read_back fs
  rw [Role.document, hjson]
  rfl

/-- The roles that are read back are those that were written, in the order of their ids. -/
theorem roles_read_back {roles : List Role} (h : ∀ r ∈ roles, ∃ fs, r = Role.fromJson (.obj fs))
    (hnodup : (roles.map Role.id).Nodup) : ∃ fields roles', Server.rolesToJson roles = some (.obj fields) ∧
      Server.rolesFromJson (.obj fields) = some roles' ∧ (roles'.map Role.typed).Perm (roles.map Role.typed) := by
  obtain ⟨fields, hfields, hperm⟩ := rolesToJson_documents h hnodup
  have hobjects : ∀ x ∈ fields, x.2.isObject := by
    intro x hx
    obtain ⟨r, hr, rfl⟩ := List.mem_map.mp (hperm.mem_iff.mp hx)
    exact Role.document_isObject (h r hr)
  refine ⟨fields, fields.map Role.entry, hfields, rolesFromJson_entries hobjects, ?_⟩
  have hsame : ((roles.map fun r => (r.id, r.document)).map Role.entry).map Role.typed = roles.map Role.typed := by
    rw [List.map_map, List.map_map]
    exact List.map_congr_left fun r hr => Role.entry_document (h r hr)
  rw [← hsame]
  exact (hperm.map Role.entry).map Role.typed

theorem Server.roleMap_congr {s s' : Server} (h : (s'.roles.map Role.typed).Perm (s.roles.map Role.typed))
    (hnodup : (s.roles.map Role.id).Nodup) : (s'.roles.map Role.id).Nodup ∧ s'.roleMap = s.roleMap := by
  have hids (roles : List Role) : (roles.map Role.typed).map Role.id = roles.map Role.id :=
    List.map_map
  have hnodup' : (s'.roles.map Role.id).Nodup := by
    rw [← hids] at hnodup ⊢
    exact (h.map Role.id).nodup_iff.mpr hnodup
  refine ⟨hnodup', funext fun id => ?_⟩
  have hkey (r : Role) : r.typed.id = r.id := rfl
  have hlookup := Keyed.lookup_perm (k := id) h (by rwa [hids])
  rwa [Keyed.lookup_map hkey, Keyed.lookup_map hkey] at hlookup

theorem Server.withRoles_read_back {fs fields : List (String × Json)} {s : Server} {roles' : List Role}
    (hs : Server.fromJson (.obj fs) = some s) (hback : Server.rolesFromJson (.obj fields) = some roles') :
    ∃ j' s', s.withRoles (.obj fields) = some j' ∧ Server.fromJson j' = some s' ∧ s'.typed = s.typed ∧
      s'.roles = roles' := by
  obtain ⟨roles, -, hread⟩ := Option.bind_eq_some_iff.mp hs
  have heq := Option.some.inj hread
  have hraw : s.raw = .obj fs := heq ▸ rfl
  obtain ⟨fs', hj'⟩ : ∃ fs', s.withRoles (.obj fields) = some (.obj fs') := by
    rw [Server.withRoles, hraw]
    exact overlay_obj fs _
  have hget := get?_overlay (by simp) (show s.raw.overlay _ = some (.obj fs') from hj')
  subst heq
  have hid := ownId_written (hget "id")
  have howner := text_written (hget "owner") ""
  have hname := text_written (hget "name") ""
  have hdescription := text?_kept (hget "description")
  have hchannels := strings_written (hget "channels")
  have hicon := file_kept (hget "icon")
  have hbanner := file_kept (hget "banner")
  have hflags := number_written (hget "flags")
  have hroles : (Json.obj fs').get? "roles" = some (.obj fields) := hget "roles"
  obtain ⟨s', hs'⟩ : ∃ s', Server.fromJson (.obj fs') = some s' := by
    rw [Server.fromJson, hroles, Option.getD_some, hback]
    exact ⟨_, rfl⟩
  refine ⟨.obj fs', s', hj', hs', ?_⟩
  rw [Server.fromJson, hroles, Option.getD_some, hback] at hs'
  obtain rfl := Option.some.inj hs'
  refine ⟨Server.mk.injEq .. |>.mpr ?_, rfl⟩
  exact ⟨hid, howner, hname, hdescription, hchannels, rfl, hicon, hbanner, hflags, rfl⟩

theorem Server.read_back (fs : List (String × Json)) (hroles : ∀ x ∈ Server.roleEntries (.obj fs), x.isObject) :
    ∃ s, Server.fromJson (.obj fs) = some s ∧ ((s.roles.map Role.id).Nodup →
      ∃ j' s', s.toJson = some j' ∧ Server.fromJson j' = some s' ∧ s'.typed = s.typed ∧
        (s'.roles.map Role.id).Nodup ∧ s'.roleMap = s.roleMap) := by
  obtain ⟨roles, hread, hobjects⟩ := roles_read hroles
  obtain ⟨s, hs, rfl⟩ : ∃ s, Server.fromJson (.obj fs) = some s ∧ s.roles = roles := by
    rw [Server.fromJson, hread]
    exact ⟨_, rfl, rfl⟩
  refine ⟨s, hs, fun hnodup => ?_⟩
  obtain ⟨fields, roles', hwrite, hback, hperm⟩ := roles_read_back hobjects hnodup
  obtain ⟨j', s', hj', hs', htyped, rfl⟩ := Server.withRoles_read_back hs hback
  have hjson : s.toJson = some j' := by
    rw [Server.toJson, hwrite]
    exact hj'
  exact ⟨j', s', hjson, hs', htyped, Server.roleMap_congr hperm hnodup⟩

theorem models_read_back (fs : List (String × Json)) :
    (∃ j', (User.fromJson (.obj fs)).toJson = some j' ∧
      (User.fromJson j').typed = (User.fromJson (.obj fs)).typed) ∧
    (∃ j', (Member.fromJson (.obj fs)).toJson = some j' ∧
      (Member.fromJson j').typed = (Member.fromJson (.obj fs)).typed) ∧
    (∃ j', (Role.fromJson (.obj fs)).toJson = some j' ∧
      (Role.fromJson j').typed = (Role.fromJson (.obj fs)).typed) ∧
    (∃ j', (Channel.fromJson (.obj fs)).toJson = some j' ∧
      (Channel.fromJson j').typed = (Channel.fromJson (.obj fs)).typed) ∧
    (∃ j', (Emoji.fromJson (.obj fs)).toJson = some j' ∧
      (Emoji.fromJson j').typed = (Emoji.fromJson (.obj fs)).typed) ∧
    (∃ j', (Webhook.fromJson (.obj fs)).toJson = some j' ∧
      (Webhook.fromJson j').typed = (Webhook.fromJson (.obj fs)).typed) ∧
    (∃ j', (Message.fromJson (.obj fs)).toJson = some j' ∧
      (Message.fromJson j').typed = (Message.fromJson (.obj fs)).typed) ∧
    ((∀ x ∈ Server.roleEntries (.obj fs), x.isObject) → ∃ s, Server.fromJson (.obj fs) = some s ∧
      ((s.roles.map Role.id).Nodup → ∃ j' s', s.toJson = some j' ∧ Server.fromJson j' = some s' ∧
        s'.typed = s.typed ∧ (s'.roles.map Role.id).Nodup ∧ s'.roleMap = s.roleMap)) := by
  obtain ⟨fs', hrole, htyped⟩ := Role.read_back fs
  exact ⟨User.read_back fs, Member.read_back fs, ⟨.obj fs', hrole, htyped⟩, Channel.read_back fs,
    Emoji.read_back fs, Webhook.read_back fs, Message.read_back fs, Server.read_back fs⟩

def twoRoles : List (String × Json) := [("_id", .str "S"),
  ("roles", .obj [("R", .obj [("name", .str "staff")]), ("T", .obj [("name", .str "tester"), ("rank", .int 2)])])]

theorem server_read_back : ∃ s j' s', Server.fromJson (.obj twoRoles) = some s ∧ s.roles.map Role.id = ["R", "T"] ∧
    s.toJson = some j' ∧ Server.fromJson j' = some s' ∧ s'.typed = s.typed ∧
    (s'.roles.map Role.id).Nodup ∧ s'.roleMap = s.roleMap := by
  obtain ⟨-, -, -, -, -, -, -, hserver⟩ := models_read_back twoRoles
  have hobjects : ∀ x ∈ Server.roleEntries (.obj twoRoles), x.isObject := by
    intro x hx
    rcases List.mem_pair.mp hx with rfl | rfl <;> rfl
  obtain ⟨s, hs, hback⟩ := hserver hobjects
  have hids : s.roles.map Role.id = ["R", "T"] := Option.some.inj hs ▸ rfl
  have hnodup : (s.roles.map Role.id).Nodup := by
    rw [hids]
    decide
  obtain ⟨j', s', hwritten⟩ := hback hnodup
  exact ⟨s, j', s', hs, hids, hwritten⟩

end Stoatpp
