import Mathlib.Data.Nat.Digits.Lemmas
import Stoatpp.Cluster.Operations
import Stoatpp.Library.Positional

/-!
# The bodies of sent messages

A message is created, edited or posted by a webhook with a body of optional fields. Embeds without
text are dropped on the way; everything else of the payload can be told from the body.
-/

namespace Stoatpp
open Stoatpp.Library

/-! ## The builders -/

structure Embed where
  title : Option String := none
  description : Option String := none
  url : Option String := none
  iconUrl : Option String := none
  colour : Option String := none
  media : Option String := none

namespace Embed

/-- `snprintf(hex, sizeof(hex), "#%06x", rgb & 0xffffff)` -/
def hexColour (rgb : UInt32) : String :=
  String.ofList ('#' :: (Nat.digitsAppend 16 6 (rgb &&& 0xffffff).toNat).reverse.map Nat.digitChar)

def setColour (e : Embed) (rgb : UInt32) : Embed := { e with colour := some (hexColour rgb) }

def fields (e : Embed) : List (String × Option Json) :=
  [("colour", e.colour.map .str), ("description", e.description.map .str), ("icon_url", e.iconUrl.map .str),
    ("media", e.media.map .str), ("title", e.title.map .str), ("url", e.url.map .str)]

/-- Null where no field is set. -/
def toJson (e : Embed) : Json :=
  if e.fields.all (·.2.isNone) then .null else MessagePayload.object e.fields

/-- Some text of the embed is not empty; a colour alone is not shown. -/
def Shown (e : Embed) : Prop :=
  ∃ s ∈ [e.title, e.description, e.media, e.url, e.iconUrl], ∃ t, s = some t ∧ t ≠ ""

end Embed

def MessagePayload.addEmbed (p : MessagePayload) (e : Embed) : MessagePayload :=
  { p with embeds := p.embeds ++ [e.toJson] }

structure WebhookExecutePayload where
  content : String
  username : Option String := none
  avatarUrl : Option String := none
  embeds : List Json := []

def WebhookExecutePayload.toJson (p : WebhookExecutePayload) : Json :=
  MessagePayload.object [("avatar_url", p.avatarUrl.map .str), ("content", some (.str p.content)),
    ("embeds", MessagePayload.nonempty (p.embeds.filter MessagePayload.hasContent)),
    ("username", p.username.map .str)]

/-! ## What arrives -/

namespace MessagePayload

def sent (p : MessagePayload) : MessagePayload :=
  { p with embeds := p.embeds.filter hasContent, deleteAfter := 0 }

/-- The part of a payload that an edit sends; an empty content becomes a blank. -/
def edited (p : MessagePayload) : MessagePayload where
  content := if p.content = "" then " " else p.content
  embeds := p.embeds.filter hasContent
  attachments := p.attachments

end MessagePayload

def WebhookExecutePayload.sent (p : WebhookExecutePayload) : WebhookExecutePayload :=
  { p with embeds := p.embeds.filter MessagePayload.hasContent }

/-! ## Objects of optional fields -/

namespace MessagePayload

variable {fs gs : List (String × Option Json)}

theorem not_mem_fields {key : String} {value : Json} (h : key ∉ fs.map Prod.fst) :
    (key, value) ∉ fs.filterMap fun x => x.2.map (x.1, ·) := by
  intro hmem
  obtain ⟨x, hx, hfield⟩ := List.mem_filterMap.mp hmem
  obtain ⟨value', -, heq⟩ := Option.map_eq_some_iff.mp hfield
  exact h (List.mem_map.mpr ⟨x, hx, congrArg Prod.fst heq⟩)

/-- Absent fields can be told from present ones because the keys are known. -/
theorem object_inj (keys : List String) (hfs : fs.map Prod.fst = keys) (hgs : gs.map Prod.fst = keys)
    (hnodup : keys.Nodup) : object fs = object gs ↔ fs = gs := by
  refine ⟨fun h => ?_, congrArg object⟩
  have hfields := Json.obj.inj h
  clear h
  induction keys generalizing fs gs with
  | nil => rw [List.map_eq_nil_iff.mp hfs, List.map_eq_nil_iff.mp hgs]
  | cons key keys ih =>
    obtain ⟨hfresh, hrest⟩ := List.nodup_cons.mp hnodup
    obtain ⟨⟨key', v⟩, fs', rfl, rfl, hfs'⟩ := List.map_eq_cons_iff.mp hfs
    obtain ⟨⟨key'', w⟩, gs', rfl, hkey, hgs'⟩ := List.map_eq_cons_iff.mp hgs
    obtain rfl : key'' = key' := hkey
    have hv : ∀ value, (key'', value) ∉ gs'.filterMap fun x => x.2.map (x.1, ·) :=
      fun _ => not_mem_fields (hgs'.symm ▸ hfresh)
    have hw : ∀ value, (key'', value) ∉ fs'.filterMap fun x => x.2.map (x.1, ·) :=
      fun _ => not_mem_fields (hfs'.symm ▸ hfresh)
    cases v with
    | none =>
      cases w with
      | none => rw [ih hfs' hgs' hrest hfields]
      | some w => exact absurd (hfields ▸ List.mem_cons_self) (hw w)
    | some v =>
      cases w with
      | none => exact absurd (hfields.symm ▸ List.mem_cons_self) (hv v)
      | some w =>
        obtain ⟨hvalue, hfields'⟩ := List.cons.inj hfields
        rw [ih hfs' hgs' hrest hfields', (Prod.mk.inj hvalue).2]

theorem lookup_object (hnodup : (fs.map Prod.fst).Nodup) (key : String) :
    (object fs).get? key = (fs.lookup key).join := by
  change (fs.filterMap fun x => x.2.map (x.1, ·)).lookup key = _
  induction fs with
  | nil => rfl
  | cons x fs ih =>
    obtain ⟨key', v⟩ := x
    obtain ⟨hfresh, hnodup'⟩ := List.nodup_cons.mp hnodup
    rw [List.lookup_cons]
    cases v with
    | none =>
      rw [List.filterMap_cons_none rfl, ih hnodup']
      by_cases hkey : key = key'
      · have habsent : fs.lookup key = none := by
          refine List.lookup_eq_none_iff.mpr fun y hy => ?_
          have hne : key ≠ y.1 := fun heq => hfresh (List.mem_map.mpr ⟨y, hy, heq ▸ hkey⟩)
          simpa using hne
        rw [habsent, hkey, beq_self_eq_true]
        rfl
      · rw [beq_false_of_ne hkey]
    | some v =>
      change ((key', v) :: fs.filterMap _).lookup key = _
      rw [Json.lookup_field, ih hnodup']
      by_cases hkey : key = key'
      · rw [if_pos hkey, hkey, beq_self_eq_true]
        rfl
      · rw [if_neg hkey, beq_false_of_ne hkey]

theorem unless_inj {α β : Type} {x y d : α} [Decidable (x = d)] [Decidable (y = d)] {f : α → β}
    (hf : ∀ x y, f x = f y → x = y) :
    (if x = d then none else some (f x)) = (if y = d then none else some (f y)) ↔ x = y := by
  by_cases hx : x = d
  · by_cases hy : y = d
    · exact iff_of_true (by rw [if_pos hx, if_pos hy]) (hx.trans hy.symm)
    · rw [if_pos hx, if_neg hy, hx]
      exact iff_of_false nofun fun h => hy h.symm
  · by_cases hy : y = d
    · rw [if_neg hx, if_pos hy, hy]
      exact iff_of_false nofun hx
    · rw [if_neg hx, if_neg hy, Option.some.injEq]
      exact ⟨hf x y, congrArg f⟩

theorem map_inj {α β : Type} {x y : Option α} {f : α → β} (hf : ∀ x y, f x = f y → x = y) :
    x.map f = y.map f ↔ x = y :=
  (Option.map_injective fun _ _ => hf _ _).eq_iff

theorem hasContent_iff {j : Json} : hasContent j = true ↔
    ∃ key ∈ ["title", "description", "media", "image", "url", "icon_url"], ∃ t, j.text? key = some t ∧ t ≠ "" := by
  simp only [hasContent, List.any_eq_true]
  refine exists_congr fun key => and_congr_right fun _ => ?_
  cases j.text? key with
  | none => simp
  | some t => simp

theorem texts_inj (a b : List String) (h : texts a = texts b) : a = b :=
  List.map_injective_iff.mpr (fun _ _ => Json.str.inj) (Json.arr.inj h)

theorem nonempty_inj {a b : List Json} : nonempty a = nonempty b ↔ a = b :=
  unless_inj fun _ _ => Json.arr.inj

theorem reply_inj (a b : Reply) (h : a.toJson = b.toJson) : a = b := by
  cases a
  cases b
  simpa [Reply.toJson] using h

theorem masquerade_inj (a b : Masquerade) (h : a.toJson = b.toJson) : a = b := by
  cases a
  cases b
  have hfields := (object_inj ["avatar", "colour", "name"] rfl rfl (by decide)).mp h
  simp only [List.cons.injEq, Prod.mk.injEq, true_and, and_true, map_inj fun _ _ => Json.str.inj] at hfields
  obtain ⟨rfl, rfl, rfl⟩ := hfields
  rfl

theorem interactions_inj (a b : Interactions) (h : a.toJson = b.toJson) : a = b := by
  cases a
  cases b
  have hfields := (object_inj ["reactions", "restrict_reactions"] rfl rfl (by decide)).mp h
  simp only [List.cons.injEq, Prod.mk.injEq, true_and, and_true, unless_inj texts_inj, Option.some.injEq,
    Json.bool.injEq] at hfields
  obtain ⟨rfl, rfl⟩ := hfields
  rfl

/-! ## The bodies -/

variable {p q : MessagePayload}

theorem toJson_inj : p.toJson = q.toJson ↔ p.sent = q.sent := by
  have hstr : ∀ s t, Json.str s = .str t → s = t := fun _ _ => Json.str.inj
  have hreplies : ∀ a b : List Reply, a.map Reply.toJson = b.map Reply.toJson → a = b := fun _ _ h =>
    List.map_injective_iff.mpr (fun _ _ => reply_inj _ _) h
  unfold toJson
  rw [object_inj ["attachments", "content", "embeds", "interactions", "masquerade", "nonce", "replies"] rfl rfl
    (by decide)]
  simp only [List.cons.injEq, Prod.mk.injEq, true_and, and_true, unless_inj texts_inj, unless_inj hstr, nonempty_inj,
    map_inj interactions_inj, map_inj masquerade_inj, map_inj hstr, sent, mk.injEq]
  constructor
  · rintro ⟨hattachments, hcontent, hembeds, hinteractions, hmasquerade, hnonce, h⟩
    exact ⟨hcontent, hnonce, hreplies _ _ h, hmasquerade, hembeds, hattachments, hinteractions⟩
  · rintro ⟨hcontent, hnonce, h, hmasquerade, hembeds, hattachments, hinteractions⟩
    exact ⟨hattachments, hcontent, hembeds, hinteractions, hmasquerade, hnonce, congrArg _ h⟩

theorem edited_sent (p : MessagePayload) : p.edited.sent = p.edited := by
  simp only [sent, edited, List.filter_filter, Bool.and_self]

theorem edited_content (p : MessagePayload) : p.edited.content ≠ "" := by
  unfold edited
  dsimp only
  split_ifs with h
  · decide
  · exact h

/-- An edit sends what creating the edited part would. -/
theorem payloadRequest_body (channelId messageId : String) (p : MessagePayload) :
    (Cluster.payloadRequest channelId messageId p).body = p.edited.toJson := by
  rw [toJson, if_neg (edited_content p)]
  simp only [Cluster.payloadRequest, edited, List.filter_filter, Bool.and_self, object]
  rfl

end MessagePayload

theorem WebhookExecutePayload.toJson_inj {p q : WebhookExecutePayload} : p.toJson = q.toJson ↔ p.sent = q.sent := by
  have hstr : ∀ s t, Json.str s = .str t → s = t := fun _ _ => Json.str.inj
  unfold WebhookExecutePayload.toJson
  rw [MessagePayload.object_inj ["avatar_url", "content", "embeds", "username"] rfl rfl (by decide)]
  simp only [List.cons.injEq, Prod.mk.injEq, true_and, and_true, MessagePayload.nonempty_inj, Option.some.injEq,
    Json.str.injEq, MessagePayload.map_inj hstr, WebhookExecutePayload.sent, WebhookExecutePayload.mk.injEq]
  constructor
  · rintro ⟨havatar, hcontent, hembeds, husername⟩
    exact ⟨hcontent, husername, havatar, hembeds⟩
  · rintro ⟨hcontent, husername, havatar, hembeds⟩
    exact ⟨havatar, hcontent, hembeds, husername⟩

/-! ## Embeds -/

namespace Embed

variable {e f : Embed} {rgb rgb' : UInt32}

theorem get?_toJson (e : Embed) (key : String) : e.toJson.get? key = (e.fields.lookup key).join := by
  have hkeys : (e.fields.map Prod.fst).Nodup := by
    change ["colour", "description", "icon_url", "media", "title", "url"].Nodup
    decide
  rw [← MessagePayload.lookup_object hkeys, toJson]
  split_ifs with h
  · have hnone : e.fields.filterMap (fun x => x.2.map (x.1, ·)) = [] := by
      refine List.filterMap_eq_nil_iff.mpr fun x hx => ?_
      rw [Option.isNone_iff_eq_none.mp (List.all_eq_true.mp h x hx)]
      rfl
    change none = (e.fields.filterMap _).lookup key
    rw [hnone]
    rfl
  · rfl

theorem toJson_inj : e.toJson = f.toJson ↔ e = f := by
  refine ⟨fun h => ?_, congrArg toJson⟩
  have hget (key : String) : (e.fields.lookup key).join = (f.fields.lookup key).join := by
    rw [← get?_toJson, ← get?_toJson, h]
  have hstr : ∀ s t, Json.str s = .str t → s = t := fun _ _ => Json.str.inj
  cases e
  cases f
  rw [Embed.mk.injEq]
  exact ⟨(MessagePayload.map_inj hstr).mp (hget "title"), (MessagePayload.map_inj hstr).mp (hget "description"),
    (MessagePayload.map_inj hstr).mp (hget "url"), (MessagePayload.map_inj hstr).mp (hget "icon_url"),
    (MessagePayload.map_inj hstr).mp (hget "colour"), (MessagePayload.map_inj hstr).mp (hget "media")⟩

theorem text?_toJson {key : String} {s : Option String} (h : (e.fields.lookup key).join = s.map .str) :
    e.toJson.text? key = s := by
  rw [Json.text?, get?_toJson, h]
  cases s with
  | none => rfl
  | some t => rfl

theorem hasContent_toJson : MessagePayload.hasContent e.toJson = true ↔ e.Shown := by
  have himage : (e.fields.lookup "image").join = (none : Option String).map Json.str := rfl
  simp only [MessagePayload.hasContent_iff, List.exists_mem_cons_iff, @text?_toJson e "title" e.title rfl,
    @text?_toJson e "description" e.description rfl, @text?_toJson e "media" e.media rfl, text?_toJson himage,
    @text?_toJson e "url" e.url rfl, @text?_toJson e "icon_url" e.iconUrl rfl,
    Embed.Shown]
  simp

theorem map_digitChar {ds : List ℕ} (h : ∀ d ∈ ds, d < 16) :
    (ds.map Nat.digitChar).map "0123456789abcdef".toList.idxOf = ds := by
  have hchar : ∀ d < 16, "0123456789abcdef".toList.idxOf (Nat.digitChar d) = d := by decide
  rw [List.map_map]
  exact (List.map_congr_left fun d hd => hchar d (h d hd)).trans (List.map_id ds)

theorem hexColour_inj : hexColour rgb = hexColour rgb' ↔ rgb &&& 0xffffff = rgb' &&& 0xffffff := by
  refine ⟨fun h => ?_, fun h => by rw [hexColour, h, hexColour]⟩
  have hdigits (n : ℕ) : ∀ d ∈ (Nat.digitsAppend 16 6 n).reverse, d < 16 := fun d hd =>
    Nat.lt_of_mem_digitsAppend (by decide) 6 d (List.mem_reverse.mp hd)
  have hmap := congrArg (List.map "0123456789abcdef".toList.idxOf) (List.cons.inj (String.ofList_injective h)).2
  rw [map_digitChar (hdigits _), map_digitChar (hdigits _)] at hmap
  have hvalue := congrArg (horner 16) hmap
  rw [horner_digitsAppend, horner_digitsAppend] at hvalue
  exact UInt32.toNat_inj.mp hvalue

end Embed

/-! ## What a body tells -/

namespace MessagePayload

variable {p q : MessagePayload} {e f : Embed}

theorem payloadRequest_inj {channelId messageId : String} :
    Cluster.payloadRequest channelId messageId p = Cluster.payloadRequest channelId messageId q ↔
      p.edited = q.edited := by
  rw [← edited_sent p, ← edited_sent q, ← toJson_inj, ← payloadRequest_body channelId messageId,
    ← payloadRequest_body channelId messageId]
  refine ⟨congrArg Rest.Request.body, fun h => ?_⟩
  rw [Cluster.payloadRequest, Rest.Request.mk.injEq]
  exact ⟨rfl, rfl, h⟩

theorem addEmbed_inj : (p.addEmbed e).toJson = (p.addEmbed f).toJson ↔ e = f ∨ ¬ e.Shown ∧ ¬ f.Shown := by
  rw [toJson_inj, ← Embed.hasContent_toJson, ← Embed.hasContent_toJson, ← @Embed.toJson_inj e f]
  simp only [sent, addEmbed, List.filter_append, mk.injEq, List.append_cancel_left_eq, true_and, and_true]
  by_cases he : hasContent e.toJson = true
  · by_cases hf : hasContent f.toJson = true
    · simp [he, hf]
    · have hne : e.toJson ≠ f.toJson := fun heq => hf (heq ▸ he)
      simp [he, hf, hne]
  · by_cases hf : hasContent f.toJson = true
    · have hne : e.toJson ≠ f.toJson := fun heq => he (heq ▸ hf)
      simp [he, hf, hne]
    · simp [he, hf]

end MessagePayload

theorem bodies_tell_payloads :
    (∀ p q : MessagePayload, p.toJson = q.toJson ↔ p.sent = q.sent) ∧
    (∀ channelId messageId p,
      (Cluster.payloadRequest channelId messageId p).body = p.edited.toJson ∧
      ∀ q, Cluster.payloadRequest channelId messageId p = Cluster.payloadRequest channelId messageId q ↔
        p.edited = q.edited) ∧
    (∀ p q : WebhookExecutePayload, p.toJson = q.toJson ↔ p.sent = q.sent) ∧
    (∀ (p : MessagePayload) (e f : Embed),
      (p.addEmbed e).toJson = (p.addEmbed f).toJson ↔ e = f ∨ ¬ e.Shown ∧ ¬ f.Shown) ∧
    ∀ (e : Embed) (rgb rgb' : UInt32),
      (e.setColour rgb).toJson = (e.setColour rgb').toJson ↔ rgb &&& 0xffffff = rgb' &&& 0xffffff := by
  refine ⟨fun p q => MessagePayload.toJson_inj, fun channelId messageId p =>
      ⟨MessagePayload.payloadRequest_body channelId messageId p, fun q => MessagePayload.payloadRequest_inj⟩,
    fun p q => WebhookExecutePayload.toJson_inj, fun p e f => MessagePayload.addEmbed_inj, fun e rgb rgb' => ?_⟩
  rw [Embed.toJson_inj, ← Embed.hexColour_inj]
  simp [Embed.setColour]

end Stoatpp
