import Mathlib.Data.List.Forall2
import Stoatpp.Rest.Request
import Stoatpp.Rest.Targets

/-!
# Moving a channel to a category

`move_channel_to_category` reads the categories of a server, takes the channel out of all of them,
puts it into the first that the target names by its id or its title, or else into the default
category or a new one, and sends the array back.
-/

namespace Stoatpp

namespace Json
open Library

def ofBytes (b : Bytes) : Json :=
  match String.fromUTF8? ⟨b.toArray⟩ with
  | some s => .str s
  | none => .raw b

/-- The bytes behind `is_string()`. -/
def bytes? : Json → Option Bytes
  | .str s => some (Rest.bytes s)
  | .raw b => some b
  | _ => none

@[simp] theorem bytes?_ofBytes (b : Bytes) : (ofBytes b).bytes? = some b := by
  unfold ofBytes String.fromUTF8?
  by_cases h : (ByteArray.mk b.toArray).IsValidUTF8
  · rw [dif_pos h]
    rfl
  · rw [dif_neg h]
    rfl

theorem insertField_insertField (key : String) (value value' : Json) (fields : List (String × Json)) :
    insertField key value' (insertField key value fields) = insertField key value' fields := by
  induction fields with
  | nil => simp [insertField]
  | cons field rest ih =>
    obtain ⟨k, v⟩ := field
    simp only [insertField]
    by_cases hk : key = k
    · simp [hk, insertField]
    · by_cases hlt : key < k
      · simp [hk, hlt, insertField]
      · simp [hk, hlt, insertField, ih]

end Json

namespace Rest
open Library

/-! ## The first match -/

section
variable {α β : Type} {p : α → Bool} {l before after : List α} {a : α}

/-- What a loop that breaks at its first match leaves before and after it. -/
def firstSplit (p : α → Bool) : List α → Option (List α × α × List α)
  | [] => none
  | a :: rest =>
    if p a then some ([], a, rest)
    else (firstSplit p rest).map fun (before, x, after) => (a :: before, x, after)

theorem firstSplit_none (h : ∀ a ∈ l, p a = false) : firstSplit p l = none := by
  induction l with
  | nil => rfl
  | cons a rest ih =>
    rw [firstSplit, if_neg (by simp [h a List.mem_cons_self]), ih fun b hb => h b (List.mem_cons_of_mem _ hb)]
    rfl

theorem firstSplit_append (hb : ∀ b ∈ before, p b = false) (ha : p a = true) :
    firstSplit p (before ++ a :: after) = some (before, a, after) := by
  induction before with
  | nil => exact if_pos ha
  | cons b rest ih =>
    rw [List.cons_append, firstSplit, if_neg (by simp [hb b List.mem_cons_self]),
      ih fun x hx => hb x (List.mem_cons_of_mem _ hx)]
    rfl

theorem firstSplit_cases (p : α → Bool) (l : List α) :
    (firstSplit p l = none ∧ ∀ a ∈ l, p a = false) ∨ ∃ before a after, l = before ++ a :: after ∧
      (∀ b ∈ before, p b = false) ∧ p a = true := by
  induction l with
  | nil => exact Or.inl ⟨rfl, by simp⟩
  | cons a rest ih =>
    cases ha : p a with
    | true => exact Or.inr ⟨[], a, rest, rfl, by simp, ha⟩
    | false =>
      rcases ih with ⟨hnone, hall⟩ | ⟨before, x, after, rfl, hb, hx⟩
      · refine Or.inl ⟨by rw [firstSplit, if_neg (by simp [ha]), hnone]; rfl, ?_⟩
        exact List.forall_mem_cons.mpr ⟨ha, hall⟩
      · exact Or.inr ⟨a :: before, x, after, rfl, List.forall_mem_cons.mpr ⟨ha, hb⟩, hx⟩

end

/-! ## The categories that are sent -/

/-- `std::transform` with `::tolower`. -/
def lowered (s : Bytes) : Bytes := s.map fun b => if 65 ≤ b && b ≤ 90 then b + 32 else b

def channels? (cat : Json) : Option (List Json) := (cat.get? "channels").bind Json.array?

/-- `cat["channels"] = channels` on an object. -/
def setChannels (cat : Json) (channels : List Json) : Json :=
  (cat.set? "channels" (.arr channels)).getD cat

def isChannel (c : Bytes) (j : Json) : Bool := j.bytes? = some c

def withoutChannel (c : Bytes) (cat : Json) : Json :=
  match channels? cat with
  | some chs => setChannels cat (chs.filter fun j => !isChannel c j)
  | none => cat

def hasId (id : Bytes) (cat : Json) : Bool := (cat.get? "id").bind Json.bytes? = some id

def hasTitle (t : Bytes) (cat : Json) : Bool :=
  ((cat.get? "title").bind Json.bytes?).any fun title => lowered title = lowered t

def matchesTarget (t : Bytes) (cat : Json) : Bool := hasId t cat || hasTitle t cat

def addChannel (c : Bytes) (cat : Json) : Json :=
  setChannels cat ((channels? cat).getD [] ++ [.ofBytes c])

/-- `cat["channels"].push_back(channel_id)`, which throws on other values than arrays and null. -/
def pushChannel (c : Bytes) (cat : Json) : Option Json :=
  match cat.get? "channels" with
  | none | some .null => some (setChannels cat [.ofBytes c])
  | some (.arr chs) => some (setChannels cat (chs ++ [.ofBytes c]))
  | some _ => none

def category (id title c : Bytes) : Json :=
  .obj [("channels", .arr [.ofBytes c]), ("id", .ofBytes id), ("title", .ofBytes title)]

def alphabet : Bytes := bytes "0123456789ABCDEFGHJKMNPQRSTVWXYZ"

def randomId (rand : ℕ → ℕ) : Bytes :=
  (List.range 26).filterMap fun i => alphabet[rand i % alphabet.length]?

/-- The second and the third step, on categories without the channel. -/
def place (rand : ℕ → ℕ) (c t : Bytes) (categories : List Json) : Option (List Json) :=
  match firstSplit (matchesTarget t) categories with
  | some (before, cat, after) => some (before ++ addChannel c cat :: after)
  | none =>
    if lowered t = bytes "default" ∨ t = [] then
      match firstSplit (hasId (bytes "default")) categories with
      | some (before, cat, after) => (pushChannel c cat).map fun cat => before ++ cat :: after
      | none => some (categories ++ [category (bytes "default") (bytes "Default") c])
    else some (categories ++ [category (randomId rand) t c])

def categoriesOf (document : Json) : List Json :=
  ((document.get? "categories").bind Json.array?).getD []

/-- The fields that are sent; `none` stands for the exception of `push_back`. -/
def editedFields (rand : ℕ → ℕ) (c t : Bytes) (document : Json) : Option Json :=
  (place rand c t ((categoriesOf document).map (withoutChannel c))).map fun categories =>
    .obj [("categories", .arr categories)]

inductive MoveFault where
  | request (fault : Fault)
  | push

structure MoveScript where
  getLate : ℕ
  getScript : List Attempt
  patchLate : ℕ
  patchScript : List Attempt

abbrev MoveAct := Outcome (MoveFault × Client) Wire

section
variable (cfg : Config) (hooks : Hooks) (serverId : String)

def getServer (s : MoveScript) (client : Client) : MoveAct (Response × Client) :=
  (performRequest cfg hooks ⟨"GET", "/servers/" ++ serverId, .null⟩ s.getLate s.getScript client).orElse
    fun (fault, client) => .throw (.request fault, client)

def editServer (fields : Json) (s : MoveScript) (client : Client) : MoveAct (Response × Client) :=
  (performRequest cfg hooks ⟨"PATCH", "/servers/" ++ serverId, fields⟩ s.patchLate s.patchScript
    client).orElse fun (fault, client) => .throw (.request fault, client)

def moveChannelToCategory (rand : ℕ → ℕ) (c t : Bytes) (s : MoveScript) (client : Client) :
    MoveAct (Response × Client) := do
  let (srv, client) ← getServer cfg hooks serverId s client
  if ¬ srv.success then return (srv, client)
  else
    match editedFields rand c t srv.body with
    | none => .throw (.push, client)
    | some fields => editServer cfg hooks serverId fields s client

end

/-! ## What a move leaves and what it does -/

def channelsOf (cat : Json) : List Json := (channels? cat).getD []

/-- The same category but for this channel: all other fields and channels are as they were. -/
structure SameBut (c : Bytes) (cat cat' : Json) : Prop where
  array : (channels? cat').isSome = true
  fields : ∀ key ≠ "channels", cat'.get? key = cat.get? key
  channels : ((channelsOf cat').filter fun j => !isChannel c j) =
    (channelsOf cat).filter fun j => !isChannel c j

/-- The target names the category, or means the default and the category is it. -/
def Answers (t : Bytes) (cat : Json) : Prop :=
  hasId t cat = true ∨ hasTitle t cat = true ∨
    hasId (bytes "default") cat = true ∧ (t = [] ∨ lowered t = bytes "default")

/-- `PATCH /servers/{id}` with this array of categories. -/
def categoriesPatch (serverId : String) (categories : List Json) : Request :=
  ⟨"PATCH", "/servers/" ++ serverId, .obj [("categories", .arr categories)]⟩

/-- A call whose first request is answered with this document edits the server to have this array
of categories: behind the trace of that request comes the PATCH that holds the array, as the request
hook leaves it, and each request that follows is the same once more. -/
def Sends (rand : ℕ → ℕ) (serverId : String) (c t : Bytes) (document : Json) (sent : List Json) : Prop :=
  ∀ (cfg : Config) (hooks : Hooks) (s : MoveScript) (client client' : Client) (trace : List Wire)
    (srv : Response),
    performRequest cfg hooks ⟨"GET", "/servers/" ++ serverId, .null⟩ s.getLate s.getScript client =
      ⟨trace, .done (srv, client')⟩ → srv.success → srv.body = document →
    let edited := editServer cfg hooks serverId (.obj [("categories", .arr sent)]) s client'
    let patch := categoriesPatch serverId sent
    moveChannelToCategory cfg hooks serverId rand c t s client = ⟨trace ++ edited.trace, edited.status⟩ ∧
    ∀ body, hooks.preHook patch.method patch.path patch.body = some body → (hooks.dump body).isSome = true →
      s.patchScript ≠ [] →
      ∃ time rest, (moveChannelToCategory cfg hooks serverId rand c t s client).trace =
        trace ++ .sent patch.method patch.path body time :: rest ∧
        ∀ e ∈ rest, ∀ x, e.sent? = some x → x.1 = { patch with body := body }

structure Moved (c t : Bytes) (categories sent : List Json) : Prop where
  once : (sent.flatMap channelsOf).countP (isChannel c) = 1
  kept : ∃ front added, sent = front ++ added ∧ added.length ≤ 1 ∧
    List.Forall₂ (SameBut c) categories front
  holder : ∀ cat ∈ sent, ∀ j ∈ channelsOf cat, isChannel c j = true → Answers t cat

variable {c t : Bytes} {cat : Json} {chs chs' : List Json} {categories : List Json} {rand : ℕ → ℕ}

/-! ## One category -/

theorem object_of_channels (h : channels? cat = some chs) : ∃ fields, cat = .obj fields := by
  cases cat with
  | obj fields => exact ⟨fields, rfl⟩
  | _ => cases h

theorem get?_setChannels (h : channels? cat = some chs) (chs' : List Json) (key : String) :
    (setChannels cat chs').get? key = if key = "channels" then some (.arr chs') else cat.get? key := by
  obtain ⟨fields, rfl⟩ := object_of_channels h
  exact Json.lookup_insertField "channels" (.arr chs') fields key

theorem channels?_setChannels (h : channels? cat = some chs) (chs' : List Json) :
    channels? (setChannels cat chs') = some chs' := by
  rw [channels?, get?_setChannels h, if_pos rfl]
  rfl

theorem setChannels_setChannels (h : channels? cat = some chs) (chs₁ chs₂ : List Json) :
    setChannels (setChannels cat chs₁) chs₂ = setChannels cat chs₂ := by
  obtain ⟨fields, rfl⟩ := object_of_channels h
  exact congrArg Json.obj (Json.insertField_insertField _ _ _ fields)

theorem hasId_setChannels (h : channels? cat = some chs) (chs' : List Json) (id : Bytes) :
    hasId id (setChannels cat chs') = hasId id cat := by
  unfold hasId
  rw [get?_setChannels h, if_neg (by decide)]

theorem hasTitle_setChannels (h : channels? cat = some chs) (chs' : List Json) (t : Bytes) :
    hasTitle t (setChannels cat chs') = hasTitle t cat := by
  unfold hasTitle
  rw [get?_setChannels h, if_neg (by decide)]

theorem answers_setChannels (h : channels? cat = some chs) (chs' : List Json) :
    Answers t (setChannels cat chs') ↔ Answers t cat := by
  simp only [Answers, hasId_setChannels h, hasTitle_setChannels h]

theorem isChannel_ofBytes (c : Bytes) : isChannel c (.ofBytes c) = true := by
  simp [isChannel]

theorem withoutChannel_eq (h : channels? cat = some chs) :
    withoutChannel c cat = setChannels cat (chs.filter fun j => !isChannel c j) := by
  simp only [withoutChannel, h]

theorem addChannel_eq (h : channels? cat = some chs) :
    addChannel c cat = setChannels cat (chs ++ [.ofBytes c]) := by
  simp only [addChannel, h, Option.getD_some]

theorem pushChannel_eq (h : channels? cat = some chs) :
    pushChannel c cat = some (addChannel c cat) := by
  rw [addChannel_eq h]
  unfold channels? at h
  cases hg : cat.get? "channels" with
  | none => rw [hg] at h; cases h
  | some v =>
    rw [hg] at h
    cases v with
    | arr items =>
      obtain rfl := Option.some.inj h
      simp only [pushChannel, hg]
    | _ => cases h

theorem withoutChannel_setChannels (h : channels? cat = some chs) (chs' : List Json)
    (hf : (chs'.filter fun j => !isChannel c j) = chs.filter fun j => !isChannel c j) :
    withoutChannel c (setChannels cat chs') = withoutChannel c cat := by
  rw [withoutChannel_eq (channels?_setChannels h chs'), setChannels_setChannels h, hf,
    withoutChannel_eq h]

/-- A category that the first step leaves. -/
structure Cleared (c : Bytes) (cat : Json) : Prop where
  array : ∃ chs, channels? cat = some chs ∧ ∀ j ∈ chs, isChannel c j = false
  fixed : withoutChannel c cat = cat

theorem cleared_withoutChannel (h : channels? cat = some chs) : Cleared c (withoutChannel c cat) where
  array := by
    rw [withoutChannel_eq h, channels?_setChannels h]
    refine ⟨_, rfl, fun j hj => ?_⟩
    simpa using (List.mem_filter.mp hj).2
  fixed := by
    nth_rewrite 1 [withoutChannel_eq h]
    exact withoutChannel_setChannels h _ (by simp only [List.filter_filter, Bool.and_self])

theorem Cleared.not_mem (h : Cleared c cat) : ∀ j ∈ channelsOf cat, isChannel c j = false := by
  obtain ⟨chs, hchs, hnone⟩ := h.array
  simpa only [channelsOf, hchs, Option.getD_some] using hnone

theorem Cleared.channelsOf_addChannel (h : Cleared c cat) :
    channelsOf (addChannel c cat) = channelsOf cat ++ [.ofBytes c] := by
  obtain ⟨chs, hchs, -⟩ := h.array
  rw [addChannel_eq hchs]
  simp only [channelsOf, channels?_setChannels hchs, hchs, Option.getD_some]

theorem Cleared.answers_addChannel (h : Cleared c cat) : Answers t (addChannel c cat) ↔ Answers t cat := by
  obtain ⟨chs, hchs, -⟩ := h.array
  rw [addChannel_eq hchs, answers_setChannels hchs]

theorem Cleared.withoutChannel_addChannel (h : Cleared c cat) :
    withoutChannel c (addChannel c cat) = cat := by
  obtain ⟨chs, hchs, -⟩ := h.array
  rw [addChannel_eq hchs, withoutChannel_setChannels hchs, h.fixed]
  simp [List.filter_append, isChannel_ofBytes]

theorem sameBut_setChannels (h : channels? cat = some chs) (chs' : List Json)
    (hf : (chs'.filter fun j => !isChannel c j) = chs.filter fun j => !isChannel c j) :
    SameBut c cat (setChannels cat chs') where
  array := by rw [channels?_setChannels h]; rfl
  fields key hk := by rw [get?_setChannels h, if_neg hk]
  channels := by
    simp only [channelsOf, channels?_setChannels h, h, Option.getD_some, hf]

/-! ## A new category -/

section
variable (id title : Bytes)

theorem channels?_category : channels? (category id title c) = some [.ofBytes c] := rfl

theorem hasId_category (i : Bytes) : hasId i (category id title c) = decide (id = i) := by
  have hid : (category id title c).get? "id" = some (.ofBytes id) := rfl
  simp only [hasId, hid, Option.bind_some, Json.bytes?_ofBytes, Option.some.injEq]

theorem hasTitle_category : hasTitle t (category id title c) = decide (lowered title = lowered t) := by
  have htitle : (category id title c).get? "title" = some (.ofBytes title) := rfl
  simp only [hasTitle, htitle, Option.bind_some, Json.bytes?_ofBytes, Option.any_some]

theorem addChannel_category :
    addChannel c (withoutChannel c (category id title c)) = category id title c := by
  have hnew := channels?_category (c := c) id title
  have hempty : ([Json.ofBytes c].filter fun j => !isChannel c j) = [] := by
    simp [isChannel_ofBytes]
  rw [withoutChannel_eq hnew, hempty, addChannel_eq (channels?_setChannels hnew []),
    setChannels_setChannels hnew]
  simp [category, setChannels, Json.set?, Json.insertField]

theorem matchesTarget_withoutChannel_category :
    matchesTarget t (withoutChannel c (category id title c)) =
      (decide (id = t) || decide (lowered title = lowered t)) := by
  have hnew := channels?_category (c := c) id title
  rw [matchesTarget, withoutChannel_eq hnew, hasId_setChannels hnew, hasTitle_setChannels hnew,
    hasId_category, hasTitle_category]

end

/-! ## Where the channel goes -/

theorem place_match {before after : List Json} {x : Json} (hb : ∀ b ∈ before, matchesTarget t b = false)
    (hx : matchesTarget t x = true) (rand : ℕ → ℕ) :
    place rand c t (before ++ x :: after) = some (before ++ addChannel c x :: after) := by
  simp only [place, firstSplit_append hb hx]

theorem place_default {before after : List Json} {x : Json}
    (hnone : ∀ cat ∈ before ++ x :: after, matchesTarget t cat = false)
    (hdef : lowered t = bytes "default" ∨ t = [])
    (hb : ∀ b ∈ before, hasId (bytes "default") b = false) (hx : hasId (bytes "default") x = true)
    (hchs : channels? x = some chs) (rand : ℕ → ℕ) :
    place rand c t (before ++ x :: after) = some (before ++ addChannel c x :: after) := by
  simp only [place, firstSplit_none hnone, if_pos hdef, firstSplit_append hb hx, pushChannel_eq hchs,
    Option.map_some]

/-- A category is appended that the next run finds and no earlier one is found before. -/
def Appends (c t : Bytes) (categories : List Json) (new : Json) : Prop :=
  channels? new = some [.ofBytes c] ∧ Answers t new ∧
    ∀ rand, place rand c t (categories ++ [withoutChannel c new]) = some (categories ++ [new])

theorem appends_matching {id title : Bytes} (hnone : ∀ cat ∈ categories, matchesTarget t cat = false)
    (ht : lowered title = lowered t) : Appends c t categories (category id title c) := by
  refine ⟨rfl, Or.inr (Or.inl ?_), fun rand => ?_⟩
  · rw [hasTitle_category, decide_eq_true ht]
  · have hmatch : matchesTarget t (withoutChannel c (category id title c)) = true := by
      rw [matchesTarget_withoutChannel_category, decide_eq_true ht, Bool.or_true]
    rw [place_match hnone hmatch, addChannel_category]

theorem appends_default (hnone : ∀ cat ∈ categories, matchesTarget [] cat = false)
    (hdef : ∀ cat ∈ categories, hasId (bytes "default") cat = false) :
    Appends c [] categories (category (bytes "default") (bytes "Default") c) := by
  have hnew := channels?_category (c := c) (bytes "default") (bytes "Default")
  have hid : hasId (bytes "default") (category (bytes "default") (bytes "Default") c) = true := by
    rw [hasId_category, decide_eq_true rfl]
  refine ⟨rfl, Or.inr (Or.inr ⟨hid, Or.inl rfl⟩), fun rand => ?_⟩
  rw [place_default _ (Or.inr rfl) hdef ?_ (withoutChannel_eq hnew ▸ channels?_setChannels hnew _),
    addChannel_category]
  · intro cat hcat
    rcases List.mem_append.mp hcat with h | h
    · exact hnone cat h
    · rw [List.mem_singleton.mp h, matchesTarget_withoutChannel_category]
      decide
  · rw [withoutChannel_eq hnew, hasId_setChannels hnew, hid]

theorem place_cases (hc : ∀ cat ∈ categories, ∃ chs, channels? cat = some chs) (rand : ℕ → ℕ)
    (c t : Bytes) :
    (∃ before x after, categories = before ++ x :: after ∧ Answers t x ∧
      ∀ rand, place rand c t categories = some (before ++ addChannel c x :: after)) ∨
    ∃ new, place rand c t categories = some (categories ++ [new]) ∧ Appends c t categories new := by
  rcases firstSplit_cases (matchesTarget t) categories with ⟨hnone, hall⟩ | ⟨before, x, after, rfl, hb, hx⟩
  · by_cases hdef : lowered t = bytes "default" ∨ t = []
    · rcases firstSplit_cases (hasId (bytes "default")) categories with
        ⟨hnone', hall'⟩ | ⟨before, x, after, rfl, hb, hx⟩
      · refine Or.inr ⟨category (bytes "default") (bytes "Default") c, ?_, ?_⟩
        · simp only [place, hnone, if_pos hdef, hnone']
        · rcases hdef with hlow | rfl
          · exact appends_matching hall (Eq.trans (by decide) hlow.symm)
          · exact appends_default hall hall'
      · obtain ⟨chs, hchs⟩ := hc x (List.mem_append_right _ List.mem_cons_self)
        exact Or.inl ⟨before, x, after, rfl, Or.inr (Or.inr ⟨hx, hdef.symm⟩),
          place_default hall hdef hb hx hchs⟩
    · refine Or.inr ⟨category (randomId rand) t c, ?_, appends_matching hall rfl⟩
      simp only [place, hnone, if_neg hdef]
  · refine Or.inl ⟨before, x, after, rfl, ?_, place_match hb hx⟩
    rcases Bool.or_eq_true_iff.mp hx with h | h
    · exact Or.inl h
    · exact Or.inr (Or.inl h)

/-! ## The move -/

section
variable {l before after : List Json} {x : Json}

theorem countP_cleared (hl : ∀ cat ∈ l, Cleared c cat) :
    (l.flatMap channelsOf).countP (isChannel c) = 0 := by
  rw [List.countP_eq_zero]
  intro j hj
  obtain ⟨cat, hcat, hj⟩ := List.mem_flatMap.mp hj
  simp only [(hl cat hcat).not_mem j hj, Bool.false_eq_true, not_false_eq_true]

theorem map_cleared (hl : ∀ cat ∈ l, Cleared c cat) : l.map (withoutChannel c) = l := by
  nth_rewrite 2 [← List.map_id l]
  exact List.map_congr_left fun cat hcat => (hl cat hcat).fixed

theorem countP_added (hb : ∀ cat ∈ before, Cleared c cat) (hx : Cleared c x)
    (ha : ∀ cat ∈ after, Cleared c cat) :
    ((before ++ addChannel c x :: after).flatMap channelsOf).countP (isChannel c) = 1 := by
  have hzero : (channelsOf x).countP (isChannel c) = 0 :=
    List.countP_eq_zero.mpr fun j hj => by simp [hx.not_mem j hj]
  rw [List.flatMap_append, List.flatMap_cons, List.countP_append, List.countP_append,
    countP_cleared hb, countP_cleared ha, hx.channelsOf_addChannel, List.countP_append, hzero]
  simp [isChannel_ofBytes]

theorem countP_appended {new : Json} (hl : ∀ cat ∈ l, Cleared c cat)
    (hnew : channels? new = some [.ofBytes c]) :
    ((l ++ [new]).flatMap channelsOf).countP (isChannel c) = 1 := by
  rw [List.flatMap_append, List.countP_append, countP_cleared hl]
  simp [channelsOf, hnew, isChannel_ofBytes]

theorem sameBut_withoutChannel (h : channels? cat = some chs) : SameBut c cat (withoutChannel c cat) := by
  rw [withoutChannel_eq h]
  exact sameBut_setChannels h _ (by simp only [List.filter_filter, Bool.and_self])

theorem sameBut_addChannel (h : channels? cat = some chs) :
    SameBut c cat (addChannel c (withoutChannel c cat)) := by
  have hw := channels?_setChannels h (chs.filter fun j => !isChannel c j)
  rw [withoutChannel_eq h, addChannel_eq hw, setChannels_setChannels h]
  exact sameBut_setChannels h _ (by simp [List.filter_append, isChannel_ofBytes])

theorem kept_map (hc : ∀ cat ∈ categories, ∃ chs, channels? cat = some chs) :
    List.Forall₂ (SameBut c) categories (categories.map (withoutChannel c)) := by
  rw [List.forall₂_map_right_iff, List.forall₂_same]
  intro cat hcat
  obtain ⟨chs, hchs⟩ := hc cat hcat
  exact sameBut_withoutChannel hchs

theorem kept_added (hc : ∀ cat ∈ categories, ∃ chs, channels? cat = some chs)
    (hm : categories.map (withoutChannel c) = before ++ x :: after) :
    List.Forall₂ (SameBut c) categories (before ++ addChannel c x :: after) := by
  obtain ⟨l₁, l₂, rfl, rfl, hcons⟩ := List.map_eq_append_iff.mp hm
  obtain ⟨y, l₃, rfl, rfl, rfl⟩ := List.map_eq_cons_iff.mp hcons
  obtain ⟨chs, hchs⟩ := hc y (List.mem_append_right _ List.mem_cons_self)
  refine List.rel_append (kept_map fun cat hcat => hc cat (List.mem_append_left _ hcat)) (.cons ?_ ?_)
  · exact sameBut_addChannel hchs
  · exact kept_map fun cat hcat => hc cat (List.mem_append_right _ (List.mem_cons_of_mem _ hcat))

end

theorem editedFields_moved (rand : ℕ → ℕ) (c t : Bytes) (document : Json) (categories : List Json)
    (hd : document.get? "categories" = some (.arr categories))
    (hc : ∀ cat ∈ categories, ∃ chs, channels? cat = some chs) :
    ∃ sent, editedFields rand c t document = some (.obj [("categories", .arr sent)]) ∧
      Moved c t categories sent ∧
      ∀ rand' document', document'.get? "categories" = some (.arr sent) →
        editedFields rand' c t document' = some (.obj [("categories", .arr sent)]) := by
  have hof : ∀ j l, j.get? "categories" = some (.arr l) → categoriesOf j = l := fun j l hj => by
    simp only [categoriesOf, hj, Option.bind_some, Json.array?, Option.getD_some]
  have hcleared : ∀ cat ∈ categories.map (withoutChannel c), Cleared c cat := fun cat hcat => by
    obtain ⟨y, hy, rfl⟩ := List.mem_map.mp hcat
    obtain ⟨chs, hchs⟩ := hc y hy
    exact cleared_withoutChannel hchs
  have harrays : ∀ cat ∈ categories.map (withoutChannel c), ∃ chs, channels? cat = some chs :=
    fun cat hcat => (hcleared cat hcat).array.imp fun _ h => h.1
  simp only [editedFields, hof document categories hd]
  rcases place_cases harrays rand c t with ⟨before, x, after, hm, hans, hplace⟩ | ⟨new, hplace, happ⟩
  · -- a category takes the channel, and without it is again what the first step left
    rw [hm] at hcleared hplace ⊢
    have hb : ∀ cat ∈ before, Cleared c cat := fun cat h => hcleared cat (List.mem_append_left _ h)
    have hx : Cleared c x := hcleared x (List.mem_append_right _ List.mem_cons_self)
    have ha : ∀ cat ∈ after, Cleared c cat := fun cat h =>
      hcleared cat (List.mem_append_right _ (List.mem_cons_of_mem _ h))
    refine ⟨before ++ addChannel c x :: after, by rw [hplace, Option.map_some], ⟨?_, ?_, ?_⟩, ?_⟩
    · exact countP_added hb hx ha
    · exact ⟨_, [], (List.append_nil _).symm, Nat.zero_le 1, kept_added hc hm⟩
    · intro cat hcat j hj hjc
      rcases List.mem_append.mp hcat with h | h
      · exact absurd ((hb cat h).not_mem j hj) (by simp [hjc])
      rcases List.mem_cons.mp h with rfl | h
      · exact hx.answers_addChannel.mpr hans
      · exact absurd ((ha cat h).not_mem j hj) (by simp [hjc])
    · intro rand' document' hd'
      rw [hof document' _ hd', List.map_append, List.map_cons, map_cleared hb, map_cleared ha,
        hx.withoutChannel_addChannel, hplace, Option.map_some]
  · -- a category is appended, which the next run finds behind the others
    refine ⟨_, by rw [hplace, Option.map_some], ⟨?_, ?_, ?_⟩, ?_⟩
    · exact countP_appended hcleared happ.1
    · exact ⟨_, [new], rfl, le_rfl, kept_map hc⟩
    · intro cat hcat j hj hjc
      rcases List.mem_append.mp hcat with h | h
      · exact absurd ((hcleared cat h).not_mem j hj) (by simp [hjc])
      · rw [List.mem_singleton.mp h]
        exact happ.2.1
    · intro rand' document' hd'
      rw [hof document' _ hd', List.map_append, map_cleared hcleared, List.map_cons, List.map_nil,
        happ.2.2, Option.map_some]

theorem sends_of_editedFields {serverId : String} {document : Json} {sent : List Json}
    (h : editedFields rand c t document = some (.obj [("categories", .arr sent)])) :
    Sends rand serverId c t document sent := by
  intro cfg hooks s client client' trace srv hget hok hdoc edited patch
  have hmove : moveChannelToCategory cfg hooks serverId rand c t s client =
      ⟨trace ++ edited.trace, edited.status⟩ := by
    simp only [moveChannelToCategory, getServer, Outcome.bind_eq_andThen, Outcome.andThen,
      Outcome.orElse, hget, hok, hdoc, h, not_true, if_false, edited]
  refine ⟨hmove, fun body hhook hdump hscript => ?_⟩
  have hdumped : (!body.isNull && (hooks.dump body).isNone) = false := by
    rw [Option.isNone_eq_false_iff.mpr hdump, Bool.and_false]
  have htrace : edited.trace = (performRequest cfg hooks patch s.patchLate s.patchScript client').trace := by
    rcases Outcome.orElse_trace (performRequest cfg hooks patch s.patchLate s.patchScript client') _ with
      hkept | ⟨x, hkept⟩
    · exact hkept
    · exact hkept.trans (List.append_nil _)
  have hgoes (late : ℕ) (c : Client) := @performRequest_goes_out cfg hooks patch c s.patchScript late body hhook
    ⟨hdumped, rfl⟩ hscript
  obtain ⟨time, rest, hout, hsame⟩ := hgoes s.patchLate client'
  exact ⟨time, rest, by rw [hmove, htrace, hout], hsame⟩

/-- For every document whose categories have arrays of channels, the array that is sent holds the
channel once, in a category that the target means, and is what another run on it sends. -/
theorem channel_moved (rand : ℕ → ℕ) (serverId : String) (c t : Bytes) (document : Json)
    (categories : List Json) (hd : document.get? "categories" = some (.arr categories))
    (hc : ∀ cat ∈ categories, ∃ chs, channels? cat = some chs) :
    ∃ sent, Sends rand serverId c t document sent ∧ Moved c t categories sent ∧
      ∀ rand' document', document'.get? "categories" = some (.arr sent) →
        Sends rand' serverId c t document' sent := by
  obtain ⟨sent, hsent, hmoved, hagain⟩ := editedFields_moved rand c t document categories hd hc
  exact ⟨sent, sends_of_editedFields hsent, hmoved, fun rand' document' hd' =>
    sends_of_editedFields (hagain rand' document' hd')⟩

def serverDocument : Json := .obj [("categories", .arr [
  .obj [("channels", .arr [.str "01A", .str "01B"]), ("id", .str "01X"), ("title", .str "Text")],
  .obj [("channels", .arr [.str "01B", .str "01C"]), ("id", .str "01Y"), ("title", .str "Voice")]])]

/-- Both requests are answered at once. -/
def answeredMove : MoveScript where
  getLate := 0
  getScript := [⟨0, .reply ⟨200, .json serverDocument, ⟨"", "", "", ""⟩⟩, 0⟩]
  patchLate := 0
  patchScript := [⟨0, .reply ⟨200, .empty, ⟨"", "", "", ""⟩⟩, 0⟩]

def movedCategories : List Json := [
  .obj [("channels", .arr [.str "01A"]), ("id", .str "01X"), ("title", .str "Text")],
  .obj [("channels", .arr [.str "01C", .str "01B"]), ("id", .str "01Y"), ("title", .str "Voice")]]

theorem voice_channel_moved :
    (moveChannelToCategory {} .none "01S" (fun _ => 4) (bytes "01B") (bytes "vOICE") answeredMove (.fresh 0)).trace =
      [.sent "GET" "/servers/01S" .null 0, .acted "GET" "/servers/01S",
        .reply "GET" "/servers/01S" ⟨"", "", "", ""⟩ 0,
        .sent "PATCH" "/servers/01S" (.obj [("categories", .arr movedCategories)]) 0, .acted "PATCH" "/servers/01S",
        .reply "PATCH" "/servers/01S" ⟨"", "", "", ""⟩ 0] ∧
    Moved (bytes "01B") (bytes "vOICE") (categoriesOf serverDocument) movedCategories := by
  obtain ⟨sent, hsends, hmoved, -⟩ := channel_moved (fun _ => 4) "01S" (bytes "01B") (bytes "vOICE")
    serverDocument (categoriesOf serverDocument) rfl fun cat hcat => by
      rcases List.mem_cons.mp hcat with rfl | hcat
      · exact ⟨_, rfl⟩
      · rw [List.mem_singleton.mp hcat]
        exact ⟨_, rfl⟩
  obtain ⟨-, hpatch⟩ := hsends {} .none answeredMove (.fresh 0) _ _ _ rfl (by decide) rfl
  obtain ⟨time, rest, hout, -⟩ := hpatch _ rfl rfl (List.cons_ne_nil _ _)
  have hback : [.sent "PATCH" "/servers/01S" (.obj [("categories", .arr movedCategories)]) 0,
      .acted "PATCH" "/servers/01S", .reply "PATCH" "/servers/01S" ⟨"", "", "", ""⟩ 0] =
      .sent "PATCH" "/servers/01S" (.obj [("categories", .arr sent)]) time :: rest := congrArg (List.drop 3) hout
  have hbody := (Wire.sent.inj (List.cons.inj hback).1).2.2.1
  have hsent : movedCategories = sent := Json.arr.inj (Prod.mk.inj (List.cons.inj (Json.obj.inj hbody)).1).2
  exact ⟨rfl, hsent ▸ hmoved⟩

end Rest
end Stoatpp
