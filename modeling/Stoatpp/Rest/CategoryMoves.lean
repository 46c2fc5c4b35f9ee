import Stoatpp.Rest.Categories
import Stoatpp.Rest.FetchAndPatch

/-!
# Moves at the same time

Any number of `move_channel_to_category` calls on one server. Each fetches the categories and sends
all of them back, so a move can be lost, or take effect although it reports a failure, but no channel
and no category is lost.
-/

namespace Stoatpp.Rest
open Library

structure ChannelMove where
  channelId : Bytes
  categoryIdOrName : Bytes
  rand : ℕ → ℕ

/-- The server's document as far as a move reads it. -/
def categoryDocument (categories : List Json) : Json := .obj [("categories", .arr categories)]

/-- What is sent; an exception of `push_back` ends the call. -/
def ChannelMove.change (move : ChannelMove) (body : Json) : Except Bool (List Json) :=
  match editedFields move.rand move.channelId move.categoryIdOrName body with
  | some fields => .ok (categoriesOf fields)
  | none => .error false

def ChannelMove.sent (move : ChannelMove) (categories : List Json) : Except Bool (List Json) :=
  move.change (categoryDocument categories)

def ChannelMove.patchCall (serverId : String) (move : ChannelMove) : PatchCall (List Json) where
  path := "/servers/" ++ serverId
  document := categoryDocument
  change := move.change
  fields categories := .obj [("categories", .arr categories)]
  heed := categoriesOf
  heed_fields _ := rfl

section
variable {ι : Type} (cfg : Config) (hooks : Hooks) (serverId : String) (moves : ι → ChannelMove)

def actMove : ι → Encounter → List Json → Phase (List Json) → Phase (List Json) × Option (List Json) :=
  actPatch cfg hooks fun i => (moves i).patchCall serverId

/-- No move fetches the categories while another is about to send its own. -/
def MovesApart [DecidableEq ι] (categories : List Json) (schedule : List (ι × Encounter)) : Prop :=
  (Exchange.start (.fetching 0) categories).Uninterrupted (actMove cfg hooks serverId moves) Phase.stage schedule

def isMoved (order : List ι) (j : Json) : Bool := order.any fun i => isChannel (moves i).channelId j

/-- The last move of the channel. -/
def lastMove (order : List ι) (c : Bytes) : Option ι := order.reverse.find? fun i => (moves i).channelId = c

end

/-- Every category has an array of channels. -/
def HaveChannels (categories : List Json) : Prop := ∀ cat ∈ categories, ∃ chs, channels? cat = some chs

/-- The same category but for the channels that are moved. -/
structure SameButFor (moved : Json → Bool) (cat cat' : Json) : Prop where
  fields : ∀ key ≠ "channels", cat'.get? key = cat.get? key
  channels : ((channelsOf cat').filter fun j => !moved j) = (channelsOf cat).filter fun j => !moved j

/-- The categories stand where they stood, and behind them only what moves have appended. -/
structure InPlace (moved : Json → Bool) (categories after : List Json) : Prop where
  stay : ∀ (k : ℕ) cat, categories[k]? = some cat → ∃ cat', after[k]? = some cat' ∧ SameButFor moved cat cat'
  appended : ∀ (k : ℕ) cat', categories[k]? = none → after[k]? = some cat' → ∀ j ∈ channelsOf cat', moved j = true

/-- What the moves of the list leave one after the other: a channel they move is in one place, which
the last of its moves wants, and all others are where and as often as they were. -/
structure Arranged {ι : Type} (moves : ι → ChannelMove) (categories : List Json) (order : List ι)
    (after : List Json) : Prop where
  place : InPlace (isMoved moves order) categories after
  count : ∀ c, (after.flatMap channelsOf).countP (isChannel c) =
    if (lastMove moves order c).isSome then 1 else (categories.flatMap channelsOf).countP (isChannel c)
  holder : ∀ c i, lastMove moves order c = some i → ∀ cat ∈ after, ∀ j ∈ channelsOf cat, isChannel c j = true →
    Answers (moves i).categoryIdOrName cat

/-! ## One move -/

variable {c c' t : Bytes} {cat cat' : Json} {categories sent after front : List Json}
  {moved : Json → Bool}

/-- A move leaves every category at its place and appends one at most, for the channel alone. -/
structure Replaces (c t : Bytes) (categories sent : List Json) : Prop where
  once : (sent.flatMap channelsOf).countP (isChannel c) = 1
  holder : ∀ cat ∈ sent, ∀ j ∈ channelsOf cat, isChannel c j = true → Answers t cat
  kept : ∃ front added, sent = front ++ added ∧ List.Forall₂ (SameBut c) categories front ∧
    ∀ cat ∈ added, channels? cat = some [.ofBytes c]

theorem sent_replaces (move : ChannelMove) (hc : HaveChannels categories) : ∃ sent, move.sent categories = .ok sent ∧
    Replaces move.channelId move.categoryIdOrName categories sent := by
  obtain ⟨sent, hfields, hmoved, -⟩ := editedFields_moved move.rand move.channelId move.categoryIdOrName
    (categoryDocument categories) categories rfl hc
  have hplace : place move.rand move.channelId move.categoryIdOrName
      (categories.map (withoutChannel move.channelId)) = some sent := by
    obtain ⟨sent', hsent, heq⟩ := Option.map_eq_some_iff.mp hfields
    have hfields' := (Prod.mk.inj (List.cons.inj (Json.obj.inj heq)).1).2
    rw [← Json.arr.inj hfields']
    exact hsent
  refine ⟨sent, by rw [ChannelMove.sent, ChannelMove.change, hfields]; rfl, hmoved.once, hmoved.holder, ?_⟩
  have hcleared : ∀ cat ∈ categories.map (withoutChannel move.channelId), ∃ chs, channels? cat = some chs := by
    intro cat hcat
    obtain ⟨y, hy, rfl⟩ := List.mem_map.mp hcat
    obtain ⟨chs, hchs⟩ := hc y hy
    exact (cleared_withoutChannel hchs).array.imp fun _ h => h.1
  rcases place_cases hcleared move.rand move.channelId move.categoryIdOrName with
    ⟨before, x, rest, hm, -, hat⟩ | ⟨new, hat, happ⟩
  · rw [hat] at hplace
    exact ⟨sent, [], (List.append_nil _).symm, Option.some.inj hplace ▸ kept_added hc hm, List.forall_mem_nil _⟩
  · rw [hat] at hplace
    exact ⟨_, [new], (Option.some.inj hplace).symm, kept_map hc, List.forall_mem_singleton.mpr happ.1⟩

theorem forall₂_getElem? {R : Json → Json → Prop} (h : List.Forall₂ R categories front) (k : ℕ) :
    (categories[k]? = none ∧ front[k]? = none) ∨
      ∃ cat cat', categories[k]? = some cat ∧ front[k]? = some cat' ∧ R cat cat' := by
  induction h generalizing k with
  | nil => exact Or.inl ⟨rfl, rfl⟩
  | cons hr _ ih =>
    cases k with
    | zero => exact Or.inr ⟨_, _, rfl, rfl, hr⟩
    | succ k => exact ih k

namespace Replaces

variable (h : Replaces c t categories sent)
include h

theorem stay {k : ℕ} (hk : categories[k]? = some cat) : ∃ cat', sent[k]? = some cat' ∧ SameBut c cat cat' := by
  obtain ⟨front, added, rfl, hfront, -⟩ := h.kept
  rcases forall₂_getElem? hfront k with ⟨hnone, -⟩ | ⟨cat₁, cat', hcat, hcat', hsame⟩
  · rw [hnone] at hk
    cases hk
  · obtain rfl := Option.some.inj (hk.symm.trans hcat)
    have hlt : k < front.length := (List.getElem?_eq_some_iff.mp hcat').1
    exact ⟨cat', (List.getElem?_append_left hlt).trans hcat', hsame⟩

theorem appended {k : ℕ} (hk : categories[k]? = none) (hk' : sent[k]? = some cat') :
    channels? cat' = some [.ofBytes c] := by
  obtain ⟨front, added, rfl, hfront, hadded⟩ := h.kept
  rcases forall₂_getElem? hfront k with ⟨-, hnone⟩ | ⟨cat₁, -, hcat, -, -⟩
  · rw [List.getElem?_append_right (List.getElem?_eq_none_iff.mp hnone)] at hk'
    exact hadded cat' (List.mem_of_getElem? hk')
  · rw [hk] at hcat
    cases hcat

/-- A category that is sent is one of the server's or new. -/
theorem origin (hcat : cat' ∈ sent) :
    (∃ cat ∈ categories, SameBut c cat cat') ∨ channels? cat' = some [.ofBytes c] := by
  obtain ⟨k, hk⟩ := List.mem_iff_getElem?.mp hcat
  cases hcat : categories[k]? with
  | none => exact Or.inr (h.appended hcat hk)
  | some cat =>
    obtain ⟨cat₁, hcat₁, hsame⟩ := h.stay hcat
    obtain rfl := Option.some.inj (hk.symm.trans hcat₁)
    exact Or.inl ⟨cat, List.mem_of_getElem? hcat, hsame⟩

theorem haveChannels : HaveChannels sent := by
  intro cat hcat
  rcases h.origin hcat with ⟨_, -, hsame⟩ | hnew
  · exact Option.isSome_iff_exists.mp hsame.array
  · exact ⟨_, hnew⟩

end Replaces

theorem isChannel_ofBytes_iff : isChannel c' (.ofBytes c) = true ↔ c = c' := by
  simp [isChannel]

theorem isChannel_other {j : Json} (h : isChannel c' j = true) (hne : c' ≠ c) : isChannel c j = false := by
  rw [isChannel, of_decide_eq_true h]
  exact decide_eq_false fun heq => hne (Option.some.inj heq)

/-- Another channel is in a category where it was. -/
theorem mem_channels_sameBut (h : SameBut c cat cat') {j : Json} (hj : isChannel c j = false) :
    j ∈ channelsOf cat' ↔ j ∈ channelsOf cat := by
  have hmem (l : List Json) : j ∈ l ↔ j ∈ l.filter fun j => !isChannel c j := by
    rw [List.mem_filter, hj]
    exact (and_iff_left rfl).symm
  rw [hmem (channelsOf cat'), h.channels, ← hmem]

theorem countP_sameBut (h : SameBut c cat cat') (hne : c' ≠ c) :
    (channelsOf cat').countP (isChannel c') = (channelsOf cat).countP (isChannel c') := by
  have hcount (l : List Json) :
      l.countP (isChannel c') = (l.filter fun j => !isChannel c j).countP (isChannel c') := by
    rw [List.countP_filter]
    refine List.countP_congr fun j _ => ?_
    by_cases hj : isChannel c' j = true
    · simp [hj, isChannel_other hj hne]
    · simp [hj]
  rw [hcount (channelsOf cat'), h.channels, ← hcount]

theorem countP_forall₂ (h : List.Forall₂ (SameBut c) categories front) (hne : c' ≠ c) :
    (front.flatMap channelsOf).countP (isChannel c') = (categories.flatMap channelsOf).countP (isChannel c') := by
  induction h with
  | nil => rfl
  | cons hsame _ ih =>
    rw [List.flatMap_cons, List.flatMap_cons, List.countP_append, List.countP_append, countP_sameBut hsame hne, ih]

/-- A move leaves the number of places of every other channel. -/
theorem Replaces.count_other (h : Replaces c t categories sent) (hne : c' ≠ c) :
    (sent.flatMap channelsOf).countP (isChannel c') = (categories.flatMap channelsOf).countP (isChannel c') := by
  obtain ⟨front, added, rfl, hfront, hadded⟩ := h.kept
  have hzero : (added.flatMap channelsOf).countP (isChannel c') = 0 := by
    rw [List.countP_eq_zero]
    intro j hj
    obtain ⟨cat, hcat, hj⟩ := List.mem_flatMap.mp hj
    rw [channelsOf, hadded cat hcat, Option.getD_some, List.mem_singleton] at hj
    rw [hj, isChannel_ofBytes_iff]
    exact hne.symm
  rw [List.flatMap_append, List.countP_append, hzero, countP_forall₂ hfront hne, Nat.add_zero]

theorem answers_sameBut {t' : Bytes} (h : SameBut c cat cat') : Answers t' cat' ↔ Answers t' cat := by
  have hid := h.fields "id" (by decide)
  have htitle := h.fields "title" (by decide)
  simp only [Answers, hasId, hasTitle, hid, htitle]

/-- Where another channel stands does not change. -/
theorem Replaces.holder_other {t' : Bytes} (h : Replaces c t categories sent) (hne : c' ≠ c)
    (hheld : ∀ cat ∈ categories, ∀ j ∈ channelsOf cat, isChannel c' j = true → Answers t' cat) :
    ∀ cat ∈ sent, ∀ j ∈ channelsOf cat, isChannel c' j = true → Answers t' cat := by
  intro cat' hcat' j hj hchannel
  have hother : isChannel c j = false := isChannel_other hchannel hne
  rcases h.origin hcat' with ⟨cat, hcat, hsame⟩ | hnew
  · exact (answers_sameBut hsame).mpr (hheld cat hcat j ((mem_channels_sameBut hsame hother).mp hj) hchannel)
  · rw [channelsOf, hnew, Option.getD_some, List.mem_singleton] at hj
    rw [hj, isChannel_ofBytes_iff] at hchannel
    exact absurd hchannel hne.symm

/-! ## One move after the other -/

theorem inPlace_refl (moved : Json → Bool) (categories : List Json) : InPlace moved categories categories where
  stay _ cat hk := ⟨cat, hk, fun _ _ => rfl, rfl⟩
  appended _ _ hk hk' := by
    rw [hk] at hk'
    cases hk'

theorem SameButFor.trans {cat'' : Json} (h : SameButFor moved cat cat') (h' : SameBut c cat' cat'')
    (hmoved : ∀ j, isChannel c j = true → moved j = true) : SameButFor moved cat cat'' where
  fields key hkey := (h'.fields key hkey).trans (h.fields key hkey)
  channels := by
    have hfilter (l : List Json) :
        (l.filter fun j => !moved j) = (l.filter fun j => !isChannel c j).filter fun j => !moved j := by
      rw [List.filter_filter]
      refine List.filter_congr fun j _ => ?_
      cases hm : moved j with
      | true => rfl
      | false =>
        have hc : isChannel c j = false := Bool.eq_false_iff.mpr fun hc => Bool.false_ne_true (hm ▸ hmoved j hc)
        rw [hc]
        rfl
    rw [hfilter (channelsOf cat''), h'.channels, ← hfilter, h.channels]

theorem InPlace.replace (h : InPlace moved categories after) (h' : Replaces c t after sent)
    (hmoved : ∀ j, isChannel c j = true → moved j = true) : InPlace moved categories sent where
  stay k cat hk := by
    obtain ⟨cat', hcat', hsame⟩ := h.stay k cat hk
    obtain ⟨cat'', hcat'', hsame'⟩ := h'.stay hcat'
    exact ⟨cat'', hcat'', hsame.trans hsame' hmoved⟩
  appended k cat'' hk hcat'' j hj := by
    by_cases hchannel : isChannel c j = true
    · exact hmoved j hchannel
    have hother : isChannel c j = false := Bool.eq_false_iff.mpr hchannel
    cases hk' : after[k]? with
    | none =>
      rw [channelsOf, h'.appended hk' hcat'', Option.getD_some, List.mem_singleton] at hj
      exact absurd (isChannel_ofBytes_iff.mpr rfl) (hj ▸ hchannel)
    | some cat' =>
      obtain ⟨cat₁, hcat₁, hsame⟩ := h'.stay hk'
      obtain rfl := Option.some.inj (hcat''.symm.trans hcat₁)
      exact h.appended k cat' hk hk' j ((mem_channels_sameBut hsame hother).mp hj)

theorem InPlace.mono {moved' : Json → Bool} (h : InPlace moved categories after)
    (hmono : ∀ j, moved j = true → moved' j = true) : InPlace moved' categories after where
  stay k cat hk := by
    obtain ⟨cat', hcat', hsame⟩ := h.stay k cat hk
    have hfilter (l : List Json) : (l.filter fun j => !moved' j) =
        (l.filter fun j => !moved j).filter fun j => !moved' j := by
      rw [List.filter_filter]
      refine List.filter_congr fun j _ => ?_
      cases hm : moved j with
      | true => rw [hmono j hm]; rfl
      | false => exact (Bool.and_true _).symm
    refine ⟨cat', hcat', hsame.fields, ?_⟩
    rw [hfilter (channelsOf cat'), hsame.channels, ← hfilter]
  appended k cat' hk hk' j hj := hmono j (h.appended k cat' hk hk' j hj)

section
variable {ι : Type} {moves : ι → ChannelMove} {order : List ι} {i : ι}

theorem lastMove_concat : lastMove moves (order ++ [i]) c =
    if (moves i).channelId = c then some i else lastMove moves order c := by
  rw [lastMove, List.reverse_append, List.reverse_singleton, List.singleton_append, List.find?_cons]
  by_cases hi : (moves i).channelId = c
  · simp [hi]
  · simp [hi, lastMove]

theorem isMoved_concat {j : Json} : isMoved moves (order ++ [i]) j =
    (isMoved moves order j || isChannel (moves i).channelId j) := by
  simp [isMoved, List.any_append]

theorem arranged_concat (h : Arranged moves categories order after)
    (h' : Replaces (moves i).channelId (moves i).categoryIdOrName after sent) :
    Arranged moves categories (order ++ [i]) sent where
  place := by
    have hplace : InPlace (isMoved moves (order ++ [i])) categories after :=
      h.place.mono fun j hj => by rw [isMoved_concat, hj, Bool.true_or]
    exact hplace.replace h' fun j hj => by rw [isMoved_concat, hj, Bool.or_true]
  count c := by
    rw [lastMove_concat]
    by_cases hi : (moves i).channelId = c
    · rw [if_pos hi, ← hi]
      exact h'.once
    · rw [if_neg hi, h'.count_other (Ne.symm hi), h.count c]
  holder c k hk := by
    rw [lastMove_concat] at hk
    by_cases hi : (moves i).channelId = c
    · rw [if_pos hi] at hk
      rw [← Option.some.inj hk, ← hi]
      exact h'.holder
    · rw [if_neg hi] at hk
      exact h'.holder_other (Ne.symm hi) (h.holder c k hk)

theorem arranged_inTurn (moves : ι → ChannelMove) (hc : HaveChannels categories) (order : List ι) :
    let after := inTurn (fun i => (moves i).sent) order categories
    HaveChannels after ∧ Arranged moves categories order after := by
  induction order using List.reverseRecOn with
  | nil => exact ⟨hc, inPlace_refl _ _, fun _ => rfl, fun _ _ => nofun⟩
  | append_singleton order i ih =>
    obtain ⟨hchannels, harranged⟩ := ih
    obtain ⟨sent, hsent, hreplaces⟩ := sent_replaces (moves i) hchannels
    have hafter : inTurn (fun i => (moves i).sent) (order ++ [i]) categories = sent := by
      rw [inTurn_append]
      change ((moves i).sent _).toOption.getD _ = sent
      rw [hsent]
      rfl
    rw [hafter]
    exact ⟨hreplaces.haveChannels, arranged_concat harranged hreplaces⟩

/-! ## All moves -/

/-- Whatever the moves do at once and however their requests are answered, repeated or lost, the
categories are those that some of the moves leave one after the other: moves whose array the server
has taken, or that report success. They are all of these if none fetches the categories while another
is about to send its own. -/
theorem moves_in_turn [DecidableEq ι] (cfg : Config) (hooks : Hooks) (hhook : KeepsBodies hooks) (serverId : String)
    (moves : ι → ChannelMove) (categories : List Json) (hc : HaveChannels categories)
    (schedule : List (ι × Encounter)) :
    let s := (Exchange.start (.fetching 0) categories).run (actMove cfg hooks serverId moves) schedule
    ∃ order : List ι, order.Nodup ∧ (∀ i ∈ order, i ∈ s.written ∨ s.party i = .ended true) ∧
      (MovesApart cfg hooks serverId moves categories schedule →
        ∀ i, i ∈ s.written ∨ s.party i = .ended true → i ∈ order) ∧
      s.value = inTurn (fun i => (moves i).sent) order categories ∧ Arranged moves categories order s.value := by
  intro s
  have hfollows : Follows (actMove cfg hooks serverId moves) (fun i => (moves i).sent) Phase.stage :=
    patchCall_follows hhook _
  have hready : (Phase.fetching 0 : Phase (List Json)).stage = .ready := rfl
  obtain ⟨order, hleft, hall⟩ := left_in_turn hfollows hready categories schedule
  have hvalue : s.value = inTurn (fun i => (moves i).sent) order categories := hleft.left
  refine ⟨order, hleft.nodup, fun i hi => counts_phase.mp (hleft.count i hi), ?_, hvalue, ?_⟩
  · exact fun hapart i hi => hall hapart i (counts_phase.mpr hi)
  · rw [hvalue]
    exact (arranged_inTurn moves hc order).2

end

/-- Two channels that change places. -/
def exchanged : Bool → ChannelMove
  | true => ⟨bytes "01A", bytes "01Y", fun _ => 0⟩
  | false => ⟨bytes "01C", bytes "text", fun _ => 0⟩

/-- The second PATCH overtakes the first, whose reply is lost at one attempt and comes at the next. -/
def overtaken : List (Bool × Encounter) :=
  let fine : Encounter := ⟨.fresh 0, ⟨0, .reply ⟨200, .empty, ⟨"", "", "", ""⟩⟩, 0⟩, false⟩
  [(true, fine), (false, fine), (false, fine), (true, ⟨.fresh 0, ⟨0, .lost true "Read", 0⟩, true⟩), (true, fine)]

/-- Both report success and one is lost. -/
theorem exchanged_in_turn :
    let s := (Exchange.start (.fetching 0) (categoriesOf serverDocument)).run (actMove {} .none "01S" exchanged)
      overtaken
    s.party true = .ended true ∧ s.party false = .ended true ∧ s.written = [false, true, true] ∧
      s.value.map (fun cat => (channelsOf cat).map Json.bytes?) =
        [[some (bytes "01B")], [some (bytes "01B"), some (bytes "01C"), some (bytes "01A")]] ∧
      ∃ order : List Bool, order.Nodup ∧ Arranged exchanged (categoriesOf serverDocument) order s.value := by
  intro s
  have hc : HaveChannels (categoriesOf serverDocument) := by
    intro cat hcat
    rcases List.mem_cons.mp hcat with rfl | hcat
    · exact ⟨_, rfl⟩
    · rw [List.mem_singleton.mp hcat]
      exact ⟨_, rfl⟩
  have hhook : KeepsBodies .none := fun _ _ _ _ h => (Option.some.inj h).symm
  obtain ⟨order, hnodup, -, -, -, harranged⟩ :=
    moves_in_turn {} .none hhook "01S" exchanged (categoriesOf serverDocument) hc overtaken
  exact ⟨rfl, rfl, rfl, rfl, order, hnodup, harranged⟩

end Stoatpp.Rest
