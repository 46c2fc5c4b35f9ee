import Stoatpp.Cluster.Ignoring
import Stoatpp.Gateway.Malformed

/-!
# Members that join and leave

A join frame names its server and its user, and the member to be cached is read from the document
under `member`, or from the frame itself where there is none; a leave frame is filed under the two
names. The caches follow the frames if that document says the same as the names.
-/

namespace Stoatpp.Cluster
open Stoatpp.Library Stoatpp.Gateway

/-- Where there is a member object, its `_id` is of this server and this user. -/
def NamesMember (s u : String) (j : Json) : Prop :=
  ∀ member, j.get? "member" = some member → member.isObject = true →
    ∃ key, member.get? "_id" = some key ∧ key.text? "server" = some s ∧ key.text? "user" = some u

/-- A frame that lets the user join the server or leave it. -/
structure MemberFrame where
  joins : Bool
  serverId : String
  userId : String
  frame : Json
  server_ne : serverId ≠ ""
  user_ne : userId ≠ ""
  type : frame.text? "type" = some (if joins then "ServerMemberJoin" else "ServerMemberLeave")
  server : frame.text? "id" = some serverId
  user : frame.text? "user" = some userId
  member : joins = true → NamesMember serverId userId frame

namespace MemberFrame
variable (d : Dispatching) (f : MemberFrame)

def event : Event :=
  if f.joins then .serverMemberJoin (serverMemberJoinOf f.frame) else .serverMemberLeave f.serverId f.userId

def raw : Event := .raw (if f.joins then "ServerMemberJoin" else "ServerMemberLeave") f.frame

def handled (c : Store) : Store := exec (CacheStep.perform d) (frameTask d (some f.frame)) c

/-- The raw handlers return, and the user is not ignored. -/
def Heard : Prop := d.othersReturn f.raw = true ∧ d.shouldIgnoreUser f.userId = false

end MemberFrame

def joinedDocument (j : Json) : Json := (j.get? "member").getD j

/-- `server_id` and `user_id`, or else `id` and, where that is missing, `_id`, are of this member. -/
def Describes (doc : Json) (s u : String) : Prop :=
  (doc.text? "server_id" = some s ∨ doc.text? "server_id" = none ∧ (Member.key doc).text? "server" = some s) ∧
    (doc.text? "user_id" = some u ∨ doc.text? "user_id" = none ∧ Member.keyUser (Member.key doc) = u)

/-- The frame is heard and, if it is a join, the member is read from a document that identifies it. -/
def MemberFrame.Recorded (d : Dispatching) (f : MemberFrame) : Prop :=
  f.Heard d ∧ (f.joins = true → Describes (joinedDocument f.frame) f.serverId f.userId)

variable {d : Dispatching} {f : MemberFrame} {c : Store} {s u : String} {doc : Json}

theorem describes_iff (hs : s ≠ "") : Describes doc s u ↔
    (Member.fromJson doc).serverId = s ∧ (Member.fromJson doc).id = u := by
  unfold Describes Member.fromJson
  refine and_congr ?_ ?_
  · cases doc.text? "server_id" with
    | some s' => simp
    | none =>
      cases (Member.key doc).text? "server" with
      | some s' => simp
      | none => simpa using hs.symm
  · cases doc.text? "user_id" with
    | some u' => simp
    | none => simp

theorem frameTask_member (d : Dispatching) (f : MemberFrame) :
    frameTask d (some f.frame) = [.run (.event f.raw), .run (.event f.event)] := by
  have hserver : textOf f.frame "id" = f.serverId := by rw [textOf, f.server, Option.getD_some]
  have huser : textOf f.frame "user" = f.userId := by rw [textOf, f.user, Option.getD_some]
  rw [frameTask, handleEvent_typed f.type]
  unfold MemberFrame.raw MemberFrame.event
  cases f.joins with
  | true => rfl
  | false =>
    simp only [Bool.false_eq_true, if_false]
    rw [← hserver, ← huser]
    rfl

/-- The raw handlers come first, and an exception of theirs takes the event with it. -/
theorem handled_eq : f.handled d c =
    if d.othersReturn f.raw = true ∧ ignored d.shouldIgnoreUser f.event = false
    then (Store.listen f.event c).1 else c := by
  have hraw : (CacheStep.event f.raw).perform d c = (c, d.othersReturn f.raw) := by
    simp [MemberFrame.raw, CacheStep.perform, dispatch, ignored, checkedUser, Store.listen]
  have hevent := event_store (d := d) f.event c
  rw [MemberFrame.handled, frameTask_member]
  simp only [exec, hraw, ite_self, hevent]
  cases d.othersReturn f.raw <;> cases ignored d.shouldIgnoreUser f.event <;> simp

theorem ignored_event : ignored d.shouldIgnoreUser f.event = d.shouldIgnoreUser f.userId := by
  have huser : textOf f.frame "user" = f.userId := by rw [textOf, f.user, Option.getD_some]
  unfold MemberFrame.event
  cases f.joins with
  | true => simp [ignored, checkedUser, serverMemberJoinOf, huser]
  | false => simp [ignored, checkedUser]

theorem handled_heard (h : f.Heard d) : f.handled d c = (Store.listen f.event c).1 := by
  rw [handled_eq, ignored_event]
  exact if_pos h

theorem handled_unheard (h : ¬ f.Heard d) : f.handled d c = c := by
  rw [handled_eq, ignored_event]
  exact if_neg h

theorem joined_iff (hj : f.joins = true) : ((f.handled d c).getMember s u).isSome ↔
    (c.getMember s u).isSome ∨ f.Heard d ∧ s ≠ "" ∧ u ≠ "" ∧ Describes (joinedDocument f.frame) s u := by
  by_cases hh : f.Heard d
  · rw [handled_heard hh, Store.getMember_listen, MemberFrame.event, hj, if_pos rfl]
    simp only [hh, true_and]
    by_cases hs : s = ""
    · simp only [hs, ne_eq, not_true_eq_false, false_and, or_false, Store.memberAfter, Store.memberPut]
      rw [if_neg]
      rintro ⟨hne, -, hsame, -⟩
      exact hne hsame
    · rw [describes_iff hs]
      simp only [Store.memberAfter, Store.memberPut]
      split_ifs with hplaced
      · obtain ⟨-, hne, hserver, huser⟩ := hplaced
        exact iff_of_true rfl (Or.inr ⟨hs, huser ▸ hne, hserver, huser⟩)
      · refine (or_iff_left ?_).symm
        rintro ⟨-, hu, hserver, huser⟩
        exact hplaced ⟨fun he => hs (hserver.symm.trans he), fun he => hu (huser.symm.trans he), hserver, huser⟩
  · rw [handled_unheard hh]
    simp [hh]

theorem getMember_leave (hh : f.Heard d) (hl : f.joins = false) : (f.handled d c).getMember s u =
    if f.serverId = s ∧ f.userId = u then none else c.getMember s u := by
  rw [handled_heard hh, Store.getMember_listen, MemberFrame.event, hl, if_neg Bool.false_ne_true]
  simp only [Store.memberAfter, f.server_ne, f.user_ne, ne_eq, not_false_eq_true, true_and]

theorem left_iff (hl : f.joins = false) : (f.handled d c).getMember f.serverId f.userId = none ↔
    c.getMember f.serverId f.userId = none ∨ f.Heard d := by
  by_cases hh : f.Heard d
  · rw [getMember_leave hh hl, if_pos ⟨rfl, rfl⟩]
    exact iff_of_true rfl (Or.inr hh)
  · rw [handled_unheard hh]
    exact (or_iff_left hh).symm

theorem Describes.unique {s' u' : String} (h : Describes doc s u) (h' : Describes doc s' u') :
    s = s' ∧ u = u' := by
  obtain ⟨hs, hu⟩ := h
  obtain ⟨hs', hu'⟩ := h'
  constructor
  · rcases hs with hs | ⟨hnone, hs⟩ <;> rcases hs' with hs' | ⟨hnone', hs'⟩ <;> simp_all
  · rcases hu with hu | ⟨hnone, hu⟩ <;> rcases hu' with hu' | ⟨hnone', hu'⟩ <;> simp_all

theorem recorded_isSome (hr : f.Recorded d) : ((f.handled d c).getMember s u).isSome ↔
    if f.serverId = s ∧ f.userId = u then f.joins = true else (c.getMember s u).isSome := by
  obtain ⟨hh, hdoc⟩ := hr
  cases hj : f.joins with
  | true =>
    have hid := hdoc hj
    rw [joined_iff hj]
    split_ifs with hsame
    · obtain ⟨rfl, rfl⟩ := hsame
      exact iff_of_true (Or.inr ⟨hh, f.server_ne, f.user_ne, hid⟩) rfl
    · refine or_iff_left ?_
      rintro ⟨-, -, -, hother⟩
      exact hsame (hid.unique hother)
  | false =>
    rw [getMember_leave hh hj]
    split_ifs with hsame <;> simp

/-! ## Sequences of frames -/

def lastJoined (s u : String) (frames : List MemberFrame) : Bool :=
  match (frames.filter fun f => f.serverId = s ∧ f.userId = u).getLast? with
  | some f => f.joins
  | none => false

def followed (d : Dispatching) (frames : List MemberFrame) : Store :=
  inOrder d {} (frames.map fun f => some f.frame)

theorem followed_concat (frames : List MemberFrame) (f : MemberFrame) :
    followed d (frames ++ [f]) = f.handled d (followed d frames) := by
  simp only [followed, inOrder, List.map_append, List.map_cons, List.map_nil, drain_append, drain_cons,
    drain_nil, MemberFrame.handled]

theorem lastJoined_concat (s u : String) (frames : List MemberFrame) (f : MemberFrame) :
    lastJoined s u (frames ++ [f]) = true ↔
      if f.serverId = s ∧ f.userId = u then f.joins = true else lastJoined s u frames = true := by
  unfold lastJoined
  rw [List.filter_append]
  by_cases h : f.serverId = s ∧ f.userId = u
  · have hkept : [f].filter (fun f => f.serverId = s ∧ f.userId = u) = [f] := by simp [h]
    rw [if_pos h, hkept, List.getLast?_concat]
  · have hdropped : [f].filter (fun f => f.serverId = s ∧ f.userId = u) = [] := by simpa using h
    rw [if_neg h, hdropped, List.append_nil]

theorem getMember_followed (frames : List MemberFrame) (hr : ∀ f ∈ frames, f.Recorded d) (s u : String) :
    ((followed d frames).getMember s u).isSome ↔ lastJoined s u frames = true := by
  induction frames using List.reverseRecOn with
  | nil =>
    have hnone : (followed d []).getMember s u = none := rfl
    rw [hnone]
    exact iff_of_false Bool.false_ne_true Bool.false_ne_true
  | append_singleton frames f ih =>
    have hbefore := ih fun g hg => hr g (List.mem_append_left _ hg)
    rw [followed_concat, recorded_isSome (hr f (by simp)), lastJoined_concat]
    split_ifs
    · exact Iff.rfl
    · exact hbefore

theorem count_followed (frames : List MemberFrame) (hr : ∀ f ∈ frames, f.Recorded d) (s : String) :
    (followed d frames).getMemberCountSync s =
      ((frames.map (·.userId)).toFinset.filter fun u => lastJoined s u frames).card := by
  rw [Store.getMemberCountSync_eq]
  congr 1
  ext u
  have hmember := getMember_followed frames hr s u
  rw [Store.getMember_eq, Finmap.lookup_isSome, ← Finmap.mem_keys] at hmember
  rw [hmember, Finset.mem_filter, List.mem_toFinset]
  refine (and_iff_right_of_imp fun hlast => ?_).symm
  unfold lastJoined at hlast
  split at hlast
  · next f hf =>
    have hmem := List.mem_filter.mp (List.mem_of_getLast? hf)
    exact List.mem_map.mpr ⟨f, hmem.1, (of_decide_eq_true hmem.2).2⟩
  · cases hlast

/-- A join is recorded exactly if it is heard and its document identifies the member, a leave exactly
if it is heard; and when all frames are recorded the caches hold the members whose last frame was a
join, and count them. -/
theorem members_follow_frames (d : Dispatching) :
    (∀ (f : MemberFrame) (c : Store), f.joins = true →
      (((f.handled d c).getMember f.serverId f.userId).isSome ↔
        (c.getMember f.serverId f.userId).isSome ∨ f.Recorded d)) ∧
    (∀ (f : MemberFrame) (c : Store), f.joins = false →
      ((f.handled d c).getMember f.serverId f.userId = none ↔
        c.getMember f.serverId f.userId = none ∨ f.Recorded d)) ∧
    ∀ frames : List MemberFrame, (∀ f ∈ frames, f.Recorded d) →
      (∀ s u, ((followed d frames).getMember s u).isSome ↔ lastJoined s u frames = true) ∧
      ∀ s, (followed d frames).getMemberCountSync s =
        ((frames.map (·.userId)).toFinset.filter fun u => lastJoined s u frames).card := by
  refine ⟨fun f c hj => ?_, fun f c hl => ?_, fun frames hr =>
    ⟨getMember_followed frames hr, count_followed frames hr⟩⟩
  · rw [joined_iff hj]
    simp only [MemberFrame.Recorded, hj, f.server_ne, f.user_ne, ne_eq, not_false_eq_true, true_and,
      forall_const]
  · rw [left_iff hl]
    simp only [MemberFrame.Recorded, hl, Bool.false_eq_true, false_imp_iff, and_true]

def joinWithMember : MemberFrame where
  joins := true
  serverId := "s"
  userId := "u"
  frame := joinFrame "u"
  server_ne := by decide
  user_ne := by decide
  type := rfl
  server := rfl
  user := rfl
  member := fun _ member hmember _ => by
    obtain rfl := Option.some.inj hmember
    exact ⟨_, rfl, rfl, rfl⟩

theorem join_recorded : ((followed {} [joinWithMember]).getMember "s" "u").isSome := by
  refine ((members_follow_frames {}).2.2 [joinWithMember] ?_).1 "s" "u" |>.mpr rfl
  exact List.forall_mem_singleton.mpr ⟨⟨rfl, rfl⟩, fun _ => ⟨Or.inr ⟨rfl, rfl⟩, Or.inr ⟨rfl, rfl⟩⟩⟩

def bareJoin : MemberFrame where
  joins := true
  serverId := "s"
  userId := "u"
  frame := .obj [("id", .str "s"), ("type", .str "ServerMemberJoin"), ("user", .str "u")]
  server_ne := by decide
  user_ne := by decide
  type := rfl
  server := rfl
  user := rfl
  member := fun _ _ hmember _ => nomatch hmember

theorem bare_join_not_cached : lastJoined "s" "u" [bareJoin] = true ∧
    (followed {} [bareJoin]).getMember "s" "u" = none ∧ (followed {} [bareJoin]).getMemberCountSync "s" = 0 :=
  ⟨rfl, rfl, rfl⟩

end Stoatpp.Cluster
