import Stoatpp.Voice.FieldWalk

/-!
# The parser follows the field walk

A parser `Follows` a schema when it ends where the walk ends, emits what arises on the
walk and halts as soon as every field the walk passes makes progress. One rule,
`fieldLoop_follows`, gives this for a loop whose table agrees with its schema, and the
seven loops of the source are seven instances of it.
-/

namespace Stoatpp.Voice
open Stoatpp.Library

variable {σ : Type}

/-- What one loop iteration must achieve: a larger offset, or the end of the window. -/
def Progress (p q : Reader) : Prop := p.offset < q.offset ∨ q.size ≤ q.offset

section
variable (m : Memory)

def headEvents (s : Schema) (p : Reader) : List Event :=
  (readVarint m p).trace ++
    match kindAt m s p with
    | .text => (readString m (keyEnd m p)).trace
    | .nested _ => (nested m (keyEnd m p)).trace
    | .other => (skipField m (keyEnd m p) (wireAt m p)).trace

def Arises (s : Schema) (r : Reader) (e : Event) : Prop :=
  ∃ t p, Visits m s r t p ∧ (e ∈ headEvents m t p ∨ ∃ q, Passes m t p q ∧ e = .iteration p q)

structure Follows (s : Schema) (parse : Reader → σ → Parser σ) : Prop where
  yields : ∀ r a, (∃ b, (parse r a).Yields b) ↔ ∃ q, Walks m s r q ∧ q.hasMore = false
  emits : ∀ r a e, (∀ x, e ≠ .signal x) → ((parse r a).Emits e ↔ Arises m s r e)
  halts : ∀ r a, (∀ t p q, Visits m s r t p → Passes m t p q → Progress p q) →
    (parse r a).Halts

/-- What the loop does with a field is what the schema says about it. -/
def Agrees (wire : ℕ) : Action σ → FieldKind → Prop
  | .text _, .text => True
  | .number _, .other => wire = 0
  | .message parse, .nested c => Follows m c parse
  | .skip, .other => True
  | _, _ => False

end

variable {m : Memory} {s : Schema} {p q : Reader} {act : Action σ}

@[simp] theorem readVarint_status (r : Reader) : (readVarint m r).status =
    .done ((m.varint r).value, (m.varint r).reader) := rfl

theorem nested_keyEnd : nested m (keyEnd m p) = ⟨(readVarint m (keyEnd m p)).trace ++
      [.cut (lengthEnd m p) (childAt m p)],
    .done (childAt m p, (lengthEnd m p).advance (lengthAt m p))⟩ := by
  simp [nested, Outcome.andThen, lengthEnd, childAt, lengthAt]

theorem skipField_zero (r : Reader) : skipField m r 0 =
    ⟨(readVarint m r).trace, .done (m.varint r).reader⟩ := by
  simp [skipField, Outcome.andThen]

theorem skipField_ended (r : Reader) (wire : ℕ) : ∃ q, (skipField m r wire).status = .done q := by
  unfold skipField
  split_ifs <;> simp [Outcome.andThen]

theorem readString_ended (r : Reader) : (readString m r).status ≠ .running := by
  simp only [readString, Outcome.bind_eq_andThen, Outcome.andThen, readVarint_status]
  split_ifs <;> simp [Outcome.throw, Outcome.emit]

/-! ## One field -/

theorem agrees_cases {wire : ℕ} {kind : FieldKind} (h : Agrees m wire act kind) :
    (∃ store, act = .text store ∧ kind = .text) ∨
    (∃ store, act = .number store ∧ kind = .other ∧ wire = 0) ∨
    (∃ parse c, act = .message parse ∧ kind = .nested c ∧ Follows m c parse) ∨
    act = .skip ∧ kind = .other := by
  cases act <;> cases kind <;> simp_all [Agrees]

theorem perform_yields (a : σ) (hm : p.hasMore = true)
    (ha : Agrees m (wireAt m p) act (kindAt m s p)) :
    (∃ b, (act.perform m (wireAt m p) (keyEnd m p) a).Yields (q, b)) ↔ Passes m s p q := by
  obtain ⟨store, rfl, hk⟩ | ⟨store, rfl, hk, hw⟩ | ⟨parse, c, rfl, hk, hf⟩ | ⟨rfl, hk⟩ :=
    agrees_cases ha
  · rw [passes_text hm hk]
    simp [Action.perform, Process.yields_bind]
  · rw [passes_other hm hk, hw, skipField_zero]
    simp [Action.perform, Process.yields_bind]
  · rw [passes_nested hm hk, ← hf.yields _ a]
    simp [Action.perform, Process.yields_bind, nested_keyEnd, eq_comm]
  · rw [passes_other hm hk]
    simp [Action.perform, Process.yields_bind]

theorem perform_emits (a : σ) {e : Event} (he : ∀ x, e ≠ .signal x)
    (ha : Agrees m (wireAt m p) act (kindAt m s p)) :
    e ∈ (readVarint m p).trace ∨ (act.perform m (wireAt m p) (keyEnd m p) a).Emits e ↔
      e ∈ headEvents m s p ∨ ∃ c, kindAt m s p = .nested c ∧ Arises m c (childAt m p) e := by
  obtain ⟨store, rfl, hk⟩ | ⟨store, rfl, hk, hw⟩ | ⟨parse, c, rfl, hk, hf⟩ | ⟨rfl, hk⟩ :=
    agrees_cases ha
  · simp [Action.perform, Process.emits_bind, headEvents, hk]
  · simp [Action.perform, Process.emits_bind, headEvents, hk, hw, skipField_zero]
  · simp [Action.perform, Process.emits_bind, headEvents, hk, nested_keyEnd, hf.emits _ _ e he,
      or_assoc]
  · simp [Action.perform, Process.emits_bind, headEvents, hk]

theorem perform_halts (a : σ) (ha : Agrees m (wireAt m p) act (kindAt m s p))
    (hp : ∀ c t u q, kindAt m s p = .nested c → Visits m c (childAt m p) t u →
      Passes m t u q → Progress u q) :
    (act.perform m (wireAt m p) (keyEnd m p) a).Halts := by
  obtain ⟨store, rfl, hk⟩ | ⟨store, rfl, hk, hw⟩ | ⟨parse, c, rfl, hk, hf⟩ | ⟨rfl, hk⟩ :=
    agrees_cases ha
  · exact Process.halts_bind (Process.halts_lift (readString_ended _))
      fun _ _ => Process.halts_pure _
  · exact Process.halts_bind (Process.halts_lift (by simp)) fun _ _ => Process.halts_pure _
  · refine Process.halts_bind (Process.halts_lift (by simp [nested_keyEnd])) fun x hx => ?_
    rw [nested_keyEnd, Process.yields_lift, Status.done.injEq] at hx
    subst hx
    exact Process.halts_bind (hf.halts _ a fun t u q => hp c t u q hk)
      fun _ _ => Process.halts_pure _
  · obtain ⟨q, hq⟩ := skipField_ended (m := m) (keyEnd m p) (wireAt m p)
    exact Process.halts_bind (Process.halts_lift (by simp [hq])) fun _ _ => Process.halts_pure _

/-! ## One loop -/

variable {table : ℤ → ℕ → Action σ} {r : Reader}

theorem fieldStep_yields (a : σ) (hm : p.hasMore = true)
    (ht : ∀ f w, Agrees m w (table f w) (s.field f w)) :
    (∃ b, (fieldStep m table (p, a)).Yields (q, b)) ↔ Passes m s p q := by
  rw [← perform_yields a hm (ht _ _)]
  simp [fieldStep, Process.yields_bind, keyEnd, wireAt]

theorem fieldStep_emits (a : σ) {e : Event} (hm : p.hasMore = true) (he : ∀ x, e ≠ .signal x)
    (ht : ∀ f w, Agrees m w (table f w) (s.field f w)) :
    (fieldStep m table (p, a)).Emits e ↔
      e ∈ headEvents m s p ∨ (∃ c, kindAt m s p = .nested c ∧ Arises m c (childAt m p) e) ∨
        ∃ q, Passes m s p q ∧ e = .iteration p q := by
  have hi : (∃ y, ((table (fieldNum (m.varint p).value) (wireAt m p)).perform m (wireAt m p)
      (keyEnd m p) a).Yields y ∧ e = .iteration p y.1) ↔ ∃ q, Passes m s p q ∧ e = .iteration p q := by
    simp only [← perform_yields a hm (ht _ _), Prod.exists]
    exact ⟨fun ⟨q, b, h, h'⟩ => ⟨q, ⟨b, h⟩, h'⟩, fun ⟨q, ⟨b, h⟩, h'⟩ => ⟨q, b, h, h'⟩⟩
  rw [← or_assoc, ← perform_emits a he (ht _ _), ← hi, or_assoc]
  simp [fieldStep, Process.emits_bind, keyEnd, wireAt]

theorem fieldStep_halts (a : σ) (ht : ∀ f w, Agrees m w (table f w) (s.field f w))
    (hp : ∀ c t u q, kindAt m s p = .nested c → Visits m c (childAt m p) t u →
      Passes m t u q → Progress u q) :
    (fieldStep m table (p, a)).Halts := by
  refine Process.halts_bind (Process.halts_lift (by simp)) fun x hx => ?_
  rw [Process.yields_lift, readVarint_status, Status.done.injEq] at hx
  subst hx
  refine Process.halts_bind (perform_halts a (ht _ _) hp) fun y _ => ?_
  exact Process.halts_bind (Process.halts_lift (by simp)) fun _ _ => Process.halts_pure _

theorem rounds_iff_walks (a : σ) (ht : ∀ f w, Agrees m w (table f w) (s.field f w)) :
    (∃ b, Process.Rounds (fun x => x.1.hasMore) (fieldStep m table) (r, a) (q, b)) ↔
      Walks m s r q := by
  constructor
  · rintro ⟨b, h⟩
    suffices hx : ∀ x, Process.Rounds (fun x => x.1.hasMore) (fieldStep m table) (r, a) x →
        Walks m s r x.1 from hx _ h
    intro x hx
    induction hx with
    | refl => exact .refl _ _
    | tail _ hr ih => exact ih.step ((fieldStep_yields _ hr.1 ht).mp ⟨_, hr.2⟩)
  · intro h
    rw [walks_iff_reflTransGen] at h
    induction h with
    | refl => exact ⟨a, .refl⟩
    | tail _ hp ih =>
      obtain ⟨b, hb⟩ := ih
      obtain ⟨b', hb'⟩ := (fieldStep_yields b hp.hasMore ht).mpr hp
      exact ⟨b', hb.tail ⟨hp.hasMore, hb'⟩⟩

theorem fieldLoop_yields (a : σ) (ht : ∀ f w, Agrees m w (table f w) (s.field f w)) :
    (∃ b, (fieldLoop m table r a).Yields b) ↔ ∃ q, Walks m s r q ∧ q.hasMore = false := by
  simp only [fieldLoop, Process.yields_bind, Process.yields_whileLoop, Process.yields_pure,
    ← rounds_iff_walks a ht, Prod.exists]
  constructor
  · rintro ⟨b, q, b', ⟨hr, hq⟩, -⟩
    exact ⟨q, ⟨b', hr⟩, hq⟩
  · rintro ⟨q, ⟨b', hr⟩, hq⟩
    exact ⟨b', q, b', ⟨hr, hq⟩, rfl⟩

theorem fieldLoop_emits (a : σ) {e : Event} (he : ∀ x, e ≠ .signal x)
    (ht : ∀ f w, Agrees m w (table f w) (s.field f w)) :
    (fieldLoop m table r a).Emits e ↔ Arises m s r e := by
  simp only [fieldLoop, Process.emits_bind, Process.emits_pure, and_false, exists_false, or_false,
    Process.emits_whileLoop, Prod.exists]
  constructor
  · rintro ⟨p, b, hr, hm, hb⟩
    have hw : Walks m s r p := (rounds_iff_walks a ht).mp ⟨b, hr⟩
    rcases (fieldStep_emits b hm he ht).mp hb with h | ⟨c, hk, t, u, hv, h⟩ | h
    · exact ⟨s, p, .here hw hm, Or.inl h⟩
    · exact ⟨t, u, .inside hw hm hk hv, h⟩
    · exact ⟨s, p, .here hw hm, Or.inr h⟩
  · rintro ⟨t, u, hv, h⟩
    cases hv with
    | here hw hm =>
      obtain ⟨b, hr⟩ := (rounds_iff_walks a ht).mpr hw
      refine ⟨u, b, hr, hm, (fieldStep_emits b hm he ht).mpr ?_⟩
      exact h.imp_right Or.inr
    | @inside _ c _ _ p _ hw hm hk hv =>
      obtain ⟨b, hr⟩ := (rounds_iff_walks a ht).mpr hw
      exact ⟨p, b, hr, hm, (fieldStep_emits b hm he ht).mpr (Or.inr (Or.inl ⟨c, hk, t, u, hv, h⟩))⟩

theorem fieldLoop_halts (a : σ) (ht : ∀ f w, Agrees m w (table f w) (s.field f w))
    (hp : ∀ t p q, Visits m s r t p → Passes m t p q → Progress p q) :
    (fieldLoop m table r a).Halts := by
  refine Process.halts_bind ?_ fun _ _ => Process.halts_pure _
  refine Process.halts_whileLoop (fun x => x.1.size - x.1.offset) (r, a) ?_ ?_
  · rintro ⟨p, b⟩ hr hm
    have hw : Walks m s r p := (rounds_iff_walks a ht).mp ⟨b, hr⟩
    exact fieldStep_halts b ht fun c t u q hk hv => hp t u q (.inside hw hm hk hv)
  · rintro ⟨p, b⟩ ⟨q, b'⟩ hr ⟨hm, hb⟩
    have hw : Walks m s r p := (rounds_iff_walks a ht).mp ⟨b, hr⟩
    have hpass : Passes m s p q := (fieldStep_yields b hm ht).mp ⟨b', hb⟩
    have hprog := hp s p q (.here hw hm) hpass
    have hsize := (passes_window hpass).2
    simp only [Progress, Reader.hasMore_iff] at hprog hm ⊢
    omega

theorem fieldLoop_follows (ht : ∀ f w, Agrees m w (table f w) (s.field f w)) :
    Follows m s (fieldLoop m table) :=
  ⟨fun _ a => fieldLoop_yields a ht, fun _ a _ he => fieldLoop_emits a he ht,
    fun _ a hp => fieldLoop_halts a ht hp⟩

theorem Follows.signal {parse : Reader → σ → Parser σ} (hf : Follows m s parse) (a : σ)
    (x : σ → Signal) :
    Follows m s fun r (_ : Unit) => parse r a >>= fun b => signal (x b) where
  yields r _ := by
    rw [← hf.yields r a]
    simp [Process.yields_bind, Voice.signal]
  emits r _ e he := by
    rw [← hf.emits r a e he, Process.emits_bind]
    have hn : ∀ b, ¬ (Voice.signal (x b)).Emits e := by
      intro b
      simp [Voice.signal, he]
    simp [hn]
  halts r _ hp := Process.halts_bind (hf.halts r a hp) fun _ _ => Process.halts_lift (by simp)

/-! ## The loops of the source -/

variable (m)

theorem iceServer_follows : Follows m .iceServer (iceServer m) := by
  refine Follows.signal (fieldLoop_follows fun f w => ?_) _ _
  simp only [iceServerTable, Schema.field]
  split_ifs <;> first | trivial | omega

theorem parseJoinResponse_follows : Follows m .joinResponse (parseJoinResponse m) := by
  refine Follows.signal (fieldLoop_follows fun f w => ?_) _ _
  simp only [joinTable, Schema.field]
  split_ifs
  · exact iceServer_follows m
  · trivial

theorem sdp_follows : Follows m .session (fieldLoop m sdpTable) := by
  refine fieldLoop_follows fun f w => ?_
  simp only [sdpTable, Schema.field]
  split_ifs <;> first | trivial | omega

theorem offer_follows : Follows m .session (offer m) := (sdp_follows m).signal _ _

theorem answer_follows : Follows m .session (answer m) := (sdp_follows m).signal _ _

theorem trickle_follows : Follows m .trickle (trickle m) := by
  refine Follows.signal (fieldLoop_follows fun f w => ?_) _ _
  simp only [trickleTable, Schema.field]
  split_ifs with h1 h2
  · trivial
  · exact h2.2
  · trivial

theorem track_follows : Follows m .track (fieldLoop m trackTable) := by
  refine fieldLoop_follows fun f w => ?_
  simp only [trackTable, Schema.field]
  split_ifs <;> trivial

theorem trackPublished_follows : Follows m .trackPublished (trackPublished m) := by
  refine Follows.signal (fieldLoop_follows fun f w => ?_) _ _
  simp only [trackPublishedTable, Schema.field]
  split_ifs
  · trivial
  · exact track_follows m
  · trivial

theorem messageTable_agrees (f : ℤ) (w : ℕ) :
    Agrees m w (messageTable m f w) (Schema.message.field f w) := by
  simp only [messageTable, Schema.field]
  split_ifs
  · exact parseJoinResponse_follows m
  · exact offer_follows m
  · exact answer_follows m
  · exact trickle_follows m
  · exact trackPublished_follows m
  · trivial

theorem handleBinaryMessage_follows : Follows m .message (fieldLoop m (messageTable m)) :=
  fieldLoop_follows (messageTable_agrees m)

theorem handleBinaryMessage_emits {e : Event} (he : ∀ x, e ≠ .signal x) :
    (handleBinaryMessage m).Emits e ↔ Arises m .message m.root e :=
  (handleBinaryMessage_follows m).emits _ _ e he

end Stoatpp.Voice
