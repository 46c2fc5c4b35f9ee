import Stoatpp.Library.Transcript
import Stoatpp.Voice.Publishing
import Stoatpp.Voice.Varints

/-!
# A stream of signals

The server writes its signals one behind the other, each a field that holds the encoding of more
fields, down to the track inside a published track. Read back, every signal is acted on once and
in the order written; what the client does not know is passed over.
-/

namespace Stoatpp.Voice
open Stoatpp.Library

/-! ## What the server writes -/

/-- A field of a join response. -/
inductive JoinField where
  | iceServer (fields : List Field)
  | other (f : Field)

/-- A field of a track_published signal. -/
inductive TrackField where
  | track (fields : List Field)
  | other (f : Field)

inductive ServerSignal where
  | joinResponse (fields : List JoinField)
  | answer (fields : List Field)
  | offer (fields : List Field)
  | trickle (fields : List Field)
  | trackPublished (fields : List TrackField)
  | other (f : Field)

def Field.At (f : Field) (n : ℤ) : Prop := f.number = n ∧ f.payload.wire = 2

namespace JoinField

def field : JoinField → Field
  | iceServer fields => ⟨5, .message (encode fields)⟩
  | other f => f

def WellFormed : JoinField → Prop
  | iceServer fields => ∀ f ∈ fields, f.Numbered
  | other f => f.Numbered ∧ ¬ f.At 5

def info (fields : List Field) : IceServerInfo :=
  ⟨fields.filterMap (Field.bytes? 1), (lastBytes 2 fields).getD [], (lastBytes 3 fields).getD []⟩

def signals : JoinField → List Signal
  | iceServer fields => [.iceServer (info fields)]
  | other _ => []

end JoinField

namespace TrackField

def field : TrackField → Field
  | track fields => ⟨2, .message (encode fields)⟩
  | other f => f

def WellFormed : TrackField → Prop
  | track fields => ∀ f ∈ fields, f.Numbered
  | other f => f.Numbered ∧ ¬ f.At 2

def cid? : TrackField → Option (List UInt8)
  | track _ => none
  | other f => f.bytes? 1

def inner : TrackField → List Field
  | track fields => fields
  | other _ => []

end TrackField

namespace ServerSignal

def field : ServerSignal → Field
  | joinResponse fields => ⟨1, .message (encode (fields.map JoinField.field))⟩
  | answer fields => ⟨2, .message (encode fields)⟩
  | offer fields => ⟨3, .message (encode fields)⟩
  | trickle fields => ⟨4, .message (encode fields)⟩
  | trackPublished fields => ⟨6, .message (encode (fields.map TrackField.field))⟩
  | other f => f

def WellFormed : ServerSignal → Prop
  | joinResponse fields => ∀ f ∈ fields, f.WellFormed
  | answer fields => ∀ f ∈ fields, f.Numbered
  | offer fields => ∀ f ∈ fields, f.Numbered
  | trickle fields => ∀ f ∈ fields, f.Numbered
  | trackPublished fields => ∀ f ∈ fields, f.WellFormed
  | other f => f.Numbered ∧ ∀ n ∈ [1, 2, 3, 4, 6], ¬ f.At n

/-- What the client is told by it. -/
def signals : ServerSignal → List Signal
  | joinResponse fields => fields.flatMap JoinField.signals ++ [.joinResponse]
  | answer fields => [.answer ((lastBytes 2 fields).getD [])]
  | offer fields => [.offer ((lastBytes 2 fields).getD [])]
  | trickle fields =>
    [.trickle ((lastBytes 1 fields).getD []) (((lastVarint 2 fields).map targetOf).getD 0)]
  | trackPublished fields =>
    [.trackPublished ((fields.filterMap TrackField.cid?).getLast?.getD [])
      ((lastBytes 1 (fields.flatMap TrackField.inner)).getD [])]
  | other _ => []

end ServerSignal

/-! ## One field -/

section
variable (m : Memory)

/-- Wherever the payload is spelled, the action reads it to its end. -/
def Action.Reads {σ : Type} (act : Action σ) (payload : Payload) (s t : σ) (ws : List Signal) : Prop :=
  ∀ r, Spelled m r payload.bytes →
    (act.perform m payload.wire r s).Reports Event.signal? (r.past payload.bytes.length, t) ws

end

variable {σ ι : Type} {m : Memory} {r : Reader} {table : ℤ → ℕ → Action σ}

theorem readVarint_silent (r : Reader) : ∀ e ∈ (readVarint m r).trace, e.signal? = none := by
  intro e he
  obtain ⟨x, -, rfl⟩ := List.mem_map.mp he
  rfl

theorem readString_silent (r : Reader) : ∀ e ∈ (readString m r).trace, e.signal? = none := by
  intro e he
  simp only [readString, Outcome.bind_eq_andThen, Outcome.mem_andThen] at he
  obtain he | ⟨x, -, he⟩ := he
  · exact readVarint_silent r e he
  · split_ifs at he with hlong hhuge
    · exact absurd he List.not_mem_nil
    · exact absurd he List.not_mem_nil
    · obtain he | ⟨a, -, he⟩ := Outcome.mem_andThen.mp he
      · obtain ⟨i, -, rfl⟩ := List.mem_map.mp he
        rfl
      · exact absurd he List.not_mem_nil

theorem skipField_silent (r : Reader) (wire : ℕ) : ∀ e ∈ (skipField m r wire).trace, e.signal? = none := by
  intro e he
  unfold skipField at he
  split_ifs at he with h0 h2 h1 h5
  · obtain he | ⟨a, -, he⟩ := Outcome.mem_andThen.mp he
    · exact readVarint_silent r e he
    · exact absurd he List.not_mem_nil
  · obtain he | ⟨a, -, he⟩ := Outcome.mem_andThen.mp he
    · exact readVarint_silent r e he
    · exact absurd he List.not_mem_nil
  all_goals exact absurd he List.not_mem_nil

theorem silent_lift {α β : Type} {x : Parse α} {f : α → Parser β} (hx : ∀ e ∈ x.trace, e.signal? = none)
    (hf : ∀ a e, (f a).Emits e → e.signal? = none) :
    ∀ e, (Process.lift x >>= f).Emits e → e.signal? = none := by
  intro e he
  obtain he | ⟨a, -, he⟩ := (Process.emits_bind _ _ e).mp he
  · exact hx e ((Process.emits_lift x e).mp he)
  · exact hf a e he

/-- What reads no nested message says nothing. -/
theorem perform_silent {act : Action σ} (hflat : ∀ parse, act ≠ .message parse) (wire : ℕ) (r : Reader) (s : σ) :
    ∀ e, (act.perform m wire r s).Emits e → e.signal? = none := by
  have hpure {α : Type} (a : α) : ∀ e, (pure a : Parser α).Emits e → e.signal? = none :=
    fun e he => absurd he (Process.emits_pure a e)
  cases act with
  | text store => exact silent_lift (readString_silent r) fun _ => hpure _
  | number store => exact silent_lift (readVarint_silent r) fun _ => hpure _
  | message parse => exact absurd rfl (hflat parse)
  | skip => exact silent_lift (skipField_silent r wire) fun _ => hpure _

/-- An action that reads a field of its own wire type, or skips it. -/
def Action.Plain (act : Action σ) (wire : ℕ) : Prop :=
  (∃ store, act = .text store ∧ wire = 2) ∨ (∃ store, act = .number store ∧ wire = 0) ∨ act = .skip

theorem Action.Plain.reads {act : Action σ} {payload : Payload} (h : act.Plain payload.wire) (s : σ) :
    act.Reads m payload s (act.effect payload s) [] := by
  intro r hr
  have hflat : Flat fun (_ : ℤ) w => if w = payload.wire then act else .skip := by
    intro _ w
    beta_reduce
    split_ifs with hw
    · exact hw ▸ h
    · exact .inr (.inr rfl)
  have hperform := perform_written hflat 0 hr s
  simp only [if_true] at hperform
  refine hperform.reports (perform_silent ?_ _ _ _)
  rintro parse rfl
  obtain ⟨store, heq, -⟩ | ⟨store, heq, -⟩ | heq := h
  all_goals cases heq

/-- The window that a length-delimited payload is cut out as. -/
def inside (r : Reader) (bytes : List UInt8) : Reader :=
  ⟨r.base + (r.offset + (varintBytes (UInt64.ofNat bytes.length)).length), bytes.length, 0⟩

theorem Spelled.inside {bytes : List UInt8} (h : Spelled m r (prefixed bytes)) :
    Spelled m (inside r bytes) bytes := by
  obtain ⟨hspells, hroom, hsize⟩ := h.append.2
  rw [past_offset, past_size] at hroom
  rw [past_size] at hsize
  exact ⟨hspells, (Nat.zero_add _).le, Nat.lt_of_le_of_lt (by simp only [Voice.inside]; omega) hsize⟩

theorem message_reads {parse : Reader → σ → Parser σ} {bytes : List UInt8} {s t : σ} {ws : List Signal}
    (hparse : ∀ r, Spelled m r bytes → r.offset = 0 → r.size = bytes.length →
      (parse r s).Reports Event.signal? t ws) :
    (Action.message parse).Reads m (.message bytes) s t ws := by
  intro r hr
  obtain ⟨hvalue, hreader⟩ := hr.append.1.varint
  have hinside := hparse (inside r bytes) hr.inside rfl rfl
  have hnested : (nested m r).status = .done (inside r bytes, r.past (prefixed bytes).length) ∧
      (nested m r).trace.filterMap Event.signal? = [] := by
    refine ⟨?_, List.filterMap_eq_nil_iff.mpr fun e he => ?_⟩
    · simp only [nested, Outcome.bind_eq_andThen, readVarint, Outcome.andThen, hvalue, hreader, length_toNat hr,
        advance_prefixed hr]
      rfl
    · obtain he | ⟨x, -, he⟩ := Outcome.mem_andThen.mp he
      · exact readVarint_silent r e he
      · obtain he | ⟨a, -, he⟩ := Outcome.mem_andThen.mp he
        · obtain rfl := List.mem_singleton.mp he
          rfl
        · exact absurd he List.not_mem_nil
  have hbody := hinside.bind (f := fun t => pure (r.past (prefixed bytes).length, t)) Process.reports_pure
  rw [List.append_nil] at hbody
  exact (Process.reports_lift.mpr hnested).bind hbody

/-! ## One loop -/

theorem fieldStep_reads {f : Field} (hf : f.Numbered) (h : Spelled m r f.bytes) {s t : σ} {ws : List Signal}
    (hreads : (table f.number f.payload.wire).Reads m f.payload s t ws) :
    (fieldStep m table (r, s)).Reports Event.signal? (r.past f.bytes.length, t) ws := by
  obtain ⟨hkey, hpayload⟩ := h.append
  obtain ⟨hvalue, hreader⟩ := hkey.varint
  have hwire : f.payload.wire < 8 := by cases f.payload <;> simp [Payload.wire]
  have hperform := hreads _ hpayload
  rw [past_past, ← List.length_append] at hperform
  have hread : (Process.lift (readVarint m r) : Parser _).Reports Event.signal?
      (Writer.key f.number f.payload.wire, r.past (varintBytes (Writer.key f.number f.payload.wire)).length) [] := by
    refine Process.reports_lift.mpr ⟨by rw [readVarint, hvalue, hreader], ?_⟩
    exact List.filterMap_eq_nil_iff.mpr (readVarint_silent r)
  have hemit (y : Reader × σ) :
      (Process.lift (.emit [.iteration r y.1]) >>= fun _ => pure y : Parser _).Reports Event.signal? y [] :=
    (Process.reports_lift.mpr ⟨rfl, rfl⟩ : Process.Reports _ _ () []).bind Process.reports_pure
  have hrest := hperform.bind (f := fun y => Process.lift (.emit [.iteration r y.1]) >>= fun _ => pure y)
    (hemit _)
  rw [List.append_nil] at hrest
  refine hread.bind ?_
  rw [fieldNum_key hf.1 hf.2 _ hwire, wireType_key hf.1 hf.2 _ hwire]
  exact hrest

/-- The items are what the fields stand for: each of them read as `next` and `told` say, the loop
goes through them in order. -/
theorem fieldLoop_reads (field : ι → Field) (next : σ → ι → σ) (told : ι → List Signal) {xs : List ι}
    (hxs : ∀ x ∈ xs, (field x).Numbered ∧ ∀ s,
      (table (field x).number (field x).payload.wire).Reads m (field x).payload s (next s x) (told x))
    (h : Spelled m r (encode (xs.map field))) (hend : r.offset + (encode (xs.map field)).length = r.size) (s : σ) :
    (fieldLoop m table r s).Reports Event.signal? (xs.foldl next s) (xs.flatMap told) := by
  suffices hloop : (Process.whileLoop (fun x => x.1.hasMore) (fieldStep m table) (r, s)).Reports Event.signal?
      (r.past (encode (xs.map field)).length, xs.foldl next s) (xs.flatMap told) by
    have hpure := hloop.bind (f := fun x => pure x.2) Process.reports_pure
    rwa [List.append_nil] at hpure
  rw [encode_eq_flatMap] at h hend ⊢
  induction xs generalizing r s with
  | nil =>
    refine Process.reports_whileLoop_exit ?_
    simp only [List.map_nil, List.flatMap_nil, List.length_nil, Nat.add_zero] at hend
    exact decide_eq_false (by rw [hend]; exact lt_irrefl _)
  | cons x rest ih =>
    rw [List.map_cons, List.flatMap_cons] at h hend ⊢
    obtain ⟨hfield, hrest⟩ := h.append
    obtain ⟨hnumbered, hreads⟩ := hxs x List.mem_cons_self
    have hmore : r.hasMore = true := by
      have hlength := List.length_pos_iff.mpr (Field.bytes_ne_nil (field x))
      have hroom := hfield.room
      rw [Reader.hasMore_iff]
      omega
    rw [List.length_append, ← Nat.add_assoc] at hend
    have hloop := ih (fun y hy => hxs y (List.mem_cons_of_mem _ hy)) hrest hend (next s x)
    rw [past_past, ← List.length_append] at hloop
    rw [List.foldl_cons, List.flatMap_cons]
    exact Process.reports_whileLoop_step hmore (fieldStep_reads hnumbered hfield (hreads s)) hloop

/-- Where no nested message is read, the fields stand for themselves. -/
theorem Flat.loop (hflat : Flat table) {fields : List Field} (hf : ∀ f ∈ fields, f.Numbered)
    (h : Spelled m r (encode fields)) (hend : r.offset + (encode fields).length = r.size) (s : σ) :
    (fieldLoop m table r s).Reports Event.signal? (fields.foldl (Field.effect table) s) [] := by
  have hloop := fieldLoop_reads id (Field.effect table) (fun _ => [])
    (fun f hmem => ⟨hf f hmem, fun s => Action.Plain.reads (hflat _ _) s⟩)
    (by rwa [List.map_id]) (by rwa [List.map_id]) s
  rwa [List.flatMap_eq_nil_iff.mpr fun _ _ => rfl] at hloop

/-! ## The loops of the source -/

theorem signal_reports (s : Signal) : (signal s).Reports Event.signal? () [s] := Process.reports_lift.mpr ⟨rfl, rfl⟩

theorem iceServerTable_flat : Flat iceServerTable := by
  intro f w
  simp only [iceServerTable]
  split_ifs with hurl hname hcredential
  · exact .inl ⟨_, rfl, hurl.2⟩
  · exact .inl ⟨_, rfl, hname.2⟩
  · exact .inl ⟨_, rfl, hcredential.2⟩
  · exact .inr (.inr rfl)

theorem trackTable_flat : Flat trackTable := by
  intro f w
  simp only [trackTable]
  split_ifs with hsid
  · exact .inl ⟨_, rfl, hsid.2⟩
  · exact .inr (.inr rfl)

theorem iceServer_effect (s : IceServerInfo) (f : Field) : f.effect iceServerTable s =
    ⟨s.urls ++ (f.bytes? 1).toList, (f.bytes? 2).getD s.username, (f.bytes? 3).getD s.credential⟩ := by
  obtain ⟨number, payload⟩ := f
  by_cases h1 : number = 1
  · subst h1
    cases payload <;> simp [Field.effect, iceServerTable, Field.bytes?, Payload.wire, Action.effect, Payload.bytes?]
  by_cases h2 : number = 2
  · subst h2
    cases payload <;> simp [Field.effect, iceServerTable, Field.bytes?, Payload.wire, Action.effect, Payload.bytes?]
  by_cases h3 : number = 3
  · subst h3
    cases payload <;> simp [Field.effect, iceServerTable, Field.bytes?, Payload.wire, Action.effect, Payload.bytes?]
  simp [Field.effect, iceServerTable, Field.bytes?, Action.effect, h1, h2, h3]

theorem iceServer_foldl (fields : List Field) (s : IceServerInfo) : fields.foldl (Field.effect iceServerTable) s =
    ⟨s.urls ++ fields.filterMap (Field.bytes? 1), (lastBytes 2 fields).getD s.username,
      (lastBytes 3 fields).getD s.credential⟩ := by
  induction fields generalizing s with
  | nil => simp [lastBytes]
  | cons f rest ih =>
    rw [List.foldl_cons, ih, iceServer_effect, lastBytes_cons, lastBytes_cons, Option.getD_or, Option.getD_or,
      List.append_assoc]
    cases hurl : f.bytes? 1 with
    | none => rw [List.filterMap_cons_none hurl, Option.toList_none, List.nil_append]
    | some url => rw [List.filterMap_cons_some hurl, Option.toList_some, List.singleton_append]

theorem track_effect (s : TrackPublished) (f : Field) : f.effect trackTable s = ⟨s.cid, (f.bytes? 1).getD s.sid⟩ := by
  obtain ⟨number, payload⟩ := f
  by_cases h1 : number = 1
  · subst h1
    cases payload <;> rfl
  · simp [Field.effect, trackTable, Field.bytes?, Action.effect, h1]

theorem track_foldl (fields : List Field) (s : TrackPublished) : fields.foldl (Field.effect trackTable) s =
    ⟨s.cid, (lastBytes 1 fields).getD s.sid⟩ := by
  induction fields generalizing s with
  | nil => rfl
  | cons f rest ih => rw [List.foldl_cons, ih, track_effect, lastBytes_cons, Option.getD_or]

section
variable {fields : List Field} (hf : ∀ f ∈ fields, f.Numbered)
include hf

theorem iceServer_reads : (Action.message (iceServer m)).Reads m (.message (encode fields)) () ()
    [.iceServer (JoinField.info fields)] := by
  refine message_reads fun r hr hoffset hsize => ?_
  have hloop := iceServerTable_flat.loop hf hr (by omega) ⟨[], [], []⟩
  rw [iceServer_foldl] at hloop
  exact hloop.bind (signal_reports _)

theorem offer_reads : (Action.message (offer m)).Reads m (.message (encode fields)) () ()
    [.offer ((lastBytes 2 fields).getD [])] := by
  refine message_reads fun r hr hoffset hsize => ?_
  have hloop := sdpTable_flat.loop hf hr (by omega) ⟨[], []⟩
  rw [sdp_foldl] at hloop
  exact hloop.bind (signal_reports _)

theorem answer_reads : (Action.message (answer m)).Reads m (.message (encode fields)) () ()
    [.answer ((lastBytes 2 fields).getD [])] := by
  refine message_reads fun r hr hoffset hsize => ?_
  have hloop := sdpTable_flat.loop hf hr (by omega) ⟨[], []⟩
  rw [sdp_foldl] at hloop
  exact hloop.bind (signal_reports _)

theorem trickle_reads : (Action.message (trickle m)).Reads m (.message (encode fields)) () ()
    [.trickle ((lastBytes 1 fields).getD []) (((lastVarint 2 fields).map targetOf).getD 0)] := by
  refine message_reads fun r hr hoffset hsize => ?_
  have hloop := trickleTable_flat.loop hf hr (by omega) ⟨[], 0⟩
  rw [trickle_foldl] at hloop
  exact hloop.bind (signal_reports _)

theorem track_reads (s : TrackPublished) : (Action.message (fieldLoop m trackTable)).Reads m
    (.message (encode fields)) s ⟨s.cid, (lastBytes 1 fields).getD s.sid⟩ [] := by
  refine message_reads fun r hr hoffset hsize => ?_
  have hloop := trackTable_flat.loop hf hr (by omega) s
  rwa [track_foldl] at hloop

end

/-! ## Nested signals -/

theorem field_plain {f : Field} (hact : table f.number f.payload.wire = .skip) (s : σ) :
    (table f.number f.payload.wire).Reads m f.payload s s [] := by
  rw [hact]
  exact Action.Plain.reads (.inr (.inr rfl)) s

theorem numbered {n : ℤ} {payload : Payload} (h : 0 < n ∧ n < 2 ^ 28) : Field.Numbered ⟨n, payload⟩ := h

theorem JoinField.reads {x : JoinField} (hx : x.WellFormed) : x.field.Numbered ∧
    ∀ s, (joinTable m x.field.number x.field.payload.wire).Reads m x.field.payload s s x.signals := by
  cases x with
  | iceServer fields => exact ⟨numbered (by decide), fun _ => iceServer_reads hx⟩
  | other f =>
    refine ⟨hx.1, fun s => field_plain ?_ s⟩
    exact if_neg hx.2

def TrackField.next (s : TrackPublished) (x : TrackField) : TrackPublished :=
  ⟨x.cid?.getD s.cid, (lastBytes 1 x.inner).getD s.sid⟩

theorem TrackField.reads {x : TrackField} (hx : x.WellFormed) : x.field.Numbered ∧
    ∀ s, (trackPublishedTable m x.field.number x.field.payload.wire).Reads m x.field.payload s (next s x) [] := by
  cases x with
  | track fields => exact ⟨numbered (by decide), fun s => track_reads hx s⟩
  | other f =>
    obtain ⟨hnumbered, hother⟩ := hx
    refine ⟨hnumbered, fun s => ?_⟩
    have hother : ¬ (f.number = 2 ∧ f.payload.wire = 2) := hother
    by_cases hcid : f.number = 1 ∧ f.payload.wire = 2
    · have htable : trackPublishedTable m f.number f.payload.wire = .text fun s cid => { s with cid := cid } :=
        if_pos hcid
      have hplain : (trackPublishedTable m f.number f.payload.wire).Plain f.payload.wire :=
        .inl ⟨_, htable, hcid.2⟩
      have hnext : (trackPublishedTable m f.number f.payload.wire).effect f.payload s =
          next s (.other f) := by
        rw [htable]
        obtain ⟨number, payload⟩ := f
        obtain rfl := hcid.1
        cases payload <;> rfl
      exact hnext ▸ hplain.reads s
    · have htable : trackPublishedTable m f.number f.payload.wire = .skip := by
        simp only [trackPublishedTable, if_neg hcid, if_neg hother]
      have hnone : f.bytes? 1 = none := by
        obtain ⟨number, payload⟩ := f
        simp only [Field.bytes?, ite_eq_right_iff]
        intro hnumber
        cases payload with
        | varint val => rfl
        | _ => exact absurd ⟨hnumber, rfl⟩ hcid
      have hnext : next s (.other f) = s := by
        simp only [next, cid?, inner, hnone]
        rfl
      rw [field]
      exact hnext.symm ▸ field_plain htable s

theorem track_foldl_next (fields : List TrackField) (s : TrackPublished) : fields.foldl TrackField.next s =
    ⟨(fields.filterMap TrackField.cid?).getLast?.getD s.cid,
      (lastBytes 1 (fields.flatMap TrackField.inner)).getD s.sid⟩ := by
  induction fields generalizing s with
  | nil => rfl
  | cons x rest ih =>
    have hsid : lastBytes 1 (x.inner ++ rest.flatMap TrackField.inner) =
        (lastBytes 1 (rest.flatMap TrackField.inner)).or (lastBytes 1 x.inner) := by
      simp only [lastBytes, List.filterMap_append, List.getLast?_append]
    rw [List.foldl_cons, ih, getLast?_filterMap_cons, List.flatMap_cons, hsid, Option.getD_or, Option.getD_or]
    rfl

theorem ServerSignal.reads {x : ServerSignal} (hx : x.WellFormed) : x.field.Numbered ∧
    ∀ s, (messageTable m x.field.number x.field.payload.wire).Reads m x.field.payload s s x.signals := by
  cases x with
  | joinResponse fields =>
    refine ⟨numbered (by decide), fun _ => message_reads fun r hr hoffset hsize => ?_⟩
    have hloop := fieldLoop_reads JoinField.field (fun s _ => s) JoinField.signals
      (fun x hmem => JoinField.reads (hx x hmem)) hr (by omega) ()
    exact hloop.bind (signal_reports _)
  | answer fields => exact ⟨numbered (by decide), fun _ => answer_reads hx⟩
  | offer fields => exact ⟨numbered (by decide), fun _ => offer_reads hx⟩
  | trickle fields => exact ⟨numbered (by decide), fun _ => trickle_reads hx⟩
  | trackPublished fields =>
    refine ⟨numbered (by decide), fun _ => message_reads fun r hr hoffset hsize => ?_⟩
    have hloop := fieldLoop_reads TrackField.field TrackField.next (fun _ => [])
      (fun x hmem => TrackField.reads (hx x hmem)) hr (by omega) ⟨[], []⟩
    rw [track_foldl_next, List.flatMap_eq_nil_iff.mpr fun _ _ => rfl] at hloop
    exact hloop.bind (signal_reports _)
  | other f =>
    refine ⟨hx.1, fun s => field_plain ?_ s⟩
    obtain ⟨h1, h2, h3, h4, h6, -⟩ : ¬ f.At 1 ∧ ¬ f.At 2 ∧ ¬ f.At 3 ∧ ¬ f.At 4 ∧ ¬ f.At 6 ∧ True := by
      simpa only [List.forall_mem_cons, List.not_mem_nil, false_imp_iff, implies_true] using hx.2
    exact (if_neg h1).trans ((if_neg h3).trans ((if_neg h2).trans ((if_neg h4).trans (if_neg h6))))

theorem handleBinaryMessage_reads {signals : List ServerSignal} (hx : ∀ x ∈ signals, x.WellFormed)
    (hm : m.message = encode (signals.map ServerSignal.field)) :
    (handleBinaryMessage m).Reports Event.signal? () (signals.flatMap ServerSignal.signals) := by
  have hspelled : Spelled m m.root (encode (signals.map ServerSignal.field)) :=
    spelled_message [] (by rw [hm, List.nil_append, List.append_nil])
  exact fieldLoop_reads ServerSignal.field (fun s _ => s) _ (fun x hmem => ServerSignal.reads (hx x hmem)) hspelled
    (by rw [← hm]; exact Nat.zero_add _) ()

/-- Run far enough, a message of signals does to the connection what its signals do one after the
other, each told once and with what its fields say. -/
theorem signals_handled_in_order (m : Memory) (signals : List ServerSignal) (hx : ∀ x ∈ signals, x.WellFormed)
    (hm : m.message = encode (signals.map ServerSignal.field)) :
    ∃ enough, ∀ bound, enough ≤ bound → ∀ (answers : ℕ → Answers) (s : Impl),
      (⟨m, bound, answers⟩ : Handled).handle s =
        ((signals.flatMap ServerSignal.signals).zipIdx.map fun x => (x.1, answers x.2)).foldlM handleSignal s := by
  obtain ⟨enough, hdone, htold⟩ := handleBinaryMessage_reads hx hm
  refine ⟨enough, fun bound hbound answers s => ?_⟩
  have hparsed : (⟨m, bound, answers⟩ : Handled).parsed = (handleBinaryMessage m).run enough :=
    (handleBinaryMessage m).run_eq_of_ended hbound (Process.ended_of_done hdone)
  simp only [Handled.handle, Handled.signals, hparsed, hdone, htold]
  exact Outcome.andThen_ret _

theorem encode_description : encode [ServerSignal.field (.answer [⟨2, .string [118]⟩])] = [18, 3, 18, 1, 118] := by
  have hfield (f : Field) (h : ¬ 0x80 ≤ Writer.key f.number f.payload.wire) : f.bytes =
      (Writer.key f.number f.payload.wire &&& 0x7F).toUInt8 :: f.payload.bytes := by
    rw [Field.bytes, varintBytes_small h]
    rfl
  have hinner : encode [⟨2, .string [118]⟩] = [18, 1, 118] := by
    have hlength : varintBytes (UInt64.ofNat [(118 : UInt8)].length) = [1] := varintBytes_small (by decide)
    rw [encode_eq_flatMap, List.flatMap_singleton, hfield _ (by decide)]
    simp only [Payload.bytes, prefixed, hlength]
    rfl
  have hlength : varintBytes (UInt64.ofNat [(18 : UInt8), 1, 118].length) = [3] := varintBytes_small (by decide)
  rw [encode_eq_flatMap, List.flatMap_singleton, ServerSignal.field, hinner, hfield _ (by decide)]
  simp only [Payload.bytes, prefixed, hlength]
  rfl

theorem description_handled : ∃ enough, ∀ bound, enough ≤ bound → ∀ (answers : ℕ → Answers) (s : Impl),
    (⟨.ofBytes [18, 3, 18, 1, 118] (by decide), bound, answers⟩ : Handled).handle s =
      [(Signal.answer [118], answers 0)].foldlM handleSignal s :=
  signals_handled_in_order (.ofBytes [18, 3, 18, 1, 118] (by decide)) [.answer [⟨2, .string [118]⟩]]
    (List.forall_mem_singleton.mpr (List.forall_mem_singleton.mpr (numbered (by decide))))
    encode_description.symm

end Stoatpp.Voice