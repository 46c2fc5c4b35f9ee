import Stoatpp.Library.SelfDelimiting
import Stoatpp.Model.Events
import Stoatpp.Voice.Publishing
import Stoatpp.Voice.Varints

/-!
# The bytes of a request

The client writes its requests field by field, most of them as one message inside another. A list of
fields is told by its bytes, up to the difference of a string and a message, and so is a request.
-/

namespace Stoatpp.Voice
open Stoatpp.Library

/-! ## Requests and their bytes -/

inductive SignalTarget where
  | publisher
  | subscriber
  deriving DecidableEq

def SignalTarget.value : SignalTarget → UInt64
  | publisher => 0
  | subscriber => 1

def sendWrappedJoinRequest : List UInt8 :=
  let info : Writer := ((Writer.mk []).writeKey 1 0 |>.writeVarint 5).writeString 2 (bytes "0.1.0")
  let settings : Writer := ((Writer.mk []).writeKey 1 0 |>.writeVarint 1).writeKey 2 0 |>.writeVarint 1
  let join : Writer := (((Writer.mk []).writeMessage 1 info.buffer).writeMessage 2 settings.buffer).writeKey 7 0
    |>.writeVarint 0
  let wrapped : Writer := (((Writer.mk []).writeKey 1 0).writeVarint 0).writeKey 2 2
    |>.writeVarint (UInt64.ofNat join.buffer.length)
  (wrapped.insert join.buffer).buffer

def sendSdpAnswer (sdp : List UInt8) : List UInt8 :=
  let sdpMsg : Writer := ((Writer.mk []).writeString 1 (bytes "answer")).writeString 2 sdp
  ((Writer.mk []).writeMessage 2 sdpMsg.buffer).buffer

def sendSdpOffer (sdp : List UInt8) : List UInt8 :=
  let sdpMsg : Writer := ((Writer.mk []).writeString 1 (bytes "offer")).writeString 2 sdp
  ((Writer.mk []).writeMessage 1 sdpMsg.buffer).buffer

def sendTrickle (candidate : List UInt8) (target : SignalTarget) : List UInt8 :=
  let trickle : Writer := ((Writer.mk []).writeString 1 candidate).writeKey 2 0 |>.writeVarint target.value
  ((Writer.mk []).writeMessage 3 trickle.buffer).buffer

def sendAddTrack : List UInt8 :=
  let addTrack : Writer := (((Writer.mk []).writeString 1 myCid).writeString 2 (bytes "audio")).writeKey 3 0
    |>.writeVarint 0 |>.writeKey 8 0 |>.writeVarint 2
  ((Writer.mk []).writeMessage 4 addTrack.buffer).buffer

inductive SignalRequest where
  | join
  | answer (sdp : List UInt8)
  | offer (sdp : List UInt8)
  | trickle (candidate : List UInt8) (target : SignalTarget)
  | addTrack
  deriving DecidableEq

namespace SignalRequest

/-- What `ws.sendBinary` is given. -/
def bytes : SignalRequest → List UInt8
  | join => sendWrappedJoinRequest
  | answer sdp => sendSdpAnswer sdp
  | offer sdp => sendSdpOffer sdp
  | trickle candidate target => sendTrickle candidate target
  | addTrack => sendAddTrack

def joinFields : List Field := [
  ⟨1, .message (encode [⟨1, .varint 5⟩, ⟨2, .string (Stoatpp.bytes "0.1.0")⟩])⟩,
  ⟨2, .message (encode [⟨1, .varint 1⟩, ⟨2, .varint 1⟩])⟩,
  ⟨7, .varint 0⟩]

def number : SignalRequest → ℤ
  | join => 0
  | offer _ => 1
  | answer _ => 2
  | trickle _ _ => 3
  | addTrack => 4

def inner : SignalRequest → List Field
  | join => []
  | offer sdp => [⟨1, .string (Stoatpp.bytes "offer")⟩, ⟨2, .string sdp⟩]
  | answer sdp => [⟨1, .string (Stoatpp.bytes "answer")⟩, ⟨2, .string sdp⟩]
  | trickle candidate target => [⟨1, .string candidate⟩, ⟨2, .varint target.value⟩]
  | addTrack => [⟨1, .string myCid⟩, ⟨2, .string (Stoatpp.bytes "audio")⟩, ⟨3, .varint 0⟩, ⟨8, .varint 2⟩]

def fields : SignalRequest → List Field
  | join => [⟨1, .varint 0⟩, ⟨2, .message (encode joinFields)⟩]
  | r => [⟨r.number, .message (encode r.inner)⟩]

theorem bytes_eq_encode (r : SignalRequest) : r.bytes = encode r.fields := by
  cases r <;> rfl

theorem fields_eq {r : SignalRequest} (hr : r ≠ join) : r.fields = [⟨r.number, .message (encode r.inner)⟩] := by
  cases r with
  | join => exact absurd rfl hr
  | _ => rfl

theorem fields_numbered (r : SignalRequest) : ∀ f ∈ r.fields, f.Numbered := by
  cases r <;> simp [fields, number, Field.Numbered]

theorem inner_numbered (r : SignalRequest) : ∀ f ∈ r.inner, f.Numbered := by
  cases r <;> simp [inner, Field.Numbered]

end SignalRequest

/-! ## What a field shows -/

/-- A string and a message of the same bytes are written alike. -/
def Field.view (f : Field) : ℤ × Option UInt64 × Option (List UInt8) :=
  (f.number, f.payload.varint?, f.payload.bytes?)

def Field.Fits (f : Field) : Prop := f.Numbered ∧ ∀ s, f.payload.bytes? = some s → s.length < 2 ^ 64

theorem varint_selfDelimiting : SelfDelimiting (fun _ => True) id varintBytes :=
  selfDelimiting_of_prefix_free fun _ _ _ _ => varintBytes_prefix_free

theorem length_selfDelimiting : SelfDelimiting (fun s : List UInt8 => s.length < 2 ^ 64) List.length
    fun s => varintBytes (UInt64.ofNat s.length) := by
  intro s t hs ht a b heq
  obtain ⟨hlength, hrest⟩ := varint_selfDelimiting _ _ trivial trivial a b heq
  have htoNat := congrArg UInt64.toNat hlength
  rw [id, id, UInt64.toNat_ofNat_of_lt' hs, UInt64.toNat_ofNat_of_lt' ht] at htoNat
  exact ⟨htoNat, hrest⟩

theorem prefixed_selfDelimiting : SelfDelimiting (fun s => s.length < 2 ^ 64) id prefixed :=
  length_selfDelimiting.keyed fun _ => SelfDelimiting.of_length

theorem key_selfDelimiting : SelfDelimiting Field.Fits (fun f => (f.number, f.payload.wire))
    fun f => varintBytes (Writer.key f.number f.payload.wire) := by
  intro f g hf hg a b heq
  obtain ⟨hkey, hrest⟩ := varint_selfDelimiting _ _ trivial trivial a b heq
  have hwire (p : Payload) : p.wire < 8 := by cases p <;> simp [Payload.wire]
  refine ⟨Prod.ext ?_ ?_, hrest⟩
  · have hnumber := congrArg fieldNum hkey
    rwa [id, id, fieldNum_key hf.1.1 hf.1.2 _ (hwire _), fieldNum_key hg.1.1 hg.1.2 _ (hwire _)] at hnumber
  · have htype := congrArg wireType hkey
    rwa [id, id, wireType_key hf.1.1 hf.1.2 _ (hwire _), wireType_key hg.1.1 hg.1.2 _ (hwire _)] at htype

theorem Payload.varint_or_prefixed (p : Payload) : (∃ v, p = .varint v) ∨
    ∃ s, p.bytes? = some s ∧ p.varint? = none ∧ p.wire = 2 ∧ p.bytes = prefixed s := by
  cases p with
  | varint v => exact .inl ⟨v, rfl⟩
  | string s => exact .inr ⟨s, rfl, rfl, rfl, rfl⟩
  | message s => exact .inr ⟨s, rfl, rfl, rfl, rfl⟩

theorem payload_selfDelimiting (k : ℤ × ℕ) :
    SelfDelimiting (fun f : Field => f.Fits ∧ (f.number, f.payload.wire) = k) Field.view fun f => f.payload.bytes := by
  rintro ⟨n, p⟩ ⟨n', q⟩ ⟨hf, rfl⟩ ⟨hg, hsame⟩ a b heq
  obtain ⟨hnumber, hwire⟩ : n' = n ∧ q.wire = p.wire := Prod.ext_iff.mp hsame
  obtain ⟨v, rfl⟩ | ⟨s, hs, hpv, hp, hpb⟩ := p.varint_or_prefixed
  · obtain ⟨w, rfl⟩ | ⟨t, -, -, hq, -⟩ := q.varint_or_prefixed
    · obtain ⟨hvalue, hrest⟩ := varint_selfDelimiting v w trivial trivial a b heq
      obtain rfl : v = w := hvalue
      exact ⟨by rw [hnumber], hrest⟩
    · cases hq.symm.trans hwire
  · obtain ⟨w, rfl⟩ | ⟨t, ht, hqv, -, hqb⟩ := q.varint_or_prefixed
    · cases hwire.trans hp
    · simp only [hpb, hqb] at heq
      obtain ⟨hbytes, hrest⟩ := prefixed_selfDelimiting s t (hf.2 s hs) (hg.2 t ht) a b heq
      refine ⟨?_, hrest⟩
      simp only [Field.view, hs, ht, hpv, hqv, hnumber, show s = t from hbytes]

theorem field_selfDelimiting : SelfDelimiting Field.Fits Field.view Field.bytes :=
  key_selfDelimiting.keyed payload_selfDelimiting

theorem content_length_le {fields : List Field} {f : Field} (hf : f ∈ fields) {s : List UInt8}
    (hs : f.payload.bytes? = some s) : s.length ≤ (encode fields).length := by
  obtain ⟨v, hv⟩ | ⟨t, ht, -, -, hbytes⟩ := f.payload.varint_or_prefixed
  · rw [hv] at hs
    cases hs
  · obtain rfl : t = s := Option.some.inj (ht.symm.trans hs)
    obtain ⟨before, after, rfl⟩ := List.append_of_mem hf
    simp only [encode_eq_flatMap, List.flatMap_append, List.flatMap_cons, Field.bytes, hbytes, prefixed,
      List.length_append]
    omega

/-- The writer loses nothing but whether the bytes of a field are a string or a message. -/
theorem view_of_encode_eq {fields fields' : List Field} (hn : ∀ f ∈ fields, f.Numbered)
    (hn' : ∀ f ∈ fields', f.Numbered) (hlength : (encode fields).length < 2 ^ 64)
    (heq : encode fields = encode fields') : fields.map Field.view = fields'.map Field.view := by
  have hfits : ∀ f ∈ fields, f.Fits := fun f hf =>
    ⟨hn f hf, fun s hs => (content_length_le hf hs).trans_lt hlength⟩
  have hfits' : ∀ f ∈ fields', f.Fits := fun f hf =>
    ⟨hn' f hf, fun s hs => (content_length_le hf hs).trans_lt (heq ▸ hlength)⟩
  rw [encode_eq_flatMap, encode_eq_flatMap] at heq
  exact field_selfDelimiting.flatMap Field.bytes_ne_nil hfits hfits' heq

theorem SignalTarget.value_injective : Function.Injective SignalTarget.value := by
  intro x y h
  cases x <;> cases y <;> first | rfl | cases h

namespace SignalRequest
variable {r r' : SignalRequest}

theorem eq_of_view (hnumber : r.number = r'.number) (hview : r.inner.map Field.view = r'.inner.map Field.view) :
    r = r' := by
  cases r with
  | join => cases r' with
    | join => rfl
    | _ => simp [number] at hnumber
  | answer sdp => cases r' with
    | answer sdp' => simpa [inner, Field.view, Payload.bytes?, Payload.varint?] using hview
    | _ => simp [number] at hnumber
  | offer sdp => cases r' with
    | offer sdp' => simpa [inner, Field.view, Payload.bytes?, Payload.varint?] using hview
    | _ => simp [number] at hnumber
  | trickle candidate target => cases r' with
    | trickle candidate' target' =>
      simpa [inner, Field.view, Payload.bytes?, Payload.varint?, SignalTarget.value_injective.eq_iff] using hview
    | _ => simp [number] at hnumber
  | addTrack => cases r' with
    | addTrack => rfl
    | _ => simp [number] at hnumber

theorem eq_of_fields (hr : r ≠ join) (hr' : r' ≠ join) (hlength : (encode r.fields).length < 2 ^ 64)
    (hview : r.fields.map Field.view = r'.fields.map Field.view) : r = r' := by
  rw [fields_eq hr] at hlength hview
  rw [fields_eq hr'] at hview
  simp only [List.map_cons, List.map_nil, Field.view, Payload.varint?, Payload.bytes?, List.cons.injEq,
    Prod.mk.injEq, Option.some.injEq, and_true, true_and] at hview
  obtain ⟨hnumber, hencode⟩ := hview
  have hshort : (encode r.inner).length < 2 ^ 64 :=
    (content_length_le (f := ⟨r.number, .message (encode r.inner)⟩) List.mem_cons_self rfl).trans_lt hlength
  exact eq_of_view hnumber (view_of_encode_eq r.inner_numbered r'.inner_numbered hshort hencode)

theorem join_of_fields (hr : r = join) (hview : r.fields.map Field.view = r'.fields.map Field.view) : r' = join := by
  by_contra hr'
  rw [hr, fields_eq hr'] at hview
  exact absurd (congrArg List.length hview) (by simp [fields])

end SignalRequest

/-- Any two requests that a string can hold are told apart by their bytes. -/
theorem requests_spelled_apart (r r' : SignalRequest) (h : r.bytes.length ≤ maxSize) :
    r.bytes = r'.bytes ↔ r = r' := by
  refine ⟨fun heq => ?_, congrArg SignalRequest.bytes⟩
  rw [SignalRequest.bytes_eq_encode] at h heq
  rw [SignalRequest.bytes_eq_encode] at heq
  have hlength : (encode r.fields).length < 2 ^ 64 := h.trans_lt (by decide)
  have hview := view_of_encode_eq r.fields_numbered r'.fields_numbered hlength heq
  by_cases hr : r = .join
  · exact hr.trans (SignalRequest.join_of_fields hr hview).symm
  by_cases hr' : r' = .join
  · exact (SignalRequest.join_of_fields hr' hview.symm).trans hr'.symm
  exact SignalRequest.eq_of_fields hr hr' hlength hview

theorem candidate_spelled_apart :
    (SignalRequest.trickle [97] .subscriber).bytes ≠ (SignalRequest.trickle [97] .publisher).bytes := by
  have hlength : (SignalRequest.trickle [97] .subscriber).bytes.length ≤ maxSize := by
    have hkey := varintBytes_length_le_ten (Writer.key 3 2)
    have hprefix := varintBytes_length_le_ten 5
    have hbytes : (SignalRequest.trickle [97] .subscriber).bytes =
        varintBytes (Writer.key 3 2) ++ (varintBytes 5 ++ [10, 1, 97, 16, 1]) := by
      rw [SignalRequest.bytes_eq_encode, SignalRequest.fields_eq (by decide), encode_eq_flatMap,
        List.flatMap_singleton, SignalRequest.inner, SignalTarget.value, encode_candidate]
      rfl
    simp only [hbytes, List.length_append, List.length_cons, List.length_nil, maxSize]
    omega
  exact fun heq => absurd ((requests_spelled_apart _ _ hlength).mp heq) (by decide)

end Stoatpp.Voice
