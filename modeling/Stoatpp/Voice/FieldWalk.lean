import Stoatpp.Voice.BinaryMessage

/-!
# The field walk of a message

The abstract view of the parser: a window is read field by field, each field by what the
schema of its window says about it, and a field is passed when what is nested in it has
been read to its end. `Passes` is one field, `Walks` a number of fields, `Visits` reaches
the fields of nested windows too. Nothing here loops or accumulates; the positions are
related to the bytes alone.
-/

namespace Stoatpp.Voice
open Stoatpp.Library

inductive Schema where
  | message | joinResponse | iceServer | session | trickle | trackPublished | track
  deriving DecidableEq

inductive FieldKind where
  | text
  | nested (s : Schema)
  | other
  deriving DecidableEq

def Schema.field : Schema → ℤ → ℕ → FieldKind
  | .message, f, w =>
    if f = 1 ∧ w = 2 then .nested .joinResponse
    else if f = 3 ∧ w = 2 then .nested .session
    else if f = 2 ∧ w = 2 then .nested .session
    else if f = 4 ∧ w = 2 then .nested .trickle
    else if f = 6 ∧ w = 2 then .nested .trackPublished
    else .other
  | .joinResponse, f, w => if f = 5 ∧ w = 2 then .nested .iceServer else .other
  | .iceServer, f, w => if (f = 1 ∨ f = 2 ∨ f = 3) ∧ w = 2 then .text else .other
  | .session, f, w => if (f = 1 ∨ f = 2) ∧ w = 2 then .text else .other
  | .trickle, f, w => if f = 1 ∧ w = 2 then .text else .other
  | .trackPublished, f, w =>
    if f = 1 ∧ w = 2 then .text else if f = 2 ∧ w = 2 then .nested .track else .other
  | .track, f, w => if f = 1 ∧ w = 2 then .text else .other

section
variable (m : Memory)

def wireAt (p : Reader) : ℕ := wireType (m.varint p).value

def kindAt (s : Schema) (p : Reader) : FieldKind :=
  s.field (fieldNum (m.varint p).value) (wireAt m p)

def keyEnd (p : Reader) : Reader := (m.varint p).reader

def lengthAt (p : Reader) : ℕ := (m.varint (keyEnd m p)).value.toNat
def lengthEnd (p : Reader) : Reader := (m.varint (keyEnd m p)).reader

def childAt (p : Reader) : Reader :=
  ⟨(lengthEnd m p).base + (lengthEnd m p).offset, lengthAt m p, 0⟩

/-- Reading whole fields leads from one reader state to the other. -/
inductive Walks : Schema → Reader → Reader → Prop where
  | refl (s : Schema) (r : Reader) : Walks s r r
  | other {s : Schema} {r p q : Reader} : Walks s r p → p.hasMore = true →
      kindAt m s p = .other → (skipField m (keyEnd m p) (wireAt m p)).status = .done q →
      Walks s r q
  | text {s : Schema} {r p q : Reader} {t : List UInt8} : Walks s r p → p.hasMore = true →
      kindAt m s p = .text → (readString m (keyEnd m p)).status = .done (t, q) → Walks s r q
  | nested {s c : Schema} {r p q : Reader} : Walks s r p → p.hasMore = true →
      kindAt m s p = .nested c → Walks c (childAt m p) q → q.hasMore = false →
      Walks s r ((lengthEnd m p).advance (lengthAt m p))

inductive Passes (s : Schema) (p : Reader) : Reader → Prop where
  | other {q : Reader} : p.hasMore = true → kindAt m s p = .other →
      (skipField m (keyEnd m p) (wireAt m p)).status = .done q → Passes s p q
  | text {q : Reader} {t : List UInt8} : p.hasMore = true → kindAt m s p = .text →
      (readString m (keyEnd m p)).status = .done (t, q) → Passes s p q
  | nested {c : Schema} {q : Reader} : p.hasMore = true → kindAt m s p = .nested c →
      Walks m c (childAt m p) q → q.hasMore = false →
      Passes s p ((lengthEnd m p).advance (lengthAt m p))

/-- The walk from `r` comes to the field at `p`, of the same or of a nested window. -/
inductive Visits : Schema → Reader → Schema → Reader → Prop where
  | here {s : Schema} {r p : Reader} : Walks m s r p → p.hasMore = true → Visits s r s p
  | inside {s c t : Schema} {r p q : Reader} : Walks m s r p → p.hasMore = true →
      kindAt m s p = .nested c → Visits c (childAt m p) t q → Visits s r t q

end

variable {m : Memory} {s c t : Schema} {r p q : Reader}

theorem Passes.hasMore (h : Passes m s p q) : p.hasMore = true := by
  cases h with
  | other h _ _ => exact h
  | text h _ _ => exact h
  | nested h _ _ _ => exact h

theorem passes_other (hm : p.hasMore = true) (hk : kindAt m s p = .other) :
    Passes m s p q ↔ (skipField m (keyEnd m p) (wireAt m p)).status = .done q := by
  refine ⟨fun h => ?_, .other hm hk⟩
  cases h with
  | other _ _ hq => exact hq
  | text _ hk' _ => simp [hk] at hk'
  | nested _ hk' _ _ => simp [hk] at hk'

theorem passes_text (hm : p.hasMore = true) (hk : kindAt m s p = .text) :
    Passes m s p q ↔ ∃ t, (readString m (keyEnd m p)).status = .done (t, q) := by
  refine ⟨fun h => ?_, fun ⟨t, h⟩ => .text hm hk h⟩
  cases h with
  | other _ hk' _ => simp [hk] at hk'
  | text _ _ hq => exact ⟨_, hq⟩
  | nested _ hk' _ _ => simp [hk] at hk'

theorem passes_nested (hm : p.hasMore = true) (hk : kindAt m s p = .nested c) :
    Passes m s p q ↔ (∃ r, Walks m c (childAt m p) r ∧ r.hasMore = false) ∧
      q = (lengthEnd m p).advance (lengthAt m p) := by
  refine ⟨fun h => ?_, fun ⟨⟨r, hw, hr⟩, hq⟩ => hq ▸ .nested hm hk hw hr⟩
  cases h with
  | other _ hk' _ => simp [hk] at hk'
  | text _ hk' _ => simp [hk] at hk'
  | nested _ hk' hw hr =>
    rw [hk] at hk'
    cases hk'
    exact ⟨⟨_, hw, hr⟩, rfl⟩

theorem Walks.step (h : Walks m s r p) (hp : Passes m s p q) : Walks m s r q := by
  cases hp with
  | other hm hk hq => exact .other h hm hk hq
  | text hm hk hq => exact .text h hm hk hq
  | nested hm hk hw hq => exact .nested h hm hk hw hq

theorem walks_iff_reflTransGen : Walks m s r q ↔ Relation.ReflTransGen (Passes m s) r q := by
  constructor
  · intro h
    induction h with
    | refl => exact .refl
    | other _ hm hk hq ih => exact ih.tail (.other hm hk hq)
    | text _ hm hk hq ih => exact ih.tail (.text hm hk hq)
    | nested _ hm hk hw hq ih _ => exact ih.tail (.nested hm hk hw hq)
  · intro h
    induction h with
    | refl => exact .refl _ _
    | tail _ hp ih => exact ih.step hp

theorem Visits.hasMore (h : Visits m s r t q) : q.hasMore = true := by
  induction h with
  | here _ hm => exact hm
  | inside _ _ _ _ ih => exact ih

theorem Schema.wire_of_text {f : ℤ} {w : ℕ} (h : s.field f w = .text) : w = 2 := by
  cases s <;> simp only [Schema.field] at h <;> split_ifs at h <;> simp_all

theorem Schema.wire_of_nested {f : ℤ} {w : ℕ} (h : s.field f w = .nested c) : w = 2 := by
  cases s <;> simp only [Schema.field] at h <;> split_ifs at h <;> simp_all

/-! ## Offsets along the walk -/

@[simp] theorem keyEnd_base (p : Reader) : (keyEnd m p).base = p.base := varint_base m p
@[simp] theorem keyEnd_size (p : Reader) : (keyEnd m p).size = p.size := varint_size m p

@[simp] theorem lengthEnd_base (p : Reader) : (lengthEnd m p).base = p.base := by
  simp [lengthEnd]

@[simp] theorem lengthEnd_size (p : Reader) : (lengthEnd m p).size = p.size := by
  simp [lengthEnd]

theorem keyEnd_offset (h : p.hasMore = true) :
    p.offset < (keyEnd m p).offset ∧ (keyEnd m p).offset ≤ p.size := by
  rw [Reader.hasMore_iff] at h
  exact ⟨varint_offset_lt m p h, varint_offset_le m p h.le⟩

theorem lengthEnd_offset (h : p.hasMore = true) :
    p.offset < (lengthEnd m p).offset ∧ (lengthEnd m p).offset ≤ p.size := by
  obtain ⟨h1, h2⟩ := keyEnd_offset (m := m) h
  have h3 := varint_offset_ge m (keyEnd m p)
  have h4 := varint_offset_le m (keyEnd m p) (by simpa using h2)
  rw [keyEnd_size] at h4
  exact ⟨lt_of_lt_of_le h1 h3, h4⟩

theorem readString_status (p : Reader) : (readString m (keyEnd m p)).status =
    if p.size < sizeT ((lengthEnd m p).offset + lengthAt m p) then .done ([], lengthEnd m p)
    else if maxSize < lengthAt m p then .thrown .lengthError
    else .done (((List.range (lengthAt m p)).map
      ((lengthEnd m p).base + (lengthEnd m p).offset + ·)).map m.byte,
        (lengthEnd m p).advance (lengthAt m p)) := by
  rw [readString_result, keyEnd_size]
  rfl

theorem readString_done {t : List UInt8}
    (h : (readString m (keyEnd m p)).status = .done (t, q)) :
    q = lengthEnd m p ∧ p.size < sizeT ((lengthEnd m p).offset + lengthAt m p) ∨
    q = (lengthEnd m p).advance (lengthAt m p) := by
  rw [readString_status] at h
  split_ifs at h with h1 h2 <;> simp only [Status.done.injEq, Prod.mk.injEq] at h
  · exact Or.inl ⟨h.2.symm, h1⟩
  · exact Or.inr h.2.symm

theorem skipField_status (p : Reader) (wire : ℕ) : (skipField m (keyEnd m p) wire).status =
    .done (if wire = 0 then lengthEnd m p
      else if wire = 2 then (lengthEnd m p).advance (lengthAt m p)
      else if wire = 1 then (keyEnd m p).advance 8
      else if wire = 5 then (keyEnd m p).advance 4
      else keyEnd m p) := by
  rw [skipField_result]
  rfl

/-- Where the payload of the field at `p` starts and how many bytes the parser takes it to
have; a varint field has no payload behind its header, and neither have the wire types that
are skipped by doing nothing. -/
def payloadAt (m : Memory) (p : Reader) : Option (Reader × ℕ) :=
  if wireAt m p = 2 then some (lengthEnd m p, lengthAt m p)
  else if wireAt m p = 1 then some (keyEnd m p, 8)
  else if wireAt m p = 5 then some (keyEnd m p, 4)
  else none

theorem skipField_done (h : (skipField m (keyEnd m p) (wireAt m p)).status = .done q) :
    payloadAt m p = none ∧ (q = keyEnd m p ∨ q = lengthEnd m p) ∨
    ∃ e n, payloadAt m p = some (e, n) ∧ q = e.advance n := by
  rw [skipField_status, Status.done.injEq] at h
  subst h
  unfold payloadAt
  split_ifs <;> first | omega | simp

/-- The header end plus the payload length reaches `2^64`, and what is left of the sum lies
at or before the start of the field. -/
def WrapsBack (m : Memory) (p : Reader) : Prop :=
  ∃ e n, payloadAt m p = some (e, n) ∧ 2 ^ 64 ≤ e.offset + n ∧ e.offset + n ≤ 2 ^ 64 + p.offset

theorem payloadAt_nested (h : kindAt m s p = .nested c) :
    payloadAt m p = some (lengthEnd m p, lengthAt m p) := by
  simp [payloadAt, show wireAt m p = 2 from Schema.wire_of_nested h]

theorem payloadAt_text (h : kindAt m s p = .text) :
    payloadAt m p = some (lengthEnd m p, lengthAt m p) := by
  simp [payloadAt, show wireAt m p = 2 from Schema.wire_of_text h]

theorem payloadAt_bounds {e : Reader} {n : ℕ} (hm : p.hasMore = true)
    (h : payloadAt m p = some (e, n)) :
    e.size = p.size ∧ p.offset < e.offset ∧ e.offset ≤ p.size ∧ n < 2 ^ 64 := by
  obtain ⟨h1, h2⟩ := keyEnd_offset (m := m) hm
  obtain ⟨h3, h4⟩ := lengthEnd_offset (m := m) hm
  unfold payloadAt at h
  split_ifs at h <;> simp only [Option.some.injEq, Prod.mk.injEq] at h <;> obtain ⟨rfl, rfl⟩ := h
  · exact ⟨by simp, h3, h4, UInt64.toNat_lt _⟩
  · exact ⟨by simp, h1, h2, by decide⟩
  · exact ⟨by simp, h1, h2, by decide⟩

theorem passes_cases (h : Passes m s p q) :
    (q = keyEnd m p ∨ q = lengthEnd m p) ∧ (payloadAt m p = none ∨ ∃ e n,
      payloadAt m p = some (e, n) ∧ p.size < sizeT (e.offset + n)) ∨
    ∃ e n, payloadAt m p = some (e, n) ∧ q = e.advance n := by
  cases h with
  | other hm hk hq =>
    rcases skipField_done hq with ⟨h1, h2⟩ | h
    · exact Or.inl ⟨h2, Or.inl h1⟩
    · exact Or.inr h
  | text hm hk hq =>
    rcases readString_done hq with ⟨h1, h2⟩ | h1
    · exact Or.inl ⟨Or.inr h1, Or.inr ⟨_, _, payloadAt_text hk, h2⟩⟩
    · exact Or.inr ⟨_, _, payloadAt_text hk, h1⟩
  | nested hm hk _ _ => exact Or.inr ⟨_, _, payloadAt_nested hk, rfl⟩

theorem passes_window (h : Passes m s p q) : q.base = p.base ∧ q.size = p.size := by
  have hm := h.hasMore
  rcases passes_cases h with ⟨rfl | rfl, -⟩ | ⟨e, n, he, rfl⟩
  · simp
  · simp
  · obtain ⟨h1, -⟩ := payloadAt_bounds hm he
    refine ⟨?_, h1⟩
    unfold payloadAt at he
    split_ifs at he <;> simp only [Option.some.injEq, Prod.mk.injEq] at he <;>
      obtain ⟨rfl, rfl⟩ := he <;> simp

end Stoatpp.Voice
