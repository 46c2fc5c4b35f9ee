import Mathlib.Algebra.Group.Nat.Defs
import Mathlib.Tactic.SplitIfs
import Mathlib.Tactic.Common
import Stoatpp.Library.Process

/-!
# The protobuf reader of the voice connection

`pb_reader` is a window into the bytes of a message together with an offset.
Offsets and sizes are `size_t` values, so every addition is taken modulo `2^64`.
The reader trusts the window it is given: what it finds behind the message, and what
a 64-bit shift by 64 or more gives, is left open in `Memory`.
-/

namespace Stoatpp.Voice
open Stoatpp.Library

/-- `std::string::max_size()`; a longer string cannot be built. -/
def maxSize : ℕ := 2 ^ 63 - 1

def sizeT (n : ℕ) : ℕ := n % 2 ^ 64

/-- The memory the readers of one message point into: the message itself, the bytes
behind it, and the shift of the machine where the language leaves it undefined. -/
structure Memory where
  message : List UInt8
  beyond : ℕ → UInt8
  shl : UInt64 → ℕ → UInt64
  message_le : message.length ≤ maxSize
  shl_eq : ∀ x s, s < 64 → shl x s = x <<< UInt64.ofNat s

def Memory.byte (m : Memory) (i : ℕ) : UInt8 :=
  (m.message[i]?).getD (m.beyond (i - m.message.length))

/-- `base` is the index of `data` relative to the first byte of the message. -/
structure Reader where
  base : ℕ
  size : ℕ
  offset : ℕ
  deriving DecidableEq

namespace Reader

def hasMore (r : Reader) : Bool := decide (r.offset < r.size)

def advance (r : Reader) (n : ℕ) : Reader := { r with offset := sizeT (r.offset + n) }

@[simp] theorem hasMore_iff (r : Reader) : r.hasMore = true ↔ r.offset < r.size := by
  simp [hasMore]

@[simp] theorem advance_base (r : Reader) (n : ℕ) : (r.advance n).base = r.base := rfl
def Within (r s : Reader) : Prop := s.base ≤ r.base ∧ r.base + r.size ≤ s.base + s.size

def Holds (r : Reader) (i : ℕ) : Prop := r.base ≤ i ∧ i < r.base + r.size

theorem Within.trans {r s t : Reader} (h : r.Within s) (h' : s.Within t) : r.Within t :=
  ⟨h'.1.trans h.1, h.2.trans h'.2⟩

end Reader

structure IceServerInfo where
  urls : List (List UInt8)
  username : List UInt8
  credential : List UInt8
  deriving DecidableEq

inductive Signal where
  | iceServer (info : IceServerInfo)
  | joinResponse
  | offer (sdp : List UInt8)
  | answer (sdp : List UInt8)
  | trickle (candidate : List UInt8) (target : ℤ)
  | trackPublished (cid sid : List UInt8)
  deriving DecidableEq

inductive Event where
  /-- the byte with this index was read through this reader -/
  | read (r : Reader) (i : ℕ)
  /-- a nested reader was cut from this one -/
  | cut (parent child : Reader)
  /-- a loop iteration took the reader from one state to the other -/
  | iteration (before after : Reader)
  | signal (s : Signal)
  deriving DecidableEq

inductive Fault where
  /-- `std::length_error`, thrown by the string constructor -/
  | lengthError
  deriving DecidableEq

abbrev Parse := Outcome Fault Event

/-! ## `read_varint` -/

/-- The value read, the reader behind it, and for each byte its index and the shift applied. -/
structure Varint where
  value : UInt64
  reader : Reader
  steps : List (ℕ × ℕ)

/-- The loop of `read_varint`; the first argument counts the bytes left in the window. -/
def Memory.varintLoop (m : Memory) : ℕ → Reader → UInt64 → ℕ → Varint
  | 0, r, _, _ => ⟨0, r, []⟩
  | left + 1, r, val, shift =>
    let i := r.base + r.offset
    let byte := m.byte i
    let r' := { r with offset := r.offset + 1 }
    let val' := val ||| m.shl (byte &&& 0x7F).toUInt64 shift
    if byte &&& 0x80 = 0 then ⟨val', r', [(i, shift)]⟩
    else
      let rest := m.varintLoop left r' val' (shift + 7)
      { rest with steps := (i, shift) :: rest.steps }

def Memory.varint (m : Memory) (r : Reader) : Varint := m.varintLoop (r.size - r.offset) r 0 0

theorem varintLoop_spec (m : Memory) (left : ℕ) (r : Reader) (val : UInt64) (shift : ℕ) :
    (m.varintLoop left r val shift).reader.base = r.base ∧
    (m.varintLoop left r val shift).reader.size = r.size ∧
    r.offset ≤ (m.varintLoop left r val shift).reader.offset ∧
    (m.varintLoop left r val shift).reader.offset ≤ r.offset + left ∧
    (0 < left → r.offset < (m.varintLoop left r val shift).reader.offset) ∧
    ∀ x ∈ (m.varintLoop left r val shift).steps,
      r.base + r.offset ≤ x.1 ∧ x.1 < r.base + r.offset + left := by
  induction left generalizing r val shift with
  | zero => simp [Memory.varintLoop]
  | succ left ih =>
    simp only [Memory.varintLoop]
    split_ifs with hb
    · simp
    · obtain ⟨h1, h2, h3, h4, -, h6⟩ := ih { r with offset := r.offset + 1 }
        (val ||| m.shl (m.byte (r.base + r.offset) &&& 0x7F).toUInt64 shift) (shift + 7)
      simp only at h1 h2 h3 h4 h6
      refine ⟨h1, h2, by simp only; omega, by simp only; omega, fun _ => by simp only; omega, ?_⟩
      simp only [List.mem_cons, forall_eq_or_imp]
      exact ⟨by omega, fun x hx => by have := h6 x hx; omega⟩

section
variable (m : Memory) (r : Reader)

@[simp] theorem varint_base : (m.varint r).reader.base = r.base :=
  (varintLoop_spec m _ r 0 0).1

@[simp] theorem varint_size : (m.varint r).reader.size = r.size :=
  (varintLoop_spec m _ r 0 0).2.1

theorem varint_offset_ge : r.offset ≤ (m.varint r).reader.offset :=
  (varintLoop_spec m _ r 0 0).2.2.1

theorem varint_offset_le (h : r.offset ≤ r.size) : (m.varint r).reader.offset ≤ r.size := by
  have h' := (varintLoop_spec m (r.size - r.offset) r 0 0).2.2.2.1
  change (m.varint r).reader.offset ≤ _ at h'
  omega

theorem varint_offset_lt (h : r.offset < r.size) : r.offset < (m.varint r).reader.offset :=
  (varintLoop_spec m _ r 0 0).2.2.2.2.1 (by omega)

theorem varint_steps_holds {x : ℕ × ℕ} (hx : x ∈ (m.varint r).steps) : r.Holds x.1 := by
  have h := (varintLoop_spec m _ r 0 0).2.2.2.2.2 x hx
  constructor <;> omega

def readVarint : Parse (UInt64 × Reader) :=
  ⟨(m.varint r).steps.map fun x => .read r x.1, .done ((m.varint r).value, (m.varint r).reader)⟩

/-! ## `read_string`, `skip_field` and the nested readers -/

def readString : Parse (List UInt8 × Reader) := do
  let (len, r) ← readVarint m r
  if r.size < sizeT (r.offset + len.toNat) then return ([], r)
  else if maxSize < len.toNat then .throw .lengthError
  else
    let indices := (List.range len.toNat).map (r.base + r.offset + ·)
    .emit (indices.map (.read r ·))
    return (indices.map m.byte, r.advance len.toNat)

/-- `skip_field`; the wire types 3, 4, 6 and 7 skip nothing. -/
def skipField (wire : ℕ) : Parse Reader :=
  if wire = 0 then do
    let (_, r) ← readVarint m r
    return r
  else if wire = 2 then do
    let (len, r) ← readVarint m r
    return r.advance len.toNat
  else if wire = 1 then return r.advance 8
  else if wire = 5 then return r.advance 4
  else return r

theorem readString_result : (readString m r).status =
    if r.size < sizeT ((m.varint r).reader.offset + (m.varint r).value.toNat) then
      .done ([], (m.varint r).reader)
    else if maxSize < (m.varint r).value.toNat then .thrown .lengthError
    else .done (((List.range (m.varint r).value.toNat).map
      ((m.varint r).reader.base + (m.varint r).reader.offset + ·)).map m.byte,
        (m.varint r).reader.advance (m.varint r).value.toNat) := by
  rw [← varint_size m r]
  simp only [readString, Outcome.bind_eq_andThen, readVarint, Outcome.andThen]
  split_ifs with hlong hhuge
  · simp only [Outcome.pure_eq_ret, Outcome.ret_status]
  · simp only [Outcome.throw_status]
  · simp only [Outcome.pure_eq_ret, Outcome.emit_status, Outcome.ret_status]

theorem skipField_result (wire : ℕ) : (skipField m r wire).status =
    .done (if wire = 0 then (m.varint r).reader
      else if wire = 2 then (m.varint r).reader.advance (m.varint r).value.toNat
      else if wire = 1 then r.advance 8
      else if wire = 5 then r.advance 4
      else r) := by
  simp only [skipField, Outcome.bind_eq_andThen, readVarint, Outcome.andThen]
  split_ifs <;> rfl

/-- `pb_reader child{reader.data + reader.offset, len}; reader.offset += len;` -/
def nested : Parse (Reader × Reader) := do
  let (len, r) ← readVarint m r
  let child : Reader := ⟨r.base + r.offset, len.toNat, 0⟩
  .emit [.cut r child]
  return (child, r.advance len.toNat)

end

end Stoatpp.Voice
