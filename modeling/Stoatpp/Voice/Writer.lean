import Stoatpp.Library.Words
import Stoatpp.Voice.BinaryMessage

/-!
# The protobuf writer of the voice connection

`pb_writer` appends to its buffer. A field is a key and a payload; strings and nested
messages are written alike.
-/

namespace Stoatpp.Voice
open Stoatpp.Library

structure Writer where
  buffer : List UInt8

namespace Writer

def pushBack (w : Writer) (byte : UInt8) : Writer := ⟨w.buffer ++ [byte]⟩

def insert (w : Writer) (bytes : List UInt8) : Writer := ⟨w.buffer ++ bytes⟩

theorem shiftRight_lt {val : UInt64} (h : 0x80 ≤ val) : (val >>> 7).toNat < val.toNat := by
  have hval : 128 ≤ val.toNat := UInt64.le_iff_toNat_le.mp h
  rw [shiftRight_toNat]
  omega

def writeVarint (w : Writer) (val : UInt64) : Writer :=
  if 0x80 ≤ val then (w.pushBack ((val &&& 0x7F) ||| 0x80).toUInt8).writeVarint (val >>> 7)
  else w.pushBack (val &&& 0x7F).toUInt8
termination_by val.toNat
decreasing_by exact shiftRight_lt ‹_›

/-- `(field_num << 3) | wire_type` is an `int`, which is then widened. -/
def key (fieldNum wireType : ℤ) : UInt64 :=
  ⟨((BitVec.ofInt 32 fieldNum <<< 3) ||| BitVec.ofInt 32 wireType).signExtend 64⟩

def writeKey (w : Writer) (fieldNum wireType : ℤ) : Writer := w.writeVarint (key fieldNum wireType)

def writeString (w : Writer) (fieldNum : ℤ) (str : List UInt8) : Writer :=
  ((w.writeKey fieldNum 2).writeVarint (UInt64.ofNat str.length)).insert str

def writeMessage (w : Writer) (fieldNum : ℤ) (bytes : List UInt8) : Writer :=
  ((w.writeKey fieldNum 2).writeVarint (UInt64.ofNat bytes.length)).insert bytes

end Writer

/-! ## Fields -/

inductive Payload where
  | varint (val : UInt64)
  | string (str : List UInt8)
  | message (bytes : List UInt8)

structure Field where
  number : ℤ
  payload : Payload

namespace Payload

def wire : Payload → ℕ
  | varint _ => 0
  | _ => 2

def varint? : Payload → Option UInt64
  | varint val => some val
  | _ => none

def bytes? : Payload → Option (List UInt8)
  | varint _ => none
  | string s => some s
  | message s => some s

end Payload

def Writer.writeField (w : Writer) (f : Field) : Writer :=
  match f.payload with
  | .varint val => (w.writeKey f.number 0).writeVarint val
  | .string str => w.writeString f.number str
  | .message bytes => w.writeMessage f.number bytes

def encode (fields : List Field) : List UInt8 := (fields.foldl Writer.writeField ⟨[]⟩).buffer

/-! ## What is appended -/

def varintBytes (val : UInt64) : List UInt8 := (Writer.writeVarint ⟨[]⟩ val).buffer

namespace Writer

theorem writeVarint_append (before : List UInt8) (w : Writer) (val : UInt64) :
    (writeVarint ⟨before ++ w.buffer⟩ val).buffer = before ++ (w.writeVarint val).buffer := by
  fun_induction writeVarint w val with
  | case1 w val hlarge ih =>
    rw [writeVarint, if_pos hlarge]
    simpa only [pushBack, List.append_assoc] using ih
  | case2 w val hsmall =>
    rw [writeVarint, if_neg hsmall]
    exact List.append_assoc _ _ _

theorem writeVarint_buffer (w : Writer) (val : UInt64) :
    (w.writeVarint val).buffer = w.buffer ++ varintBytes val := by
  have happend := writeVarint_append w.buffer ⟨[]⟩ val
  rwa [List.append_nil] at happend

end Writer

theorem varintBytes_small {val : UInt64} (h : ¬ 0x80 ≤ val) :
    varintBytes val = [(val &&& 0x7F).toUInt8] := by
  rw [varintBytes, Writer.writeVarint, if_neg h]
  rfl

theorem varintBytes_large {val : UInt64} (h : 0x80 ≤ val) :
    varintBytes val = ((val &&& 0x7F) ||| 0x80).toUInt8 :: varintBytes (val >>> 7) := by
  rw [varintBytes, Writer.writeVarint, if_pos h, Writer.writeVarint_buffer]
  rfl

def prefixed (s : List UInt8) : List UInt8 := varintBytes (UInt64.ofNat s.length) ++ s

def Payload.bytes : Payload → List UInt8
  | varint val => varintBytes val
  | string s => prefixed s
  | message s => prefixed s

def Field.bytes (f : Field) : List UInt8 :=
  varintBytes (Writer.key f.number f.payload.wire) ++ f.payload.bytes

theorem writeField_buffer (w : Writer) (f : Field) : (w.writeField f).buffer = w.buffer ++ f.bytes := by
  obtain ⟨number, payload⟩ := f
  cases payload <;>
    simp only [Writer.writeField, Writer.writeString, Writer.writeMessage, Writer.insert, Writer.writeKey,
      Writer.writeVarint_buffer, Field.bytes, Payload.bytes, prefixed, Payload.wire, List.append_assoc] <;>
    rfl

theorem encode_eq_flatMap (fields : List Field) : encode fields = fields.flatMap Field.bytes := by
  suffices hfold : ∀ w : Writer, (fields.foldl Writer.writeField w).buffer =
      w.buffer ++ fields.flatMap Field.bytes from hfold ⟨[]⟩
  induction fields with
  | nil => exact fun w => (List.append_nil w.buffer).symm
  | cons f rest ih =>
    intro w
    rw [List.foldl_cons, ih, writeField_buffer, List.flatMap_cons, List.append_assoc]

end Stoatpp.Voice
