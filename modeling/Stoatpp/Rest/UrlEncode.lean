import Stoatpp.Rest.Targets

/-!
# `url_encode` as it writes to its stream

The base and the fill of a stream stay set, its width is spent by the next insertion. Every escape
sets the case, the width and the fill again, so what one byte adds does not depend on the bytes in
front of it.
-/

namespace Stoatpp.Rest
open Stoatpp.Library

/-- `std::ostringstream` with the flags that `url_encode` uses. -/
structure OStringStream where
  str : Bytes := []
  hex : Bool := false
  uppercase : Bool := false
  width : ℕ := 0
  fill : UInt8 := 32

theorem urlEncode_append (s t : Bytes) : urlEncode (s ++ t) = urlEncode s ++ urlEncode t := List.flatMap_append

namespace OStringStream

/-- A formatted insertion: filled up to the width on the left, which is 0 again afterwards. -/
def insert (s : OStringStream) (cs : Bytes) : OStringStream :=
  { s with str := s.str ++ (List.replicate (s.width - cs.length) s.fill ++ cs), width := 0 }

def digit (s : OStringStream) (d : ℕ) : UInt8 :=
  UInt8.ofNat (if d < 10 then 48 + d else if s.uppercase then 55 + d else 87 + d)

def numeral (s : OStringStream) (n : ℕ) : Bytes :=
  if n = 0 then [48] else ((Nat.digits (if s.hex then 16 else 10) n).map s.digit).reverse

def putChar (s : OStringStream) (c : UInt8) : OStringStream := s.insert [c]

def putInt (s : OStringStream) (n : ℕ) : OStringStream := s.insert (s.numeral n)

/-- `static_cast<int>(c) & 0xFF`; a `char` from 128 on is negative. -/
def charCode (c : UInt8) : ℕ := (c.toBitVec.signExtend 32 &&& 0xFF).toNat

def escape (s : OStringStream) (c : UInt8) : OStringStream :=
  if isUnreserved c then s.putChar c
  else
    let s := s.putChar 37
    let s := { s with uppercase := true }
    let s := { s with width := 2 }
    let s := { s with fill := 48 }
    s.putInt (charCode c)

def urlEncode (value : Bytes) : Bytes :=
  let escaped : OStringStream := {}
  (value.foldl escape { escaped with hex := true }).str

/-! ## One character -/

theorem charCode_eq (c : UInt8) : charCode c = c.toNat := by
  revert c
  exact byte_cases (by decide +kernel)

theorem hexDigit_eq {s : OStringStream} (hs : s.uppercase = true) {d : ℕ} (hd : d < 16) :
    s.digit d = hexDigit (UInt8.ofNat d) := by
  have hlt : UInt8.ofNat d < 10 ↔ d < 10 := by
    rw [UInt8.lt_iff_toNat_lt, UInt8.toNat_ofNat', Nat.mod_eq_of_lt (by omega)]
    rfl
  simp only [digit, hexDigit, hlt, hs, if_true]
  split_ifs
  · exact UInt8.ofNat_add 48 d
  · exact UInt8.ofNat_add 55 d

/-- Two digits, the first of them written by the fill where the number has one. -/
theorem numeral_padded {s : OStringStream} (hhex : s.hex = true) (hupper : s.uppercase = true)
    (hfill : s.fill = 48) (c : UInt8) :
    List.replicate (2 - (s.numeral c.toNat).length) s.fill ++ s.numeral c.toNat =
      [hexDigit (c / 16), hexDigit (c % 16)] := by
  have hc := c.toNat_lt
  have hhigh : c / 16 = UInt8.ofNat (c.toNat / 16) := by
    rw [UInt8.ofNat_div (by omega) (by decide), UInt8.ofNat_toNat]
    rfl
  have hlow : c % 16 = UInt8.ofNat (c.toNat % 16) := by
    rw [UInt8.ofNat_mod (by omega) (by decide), UInt8.ofNat_toNat]
    rfl
  rw [hhigh, hlow, hfill]
  simp only [numeral, hhex, if_true]
  generalize c.toNat = n at hc
  split_ifs with hzero
  · rw [hzero]
    rfl
  · by_cases hone : n < 16
    · rw [Nat.digits_of_lt 16 n hzero hone, List.map_singleton, List.reverse_singleton, hexDigit_eq hupper hone,
        Nat.div_eq_of_lt hone, Nat.mod_eq_of_lt hone]
      rfl
    · have hdigits : Nat.digits 16 n = [n % 16, n / 16] := by
        rw [Nat.digits_def' (by decide) (by omega), Nat.digits_of_lt 16 (n / 16) (by omega) (by omega)]
      rw [hdigits, List.map_cons, List.map_singleton, hexDigit_eq hupper (Nat.mod_lt _ (by decide)),
        hexDigit_eq hupper (by omega)]
      rfl

/-- Between two characters the base is 16 and no width is set. -/
structure Ready (s : OStringStream) : Prop where
  hex : s.hex = true
  width : s.width = 0

theorem Ready.escape {s : OStringStream} (hs : s.Ready) (c : UInt8) :
    (s.escape c).Ready ∧ (s.escape c).str = s.str ++ Rest.urlEncode [c] := by
  simp only [OStringStream.escape, Rest.urlEncode, List.flatMap_cons, List.flatMap_nil, List.append_nil]
  split_ifs
  · simp only [putChar, insert, hs.width]
    exact ⟨⟨hs.hex, rfl⟩, rfl⟩
  · have hpadded := numeral_padded (s := { s.putChar 37 with uppercase := true, width := 2, fill := 48 })
      hs.hex rfl rfl c
    simp only [putInt, insert, charCode_eq]
    refine ⟨⟨hs.hex, rfl⟩, ?_⟩
    rw [hpadded]
    simp [putChar, insert, hs.width]

theorem foldl_escape {s : OStringStream} (hs : s.Ready) (value : Bytes) :
    (value.foldl OStringStream.escape s).str = s.str ++ Rest.urlEncode value := by
  induction value generalizing s with
  | nil => exact (List.append_nil _).symm
  | cons c rest ih =>
    obtain ⟨hready, hstr⟩ := hs.escape c
    rw [List.foldl_cons, ih hready, hstr, List.append_assoc, ← urlEncode_append]
    rfl

theorem urlEncode_eq (value : Bytes) : urlEncode value = Rest.urlEncode value :=
  foldl_escape ⟨rfl, rfl⟩ value

end OStringStream

/-! ## The encoded text -/

def isUpperHex (c : UInt8) : Bool := (48 ≤ c && c ≤ 57) || (65 ≤ c && c ≤ 70)

/-- Text of unreserved characters and of percent signs with two digits behind each. -/
inductive Escaped : Bytes → Prop where
  | nil : Escaped []
  | plain {c : UInt8} {rest : Bytes} : isUnreserved c = true → Escaped rest → Escaped (c :: rest)
  | escape {a b : UInt8} {rest : Bytes} : isUpperHex a = true → isUpperHex b = true → Escaped rest →
    Escaped (37 :: a :: b :: rest)

theorem hexDigit_upper (c : UInt8) :
    isUpperHex (hexDigit (c / 16)) = true ∧ isUpperHex (hexDigit (c % 16)) = true := by
  revert c
  exact byte_cases (by decide +kernel)

theorem urlEncode_escaped (value : Bytes) : Escaped (urlEncode value) := by
  induction value with
  | nil => exact .nil
  | cons c rest ih =>
    rw [urlEncode, List.flatMap_cons]
    split_ifs with hc
    · exact .plain hc ih
    · exact .escape (hexDigit_upper c).1 (hexDigit_upper c).2 ih

/-- Percent-decoding takes the encoding back, it consists of unreserved characters and upper-case
escapes, and it takes concatenations to concatenations; so different texts are encoded differently. -/
theorem url_encode_faithful (s t : Bytes) :
    percentDecode (OStringStream.urlEncode s) = s ∧ Escaped (OStringStream.urlEncode s) ∧
    OStringStream.urlEncode (s ++ t) = OStringStream.urlEncode s ++ OStringStream.urlEncode t ∧
    (OStringStream.urlEncode s = OStringStream.urlEncode t → s = t) := by
  simp only [OStringStream.urlEncode_eq]
  refine ⟨percentDecode_urlEncode s, urlEncode_escaped s, urlEncode_append s t, fun h => ?_⟩
  rw [← percentDecode_urlEncode s, h, percentDecode_urlEncode]

end Stoatpp.Rest
