import Mathlib.Data.Rat.Floor
import Mathlib.Data.List.Basic

/-!
# JSON values

The values `nlohmann::json` holds and the accessors the client uses on them. Numbers are
64-bit integers of either sign or doubles, the fields of an object stand in key order as
`std::map` iterates them, and `raw` is a string by its bytes, valid UTF-8 or not, which the
parser never returns but the client can build.
-/

namespace Stoatpp

/-- Conversion to `int`, keeping the low 32 bits. -/
def int32 (n : ℤ) : ℤ := (BitVec.ofInt 32 n).toInt

theorem int32_of_range {n : ℤ} (h : -2 ^ 31 ≤ n) (h' : n < 2 ^ 31) : int32 n = n := by
  simp only [int32, BitVec.toInt_ofInt, Int.bmod_def]
  omega

theorem int32_range (n : ℤ) : -2 ^ 31 ≤ int32 n ∧ int32 n < 2 ^ 31 := by
  simp only [int32, BitVec.toInt_ofInt, Int.bmod_def]
  omega

inductive Json where
  | null
  | bool (b : Bool)
  | int (n : ℤ)
  | float (x : ℚ)
  | str (s : String)
  | raw (bytes : List UInt8)
  | arr (items : List Json)
  | obj (fields : List (String × Json))

namespace Json

/-- `j[key]` behind a test of `j.contains(key)`; other values than objects contain nothing. -/
def get? : Json → String → Option Json
  | .obj fields, key => fields.lookup key
  | _, _ => none

def contains (j : Json) (key : String) : Bool := (j.get? key).isSome

def isNull : Json → Bool
  | .null => true
  | _ => false

def isObject : Json → Bool
  | .obj _ => true
  | _ => false

def string? : Json → Option String
  | .str s => some s
  | _ => none

def bool? : Json → Option Bool
  | .bool b => some b
  | _ => none

def array? : Json → Option (List Json)
  | .arr items => some items
  | _ => none

def object? : Json → Option Json
  | .obj fields => some (.obj fields)
  | _ => none

/-- The value behind `is_number()`, truncated towards zero when it is a double. -/
def number? : Json → Option ℤ
  | .int n => some n
  | .float x => some (if 0 ≤ x then ⌊x⌋ else ⌈x⌉)
  | _ => none

/-- `j.contains(key) && j[key].is_string()`, and the string. -/
def text? (j : Json) (key : String) : Option String := (j.get? key).bind string?

def insertField (key : String) (value : Json) : List (String × Json) → List (String × Json)
  | [] => [(key, value)]
  | (k, v) :: rest =>
    if key = k then (key, value) :: rest
    else if key < k then (key, value) :: (k, v) :: rest
    else (k, v) :: insertField key value rest

/-- `j[key] = value`, which throws unless `j` is an object or null. -/
def set? (j : Json) (key : String) (value : Json) : Option Json :=
  match j with
  | .obj fields => some (.obj (insertField key value fields))
  | .null => some (.obj [(key, value)])
  | _ => none

/-- `j.erase(key)`, which throws unless `j` is an object. -/
def erase? (j : Json) (key : String) : Option Json :=
  match j with
  | .obj fields => some (.obj (fields.filter (·.1 ≠ key)))
  | _ => none

theorem lookup_field (key : String) (value : Json) (rest : List (String × Json)) (k : String) :
    ((key, value) :: rest).lookup k = if k = key then some value else rest.lookup k := by
  rw [List.lookup_cons]
  split_ifs with h
  · rw [h, beq_self_eq_true]
  · rw [beq_false_of_ne h]

theorem lookup_insertField (key : String) (value : Json) (fields : List (String × Json)) (k : String) :
    (insertField key value fields).lookup k = if k = key then some value else fields.lookup k := by
  induction fields with
  | nil => exact lookup_field key value [] k
  | cons field rest ih =>
    obtain ⟨key', value'⟩ := field
    rw [insertField, lookup_field key' value' rest]
    by_cases hkey : key = key'
    · rw [if_pos hkey, lookup_field]
      by_cases hk : k = key
      · rw [if_pos hk, if_pos hk]
      · rw [if_neg hk, if_neg hk, if_neg (hkey ▸ hk)]
    · rw [if_neg hkey]
      by_cases hlt : key < key'
      · rw [if_pos hlt, lookup_field, lookup_field]
      · rw [if_neg hlt, lookup_field, ih]
        by_cases hk : k = key
        · rw [if_pos hk, if_pos hk, if_neg (hk ▸ hkey)]
        · rw [if_neg hk, if_neg hk]

theorem lookup_filter_ne (key : String) (fields : List (String × Json)) (k : String) :
    (fields.filter (·.1 ≠ key)).lookup k = if k = key then none else fields.lookup k := by
  induction fields with
  | nil => simp
  | cons field rest ih =>
    obtain ⟨key', value'⟩ := field
    rw [lookup_field]
    by_cases hf : key' = key
    · rw [List.filter_cons_of_neg (by simpa using hf), ih, hf]
      by_cases h : k = key
      · rw [if_pos h, if_pos h]
      · rw [if_neg h, if_neg h, if_neg h]
    · rw [List.filter_cons_of_pos (by simpa using hf), lookup_field, ih]
      by_cases h : k = key
      · rw [if_pos h, if_pos h, if_neg (fun he => hf (he.symm.trans h))]
      · rw [if_neg h, if_neg h]

theorem get?_set? {j j' : Json} {key : String} {value : Json} (h : j.set? key value = some j')
    (k : String) : j'.get? k = if k = key then some value else j.get? k := by
  cases j with
  | obj fields =>
    obtain rfl := Option.some.inj h
    exact lookup_insertField key value fields k
  | null =>
    obtain rfl := Option.some.inj h
    exact lookup_insertField key value [] k
  | _ => cases h

/-- `j.items()`: the fields of an object, the elements of an array by their index, nothing for
null and the value itself under the empty key otherwise. -/
def items : Json → List (String × Json)
  | .obj fields => fields
  | .arr items => items.zipIdx.map fun x => (toString x.2, x.1)
  | .null => []
  | j => [("", j)]

end Json

/-! ## What can be dumped -/

def validUtf8 (bytes : List UInt8) : Bool := (ByteArray.mk bytes.toArray).validateUTF8

namespace Json
mutual

/-- All strings of the value are valid UTF-8; `dump` throws on any other value. -/
def clean : Json → Bool
  | .raw bytes => validUtf8 bytes
  | .arr items => cleanItems items
  | .obj fields => cleanFields fields
  | _ => true

def cleanItems : List Json → Bool
  | [] => true
  | j :: rest => j.clean && cleanItems rest

def cleanFields : List (String × Json) → Bool
  | [] => true
  | (_, j) :: rest => j.clean && cleanFields rest

end
end Json

end Stoatpp
