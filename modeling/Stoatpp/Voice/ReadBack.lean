import Mathlib.Algebra.Group.Int.Defs
import Stoatpp.Library.Words
import Stoatpp.Voice.ParserSafety
import Stoatpp.Voice.Writer

/-!
# Reading what was written

A window that spells the encoding of some fields is read field by field: a varint comes back
from its bytes whatever follows them, a payload is read or skipped to its end, and the loop ends
where the window does with what its table makes of each field in turn.
-/

namespace Stoatpp.Voice
open Stoatpp.Library

/-! ## Windows that spell something -/

def Memory.Spells (m : Memory) : ℕ → List UInt8 → Prop
  | _, [] => True
  | i, byte :: rest => m.byte i = byte ∧ m.Spells (i + 1) rest

/-- The window spells these bytes next. -/
structure Spelled (m : Memory) (r : Reader) (bytes : List UInt8) : Prop where
  spells : m.Spells (r.base + r.offset) bytes
  room : r.offset + bytes.length ≤ r.size
  size : r.size < 2 ^ 63

def Reader.past (r : Reader) (n : ℕ) : Reader := { r with offset := r.offset + n }

@[simp] theorem past_base (r : Reader) (n : ℕ) : (r.past n).base = r.base := rfl
@[simp] theorem past_size (r : Reader) (n : ℕ) : (r.past n).size = r.size := rfl
@[simp] theorem past_offset (r : Reader) (n : ℕ) : (r.past n).offset = r.offset + n := rfl

theorem past_past (r : Reader) (a b : ℕ) : (r.past a).past b = r.past (a + b) := by
  simp only [Reader.past, Nat.add_assoc]

theorem advance_eq_past {r : Reader} {n : ℕ} (h : r.offset + n < 2 ^ 64) : r.advance n = r.past n := by
  rw [Reader.advance, Reader.past, sizeT, Nat.mod_eq_of_lt h]

variable {m : Memory} {r : Reader} {i : ℕ}

theorem spells_append {before after : List UInt8} :
    m.Spells i (before ++ after) ↔ m.Spells i before ∧ m.Spells (i + before.length) after := by
  induction before generalizing i with
  | nil => exact (true_and _).symm ▸ Iff.rfl
  | cons byte rest ih =>
    have hindex : i + (byte :: rest).length = i + 1 + rest.length := by
      rw [List.length_cons]
      omega
    rw [List.cons_append, Memory.Spells, Memory.Spells, ih, hindex, and_assoc]

theorem Spelled.append {before after : List UInt8} (h : Spelled m r (before ++ after)) :
    Spelled m r before ∧ Spelled m (r.past before.length) after := by
  obtain ⟨hspells, hroom, hsize⟩ := h
  obtain ⟨hbefore, hafter⟩ := spells_append.mp hspells
  rw [List.length_append] at hroom
  rw [Nat.add_assoc] at hafter
  refine ⟨⟨hbefore, by omega, hsize⟩, ⟨hafter, ?_, hsize⟩⟩
  rw [past_offset, past_size]
  omega

theorem spells_range {bytes : List UInt8} (h : m.Spells i bytes) :
    ((List.range bytes.length).map (i + ·)).map m.byte = bytes := by
  induction bytes generalizing i with
  | nil => rfl
  | cons byte rest ih =>
    obtain ⟨hbyte, hrest⟩ := h
    have hih := ih hrest
    simp only [List.map_map] at hih ⊢
    rw [List.length_cons, List.range_succ_eq_map, List.map_cons, List.map_map]
    refine congrArg₂ _ hbyte ?_
    refine Eq.trans (List.map_congr_left fun k _ => ?_) hih
    exact congrArg m.byte (by simp only; omega)

theorem varintLoop_written {x : UInt64} {shift left : ℕ} (val : UInt64)
    (hspells : m.Spells (r.base + r.offset) (varintBytes x)) (hleft : (varintBytes x).length ≤ left)
    (hshift : shift < 64) (hx : x.toNat * 2 ^ shift < 2 ^ 64) :
    (m.varintLoop left r val shift).value = val ||| x <<< UInt64.ofNat shift ∧
      (m.varintLoop left r val shift).reader = r.past (varintBytes x).length := by
  induction hn : x.toNat using Nat.strongRecOn generalizing x r val shift left with
  | ind n ih =>
    by_cases hlarge : 0x80 ≤ x
    · rw [varintBytes_large hlarge] at hspells hleft ⊢
      obtain ⟨hbyte, hrest⟩ := hspells
      obtain ⟨hlow, hhigh⟩ := continued_septet x
      obtain ⟨hroom, hnext⟩ := septet_room hlarge hx
      cases left with
      | zero => cases hleft
      | succ left =>
        have hread := ih (x >>> 7).toNat (hn ▸ Writer.shiftRight_lt hlarge)
          (r := { r with offset := r.offset + 1 }) (val ||| (x &&& 0x7F) <<< UInt64.ofNat shift)
          hrest (Nat.le_of_succ_le_succ hleft) hroom hnext rfl
        rw [or_shiftLeft_split val x hroom] at hread
        rw [Memory.varintLoop]
        simp only [hbyte, hlow, if_neg hhigh, m.shl_eq _ _ hshift]
        refine ⟨hread.1, hread.2.trans ?_⟩
        simp only [Reader.past, List.length_cons, Reader.mk.injEq, true_and]
        omega
    · rw [varintBytes_small hlarge] at hspells hleft ⊢
      obtain ⟨hbyte, -⟩ := hspells
      obtain ⟨hlow, hhigh⟩ := last_septet hlarge
      cases left with
      | zero => cases hleft
      | succ left =>
        rw [Memory.varintLoop]
        simp only [hbyte, hlow, if_pos hhigh, m.shl_eq _ _ hshift]
        exact ⟨trivial, rfl⟩

/-- Whatever follows its bytes, a varint comes back. -/
theorem Spelled.varint {x : UInt64} (h : Spelled m r (varintBytes x)) :
    (m.varint r).value = x ∧ (m.varint r).reader = r.past (varintBytes x).length := by
  have hroom := h.room
  have hleft : (varintBytes x).length ≤ r.size - r.offset := by omega
  have hx : x.toNat * 2 ^ 0 < 2 ^ 64 := by
    rw [Nat.pow_zero, Nat.mul_one]
    exact x.toNat_lt
  have hread := varintLoop_written 0 h.spells hleft (by decide) hx
  refine ⟨hread.1.trans ?_, hread.2⟩
  simp

/-! ## Payloads -/

section
variable {s : List UInt8}

theorem length_toNat (h : Spelled m r (prefixed s)) : (UInt64.ofNat s.length).toNat = s.length := by
  obtain ⟨-, hroom, hsize⟩ := h
  rw [prefixed, List.length_append] at hroom
  rw [UInt64.toNat_ofNat']
  exact Nat.mod_eq_of_lt (by omega)

theorem advance_prefixed (h : Spelled m r (prefixed s)) :
    (r.past (varintBytes (UInt64.ofNat s.length)).length).advance s.length = r.past (prefixed s).length := by
  obtain ⟨-, hroom, hsize⟩ := h
  rw [prefixed, List.length_append] at hroom ⊢
  rw [advance_eq_past (by rw [past_offset]; omega), past_past]

theorem Spelled.readString (h : Spelled m r (prefixed s)) :
    (readString m r).status = .done (s, r.past (prefixed s).length) := by
  obtain ⟨hlength, hbytes⟩ := h.append
  obtain ⟨hvalue, hreader⟩ := hlength.varint
  have hnat := length_toNat h
  have hadvance := advance_prefixed h
  have hchars := spells_range hbytes.spells
  obtain ⟨-, hroom, hsize⟩ := hbytes
  generalize (varintBytes (UInt64.ofNat s.length)).length = n at hreader hadvance hchars hroom ⊢
  rw [past_offset, past_size] at hroom
  rw [past_size] at hsize
  have hend : sizeT (r.offset + n + s.length) = r.offset + n + s.length := Nat.mod_eq_of_lt (by omega)
  have hfits : ¬ r.size < r.offset + n + s.length := by omega
  have hmax : ¬ maxSize < s.length := by
    rw [maxSize]
    omega
  simp only [past_base, past_offset] at hchars
  simp only [Voice.readString, Outcome.bind_eq_andThen, readVarint, Outcome.andThen, hvalue, hreader, hnat,
    past_base, past_size, past_offset, hend, if_neg hfits, if_neg hmax, hadvance, hchars, Outcome.emit_status,
    Outcome.pure_eq_ret, Outcome.ret_status]

theorem Spelled.skipField (payload : Payload) (h : Spelled m r payload.bytes) :
    (skipField m r payload.wire).status = .done (r.past payload.bytes.length) := by
  have hprefixed (s : List UInt8) (h : Spelled m r (prefixed s)) :
      (Voice.skipField m r 2).status = .done (r.past (prefixed s).length) := by
    obtain ⟨hvalue, hreader⟩ := h.append.1.varint
    simp only [Voice.skipField, Outcome.bind_eq_andThen, readVarint, Outcome.andThen, hvalue, hreader,
      length_toNat h, advance_prefixed h]
    rfl
  cases payload with
  | varint val =>
    obtain ⟨-, hreader⟩ := h.varint
    simp only [Voice.skipField, Payload.wire, Outcome.bind_eq_andThen, readVarint, Outcome.andThen, hreader]
    rfl
  | string s => exact hprefixed s h
  | message s => exact hprefixed s h

end

/-! ## Keys -/

theorem key_toNat {f : ℤ} (h : 0 < f) (h' : f < 2 ^ 28) (w : ℕ) (hw : w < 8) :
    (Writer.key f w).toNat = f.toNat * 8 + w := by
  obtain ⟨n, rfl⟩ := Int.eq_ofNat_of_zero_le (Int.le_of_lt h)
  have hn : n < 2 ^ 28 := by omega
  have hword : (BitVec.ofNat 32 n <<< 3 ||| BitVec.ofNat 32 w).toNat = n * 8 + w := by
    have hshift : (n % 2 ^ 32) <<< 3 % 2 ^ 32 = n <<< 3 := by
      rw [Nat.mod_eq_of_lt (by omega : n < 2 ^ 32), Nat.shiftLeft_eq]
      omega
    rw [BitVec.toNat_or, BitVec.toNat_shiftLeft, BitVec.toNat_ofNat, BitVec.toNat_ofNat, hshift,
      Nat.mod_eq_of_lt (by omega : w < 2 ^ 32), ← Nat.shiftLeft_add_eq_or_of_lt (by omega : w < 2 ^ 3),
      Nat.shiftLeft_eq]
  have hsign : (BitVec.ofNat 32 n <<< 3 ||| BitVec.ofNat 32 w).msb = false := by
    rw [BitVec.msb_eq_decide, hword]
    exact decide_eq_false (by omega)
  change ((BitVec.ofInt 32 (n : ℤ) <<< 3 ||| BitVec.ofInt 32 (w : ℤ)).signExtend 64).toNat = n * 8 + w
  rw [BitVec.ofInt_natCast, BitVec.ofInt_natCast, BitVec.signExtend_eq_setWidth_of_msb_false hsign,
    BitVec.toNat_setWidth, hword]
  omega

theorem fieldNum_key {f : ℤ} (h : 0 < f) (h' : f < 2 ^ 28) (w : ℕ) (hw : w < 8) :
    fieldNum (Writer.key f w) = f := by
  have hdiv : (f.toNat * 8 + w) / 2 ^ 3 = f.toNat := by omega
  have hword : (BitVec.ofNat 32 f.toNat).toNat = f.toNat := Nat.mod_eq_of_lt (by omega)
  rw [fieldNum, key_toNat h h' w hw, Nat.shiftRight_eq_div_pow, hdiv,
    BitVec.toInt_eq_toNat_of_lt (by rw [hword]; omega), hword]
  omega
theorem wireType_key {f : ℤ} (h : 0 < f) (h' : f < 2 ^ 28) (w : ℕ) (hw : w < 8) :
    wireType (Writer.key f w) = w := by
  rw [wireType, key_toNat h h' w hw]
  omega

/-! ## Fields -/

variable {σ : Type} {table : ℤ → ℕ → Action σ}

def Action.effect (act : Action σ) (payload : Payload) (s : σ) : σ :=
  match act with
  | .text store => (payload.bytes?.map (store s)).getD s
  | .number store => (payload.varint?.map (store s)).getD s
  | _ => s

/-- No nested reader is cut, and strings and numbers are read from their own wire types. -/
def Flat (table : ℤ → ℕ → Action σ) : Prop :=
  ∀ f w, (∃ store, table f w = .text store ∧ w = 2) ∨ (∃ store, table f w = .number store ∧ w = 0) ∨
    table f w = .skip

theorem perform_written (hflat : Flat table) (f : ℤ) {payload : Payload} (h : Spelled m r payload.bytes)
    (s : σ) : ((table f payload.wire).perform m payload.wire r s).Yields
      (r.past payload.bytes.length, (table f payload.wire).effect payload s) := by
  obtain ⟨store, htable, hwire⟩ | ⟨store, htable, hwire⟩ | htable := hflat f payload.wire
  · rw [htable, Action.perform, Process.yields_bind]
    cases payload with
    | varint val => cases hwire
    | string str => exact ⟨_, (Process.yields_lift _ _).mpr h.readString, (Process.yields_pure _ _).mpr rfl⟩
    | message str => exact ⟨_, (Process.yields_lift _ _).mpr h.readString, (Process.yields_pure _ _).mpr rfl⟩
  · rw [htable, Action.perform, Process.yields_bind]
    cases payload with
    | varint val =>
      obtain ⟨hvalue, hreader⟩ := h.varint
      refine ⟨(val, r.past (varintBytes val).length), (Process.yields_lift _ _).mpr ?_,
        (Process.yields_pure _ _).mpr rfl⟩
      rw [readVarint, hvalue, hreader]
    | _ => cases hwire
  · rw [htable, Action.perform, Process.yields_bind]
    exact ⟨_, (Process.yields_lift _ _).mpr (h.skipField payload), (Process.yields_pure _ _).mpr rfl⟩

def Field.Numbered (f : Field) : Prop := 0 < f.number ∧ f.number < 2 ^ 28

def Field.effect (table : ℤ → ℕ → Action σ) (s : σ) (f : Field) : σ :=
  (table f.number f.payload.wire).effect f.payload s

theorem fieldStep_written (hflat : Flat table) {f : Field} (hf : f.Numbered) (h : Spelled m r f.bytes) (s : σ) :
    (fieldStep m table (r, s)).Yields (r.past f.bytes.length, f.effect table s) := by
  obtain ⟨hkey, hpayload⟩ := h.append
  obtain ⟨hvalue, hreader⟩ := hkey.varint
  have hwire : f.payload.wire < 8 := by cases f.payload <;> simp [Payload.wire]
  have hperform := perform_written hflat f.number hpayload s
  rw [past_past, ← List.length_append] at hperform
  rw [fieldStep, Process.yields_bind]
  refine ⟨(Writer.key f.number f.payload.wire, r.past (varintBytes (Writer.key f.number f.payload.wire)).length),
    (Process.yields_lift _ _).mpr (by rw [readVarint, hvalue, hreader]), ?_⟩
  rw [Process.yields_bind, fieldNum_key hf.1 hf.2 _ hwire, wireType_key hf.1 hf.2 _ hwire]
  refine ⟨_, hperform, ?_⟩
  rw [Process.yields_bind]
  exact ⟨(), (Process.yields_lift _ _).mpr rfl, (Process.yields_pure _ _).mpr rfl⟩

theorem Field.bytes_ne_nil (f : Field) : f.bytes ≠ [] := by
  have hkey : varintBytes (Writer.key f.number f.payload.wire) ≠ [] := by
    by_cases hlarge : 0x80 ≤ Writer.key f.number f.payload.wire
    · rw [varintBytes_large hlarge]
      exact List.cons_ne_nil _ _
    · rw [varintBytes_small hlarge]
      exact List.cons_ne_nil _ _
  exact List.append_ne_nil_of_left_ne_nil hkey _

theorem rounds_written (hflat : Flat table) {fields : List Field} (hf : ∀ f ∈ fields, f.Numbered)
    (h : Spelled m r (encode fields)) (s : σ) :
    Process.Rounds (fun x => x.1.hasMore) (fieldStep m table) (r, s)
      (r.past (encode fields).length, fields.foldl (Field.effect table) s) := by
  rw [encode_eq_flatMap] at h ⊢
  induction fields generalizing r s with
  | nil => exact .refl
  | cons f rest ih =>
    rw [List.flatMap_cons] at h ⊢
    obtain ⟨hfield, hrest⟩ := h.append
    have hstep := fieldStep_written hflat (hf f List.mem_cons_self) hfield s
    have hmore : r.hasMore = true := by
      have hlength := List.length_pos_iff.mpr (Field.bytes_ne_nil f)
      have hroom := hfield.room
      rw [Reader.hasMore_iff]
      omega
    have hrounds := ih (fun f hmem => hf f (List.mem_cons_of_mem _ hmem)) hrest (f.effect table s)
    rw [past_past, ← List.length_append] at hrounds
    exact .head ⟨hmore, hstep⟩ hrounds

theorem whileLoop_written (hflat : Flat table) {fields : List Field} (hf : ∀ f ∈ fields, f.Numbered)
    (h : Spelled m r (encode fields)) (hend : r.offset + (encode fields).length = r.size) (s : σ) :
    (Process.whileLoop (fun x => x.1.hasMore) (fieldStep m table) (r, s)).Yields
      ({ r with offset := r.size }, fields.foldl (Field.effect table) s) := by
  have hrounds := rounds_written hflat hf h s
  rw [Reader.past, hend] at hrounds
  refine (Process.yields_whileLoop _ _).mpr ⟨hrounds, ?_⟩
  exact decide_eq_false (lt_irrefl r.size)

/-! ## The loops of the source -/

def Field.bytes? (n : ℤ) (f : Field) : Option (List UInt8) := if f.number = n then f.payload.bytes? else none

def Field.varint? (n : ℤ) (f : Field) : Option UInt64 := if f.number = n then f.payload.varint? else none

/-- The byte string written last with this number. -/
def lastBytes (n : ℤ) (fields : List Field) : Option (List UInt8) := (fields.filterMap (Field.bytes? n)).getLast?

def lastVarint (n : ℤ) (fields : List Field) : Option UInt64 := (fields.filterMap (Field.varint? n)).getLast?

theorem getLast?_filterMap_cons {α β : Type} (g : α → Option β) (x : α) (xs : List α) :
    ((x :: xs).filterMap g).getLast? = (xs.filterMap g).getLast?.or (g x) := by
  cases hx : g x with
  | none => rw [List.filterMap_cons_none hx, Option.or_none]
  | some y =>
    rw [List.filterMap_cons_some hx, List.getLast?_cons]
    cases (xs.filterMap g).getLast? <;> rfl

theorem lastBytes_cons (n : ℤ) (f : Field) (rest : List Field) :
    lastBytes n (f :: rest) = (lastBytes n rest).or (f.bytes? n) := getLast?_filterMap_cons _ _ _

theorem lastVarint_cons (n : ℤ) (f : Field) (rest : List Field) :
    lastVarint n (f :: rest) = (lastVarint n rest).or (f.varint? n) := getLast?_filterMap_cons _ _ _

theorem sdpTable_flat : Flat sdpTable := by
  intro f w
  simp only [sdpTable]
  split_ifs with htype htext
  · exact .inl ⟨_, rfl, htype.2⟩
  · exact .inl ⟨_, rfl, htext.2⟩
  · exact .inr (.inr rfl)

theorem trickleTable_flat : Flat trickleTable := by
  intro f w
  simp only [trickleTable]
  split_ifs with hcandidate htarget
  · exact .inl ⟨_, rfl, hcandidate.2⟩
  · exact .inr (.inl ⟨_, rfl, htarget.2⟩)
  · exact .inr (.inr rfl)

/-- Both messages have the fields 1 and 2 only. -/
theorem Field.one_two_other {P : Field → Prop} (hone : ∀ payload, P ⟨1, payload⟩) (htwo : ∀ payload, P ⟨2, payload⟩)
    (hother : ∀ number payload, number ≠ 1 → number ≠ 2 → P ⟨number, payload⟩) (f : Field) : P f := by
  obtain ⟨number, payload⟩ := f
  by_cases h1 : number = 1
  · subst h1
    exact hone payload
  · by_cases h2 : number = 2
    · subst h2
      exact htwo payload
    · exact hother number payload h1 h2

theorem sdp_effect (s : SessionDescription) (f : Field) :
    f.effect sdpTable s = ⟨(f.bytes? 1).getD s.sdpType, (f.bytes? 2).getD s.sdpText⟩ := by
  induction f using Field.one_two_other with
  | hone payload => cases payload <;> rfl
  | htwo payload => cases payload <;> rfl
  | hother number payload hone htwo =>
    have htable : sdpTable number payload.wire = .skip := by simp [sdpTable, hone, htwo]
    simp only [Field.effect, Field.bytes?, htable, if_neg hone, if_neg htwo]
    rfl

theorem sdp_foldl (fields : List Field) (s : SessionDescription) : fields.foldl (Field.effect sdpTable) s =
    ⟨(lastBytes 1 fields).getD s.sdpType, (lastBytes 2 fields).getD s.sdpText⟩ := by
  induction fields generalizing s with
  | nil => rfl
  | cons f rest ih =>
    rw [List.foldl_cons, ih, sdp_effect, lastBytes_cons, lastBytes_cons, Option.getD_or, Option.getD_or]

/-- `int target`, the low 32 bits of a varint. -/
def targetOf (v : UInt64) : ℤ := (BitVec.ofNat 32 v.toNat).toInt

theorem targetOf_small {v : UInt64} (h : v.toNat < 2 ^ 31) : targetOf v = v.toNat := by
  have hword : (BitVec.ofNat 32 v.toNat).toNat = v.toNat := Nat.mod_eq_of_lt (by omega)
  rw [targetOf, BitVec.toInt_eq_toNat_of_lt (by rw [hword]; omega), hword]

theorem trickle_effect (s : Trickle) (f : Field) : f.effect trickleTable s =
    ⟨(f.bytes? 1).getD s.candInit, ((f.varint? 2).map targetOf).getD s.target⟩ := by
  induction f using Field.one_two_other with
  | hone payload => cases payload <;> rfl
  | htwo payload => cases payload <;> rfl
  | hother number payload hone htwo =>
    have htable : trickleTable number payload.wire = .skip := by simp [trickleTable, hone, htwo]
    simp only [Field.effect, Field.bytes?, Field.varint?, htable, if_neg hone, if_neg htwo]
    rfl

theorem trickle_foldl (fields : List Field) (s : Trickle) : fields.foldl (Field.effect trickleTable) s =
    ⟨(lastBytes 1 fields).getD s.candInit, ((lastVarint 2 fields).map targetOf).getD s.target⟩ := by
  induction fields generalizing s with
  | nil => rfl
  | cons f rest ih =>
    rw [List.foldl_cons, ih, trickle_effect, lastBytes_cons, lastVarint_cons, Option.getD_or, Option.map_or,
      Option.getD_or]

theorem varint?_eq_some {n : ℤ} {f : Field} {v : UInt64} (h : f.varint? n = some v) : f = ⟨n, .varint v⟩ := by
  obtain ⟨number, payload⟩ := f
  simp only [Field.varint?, Option.ite_none_right_eq_some] at h
  obtain ⟨rfl, hpayload⟩ := h
  cases payload with
  | varint val => rw [Option.some.inj hpayload]
  | _ => cases hpayload

/-- Both loops read back what was written, and end where it ends. -/
theorem written_read_back (m : Memory) (base : ℕ) (fields : List Field)
    (hnumbers : ∀ f ∈ fields, 0 < f.number ∧ f.number < 2 ^ 28) (hlength : (encode fields).length < 2 ^ 63)
    (hspells : m.Spells base (encode fields)) :
    (∀ x, (Process.whileLoop (fun x => x.1.hasMore) (fieldStep m sdpTable)
        (⟨base, (encode fields).length, 0⟩, ⟨[], []⟩)).Yields x ↔
      x = (⟨base, (encode fields).length, (encode fields).length⟩,
        ⟨(lastBytes 1 fields).getD [], (lastBytes 2 fields).getD []⟩)) ∧
    ((∀ f ∈ fields, ∀ v, f = ⟨2, .varint v⟩ → v.toNat < 2 ^ 31) →
      ∀ x, (Process.whileLoop (fun x => x.1.hasMore) (fieldStep m trickleTable)
          (⟨base, (encode fields).length, 0⟩, ⟨[], 0⟩)).Yields x ↔
        x = (⟨base, (encode fields).length, (encode fields).length⟩,
          ⟨(lastBytes 1 fields).getD [], ((lastVarint 2 fields).map fun v => (v.toNat : ℤ)).getD 0⟩)) := by
  have hwindow : Spelled m ⟨base, (encode fields).length, 0⟩ (encode fields) :=
    ⟨hspells, (Nat.zero_add _).le, hlength⟩
  constructor
  · have hloop := whileLoop_written sdpTable_flat hnumbers hwindow (Nat.zero_add _) ⟨[], []⟩
    rw [sdp_foldl] at hloop
    exact fun x => ⟨fun hx => hx.unique hloop, fun hx => hx ▸ hloop⟩
  · intro hsmall
    have hloop := whileLoop_written trickleTable_flat hnumbers hwindow (Nat.zero_add _) ⟨[], 0⟩
    have htarget : (lastVarint 2 fields).map targetOf = (lastVarint 2 fields).map fun v => (v.toNat : ℤ) := by
      refine Option.map_congr fun v hv => targetOf_small ?_
      obtain ⟨f, hf, hread⟩ := List.mem_filterMap.mp (List.mem_of_getLast? hv)
      exact hsmall f hf v (varint?_eq_some hread)
    rw [trickle_foldl, htarget] at hloop
    exact fun x => ⟨fun hx => hx.unique hloop, fun hx => hx ▸ hloop⟩

theorem encode_candidate : encode [⟨1, .string [97]⟩, ⟨2, .varint 1⟩] = [10, 1, 97, 16, 1] := by
  have hfield (f : Field) (h : ¬ 0x80 ≤ Writer.key f.number f.payload.wire) : f.bytes =
      (Writer.key f.number f.payload.wire &&& 0x7F).toUInt8 :: f.payload.bytes := by
    rw [Field.bytes, varintBytes_small h]
    rfl
  have hone : varintBytes 1 = [1] := varintBytes_small (by decide)
  have hlength : varintBytes (UInt64.ofNat [(97 : UInt8)].length) = [1] := hone
  rw [encode_eq_flatMap, List.flatMap_cons, List.flatMap_cons, hfield _ (by decide), hfield _ (by decide)]
  simp only [Payload.bytes, prefixed, hlength, hone]
  rfl

/-- A candidate and a target as `send_trickle` writes them. -/
theorem candidate_read_back : (Process.whileLoop (fun x => x.1.hasMore)
    (fieldStep (.ofBytes [10, 1, 97, 16, 1] (by decide)) trickleTable) (⟨0, 5, 0⟩, ⟨[], 0⟩)).Yields
      (⟨0, 5, 5⟩, ⟨[97], 1⟩) := by
  have hnumbers : ∀ f ∈ [(⟨1, .string [97]⟩ : Field), ⟨2, .varint 1⟩], 0 < f.number ∧ f.number < 2 ^ 28 := by
    intro f hf
    obtain rfl | hf := List.mem_cons.mp hf
    · decide
    · obtain rfl := List.mem_singleton.mp hf
      decide
  have hread := written_read_back (.ofBytes [10, 1, 97, 16, 1] (by decide)) 0 _ hnumbers
  rw [encode_candidate] at hread
  obtain ⟨-, htrickle⟩ := hread (by decide) ⟨rfl, rfl, rfl, rfl, rfl, trivial⟩
  refine (htrickle ?_ _).mpr rfl
  intro f hf v hv
  subst hv
  obtain heq | hf := List.mem_cons.mp hf
  · cases heq
  · cases List.mem_singleton.mp hf
    decide

end Stoatpp.Voice
