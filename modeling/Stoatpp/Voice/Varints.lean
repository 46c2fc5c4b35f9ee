import Stoatpp.Voice.ReadBack

/-!
# The lengths of varints

An encoding has a byte for each group of seven bits, at most ten, and none starts another one.
The reader counts nothing: it stops at a byte without the high bit or at the end of the window.
-/

namespace Stoatpp.Voice
open Stoatpp.Library

variable {m : Memory} {r : Reader}

/-! ## Encodings -/

theorem varintBytes_length_pos (v : UInt64) : 0 < (varintBytes v).length := by
  by_cases hlarge : 0x80 ≤ v
  · rw [varintBytes_large hlarge]
    exact Nat.succ_pos _
  · rw [varintBytes_small hlarge]
    exact Nat.one_pos

theorem varintBytes_length_le {k : ℕ} {v : UInt64} (h : v.toNat < 2 ^ (7 * (k + 1))) :
    (varintBytes v).length ≤ k + 1 := by
  induction k generalizing v with
  | zero =>
    have hsmall : ¬ 0x80 ≤ v := fun hlarge => absurd (UInt64.le_iff_toNat_le.mp hlarge) (Nat.not_le_of_lt h)
    rw [varintBytes_small hsmall]
    exact Nat.le_refl 1
  | succ k ih =>
    by_cases hlarge : 0x80 ≤ v
    · have hrest : (v >>> 7).toNat < 2 ^ (7 * (k + 1)) := by
        rw [shiftRight_toNat]
        rw [show 7 * (k + 1 + 1) = 7 * (k + 1) + 7 by omega, Nat.pow_add] at h
        exact Nat.div_lt_of_lt_mul (by omega)
      rw [varintBytes_large hlarge, List.length_cons]
      exact Nat.succ_le_succ (ih hrest)
    · rw [varintBytes_small hlarge]
      exact Nat.succ_le_succ (Nat.zero_le _)

theorem varintBytes_length_le_ten (v : UInt64) : (varintBytes v).length ≤ 10 := by
  have hlt := v.toNat_lt
  exact varintBytes_length_le (k := 9) (by omega)

theorem varintBytes_length_mono {v w : UInt64} (h : v ≤ w) :
    (varintBytes v).length ≤ (varintBytes w).length := by
  induction hn : v.toNat using Nat.strongRecOn generalizing v w with
  | ind n ih =>
    by_cases hlarge : 0x80 ≤ v
    · have hlarge' : 0x80 ≤ w := UInt64.le_trans hlarge h
      have hrest : v >>> 7 ≤ w >>> 7 := by
        rw [UInt64.le_iff_toNat_le, shiftRight_toNat, shiftRight_toNat]
        exact Nat.div_le_div_right (UInt64.le_iff_toNat_le.mp h)
      have hshorter := ih (v >>> 7).toNat (hn ▸ Writer.shiftRight_lt hlarge) hrest rfl
      rw [varintBytes_large hlarge, varintBytes_large hlarge', List.length_cons, List.length_cons]
      exact Nat.succ_le_succ hshorter
    · rw [varintBytes_small hlarge]
      exact varintBytes_length_pos w

/-! ## Round trip -/

theorem spells_message (before : List UInt8) {bytes after : List UInt8} (h : m.message = before ++ bytes ++ after) :
    m.Spells before.length bytes := by
  induction bytes generalizing before with
  | nil => trivial
  | cons byte rest ih =>
    have hbyte : m.message[before.length]? = some byte := by
      rw [h, List.append_assoc, List.getElem?_append_right (Nat.le_refl _), Nat.sub_self]
      rfl
    have hrest := ih (before ++ [byte]) (by rw [h]; simp)
    rw [List.length_append] at hrest
    refine ⟨?_, hrest⟩
    rw [Memory.byte, hbyte, Option.getD_some]

theorem spelled_message (before : List UInt8) {bytes after : List UInt8} (h : m.message = before ++ bytes ++ after) :
    Spelled m ⟨0, m.message.length, before.length⟩ bytes := by
  have hle := m.message_le
  refine ⟨?_, ?_, ?_⟩
  · simpa using spells_message before h
  · simp only [h, List.length_append]
    omega
  · simp only [maxSize] at hle ⊢
    omega

/-- Read from the same place, the shorter and the longer encoding give the same value. -/
theorem varintBytes_prefix_free {v w : UInt64} (h : varintBytes v <+: varintBytes w) : v = w := by
  obtain ⟨after, hafter⟩ := h
  have hlength : (varintBytes w).length ≤ maxSize := (varintBytes_length_le_ten w).trans (by decide)
  have hv := (spelled_message (m := .ofBytes (varintBytes w) hlength) [] hafter.symm).varint
  have hw := (spelled_message (m := .ofBytes (varintBytes w) hlength) []
    (List.append_nil _).symm).varint
  exact hv.1.symm.trans hw.1

/-- A varint comes back from behind any bytes and in front of any bytes, and the reader then stands
where the writer stood; the encodings have up to ten bytes, longer ones for larger values, and none is
a proper prefix of another. -/
theorem varint_round_trip (m : Memory) (before after : List UInt8) (v : UInt64)
    (hm : m.message = (Writer.writeVarint ⟨before⟩ v).buffer ++ after) :
    (readVarint m ⟨0, m.message.length, before.length⟩).status =
      .done (v, ⟨0, m.message.length, (Writer.writeVarint ⟨before⟩ v).buffer.length⟩) ∧
    (varintBytes v).length ≤ 10 ∧
    ∀ w, (v ≤ w → (varintBytes v).length ≤ (varintBytes w).length) ∧
      (varintBytes v <+: varintBytes w → varintBytes v = varintBytes w) := by
  rw [Writer.writeVarint_buffer] at hm ⊢
  obtain ⟨hvalue, hreader⟩ := (spelled_message before hm).varint
  refine ⟨?_, varintBytes_length_le_ten v, fun w => ⟨varintBytes_length_mono, fun h => ?_⟩⟩
  · rw [readVarint, hvalue, hreader, List.length_append]
    rfl
  · rw [varintBytes_prefix_free h]

theorem three_hundred_round_trip :
    (readVarint (.ofBytes [1, 0xAC, 0x02, 7] (by decide)) ⟨0, 4, 1⟩).status = .done (300, ⟨0, 4, 3⟩) := by
  have hbytes : varintBytes 300 = [0xAC, 0x02] := by
    rw [varintBytes_large (by decide), varintBytes_small (by decide)]
    rfl
  have hread := (varint_round_trip (.ofBytes [1, 0xAC, 0x02, 7] (by decide)) [1] [7] 300
    (by rw [Writer.writeVarint_buffer, hbytes]; rfl)).1
  rwa [Writer.writeVarint_buffer, hbytes] at hread

/-! ## What the reader takes -/

theorem varintLoop_offset (m : Memory) (left : ℕ) (r : Reader) (val : UInt64) (shift : ℕ) :
    (m.varintLoop left r val shift).reader.offset = r.offset + (m.varintLoop left r val shift).steps.length := by
  induction left generalizing r val shift with
  | zero => rfl
  | succ left ih =>
    simp only [Memory.varintLoop]
    split_ifs
    · rfl
    · simp only [ih, List.length_cons]
      omega

theorem varintLoop_shifts (m : Memory) (left : ℕ) (r : Reader) (val : UInt64) (shift : ℕ) :
    (m.varintLoop left r val shift).steps.map Prod.snd =
      (List.range (m.varintLoop left r val shift).steps.length).map (shift + 7 * ·) := by
  induction left generalizing r val shift with
  | zero => rfl
  | succ left ih =>
    simp only [Memory.varintLoop]
    split_ifs
    · rfl
    · simp only [List.map_cons, ih, List.length_cons, List.range_succ_eq_map, List.map_map]
      refine congrArg₂ _ rfl (List.map_congr_left fun i _ => ?_)
      simp only [Function.comp_apply]
      omega

/-- The loop takes no more than `k` bytes if there are no more, or one of them is the last. -/
theorem varintLoop_length_le_iff (m : Memory) (left : ℕ) (r : Reader) (val : UInt64) (shift k : ℕ) :
    (m.varintLoop left r val shift).steps.length ≤ k ↔
      left ≤ k ∨ ∃ i < k, m.byte (r.base + r.offset + i) &&& 0x80 = 0 := by
  induction left generalizing r val shift k with
  | zero => simp [Memory.varintLoop]
  | succ left ih =>
    simp only [Memory.varintLoop]
    cases k with
    | zero => split_ifs <;> simp
    | succ k =>
      split_ifs with hlast
      · exact iff_of_true (Nat.succ_le_succ (Nat.zero_le _)) (Or.inr ⟨0, Nat.succ_pos k, hlast⟩)
      · rw [List.length_cons, Nat.succ_le_succ_iff, ih, Nat.succ_le_succ_iff]
        refine or_congr_right ⟨?_, ?_⟩
        · rintro ⟨i, hi, hbyte⟩
          refine ⟨i + 1, Nat.succ_lt_succ hi, ?_⟩
          rwa [Nat.add_assoc, Nat.add_assoc, Nat.add_comm 1 i, ← Nat.add_assoc] at hbyte
        · rintro ⟨i, hi, hbyte⟩
          cases i with
          | zero => exact absurd hbyte hlast
          | succ i =>
            refine ⟨i, Nat.lt_of_succ_lt_succ hi, ?_⟩
            rwa [Nat.add_assoc, Nat.add_assoc, Nat.add_comm 1 i, ← Nat.add_assoc]

/-- No shift by 64 or more and ten bytes at most, exactly if no more than ten bytes are left or one
of the next ten has its high bit clear. -/
theorem varint_bounded_iff (m : Memory) (r : Reader) :
    ((∀ x ∈ (m.varint r).steps, x.2 < 64) ∧ (m.varint r).reader.offset ≤ r.offset + 10) ↔
      r.size - r.offset ≤ 10 ∨ ∃ i < 10, m.byte (r.base + r.offset + i) &&& 0x80 = 0 := by
  have hoffset := varintLoop_offset m (r.size - r.offset) r 0 0
  have hshifts := varintLoop_shifts m (r.size - r.offset) r 0 0
  rw [← varintLoop_length_le_iff m _ r 0 0, Memory.varint, hoffset, Nat.add_le_add_iff_left]
  refine and_iff_right_of_imp fun hten x hx => ?_
  have hmem := List.mem_map_of_mem (f := Prod.snd) hx
  rw [hshifts] at hmem
  obtain ⟨i, hi, hshift⟩ := List.mem_map.mp hmem
  have hlt := List.mem_range.mp hi
  omega

theorem eleven_continued_shifted :
    let m := Memory.ofBytes (List.replicate 11 0x80) (by decide)
    (10, 70) ∈ (m.varint m.root).steps ∧ (m.varint m.root).reader.offset = 11 ∧
    ¬ ((∀ x ∈ (m.varint m.root).steps, x.2 < 64) ∧ (m.varint m.root).reader.offset ≤ 10) := by
  decide

end Stoatpp.Voice
