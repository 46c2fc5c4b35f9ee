import Stoatpp.Voice.ParserSafety

/-!
# Reading a field and skipping it

`skip_field` goes to the declared end of a length-delimited field whatever the length is;
`read_string` goes there only if the end lies in the window. Where the sum wraps, the length is
one that no string can have.
-/

namespace Stoatpp.Voice
open Stoatpp.Library

/-- `read_string` and `skip_field(2)` return, with the reader at the same place. -/
def FramedAlike (m : Memory) (r : Reader) : Prop :=
  ∃ s r', (readString m r).status = .done (s, r') ∧ (skipField m r 2).status = .done r'

variable {m : Memory} {r : Reader}

def declaredEnd (m : Memory) (r : Reader) : ℕ := (m.varint r).reader.offset + (m.varint r).value.toNat

theorem skipField_declared : (skipField m r 2).status =
    .done ((m.varint r).reader.advance (m.varint r).value.toNat) := by
  rw [skipField_result, if_neg (by decide), if_pos rfl]

theorem readString_fits (hsize : r.size ≤ maxSize) (h : declaredEnd m r ≤ r.size) : ∃ s,
    (readString m r).status = .done (s, (m.varint r).reader.advance (m.varint r).value.toNat) := by
  unfold declaredEnd at h
  have hsum : sizeT ((m.varint r).reader.offset + (m.varint r).value.toNat) =
      (m.varint r).reader.offset + (m.varint r).value.toNat := by
    rw [maxSize] at hsize
    exact Nat.mod_eq_of_lt (by omega)
  rw [readString_result, hsum, if_neg (Nat.not_lt.mpr h), if_neg (by omega)]
  exact ⟨_, rfl⟩

/-- An over-long field is left unread, with the reader in front of its bytes, and one whose end
wraps makes the string constructor throw. -/
theorem readString_overlong (ho : r.offset ≤ r.size) (hsize : r.size ≤ maxSize) (h : r.size < declaredEnd m r) :
    (readString m r).status = .done ([], (m.varint r).reader) ∨
      (readString m r).status = .thrown .lengthError := by
  unfold declaredEnd at h
  have hoffset := varint_offset_le m r ho
  have hlength := (m.varint r).value.toNat_lt
  rw [readString_result]
  by_cases hwraps : (m.varint r).reader.offset + (m.varint r).value.toNat < 2 ^ 64
  · have hsum : sizeT ((m.varint r).reader.offset + (m.varint r).value.toNat) =
        (m.varint r).reader.offset + (m.varint r).value.toNat := Nat.mod_eq_of_lt hwraps
    rw [hsum, if_pos h]
    exact Or.inl rfl
  · have hsmall : r.size < 2 ^ 63 := by
      rw [maxSize] at hsize
      omega
    have hshort : ¬ r.size < sizeT ((m.varint r).reader.offset + (m.varint r).value.toNat) := by
      rw [sizeT]
      omega
    have hhuge : maxSize < (m.varint r).value.toNat := by
      rw [maxSize]
      omega
    rw [if_neg hshort, if_pos hhuge]
    exact Or.inr rfl

/-- In front of a length-delimited field of any buffer, reading and skipping end at the same place
exactly if the declared end of the field lies in the buffer. -/
theorem framed_alike_iff (m : Memory) (r : Reader) (hw : r.Within m.root) (ho : r.offset ≤ r.size) :
    FramedAlike m r ↔ declaredEnd m r ≤ r.size := by
  have hsize : r.size ≤ maxSize := by
    have hinside := hw.2
    have hle := m.message_le
    simp only [Memory.root] at hinside
    omega
  constructor
  · rintro ⟨s, r', hread, hskip⟩
    by_contra hlong
    rw [skipField_declared] at hskip
    obtain rfl := Status.done.inj hskip
    rcases readString_overlong ho hsize (Nat.not_le.mp hlong) with hleft | hthrown
    · have hsame := (Prod.mk.inj (Status.done.inj (hleft.symm.trans hread))).2
      have hoffset : (m.varint r).reader.offset = sizeT (declaredEnd m r) := congrArg Reader.offset hsame
      have hbefore := varint_offset_le m r ho
      have hlength := (m.varint r).value.toNat_lt
      simp only [declaredEnd, sizeT] at hlong hoffset
      rw [maxSize] at hsize
      omega
    · cases hthrown.symm.trans hread
  · intro h
    obtain ⟨s, hread⟩ := readString_fits hsize h
    exact ⟨s, _, hread, skipField_declared⟩

theorem two_letters_framed_alike : FramedAlike (.ofBytes [2, 97, 98, 16] (by decide)) ⟨0, 4, 0⟩ :=
  (framed_alike_iff _ _ ⟨Nat.le_refl _, Nat.le_refl _⟩ (Nat.zero_le _)).mpr (by decide)

theorem overlong_read_again :
    let m := Memory.ofBytes [5, 16, 1] (by decide)
    (readString m m.root).status = .done ([], ⟨0, 3, 1⟩) ∧ (skipField m m.root 2).status = .done ⟨0, 3, 6⟩ ∧
    ¬ FramedAlike m m.root := by
  intro m
  have hlength : (m.varint m.root).value.toNat = 5 := by decide
  have hreader : (m.varint m.root).reader = ⟨0, 3, 1⟩ := by decide
  have hsize : m.root.size = 3 := rfl
  have hread : (readString m m.root).status = .done ([], ⟨0, 3, 1⟩) := by
    rw [readString_result, hlength, hreader, hsize, if_pos (by decide)]
  have hskip : (skipField m m.root 2).status = .done ⟨0, 3, 6⟩ := by
    rw [skipField_declared, hlength, hreader]
    rfl
  refine ⟨hread, hskip, ?_⟩
  rintro ⟨s, r', hread', hskip'⟩
  have hsame := (Prod.mk.inj (Status.done.inj (hread.symm.trans hread'))).2
  rw [← hsame] at hskip'
  cases hskip.symm.trans hskip'

end Stoatpp.Voice
