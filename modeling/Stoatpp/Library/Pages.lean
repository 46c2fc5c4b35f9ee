import Mathlib.Data.Int.Notation
import Mathlib.Data.List.Nodup
import Mathlib.Logic.Function.Iterate
import Mathlib.Tactic.SplitIfs

/-!
# Pages of a list and turning them

A list is shown in groups of `size`, the last one possibly shorter. With as many pages as the
rounded-up quotient the groups are the list cut into consecutive parts, none empty. Turning
forwards behind the last page leads to the first and backwards before the first to the last, so
the two undo each other on the pages there are.
-/

namespace Stoatpp.Library

variable {α : Type} {size i page : ℕ} {xs : List α}

def pageAt (size : ℕ) (xs : List α) (page : ℕ) : List α := (xs.drop (page * size)).take size

def pageCount (size : ℕ) (xs : List α) : ℕ := (xs.length + (size - 1)) / size

theorem lt_pageCount_iff (hsize : 0 < size) : page < pageCount size xs ↔ page * size < xs.length := by
  rw [pageCount, Nat.lt_div_iff_mul_lt hsize]
  omega

theorem take_succ_page (page : ℕ) :
    xs.take ((page + 1) * size) = xs.take (page * size) ++ pageAt size xs page := by
  rw [Nat.succ_mul, List.take_add, pageAt]

/-- The first pages put together are a beginning of the list. -/
theorem flatMap_pages (count : ℕ) : (List.range count).flatMap (pageAt size xs) = xs.take (count * size) := by
  induction count with
  | zero => simp
  | succ count ih =>
    rw [List.range_succ, List.flatMap_append, ih, take_succ_page]
    simp

theorem flatMap_pageAt (hsize : 0 < size) : (List.range (pageCount size xs)).flatMap (pageAt size xs) = xs := by
  rw [flatMap_pages]
  apply List.take_of_length_le
  have hlast : ¬ pageCount size xs < pageCount size xs := Nat.lt_irrefl _
  rw [lt_pageCount_iff hsize] at hlast
  omega

theorem pageAt_ne_nil (hsize : 0 < size) (hpage : page < pageCount size xs) : pageAt size xs page ≠ [] := by
  have hstart := (lt_pageCount_iff hsize).mp hpage
  apply List.ne_nil_of_length_pos
  rw [pageAt, List.length_take, List.length_drop]
  omega

theorem getElem?_pageAt (i : ℕ) :
    (pageAt size xs page)[i]? = if i < size then xs[page * size + i]? else none := by
  rw [pageAt, List.getElem?_take, List.getElem?_drop]

theorem mem_pageAt (hsize : 0 < size) (hnodup : xs.Nodup) (hi : i < xs.length) :
    xs[i] ∈ pageAt size xs page ↔ i / size = page := by
  constructor
  · intro hmem
    obtain ⟨j, hj⟩ := List.mem_iff_getElem?.mp hmem
    rw [getElem?_pageAt] at hj
    split_ifs at hj with hlt
    obtain ⟨hbound, hsame⟩ := List.getElem?_eq_some_iff.mp hj
    have hindex : page * size + j = i := hnodup.getElem_inj_iff.mp hsame
    rw [← hindex, Nat.add_comm, Nat.add_mul_div_right _ _ hsize, Nat.div_eq_of_lt hlt, Nat.zero_add]
  · rintro rfl
    have hindex : i / size * size + i % size = i := Nat.div_add_mod' i size
    refine List.mem_iff_getElem?.mpr ⟨i % size, ?_⟩
    rw [getElem?_pageAt, if_pos (Nat.mod_lt i hsize), hindex, List.getElem?_eq_getElem hi]

/-- Each element is on one page, if none stands in the list twice. -/
theorem exists_unique_page (hsize : 0 < size) (hnodup : xs.Nodup) {x : α} (hx : x ∈ xs) :
    ∃ page, (page < pageCount size xs ∧ x ∈ pageAt size xs page) ∧
      ∀ page', x ∈ pageAt size xs page' → page' = page := by
  obtain ⟨i, hi, rfl⟩ := List.getElem_of_mem hx
  refine ⟨i / size, ⟨?_, (mem_pageAt hsize hnodup hi).mpr rfl⟩, fun page' hmem => ?_⟩
  · have hle := Nat.div_mul_le_self i size
    exact (lt_pageCount_iff hsize).mpr (by omega)
  · exact ((mem_pageAt hsize hnodup hi).mp hmem).symm

/-! ## Turning the pages -/

def nextPage (count page : ℤ) : ℤ := if page < count - 1 then page + 1 else 0

def previousPage (count page : ℤ) : ℤ := if page > 0 then page - 1 else count - 1

section
variable {count page : ℤ}

theorem nextPage_range (h : 0 ≤ page) (h' : page < count) :
    0 ≤ nextPage count page ∧ nextPage count page < count := by
  unfold nextPage
  split_ifs <;> omega

theorem previousPage_range (h : 0 ≤ page) (h' : page < count) :
    0 ≤ previousPage count page ∧ previousPage count page < count := by
  unfold previousPage
  split_ifs <;> omega

theorem nextPage_emod (hcount : 0 < count) (x : ℤ) : nextPage count (x % count) = (x + 1) % count := by
  have hnonneg := Int.emod_nonneg x (Int.ne_of_gt hcount)
  have hlt := Int.emod_lt_of_pos x hcount
  rw [← Int.emod_add_emod, nextPage]
  split_ifs with hinner
  · exact (Int.emod_eq_of_lt (by omega) (by omega)).symm
  · have hlast : x % count + 1 = count := by omega
    rw [hlast, Int.emod_self]

theorem previousPage_emod (hcount : 0 < count) (x : ℤ) :
    previousPage count (x % count) = (x - 1) % count := by
  have hnonneg := Int.emod_nonneg x (Int.ne_of_gt hcount)
  have hlt := Int.emod_lt_of_pos x hcount
  rw [← Int.emod_sub_emod, previousPage]
  split_ifs with hinner
  · exact (Int.emod_eq_of_lt (by omega) (by omega)).symm
  · have hfirst : x % count - 1 + count = count - 1 := by omega
    rw [← Int.add_emod_right, hfirst]
    exact (Int.emod_eq_of_lt (by omega) (by omega)).symm

/-- Turning forwards `k` times adds `k` modulo the number of pages. -/
theorem nextPage_iterate (h : 0 ≤ page) (h' : page < count) (k : ℕ) :
    (nextPage count)^[k] page = (page + k) % count := by
  induction k with
  | zero => simpa using (Int.emod_eq_of_lt h h').symm
  | succ k ih =>
    rw [Function.iterate_succ_apply', ih, nextPage_emod (by omega), Int.natCast_succ, Int.add_assoc]

theorem previousPage_iterate (h : 0 ≤ page) (h' : page < count) (k : ℕ) :
    (previousPage count)^[k] page = (page - k) % count := by
  induction k with
  | zero => simpa using (Int.emod_eq_of_lt h h').symm
  | succ k ih =>
    rw [Function.iterate_succ_apply', ih, previousPage_emod (by omega), Int.natCast_succ, Int.sub_sub]

theorem previousPage_nextPage (h : 0 ≤ page) (h' : page < count) :
    previousPage count (nextPage count page) = page := by
  unfold previousPage nextPage
  split_ifs <;> omega

theorem nextPage_previousPage (h : 0 ≤ page) (h' : page < count) :
    nextPage count (previousPage count page) = page := by
  unfold previousPage nextPage
  split_ifs <;> omega

end

end Stoatpp.Library
