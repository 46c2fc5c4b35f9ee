import Mathlib.Data.List.Nodup
import Mathlib.Data.List.Basic

/-!
# Lists that are read as maps

A list of records with a key is read by looking up the first record with the key. Replacing
the first match or appending, changing the first match and removing all matches act on that
map as insertion, update and deletion, and keep the keys distinct.
-/

namespace Stoatpp.Library.Keyed

variable {α κ : Type} [DecidableEq κ] (key : α → κ)

def lookup (k : κ) (xs : List α) : Option α := xs.find? (key · = k)

/-- The first record with the key of `x` is replaced, or `x` comes last. -/
def upsert (x : α) : List α → List α
  | [] => [x]
  | y :: ys => if key y = key x then x :: ys else y :: upsert x ys

def alter (k : κ) (f : α → α) : List α → List α
  | [] => []
  | y :: ys => if key y = k then f y :: ys else y :: alter k f ys

variable {key} {x : α} {k k' : κ} {f : α → α} {xs : List α}

@[simp] theorem lookup_nil : lookup key k [] = none := rfl

theorem lookup_cons : lookup key k (x :: xs) = if key x = k then some x else lookup key k xs := by
  unfold lookup
  split_ifs with h
  · exact List.find?_cons_of_pos (by simpa using h)
  · exact List.find?_cons_of_neg (by simpa using h)

theorem lookup_isSome : (lookup key k xs).isSome ↔ k ∈ xs.map key := by
  simp [lookup, List.find?_isSome]

theorem lookup_map (hf : ∀ y, key (f y) = key y) : lookup key k (xs.map f) = (lookup key k xs).map f := by
  induction xs with
  | nil => rfl
  | cons y ys ih =>
    rw [List.map_cons, lookup_cons, lookup_cons, hf, ih]
    split_ifs <;> rfl

/-- The order of the records does not matter while their keys are distinct. -/
theorem lookup_perm {ys : List α} (h : xs.Perm ys) (hnodup : (xs.map key).Nodup) :
    lookup key k xs = lookup key k ys := by
  induction h with
  | nil => rfl
  | cons x _ ih => rw [lookup_cons, lookup_cons, ih (List.nodup_cons.mp hnodup).2]
  | swap x y l =>
    have hne : key y ≠ key x := by
      intro heq
      exact (List.nodup_cons.mp hnodup).1 (List.mem_cons.mpr (.inl heq))
    simp only [lookup_cons]
    by_cases hy : key y = k
    · rw [if_pos hy, if_pos hy, if_neg (fun hx => hne (hy.trans hx.symm))]
    · rw [if_neg hy, if_neg hy]
  | trans hxy _ ihx ihy => rw [ihx hnodup, ihy ((hxy.map key).nodup_iff.mp hnodup)]

/-! ## Insertion -/

theorem lookup_upsert : lookup key k (upsert key x xs) = if key x = k then some x else lookup key k xs := by
  induction xs with
  | nil => rw [upsert, lookup_cons]
  | cons y ys ih =>
    rw [upsert]
    split_ifs with hy hk hk
    · rw [lookup_cons, if_pos hk]
    · rw [lookup_cons, lookup_cons, if_neg hk, if_neg (hy ▸ hk)]
    · rw [lookup_cons, ih, if_pos hk, if_neg (fun he => hy (he.trans hk.symm))]
    · rw [lookup_cons, lookup_cons, ih, if_neg hk]

theorem mem_keys_upsert : k ∈ (upsert key x xs).map key ↔ k = key x ∨ k ∈ xs.map key := by
  rw [← lookup_isSome, lookup_upsert, ← lookup_isSome]
  split_ifs with h
  · simp [h]
  · simp [Ne.symm h]

theorem nodup_upsert (h : (xs.map key).Nodup) : ((upsert key x xs).map key).Nodup := by
  induction xs with
  | nil => exact List.nodup_singleton _
  | cons y ys ih =>
    obtain ⟨hy, hys⟩ := List.nodup_cons.mp h
    rw [upsert]
    split_ifs with hk
    · exact List.nodup_cons.mpr ⟨hk ▸ hy, hys⟩
    · refine List.nodup_cons.mpr ⟨fun hm => ?_, ih hys⟩
      rcases mem_keys_upsert.mp hm with he | hm
      · exact hk he
      · exact hy hm

/-! ## Update -/

theorem map_alter (hf : ∀ y, key (f y) = key y) : (alter key k f xs).map key = xs.map key := by
  induction xs with
  | nil => rfl
  | cons y ys ih =>
    rw [alter]
    split_ifs
    · rw [List.map_cons, hf, List.map_cons]
    · rw [List.map_cons, ih, List.map_cons]

theorem lookup_alter (hf : ∀ y, key (f y) = key y) :
    lookup key k' (alter key k f xs) =
      if k' = k then (lookup key k xs).map f else lookup key k' xs := by
  induction xs with
  | nil => rw [alter, lookup_nil, lookup_nil, Option.map_none, ite_self]
  | cons y ys ih =>
    rw [alter]
    by_cases hy : key y = k
    · rw [if_pos hy, lookup_cons, lookup_cons, lookup_cons, if_pos hy, hf, hy, Option.map_some]
      by_cases hk : k' = k
      · rw [if_pos hk, if_pos hk.symm]
      · rw [if_neg hk, if_neg (Ne.symm hk), if_neg (Ne.symm hk)]
    · rw [if_neg hy, lookup_cons, lookup_cons, lookup_cons, if_neg hy, ih]
      by_cases hk : k' = k
      · rw [if_pos hk, if_pos hk, if_neg (hk ▸ hy)]
      · rw [if_neg hk, if_neg hk]

/-! ## Deletion -/

theorem lookup_filter : lookup key k' (xs.filter (key · ≠ k)) =
    if k' = k then none else lookup key k' xs := by
  induction xs with
  | nil => rw [List.filter_nil, lookup_nil, ite_self]
  | cons y ys ih =>
    by_cases hy : key y = k
    · rw [List.filter_cons_of_neg (by simpa using hy), ih, lookup_cons, hy]
      by_cases hk : k' = k
      · rw [if_pos hk, if_pos hk]
      · rw [if_neg hk, if_neg hk, if_neg (Ne.symm hk)]
    · rw [List.filter_cons_of_pos (by simpa using hy), lookup_cons, ih, lookup_cons]
      by_cases hk : k' = k
      · rw [if_pos hk, if_neg (hk ▸ hy), if_pos hk]
      · rw [if_neg hk, if_neg hk]

theorem nodup_filter (h : (xs.map key).Nodup) : ((xs.filter (key · ≠ k)).map key).Nodup :=
  (List.Sublist.map key List.filter_sublist).nodup h

theorem eraseP_eq_filter {p : α → Bool} (hnodup : (xs.map key).Nodup) (h : xs.find? p = some x) :
    xs.eraseP p = xs.filter (key · ≠ key x) := by
  induction xs with
  | nil => cases h
  | cons y ys ih =>
    obtain ⟨hy, hys⟩ := List.nodup_cons.mp hnodup
    by_cases hp : p y = true
    · rw [List.find?_cons_of_pos hp, Option.some.injEq] at h
      subst h
      have hkeep : ∀ z ∈ ys, key z ≠ key y := fun z hz heq => hy (List.mem_map.mpr ⟨z, hz, heq⟩)
      rw [List.eraseP_cons_of_pos hp, List.filter_cons_of_neg (by simp),
        List.filter_eq_self.mpr fun z hz => decide_eq_true (hkeep z hz)]
    · rw [List.find?_cons_of_neg hp] at h
      have hne : key y ≠ key x := fun heq => hy (List.mem_map.mpr ⟨x, List.mem_of_find?_eq_some h, heq.symm⟩)
      rw [List.eraseP_cons_of_neg hp, List.filter_cons_of_pos (by simpa using hne), ih hys h]

/-! ## Writing one record after the other into a map -/

/-- The entry for `k` once all records have been written over it. -/
def latest (key : α → κ) (k : κ) (xs : List α) (before : Option α) : Option α :=
  xs.foldl (fun a x => if key x = k then some x else a) before

@[simp] theorem latest_cons (before : Option α) :
    latest key k (x :: xs) before = latest key k xs (if key x = k then some x else before) := rfl

theorem latest_orElse (xs : List α) (a b : Option α) :
    latest key k xs (a <|> b) = (latest key k xs a <|> b) := by
  induction xs generalizing a with
  | nil => rfl
  | cons x xs ih =>
    rw [latest_cons, latest_cons, ← ih]
    split_ifs <;> rfl

theorem latest_cases (key : α → κ) (k : κ) (xs : List α) (before : Option α) :
    (∃ x ∈ xs, key x = k ∧ latest key k xs before = some x) ∨
      latest key k xs before = before ∧ ∀ x ∈ xs, key x ≠ k := by
  induction xs generalizing before with
  | nil => exact Or.inr ⟨rfl, List.forall_mem_nil _⟩
  | cons x xs ih =>
    rw [latest_cons]
    rcases ih (if key x = k then some x else before) with ⟨y, hy, hk, he⟩ | ⟨he, hxs⟩
    · exact Or.inl ⟨y, List.mem_cons_of_mem _ hy, hk, he⟩
    · rw [he]
      split_ifs with hx
      · exact Or.inl ⟨x, List.mem_cons_self, hx, rfl⟩
      · exact Or.inr ⟨rfl, List.forall_mem_cons.mpr ⟨hx, hxs⟩⟩

theorem latest_isSome {before : Option α} :
    (latest key k xs before).isSome ↔ before.isSome ∨ k ∈ xs.map key := by
  rw [List.mem_map]
  rcases latest_cases key k xs before with ⟨x, hx, hk, he⟩ | ⟨he, hne⟩
  · rw [he]
    exact iff_of_true rfl (Or.inr ⟨x, hx, hk⟩)
  · rw [he]
    exact ⟨Or.inl, fun hb => hb.resolve_right fun ⟨x, hx, hk⟩ => hne x hx hk⟩

theorem latest_eq_some {before : Option α} (h : latest key k xs before = some x) :
    before = some x ∨ x ∈ xs ∧ key x = k := by
  rcases latest_cases key k xs before with ⟨y, hy, hk, he⟩ | ⟨he, -⟩
  · obtain rfl : y = x := Option.some.inj (he.symm.trans h)
    exact Or.inr ⟨hy, hk⟩
  · exact Or.inl (he.symm.trans h)

end Stoatpp.Library.Keyed
