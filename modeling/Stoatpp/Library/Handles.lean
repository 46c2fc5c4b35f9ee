import Mathlib.Data.Finset.Basic
import Mathlib.Data.Finset.Lattice.Lemmas
import Mathlib.Logic.Function.Basic
import Stoatpp.Library.Runs

/-!
# Handles

Handles are acquired, used and released. A history of this is proper where nothing is used or
released that is not open, and owners that each keep to their own handles keep it proper together.
-/

namespace Stoatpp.Library

inductive HandleEvent (η : Type) where
  | acquire (h : η)
  | use (h : η)
  | release (h : η)

variable {η ι : Type} [DecidableEq η]

/-- The handles that are open behind an event; a handle that is not open can be neither used nor
released. -/
def handleStep (live : Finset η) : HandleEvent η → Option (Finset η)
  | .acquire h => if h ∈ live then none else some (insert h live)
  | .use h => if h ∈ live then some live else none
  | .release h => if h ∈ live then some (live.erase h) else none

/-- Every open handle has one owner or is lost. -/
structure Held (held : ι → Finset η) (lost live : Finset η) : Prop where
  mem : ∀ h, h ∈ live ↔ h ∈ lost ∨ ∃ c, h ∈ held c
  apart : ∀ c c' h, h ∈ held c → h ∈ held c' → c = c'
  lostApart : ∀ h ∈ lost, ∀ c, h ∉ held c

variable {live live' others lost : Finset η} {e : HandleEvent η} {events : List (HandleEvent η)}
  {held : ι → Finset η}

/-- What happens with some handles leaves all others alone. -/
theorem handleStep_frame (h : handleStep live e = some live') (hapart : Disjoint live others)
    (hfresh : ∀ x, e = .acquire x → x ∉ others) :
    handleStep (live ∪ others) e = some (live' ∪ others) ∧ Disjoint live' others := by
  cases e with
  | acquire x =>
    obtain ⟨hx, h⟩ := Option.ite_none_left_eq_some.mp h
    obtain rfl := Option.some.inj h
    have hx' : x ∉ live ∪ others := Finset.notMem_union.mpr ⟨hx, hfresh x rfl⟩
    rw [handleStep, if_neg hx', Finset.insert_union]
    exact ⟨rfl, Finset.disjoint_insert_left.mpr ⟨hfresh x rfl, hapart⟩⟩
  | use x =>
    obtain ⟨hx, h⟩ := Option.ite_none_right_eq_some.mp h
    obtain rfl := Option.some.inj h
    exact ⟨if_pos (Finset.mem_union_left _ hx), hapart⟩
  | release x =>
    obtain ⟨hx, h⟩ := Option.ite_none_right_eq_some.mp h
    obtain rfl := Option.some.inj h
    have hx' : x ∉ others := Finset.disjoint_left.mp hapart hx
    rw [handleStep, if_pos (Finset.mem_union_left _ hx), Finset.erase_union_distrib, Finset.erase_eq_of_notMem hx']
    exact ⟨rfl, Finset.disjoint_of_subset_left (Finset.erase_subset _ _) hapart⟩

theorem run_frame (h : runFrom handleStep live events = some live') (hapart : Disjoint live others)
    (hfresh : ∀ x, .acquire x ∈ events → x ∉ others) :
    runFrom handleStep (live ∪ others) events = some (live' ∪ others) ∧ Disjoint live' others := by
  induction events generalizing live with
  | nil =>
    obtain rfl := Option.some.inj h
    exact ⟨rfl, hapart⟩
  | cons e rest ih =>
    obtain ⟨m, hstep, hrest⟩ := runFrom_cons.mp h
    obtain ⟨hstep', hm⟩ := handleStep_frame hstep hapart fun x hx => hfresh x (hx ▸ List.mem_cons_self)
    obtain ⟨hrest', hlive'⟩ := ih hrest hm fun x hx => hfresh x (List.mem_cons_of_mem _ hx)
    exact ⟨runFrom_cons.mpr ⟨m ∪ others, hstep', hrest'⟩, hlive'⟩

/-- Nothing is open that was not open or has been acquired. -/
theorem run_opened (h : runFrom handleStep live events = some live') {x : η} (hx : x ∈ live') :
    x ∈ live ∨ .acquire x ∈ events := by
  induction events generalizing live with
  | nil =>
    obtain rfl := Option.some.inj h
    exact Or.inl hx
  | cons e rest ih =>
    obtain ⟨m, hstep, hrest⟩ := runFrom_cons.mp h
    rcases ih hrest with hm | hlater
    · cases e with
      | acquire y =>
        obtain ⟨-, hstep⟩ := Option.ite_none_left_eq_some.mp hstep
        obtain rfl := Option.some.inj hstep
        rcases Finset.mem_insert.mp hm with rfl | hold
        · exact Or.inr List.mem_cons_self
        · exact Or.inl hold
      | use y =>
        obtain ⟨-, hstep⟩ := Option.ite_none_right_eq_some.mp hstep
        obtain rfl := Option.some.inj hstep
        exact Or.inl hm
      | release y =>
        obtain ⟨-, hstep⟩ := Option.ite_none_right_eq_some.mp hstep
        obtain rfl := Option.some.inj hstep
        exact Or.inl (Finset.mem_of_mem_erase hm)
    · exact Or.inr (List.mem_cons_of_mem _ hlater)

variable [DecidableEq ι]

/-- An owner that keeps to its own handles and to new ones. -/
theorem Held.replace (h : Held held lost live) (c : ι) {own : Finset η}
    (hrun : runFrom handleStep (held c) events = some own) (hfresh : ∀ x, .acquire x ∈ events → x ∉ live) :
    ∃ live', runFrom handleStep live events = some live' ∧ Held (Function.update held c own) lost live' := by
  have hsub : held c ⊆ live := fun x hx => (h.mem x).mpr (Or.inr ⟨c, hx⟩)
  have hapart : Disjoint (held c) (live \ held c) := Finset.disjoint_sdiff
  obtain ⟨hall, hdisjoint⟩ := run_frame hrun hapart fun x hx hmem => hfresh x hx (Finset.mem_sdiff.mp hmem).1
  rw [Finset.union_sdiff_of_subset hsub] at hall
  have hother {c' : ι} (hc : c' ≠ c) {x : η} (hx : x ∈ held c') : x ∈ live \ held c :=
    Finset.mem_sdiff.mpr ⟨(h.mem x).mpr (Or.inr ⟨c', hx⟩), fun hmem => hc (h.apart _ _ x hx hmem)⟩
  refine ⟨_, hall, fun x => ⟨fun hx => ?_, fun hx => ?_⟩, fun c₁ c₂ x h₁ h₂ => ?_, fun x hx c' hmem => ?_⟩
  · rcases Finset.mem_union.mp hx with hown | hmem
    · exact Or.inr ⟨c, by rwa [Function.update_self]⟩
    · obtain ⟨hlive, hnot⟩ := Finset.mem_sdiff.mp hmem
      rcases (h.mem x).mp hlive with hlost | ⟨c', hx'⟩
      · exact Or.inl hlost
      · have hne : c' ≠ c := by
          rintro rfl
          exact hnot hx'
        exact Or.inr ⟨c', by rwa [Function.update_of_ne hne]⟩
  · rcases hx with hlost | ⟨c', hx'⟩
    · exact Finset.mem_union_right _ (Finset.mem_sdiff.mpr ⟨(h.mem x).mpr (Or.inl hlost), h.lostApart x hlost c⟩)
    · by_cases hc : c' = c
      · rw [hc, Function.update_self] at hx'
        exact Finset.mem_union_left _ hx'
      · rw [Function.update_of_ne hc] at hx'
        exact Finset.mem_union_right _ (hother hc hx')
  · by_cases hc₁ : c₁ = c
    · by_cases hc₂ : c₂ = c
      · exact hc₁.trans hc₂.symm
      · rw [hc₁, Function.update_self] at h₁
        rw [Function.update_of_ne hc₂] at h₂
        exact absurd (hother hc₂ h₂) (Finset.disjoint_left.mp hdisjoint h₁)
    · rw [Function.update_of_ne hc₁] at h₁
      by_cases hc₂ : c₂ = c
      · rw [hc₂, Function.update_self] at h₂
        exact absurd (hother hc₁ h₁) (Finset.disjoint_left.mp hdisjoint h₂)
      · rw [Function.update_of_ne hc₂] at h₂
        exact h.apart _ _ x h₁ h₂
  · by_cases hc : c' = c
    · rw [hc, Function.update_self] at hmem
      have hrest : x ∈ live \ held c :=
        Finset.mem_sdiff.mpr ⟨(h.mem x).mpr (Or.inl hx), h.lostApart x hx c⟩
      exact Finset.disjoint_left.mp hdisjoint hmem hrest
    · rw [Function.update_of_ne hc] at hmem
      exact h.lostApart x hx c' hmem

/-- One owner hands all it has to another, which loses its own. -/
theorem Held.give (h : Held held lost live) {c d : ι} (hne : c ≠ d) :
    Held (Function.update (Function.update held c (held d)) d ∅) (lost ∪ held c) live := by
  have hheld {c' : ι} {x : η} (hx : x ∈ Function.update (Function.update held c (held d)) d ∅ c') :
      (c' = c ∧ x ∈ held d) ∨ c' ≠ c ∧ c' ≠ d ∧ x ∈ held c' := by
    by_cases hd : c' = d
    · rw [hd, Function.update_self] at hx
      exact absurd hx (Finset.notMem_empty x)
    · rw [Function.update_of_ne hd] at hx
      by_cases hc : c' = c
      · rw [hc, Function.update_self] at hx
        exact Or.inl ⟨hc, hx⟩
      · rw [Function.update_of_ne hc] at hx
        exact Or.inr ⟨hc, hd, hx⟩
  refine ⟨fun x => ⟨fun hx => ?_, fun hx => ?_⟩, fun c₁ c₂ x h₁ h₂ => ?_, fun x hx c' hmem => ?_⟩
  · rcases (h.mem x).mp hx with hlost | ⟨c', hx'⟩
    · exact Or.inl (Finset.mem_union_left _ hlost)
    · by_cases hc : c' = c
      · exact Or.inl (Finset.mem_union_right _ (hc ▸ hx'))
      · by_cases hd : c' = d
        · refine Or.inr ⟨c, ?_⟩
          rw [Function.update_of_ne hne, Function.update_self]
          exact hd ▸ hx'
        · refine Or.inr ⟨c', ?_⟩
          rwa [Function.update_of_ne hd, Function.update_of_ne hc]
  · rcases hx with hlost | ⟨c', hx'⟩
    · rcases Finset.mem_union.mp hlost with hlost | hc
      · exact (h.mem x).mpr (Or.inl hlost)
      · exact (h.mem x).mpr (Or.inr ⟨c, hc⟩)
    · rcases hheld hx' with ⟨-, hd⟩ | ⟨-, -, hother⟩
      · exact (h.mem x).mpr (Or.inr ⟨d, hd⟩)
      · exact (h.mem x).mpr (Or.inr ⟨c', hother⟩)
  · rcases hheld h₁ with ⟨rfl, hd₁⟩ | ⟨-, hd₁, hother₁⟩
    · rcases hheld h₂ with ⟨rfl, -⟩ | ⟨-, hd₂, hother₂⟩
      · rfl
      · exact absurd (h.apart _ _ x hother₂ hd₁) hd₂
    · rcases hheld h₂ with ⟨rfl, hd₂⟩ | ⟨-, -, hother₂⟩
      · exact absurd (h.apart _ _ x hother₁ hd₂) hd₁
      · exact h.apart _ _ x hother₁ hother₂
  · rcases Finset.mem_union.mp hx with hlost | hc
    · rcases hheld hmem with ⟨-, hd⟩ | ⟨-, -, hother⟩
      · exact h.lostApart x hlost d hd
      · exact h.lostApart x hlost c' hother
    · rcases hheld hmem with ⟨-, hd⟩ | ⟨hne', -, hother⟩
      · exact hne (h.apart _ _ x hc hd)
      · exact hne' (h.apart _ _ x hother hc)

end Stoatpp.Library
