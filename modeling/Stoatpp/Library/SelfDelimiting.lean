import Mathlib.Data.List.Basic

/-!
# Self-delimiting codes

A code is self-delimiting if it shows where it ends, whatever stands behind it. Two such codes one
behind the other are one again, and so is any list of words that are not empty.
-/

namespace Stoatpp.Library

variable {α β γ κ : Type}

/-- What a code shows of the words in `P`, and its end. -/
def SelfDelimiting (P : α → Prop) (view : α → β) (code : α → List γ) : Prop :=
  ∀ x y, P x → P y → ∀ a b, code x ++ a = code y ++ b → view x = view y ∧ a = b

variable {P : α → Prop} {view : α → β} {code : α → List γ}

theorem selfDelimiting_of_prefix_free (h : ∀ x y, P x → P y → code x <+: code y → x = y) :
    SelfDelimiting P id code := by
  intro x y hx hy a b heq
  have hxy : x = y := by
    have hprefix : code x <+: code y ++ b := heq ▸ List.prefix_append _ _
    rcases List.prefix_or_prefix_of_prefix hprefix (List.prefix_append _ _) with hle | hge
    · exact h x y hx hy hle
    · exact (h y x hy hx hge).symm
  subst hxy
  exact ⟨rfl, List.append_cancel_left heq⟩

namespace SelfDelimiting

/-- A code behind a key need only show itself to those with the same key. -/
theorem keyed {key : α → κ} {head tail : α → List γ} (hkey : SelfDelimiting P key head)
    (htail : ∀ k, SelfDelimiting (fun x => P x ∧ key x = k) view tail) :
    SelfDelimiting P view fun x => head x ++ tail x := by
  intro x y hx hy a b heq
  rw [List.append_assoc, List.append_assoc] at heq
  obtain ⟨hsame, hrest⟩ := hkey x y hx hy _ _ heq
  exact htail (key y) x y ⟨hx, hsame⟩ ⟨hy, rfl⟩ a b hrest

/-- Words of one length need no sign of their end. -/
theorem of_length {n : ℕ} {P : List γ → Prop} : SelfDelimiting (fun s => P s ∧ s.length = n) id id := by
  intro s t hs ht a b heq
  exact List.append_inj heq (hs.2.trans ht.2.symm)

theorem flatMap (h : SelfDelimiting P view code) (hcode : ∀ x, code x ≠ []) {xs ys : List α}
    (hxs : ∀ x ∈ xs, P x) (hys : ∀ y ∈ ys, P y) (heq : xs.flatMap code = ys.flatMap code) :
    xs.map view = ys.map view := by
  induction xs generalizing ys with
  | nil =>
    cases ys with
    | nil => rfl
    | cons y ys => exact absurd heq.symm (List.append_ne_nil_of_left_ne_nil (hcode y) _)
  | cons x xs ih =>
    cases ys with
    | nil => exact absurd heq (List.append_ne_nil_of_left_ne_nil (hcode x) _)
    | cons y ys =>
      obtain ⟨hx, hxs⟩ := List.forall_mem_cons.mp hxs
      obtain ⟨hy, hys⟩ := List.forall_mem_cons.mp hys
      obtain ⟨hview, hrest⟩ := h x y hx hy _ _ heq
      rw [List.map_cons, List.map_cons, hview, ih hxs hys hrest]

end SelfDelimiting

end Stoatpp.Library
