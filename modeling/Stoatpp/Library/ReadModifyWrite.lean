import Mathlib.Data.List.Nodup
import Mathlib.Logic.Function.Basic

/-!
# Read, modify, write

Any number of parties read a value, compute a new one from it and write that back, with nothing in
between that keeps the others out. A party may write what it holds more than once, and may end
without being told that it has. An update can be lost, but what stands there in the end is what some
of the parties, one after the other, would have left, and all of them if no two overlap.
-/

namespace Stoatpp.Library

inductive Stage (α : Type) where
  | ready
  | holding (v : α)
  | done (success : Bool)

/-- What a party with this change can do to itself and to the value; the last place holds what is
written. Success is reported by a party that has just written, or that had nothing to write. -/
inductive Stage.Step {α : Type} (change : α → Except Bool α) (v : α) : Stage α → Stage α → Option α → Prop where
  | waits (p : Stage α) : Step change v p p none
  | fails {p : Stage α} (hp : p ≠ .done true) : Step change v p (.done false) none
  | skips {success : Bool} (hc : change v = .error success) : Step change v .ready (.done success) none
  | reads {w : α} (hc : change v = .ok w) : Step change v .ready (.holding w) none
  | writes (w : α) {p : Stage α} (hp : p = .holding w ∨ ∃ success, p = .done success) :
    Step change v (.holding w) p (some w)

/-- The parties, the value, and who has written it, the latest last. -/
structure Exchange (ι π α : Type) where
  party : ι → π
  value : α
  written : List ι

variable {ι π α ε : Type}

/-- What the parties make of a value one after the other. -/
def inTurn (change : ι → α → Except Bool α) (order : List ι) (v : α) : α :=
  order.foldl (fun v i => (change i v).toOption.getD v) v

/-- Parties with states of their own go through the stages. -/
def Follows (act : ι → ε → α → π → π × Option α) (change : ι → α → Except Bool α) (stage : π → Stage α) : Prop :=
  ∀ i x v p, (stage p).Step (change i) v (stage (act i x v p).1) (act i x v p).2

/-- The party has written, or reports success all the same. -/
def Exchange.Counts (stage : π → Stage α) (s : Exchange ι π α) (i : ι) : Prop :=
  i ∈ s.written ∨ stage (s.party i) = .done true

/-- The parties of the list count and leave this value one after the other. -/
structure Left (change : ι → α → Except Bool α) (stage : π → Stage α) (s : Exchange ι π α) (v₀ : α)
    (order : List ι) (v : α) : Prop where
  nodup : order.Nodup
  count : ∀ i ∈ order, s.Counts stage i
  left : v = inTurn change order v₀

/-- The value, and every value that is about to be written, has been left by some of the parties;
one that has not read has not written. -/
structure Accounted (change : ι → α → Except Bool α) (stage : π → Stage α) (v₀ : α) (s : Exchange ι π α) :
    Prop where
  value : ∃ order, Left change stage s v₀ order s.value
  held : ∀ i v, stage (s.party i) = .holding v →
    ∃ order base, Left change stage s v₀ order base ∧ i ∉ order ∧ change i base = .ok v
  unread : ∀ i ∈ s.written, stage (s.party i) ≠ .ready

/-- The value has been left by all parties that count, and one at most is about to write. -/
structure Complete (change : ι → α → Except Bool α) (stage : π → Stage α) (v₀ : α) (s : Exchange ι π α) :
    Prop where
  value : ∃ order, Left change stage s v₀ order s.value ∧ ∀ i, s.Counts stage i → i ∈ order
  held : ∀ i v, stage (s.party i) = .holding v →
    (∀ j w, stage (s.party j) = .holding w → j = i) ∧
      (i ∉ s.written ∧ change i s.value = .ok v ∨ i ∈ s.written ∧ s.value = v)
  unread : ∀ i ∈ s.written, stage (s.party i) ≠ .ready

variable {change : ι → α → Except Bool α} {stage : π → Stage α} {v₀ v w : α} {i j : ι} {order : List ι}

theorem inTurn_append (front back : List ι) (v : α) :
    inTurn change (front ++ back) v = inTurn change back (inTurn change front v) :=
  List.foldl_append ..

/-- What every party of the list keeps is kept. -/
theorem inTurn_keeps {P : α → Prop} (order : List ι) (hP : ∀ i ∈ order, ∀ v v', change i v = .ok v' → P v → P v')
    (hv : P v) : P (inTurn change order v) := by
  induction order generalizing v with
  | nil => exact hv
  | cons i rest ih =>
    obtain ⟨hi, hrest⟩ := List.forall_mem_cons.mp hP
    have hnext : P ((change i v).toOption.getD v) := by
      cases hc : change i v with
      | error success => exact hv
      | ok v' => exact hi v v' hc hv
    exact ih hrest hnext

namespace Exchange

def start (p : π) (v : α) : Exchange ι π α := ⟨fun _ => p, v, []⟩

variable [DecidableEq ι]

def put (s : Exchange ι π α) (i : ι) (p : π) : Option α → Exchange ι π α
  | none => { s with party := Function.update s.party i p }
  | some w => ⟨Function.update s.party i p, w, s.written ++ [i]⟩

def step (act : ι → ε → α → π → π × Option α) (s : Exchange ι π α) (x : ι × ε) : Exchange ι π α :=
  let y := act x.1 x.2 s.value (s.party x.1)
  s.put x.1 y.1 y.2

def run (act : ι → ε → α → π → π × Option α) (s : Exchange ι π α) (schedule : List (ι × ε)) : Exchange ι π α :=
  schedule.foldl (step act) s

/-- No party reads while another is about to write. -/
def Uninterrupted (act : ι → ε → α → π → π × Option α) (stage : π → Stage α) :
    Exchange ι π α → List (ι × ε) → Prop
  | _, [] => True
  | s, x :: rest => (stage (s.party x.1) = .ready → stage ((s.step act x).party x.1) ≠ .ready →
      ∀ j v, stage (s.party j) ≠ .holding v) ∧ Uninterrupted act stage (s.step act x) rest

end Exchange

/-! ## One step -/

variable {p₀ p : π} {s : Exchange ι π α} {o : Option α}

theorem left_start : Left change stage (Exchange.start p₀ v₀) v₀ [] v₀ := ⟨List.nodup_nil, List.forall_mem_nil _, rfl⟩

theorem accounted_start (hp : stage p₀ = .ready) :
    Accounted change stage v₀ (Exchange.start p₀ v₀ : Exchange ι π α) where
  value := ⟨[], left_start⟩
  held _ _ h := by cases hp.symm.trans h
  unread := List.forall_mem_nil _

theorem complete_start (hp : stage p₀ = .ready) :
    Complete change stage v₀ (Exchange.start p₀ v₀ : Exchange ι π α) where
  value := by
    refine ⟨[], left_start, fun i h => ?_⟩
    obtain h | h := h
    · exact h
    · cases hp.symm.trans h
  held _ _ h := by cases hp.symm.trans h
  unread := List.forall_mem_nil _

theorem Complete.not_counts (h : Complete change stage v₀ s) (hi : stage (s.party i) = .ready) :
    ¬ s.Counts stage i := by
  rintro (hw | hd)
  · exact h.unread i hw hi
  · cases hi.symm.trans hd

variable [DecidableEq ι] {act : ι → ε → α → π → π × Option α} {x : ι × ε} {schedule : List (ι × ε)}

@[simp] theorem put_party : (s.put i p o).party = Function.update s.party i p := by cases o <;> rfl

theorem put_self : (s.put i p o).party i = p := by rw [put_party, Function.update_self]

theorem put_of_ne (h : j ≠ i) : (s.put i p o).party j = s.party j := by rw [put_party, Function.update_of_ne h]

theorem mem_put_written : j ∈ (s.put i p o).written ↔ j ∈ s.written ∨ j = i ∧ o.isSome = true := by
  cases o with
  | none => simp [Exchange.put]
  | some w => simp [Exchange.put]

/-- Who counts goes on counting, unless it is the party itself and that forgets its success. -/
theorem Exchange.Counts.put (h : s.Counts stage j) (hi : stage (s.party i) = .done true → stage p = .done true) :
    (s.put i p o).Counts stage j := by
  obtain h | h := h
  · exact Or.inl (mem_put_written.mpr (Or.inl h))
  · by_cases hji : j = i
    · subst hji
      refine Or.inr ?_
      rw [put_self]
      exact hi h
    · refine Or.inr ?_
      rw [put_of_ne hji]
      exact h

theorem Left.put (h : Left change stage s v₀ order v)
    (hi : stage (s.party i) = .done true → stage p = .done true) : Left change stage (s.put i p o) v₀ order v :=
  ⟨h.nodup, fun j hj => (h.count j hj).put hi, h.left⟩

theorem Left.concat {base : α} (h : Left change stage s v₀ order base) (hi : i ∉ order)
    (hp : (s.put i p o).Counts stage i) (hkeep : stage (s.party i) = .done true → stage p = .done true)
    (hv : (change i base).toOption.getD base = v) :
    Left change stage (s.put i p o) v₀ (order ++ [i]) v where
  nodup := by
    rw [← List.concat_eq_append]
    exact h.nodup.concat hi
  count j hj := by
    rcases List.mem_append.mp hj with hj | hj
    · exact (h.count j hj).put hkeep
    · rw [List.mem_singleton.mp hj]
      exact hp
  left := by
    rw [inTurn_append, ← h.left, ← hv]
    rfl

theorem holding_put (hp : ∀ v, stage p ≠ .holding v) (h : stage ((s.put i p o).party j) = .holding v) :
    j ≠ i ∧ stage (s.party j) = .holding v := by
  by_cases hji : j = i
  · rw [hji, put_self] at h
    exact absurd h (hp v)
  · rw [put_of_ne hji] at h
    exact ⟨hji, h⟩

theorem stage_put (hp : stage p = stage (s.party i)) (j : ι) :
    stage ((s.put i p o).party j) = stage (s.party j) := by
  by_cases hji : j = i
  · rw [hji, put_self, hp]
  · rw [put_of_ne hji]

theorem unread_put (h : ∀ j ∈ s.written, stage (s.party j) ≠ .ready)
    (hp : stage p = .ready → stage (s.party i) = .ready) (ho : o.isSome = true → stage p ≠ .ready) :
    ∀ j ∈ (s.put i p o).written, stage ((s.put i p o).party j) ≠ .ready := by
  intro j hj
  by_cases hji : j = i
  · subst hji
    rw [put_self]
    obtain hj | ⟨-, hj⟩ := mem_put_written.mp hj
    · exact fun hready => h j hj (hp hready)
    · exact ho hj
  · rw [put_of_ne hji]
    obtain hj | ⟨hj, -⟩ := mem_put_written.mp hj
    · exact h j hj
    · exact absurd hj hji

/-! ## Any order -/

theorem step_put (hf : Follows act change stage) (s : Exchange ι π α) (x : ι × ε) :
    ∃ p o, s.step act x = s.put x.1 p o ∧ (stage (s.party x.1)).Step (change x.1) s.value (stage p) o :=
  ⟨_, _, rfl, hf x.1 x.2 s.value (s.party x.1)⟩

theorem Accounted.held_put (h : Accounted change stage v₀ s)
    (hkeep : stage (s.party i) = .done true → stage p = .done true) (hp : ∀ v, stage p ≠ .holding v) :
    ∀ j v, stage ((s.put i p o).party j) = .holding v →
      ∃ order base, Left change stage (s.put i p o) v₀ order base ∧ j ∉ order ∧ change j base = .ok v := by
  intro j v hj
  obtain ⟨order, base, hleft, hnot, hchange⟩ := h.held j v (holding_put hp hj).2
  exact ⟨order, base, hleft.put hkeep, hnot, hchange⟩

/-- A party comes to its end. -/
theorem Accounted.ends {success : Bool} (h : Accounted change stage v₀ s)
    (hvalue : ∃ order, Left change stage (s.put i p o) v₀ order (s.put i p o).value)
    (hkeep : stage (s.party i) = .done true → stage p = .done true) (hp : stage p = .done success) :
    Accounted change stage v₀ (s.put i p o) :=
  ⟨hvalue, h.held_put hkeep (by simp [hp]), unread_put h.unread (by simp [hp]) (by simp [hp])⟩

theorem accounted_step (hf : Follows act change stage) (h : Accounted change stage v₀ s) (x : ι × ε) :
    Accounted change stage v₀ (s.step act x) := by
  obtain ⟨order, hvalue⟩ := h.value
  obtain ⟨p, o, heq, hstep⟩ := step_put hf s x
  rw [heq]
  generalize hs : stage (s.party x.1) = before at hstep
  generalize hp : stage p = behind at hstep
  cases hstep with
  | waits =>
    have hsame : stage p = stage (s.party x.1) := hp.trans hs.symm
    refine ⟨⟨order, hvalue.put hsame.trans⟩, fun j w hj => ?_, unread_put h.unread hsame.symm.trans (by simp)⟩
    obtain ⟨order', base, hleft, hnot, hc⟩ := h.held j w ((stage_put hsame j).symm.trans hj)
    exact ⟨order', base, hleft.put hsame.trans, hnot, hc⟩
  | fails hne =>
    have hkeep : stage (s.party x.1) = .done true → stage p = .done true := fun h => absurd (hs.symm.trans h) hne
    exact h.ends ⟨order, hvalue.put hkeep⟩ hkeep hp
  | skips hc =>
    have hkeep : stage (s.party x.1) = .done true → stage p = .done true := by simp [hs]
    exact h.ends ⟨order, hvalue.put hkeep⟩ hkeep hp
  | @reads v hc =>
    have hkeep : stage (s.party x.1) = .done true → stage p = .done true := by simp [hs]
    have hfresh : x.1 ∉ order := fun hmem => by
      obtain hw | hd := hvalue.count x.1 hmem
      · exact h.unread x.1 hw hs
      · cases hs.symm.trans hd
    refine ⟨⟨order, hvalue.put hkeep⟩, fun j w hj => ?_, unread_put h.unread (by simp [hp]) (by simp)⟩
    by_cases hji : j = x.1
    · rw [hji, put_self, hp] at hj
      obtain rfl := Stage.holding.inj hj
      exact ⟨order, s.value, hvalue.put hkeep, hji ▸ hfresh, hji ▸ hc⟩
    · rw [put_of_ne hji] at hj
      obtain ⟨order', base, hleft, hnot, hc'⟩ := h.held j w hj
      exact ⟨order', base, hleft.put hkeep, hnot, hc'⟩
  | writes v hq =>
    have hkeep : stage (s.party x.1) = .done true → stage p = .done true := by simp [hs]
    have hcount : (s.put x.1 p (some v)).Counts stage x.1 := Or.inl (mem_put_written.mpr (Or.inr ⟨rfl, rfl⟩))
    obtain ⟨order', base, hleft, hnot, hc⟩ := h.held x.1 v hs
    have hnext : Left change stage (s.put x.1 p (some v)) v₀ (order' ++ [x.1]) v :=
      hleft.concat hnot hcount hkeep (by rw [hc]; rfl)
    obtain rfl | ⟨success, rfl⟩ := hq
    · -- it goes on holding the value, for another attempt
      have hsame : stage p = stage (s.party x.1) := hp.trans hs.symm
      refine ⟨⟨_, hnext⟩, fun j w hj => ?_, unread_put h.unread hsame.symm.trans (by simp [hp])⟩
      obtain ⟨order₂, base₂, hleft₂, hnot₂, hc₂⟩ := h.held j w ((stage_put hsame j).symm.trans hj)
      exact ⟨order₂, base₂, hleft₂.put hkeep, hnot₂, hc₂⟩
    · exact h.ends ⟨_, hnext⟩ hkeep hp

theorem accounted_run (hf : Follows act change stage) (h : Accounted change stage v₀ s)
    (schedule : List (ι × ε)) : Accounted change stage v₀ (s.run act schedule) := by
  induction schedule generalizing s with
  | nil => exact h
  | cons x rest ih => exact ih (accounted_step hf h x)

/-! ## One after the other -/

theorem Exchange.Counts.of_put (h : (s.put i p o).Counts stage j) :
    s.Counts stage j ∨ j = i ∧ (o.isSome = true ∨ stage p = .done true) := by
  obtain h | h := h
  · obtain h | ⟨hji, ho⟩ := mem_put_written.mp h
    · exact Or.inl (Or.inl h)
    · exact Or.inr ⟨hji, Or.inl ho⟩
  · by_cases hji : j = i
    · subst hji
      rw [put_self] at h
      exact Or.inr ⟨rfl, Or.inr h⟩
    · rw [put_of_ne hji] at h
      exact Or.inl (Or.inr h)

/-- No other party comes to count. -/
theorem Complete.value_put (h : Complete change stage v₀ s)
    (hkeep : stage (s.party i) = .done true → stage p = .done true) (hvalue : (s.put i p o).value = s.value)
    (hi : o.isSome = true ∨ stage p = .done true → s.Counts stage i) :
    ∃ order, Left change stage (s.put i p o) v₀ order (s.put i p o).value ∧
      ∀ j, (s.put i p o).Counts stage j → j ∈ order := by
  obtain ⟨order, hleft, hall⟩ := h.value
  refine ⟨order, hvalue ▸ hleft.put hkeep, fun j hj => ?_⟩
  obtain hcounts | ⟨rfl, hnew⟩ := hj.of_put
  · exact hall j hcounts
  · exact hall j (hi hnew)

/-- The party that comes to count stands behind the others. -/
theorem Complete.value_concat (h : Complete change stage v₀ s) (hi : ¬ s.Counts stage i)
    (hcount : (s.put i p o).Counts stage i)
    (hv : (change i s.value).toOption.getD s.value = (s.put i p o).value) :
    ∃ order, Left change stage (s.put i p o) v₀ order (s.put i p o).value ∧
      ∀ j, (s.put i p o).Counts stage j → j ∈ order := by
  obtain ⟨order, hleft, hall⟩ := h.value
  have hkeep : stage (s.party i) = .done true → stage p = .done true := fun h => absurd (Or.inr h) hi
  refine ⟨order ++ [i], hleft.concat (fun hmem => hi (hleft.count i hmem)) hcount hkeep hv, fun j hj => ?_⟩
  obtain hj | ⟨rfl, -⟩ := hj.of_put
  · exact List.mem_append_left _ (hall j hj)
  · exact List.mem_append_right _ List.mem_cons_self

theorem Complete.held_put (h : Complete change stage v₀ s) (hp : ∀ v, stage p ≠ .holding v) :
    ∀ j v, stage ((s.put i p none).party j) = .holding v →
      (∀ k w, stage ((s.put i p none).party k) = .holding w → k = j) ∧
        (j ∉ (s.put i p none).written ∧ change j s.value = .ok v ∨
          j ∈ (s.put i p none).written ∧ s.value = v) := by
  intro j v hj
  obtain ⟨honly, hvalue⟩ := h.held j v (holding_put hp hj).2
  exact ⟨fun k w hk => honly k w (holding_put hp hk).2, hvalue⟩

theorem complete_step (hf : Follows act change stage) (h : Complete change stage v₀ s)
    (hfree : stage (s.party x.1) = .ready → stage ((s.step act x).party x.1) ≠ .ready →
      ∀ j v, stage (s.party j) ≠ .holding v) : Complete change stage v₀ (s.step act x) := by
  obtain ⟨p, o, heq, hstep⟩ := step_put hf s x
  rw [heq] at hfree ⊢
  rw [put_self] at hfree
  generalize hs : stage (s.party x.1) = before at hstep hfree
  generalize hp : stage p = behind at hstep hfree
  cases hstep with
  | waits =>
    have hsame : stage p = stage (s.party x.1) := hp.trans hs.symm
    refine ⟨h.value_put hsame.trans rfl ?_, fun j w hj => ?_, unread_put h.unread hsame.symm.trans (by simp)⟩
    · rintro (ho | hd)
      · cases ho
      · exact Or.inr (hsame.symm.trans hd)
    · obtain ⟨honly, hvalue⟩ := h.held j w ((stage_put hsame j).symm.trans hj)
      exact ⟨fun k u hk => honly k u ((stage_put hsame k).symm.trans hk), hvalue⟩
  | fails hne =>
    have hkeep : stage (s.party x.1) = .done true → stage p = .done true := fun h => absurd (hs.symm.trans h) hne
    exact ⟨h.value_put hkeep rfl (by simp [hp]), h.held_put (by simp [hp]),
      unread_put h.unread (by simp [hp]) (by simp)⟩
  | @skips success hc =>
    have hvalue : ∃ order, Left change stage (s.put x.1 p none) v₀ order s.value ∧
        ∀ j, (s.put x.1 p none).Counts stage j → j ∈ order := by
      cases success with
      | true => exact h.value_concat (h.not_counts hs) (Or.inr (by rw [put_self, hp])) (by rw [hc]; rfl)
      | false => exact h.value_put (by simp [hs]) rfl (by simp [hp])
    exact ⟨hvalue, h.held_put (by simp [hp]), unread_put h.unread (by simp [hp]) (by simp)⟩
  | @reads v hc =>
    refine ⟨h.value_put (by simp [hs]) rfl (by simp [hp]), fun j w hj => ?_,
      unread_put h.unread (by simp [hp]) (by simp)⟩
    have honly : ∀ k u, stage ((s.put x.1 p none).party k) = .holding u → k = x.1 := by
      intro k u hk
      by_contra hki
      rw [put_of_ne hki] at hk
      exact hfree rfl nofun k u hk
    obtain rfl := honly j w hj
    rw [put_self, hp] at hj
    obtain rfl := Stage.holding.inj hj
    exact ⟨honly, Or.inl ⟨fun hw => h.unread x.1 hw hs, hc⟩⟩
  | writes v hq =>
    obtain ⟨honly, hheld⟩ := h.held x.1 v hs
    have hcount : (s.put x.1 p (some v)).Counts stage x.1 := Or.inl (mem_put_written.mpr (Or.inr ⟨rfl, rfl⟩))
    have hvalue : ∃ order, Left change stage (s.put x.1 p (some v)) v₀ order v ∧
        ∀ j, (s.put x.1 p (some v)).Counts stage j → j ∈ order := by
      obtain ⟨hnew, hc⟩ | ⟨hold, hc⟩ := hheld
      · have hnot : ¬ s.Counts stage x.1 := by
          rintro (hw | hd)
          · exact hnew hw
          · cases hs.symm.trans hd
        exact h.value_concat hnot hcount (by rw [hc]; rfl)
      · -- the same value once more
        exact h.value_put (by simp [hs]) hc.symm fun _ => Or.inl hold
    have hunread : ∀ j ∈ (s.put x.1 p (some v)).written, stage ((s.put x.1 p (some v)).party j) ≠ .ready := by
      obtain rfl | ⟨success, rfl⟩ := hq <;> exact unread_put h.unread (by simp [hp]) (by simp [hp])
    refine ⟨hvalue, fun j w hj => ?_, hunread⟩
    have hback : ∀ k u, stage ((s.put x.1 p (some v)).party k) = .holding u → k = x.1 := by
      intro k u hk
      by_contra hki
      rw [put_of_ne hki] at hk
      exact hki (honly k u hk)
    obtain rfl := hback j w hj
    rw [put_self, hp] at hj
    obtain rfl | ⟨success, rfl⟩ := hq
    · obtain rfl := Stage.holding.inj hj
      exact ⟨hback, Or.inr ⟨mem_put_written.mpr (Or.inr ⟨rfl, rfl⟩), rfl⟩⟩
    · cases hj

theorem complete_run (hf : Follows act change stage) (h : Complete change stage v₀ s)
    (hfree : s.Uninterrupted act stage schedule) : Complete change stage v₀ (s.run act schedule) := by
  induction schedule generalizing s with
  | nil => exact h
  | cons x rest ih => exact ih (complete_step hf h hfree.1) hfree.2

/-- What stands there has been left by some of the parties that have written or report success, and
by all of them if none reads while another is about to write. -/
theorem left_in_turn (hf : Follows act change stage) (hp : stage p₀ = .ready) (v₀ : α)
    (schedule : List (ι × ε)) :
    let s := (Exchange.start p₀ v₀).run act schedule
    ∃ order, Left change stage s v₀ order s.value ∧
      ((Exchange.start p₀ v₀).Uninterrupted act stage schedule → ∀ i, s.Counts stage i → i ∈ order) := by
  intro s
  by_cases hfree : (Exchange.start p₀ v₀).Uninterrupted act stage schedule
  · obtain ⟨order, hleft, hall⟩ := (complete_run hf (complete_start hp) hfree).value
    exact ⟨order, hleft, fun _ => hall⟩
  · obtain ⟨order, hleft⟩ := (accounted_run hf (accounted_start hp) schedule).value
    exact ⟨order, hleft, fun h => absurd h hfree⟩

end Stoatpp.Library
