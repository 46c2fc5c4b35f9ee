import Mathlib.Logic.Relation
import Mathlib.Data.List.Infix

/-!
# Processes with a trace that need not end

An `Outcome` is what a straight-line piece of code does: the events it emits
and how it ends. A `Process` is run with a bound on its loop rounds; a larger
bound continues the same trace, so "emits", "yields" and "halts" are facts about
the process and not about a bound. The rules at the end say what a sequence and a
`while` loop emit and yield.
-/

namespace Stoatpp.Library

inductive Status (χ α : Type) where
  | done : α → Status χ α
  | thrown : χ → Status χ α
  | running : Status χ α

structure Outcome (χ ε α : Type) where
  trace : List ε
  status : Status χ α

section
variable {ε : Type}

/-- Each event of a trace meets `P` with what came before it. -/
def EachAfter (P : List ε → ε → Prop) (t : List ε) : Prop :=
  ∀ before e after, t = before ++ e :: after → P before e

theorem eachAfter_nil (P : List ε → ε → Prop) : EachAfter P [] :=
  fun _ _ _ h => by simp at h

theorem eachAfter_concat {P : List ε → ε → Prop} {t : List ε} {e : ε} :
    EachAfter P (t ++ [e]) ↔ EachAfter P t ∧ P t e := by
  constructor
  · intro h
    refine ⟨fun before x after ht => ?_, h t e [] rfl⟩
    exact h before x (after ++ [e]) (by rw [ht, List.append_assoc, List.cons_append])
  · rintro ⟨ht, he⟩ before x after heq
    rcases List.eq_nil_or_concat after with rfl | ⟨rest, y, rfl⟩
    · obtain ⟨rfl, hx⟩ := List.append_inj' heq rfl
      cases hx
      exact he
    · rw [List.concat_eq_append, ← List.cons_append, ← List.append_assoc] at heq
      exact ht before x rest (List.append_inj' heq rfl).1

end

namespace Outcome
variable {χ ε α β : Type}

def ret (a : α) : Outcome χ ε α := ⟨[], .done a⟩
def throw (c : χ) : Outcome χ ε α := ⟨[], .thrown c⟩
def emit (es : List ε) : Outcome χ ε Unit := ⟨es, .done ()⟩
def cut : Outcome χ ε α := ⟨[], .running⟩

def andThen (x : Outcome χ ε α) (f : α → Outcome χ ε β) : Outcome χ ε β :=
  match x.status with
  | .done a => ⟨x.trace ++ (f a).trace, (f a).status⟩
  | .thrown c => ⟨x.trace, .thrown c⟩
  | .running => ⟨x.trace, .running⟩

instance : Monad (Outcome χ ε) where
  pure := ret
  bind := andThen

@[simp] theorem bind_eq_andThen (x : Outcome χ ε α) (f : α → Outcome χ ε β) :
    x >>= f = x.andThen f := rfl

@[simp] theorem pure_eq_ret (a : α) : (pure a : Outcome χ ε α) = ret a := rfl

@[simp] theorem ret_trace (a : α) : (ret a : Outcome χ ε α).trace = [] := rfl
@[simp] theorem ret_status (a : α) : (ret a : Outcome χ ε α).status = .done a := rfl
@[simp] theorem throw_trace (c : χ) : (throw c : Outcome χ ε α).trace = [] := rfl
@[simp] theorem throw_status (c : χ) : (throw c : Outcome χ ε α).status = .thrown c := rfl
@[simp] theorem emit_trace (es : List ε) : (emit es : Outcome χ ε Unit).trace = es := rfl
@[simp] theorem emit_status (es : List ε) :
    (emit es : Outcome χ ε Unit).status = .done () := rfl

theorem andThen_done {x : Outcome χ ε α} {a : α} (h : x.status = .done a)
    (f : α → Outcome χ ε β) : x.andThen f = ⟨x.trace ++ (f a).trace, (f a).status⟩ := by
  simp only [andThen, h]

theorem andThen_ret (x : Outcome χ ε α) : x.andThen ret = x := by
  obtain ⟨trace, status⟩ := x
  cases status <;> simp only [andThen, ret, List.append_nil]

theorem mem_andThen {x : Outcome χ ε α} {f : α → Outcome χ ε β} {e : ε} :
    e ∈ (x.andThen f).trace ↔ e ∈ x.trace ∨ ∃ a, x.status = .done a ∧ e ∈ (f a).trace := by
  unfold andThen
  cases x.status <;> simp

theorem trace_prefix_andThen (x : Outcome χ ε α) (f : α → Outcome χ ε β) : x.trace <+: (x.andThen f).trace := by
  unfold andThen
  cases x.status with
  | done a => exact List.prefix_append _ _
  | thrown c => exact List.prefix_rfl
  | running => exact List.prefix_rfl

/-- `y` continues `x`: they are the same, or `x` was cut off by its bound. -/
def ExtendedBy (x y : Outcome χ ε α) : Prop :=
  x = y ∨ x.status = .running ∧ x.trace <+: y.trace

theorem ExtendedBy.refl (x : Outcome χ ε α) : x.ExtendedBy x := Or.inl rfl

theorem ExtendedBy.isPrefix {x y : Outcome χ ε α} (h : x.ExtendedBy y) : x.trace <+: y.trace := by
  rcases h with rfl | h
  · exact List.prefix_rfl
  · exact h.2

theorem ExtendedBy.trans {x y z : Outcome χ ε α} (hxy : x.ExtendedBy y) (hyz : y.ExtendedBy z) :
    x.ExtendedBy z := by
  rcases hxy with rfl | ⟨hr, hp⟩
  · exact hyz
  · exact Or.inr ⟨hr, hp.trans hyz.isPrefix⟩

theorem ExtendedBy.eq_of_ended {x y : Outcome χ ε α} (h : x.ExtendedBy y)
    (he : x.status ≠ .running) : x = y := by
  rcases h with rfl | h
  · rfl
  · exact absurd h.1 he

theorem ExtendedBy.andThen {x y : Outcome χ ε α} (h : x.ExtendedBy y)
    {f g : α → Outcome χ ε β} (hfg : ∀ a, (f a).ExtendedBy (g a)) :
    (x.andThen f).ExtendedBy (y.andThen g) := by
  rcases h with rfl | ⟨hr, hp⟩
  · unfold Outcome.andThen
    cases x.status with
    | done a =>
      rcases hfg a with he | ⟨hr, hp⟩
      · exact Or.inl (by simp only [he])
      · exact Or.inr ⟨hr, (List.prefix_append_right_inj _).mpr hp⟩
    | thrown c => exact ExtendedBy.refl _
    | running => exact ExtendedBy.refl _
  · refine Or.inr ⟨by simp only [Outcome.andThen, hr], ?_⟩
    have hx : (x.andThen f).trace = x.trace := by simp only [Outcome.andThen, hr]
    rw [hx]
    exact hp.trans (trace_prefix_andThen y g)

def mapEvents {ε' : Type} (f : ε → ε') (x : Outcome χ ε α) : Outcome χ ε' α := ⟨x.trace.map f, x.status⟩

def returns (x : Outcome χ ε α) : Bool :=
  match x.status with
  | .done _ => true
  | _ => false

theorem returns_iff {x : Outcome χ ε α} : x.returns = true ↔ ∃ a, x.status = .done a := by
  unfold returns
  cases x.status <;> simp

theorem returns_andThen {x : Outcome χ ε α} {f : α → Outcome χ ε β} :
    (x.andThen f).returns = true ↔ ∃ a, x.status = .done a ∧ (f a).returns = true := by
  unfold andThen returns
  cases x.status <;> simp

def orElse {χ' : Type} (x : Outcome χ ε α) (k : χ → Outcome χ' ε α) : Outcome χ' ε α :=
  match x.status with
  | .done a => ⟨x.trace, .done a⟩
  | .thrown c => ⟨x.trace ++ (k c).trace, (k c).status⟩
  | .running => ⟨x.trace, .running⟩

theorem orElse_trace {χ' : Type} (x : Outcome χ ε α) (k : χ → Outcome χ' ε α) :
    (x.orElse k).trace = x.trace ∨ ∃ c, (x.orElse k).trace = x.trace ++ (k c).trace := by
  unfold orElse
  cases x.status with
  | done a => exact Or.inl rfl
  | thrown c => exact Or.inr ⟨c, rfl⟩
  | running => exact Or.inl rfl

theorem mem_orElse {χ' : Type} {x : Outcome χ ε α} {k : χ → Outcome χ' ε α} {e : ε} :
    e ∈ (x.orElse k).trace ↔ e ∈ x.trace ∨ ∃ c, x.status = .thrown c ∧ e ∈ (k c).trace := by
  unfold orElse
  cases x.status <;> simp

theorem mapEvents_andThen {ε' : Type} (g : ε → ε') (x : Outcome χ ε α) (f : α → Outcome χ ε β) :
    (x.andThen f).mapEvents g = (x.mapEvents g).andThen fun a => (f a).mapEvents g := by
  unfold andThen mapEvents
  cases x.status <;> simp

theorem mapEvents_orElse {χ' ε' : Type} (g : ε → ε') (x : Outcome χ ε α) (k : χ → Outcome χ' ε α) :
    (x.orElse k).mapEvents g = (x.mapEvents g).orElse fun c => (k c).mapEvents g := by
  unfold orElse mapEvents
  cases x.status <;> simp

/-- It ends, and in what meets `p` unless it throws. -/
def Settles (x : Outcome χ ε α) (p : α → Prop) : Prop :=
  match x.status with
  | .done a => p a
  | .thrown _ => True
  | .running => False

def achieves (x : Outcome χ ε α) (p : α → Bool) : Bool :=
  match x.status with
  | .done a => p a
  | _ => false

/-! ## Postconditions over the history -/

/-- With `h` emitted before it, `x` ends in `Q` or throws in `E`, or is cut off in `R`. -/
def Meets (x : Outcome χ ε α) (h : List ε) (Q : List ε → α → Prop) (E : List ε → χ → Prop)
    (R : List ε → Prop) : Prop :=
  match x.status with
  | .done a => Q (h ++ x.trace) a
  | .thrown c => E (h ++ x.trace) c
  | .running => R (h ++ x.trace)

section
variable {h : List ε} {Q Q' : List ε → α → Prop} {P : List ε → β → Prop}
  {E E' : List ε → χ → Prop} {R R' : List ε → Prop}

theorem meets_ret {a : α} (hq : Q h a) : (ret a : Outcome χ ε α).Meets h Q E R := by
  simpa only [Meets, ret, List.append_nil] using hq

theorem meets_throw {c : χ} (he : E h c) : (throw c : Outcome χ ε α).Meets h Q E R := by
  simpa only [Meets, throw, List.append_nil] using he

theorem meets_cut (hr : R h) : (cut : Outcome χ ε α).Meets h Q E R := by
  simpa only [Meets, cut, List.append_nil] using hr

theorem meets_emit_andThen {es : List ε} {f : Unit → Outcome χ ε α}
    (hf : (f ()).Meets (h ++ es) Q E R) : ((emit es).andThen f).Meets h Q E R := by
  unfold Meets Outcome.andThen emit at *
  cases hs : (f ()).status <;> simpa only [hs, ← List.append_assoc] using hf

theorem Meets.andThen {x : Outcome χ ε α} {f : α → Outcome χ ε β} (hx : x.Meets h Q E R)
    (hf : ∀ h' a, Q h' a → (f a).Meets h' P E R) : (x.andThen f).Meets h P E R := by
  unfold Meets Outcome.andThen at *
  cases hs : x.status with
  | done a =>
    rw [hs] at hx
    simpa only [← List.append_assoc] using hf _ a hx
  | thrown c => simpa only [hs] using hx
  | running => simpa only [hs] using hx

theorem Meets.orElse {χ' : Type} {x : Outcome χ ε α} {k : χ → Outcome χ' ε α}
    {F : List ε → χ' → Prop} (hx : x.Meets h Q E R)
    (hk : ∀ h' c, E h' c → (k c).Meets h' Q F R) : (x.orElse k).Meets h Q F R := by
  unfold Meets Outcome.orElse at *
  cases hs : x.status with
  | done a => simpa only [hs] using hx
  | thrown c =>
    rw [hs] at hx
    simpa only [← List.append_assoc] using hk _ c hx
  | running => simpa only [hs] using hx

theorem Meets.mapEvents {ε' : Type} {f : ε → ε'} {x : Outcome χ ε α} {h : List ε'}
    {Q : List ε' → α → Prop} {E : List ε' → χ → Prop} {R : List ε' → Prop}
    (hx : x.Meets [] (fun t a => Q (h ++ t.map f) a) (fun t c => E (h ++ t.map f) c)
      fun t => R (h ++ t.map f)) : (x.mapEvents f).Meets h Q E R := by
  unfold Meets Outcome.mapEvents at *
  simpa only [List.nil_append] using hx

theorem Meets.trace {x : Outcome χ ε α} (hx : x.Meets [] (fun t _ => R t) (fun t _ => R t) R) :
    R x.trace := by
  unfold Meets at hx
  cases hs : x.status <;> simpa only [hs, List.nil_append] using hx

theorem Meets.imp {x : Outcome χ ε α} (hx : x.Meets h Q E R) (hQ : ∀ h' a, Q h' a → Q' h' a)
    (hE : ∀ h' c, E h' c → E' h' c) (hR : ∀ h', R h' → R' h') : x.Meets h Q' E' R' := by
  unfold Meets at *
  cases hs : x.status with
  | done a => rw [hs] at hx; exact hQ _ _ hx
  | thrown c => rw [hs] at hx; exact hE _ _ hx
  | running => rw [hs] at hx; exact hR _ hx

end

end Outcome

/-- A process under every bound; a larger bound only continues what a smaller one did. -/
structure Process (χ ε α : Type) where
  run : ℕ → Outcome χ ε α
  extends_succ : ∀ n, (run n).ExtendedBy (run (n + 1))

namespace Process
variable {χ ε α β σ : Type}

theorem extends_le (p : Process χ ε α) {n m : ℕ} (h : n ≤ m) :
    (p.run n).ExtendedBy (p.run m) := by
  induction h with
  | refl => exact Outcome.ExtendedBy.refl _
  | step _ ih => exact ih.trans (p.extends_succ _)

def Emits (p : Process χ ε α) (e : ε) : Prop := ∃ n, e ∈ (p.run n).trace
def Yields (p : Process χ ε α) (a : α) : Prop := ∃ n, (p.run n).status = .done a
def Halts (p : Process χ ε α) : Prop := ∃ n, (p.run n).status ≠ .running

theorem run_eq_of_ended (p : Process χ ε α) {n m : ℕ} (h : n ≤ m)
    (he : (p.run n).status ≠ .running) : p.run m = p.run n :=
  ((p.extends_le h).eq_of_ended he).symm

theorem Yields.halts {p : Process χ ε α} {a : α} (h : p.Yields a) : p.Halts := by
  obtain ⟨n, hn⟩ := h
  exact ⟨n, by rw [hn]; simp⟩

theorem Yields.unique {p : Process χ ε α} {a b : α} (ha : p.Yields a) (hb : p.Yields b) : a = b := by
  obtain ⟨n, hn⟩ := ha
  obtain ⟨m, hm⟩ := hb
  have hna := p.run_eq_of_ended (le_max_left n m) (by rw [hn]; simp)
  have hmb := p.run_eq_of_ended (le_max_right n m) (by rw [hm]; simp)
  rw [← hna, hmb, hm] at hn
  exact (Status.done.inj hn).symm

def lift (x : Outcome χ ε α) : Process χ ε α :=
  ⟨fun _ => x, fun _ => Outcome.ExtendedBy.refl _⟩

@[simp] theorem emits_lift (x : Outcome χ ε α) (e : ε) : (lift x).Emits e ↔ e ∈ x.trace :=
  ⟨fun ⟨_, h⟩ => h, fun h => ⟨0, h⟩⟩

@[simp] theorem yields_lift (x : Outcome χ ε α) (a : α) :
    (lift x).Yields a ↔ x.status = .done a :=
  ⟨fun ⟨_, h⟩ => h, fun h => ⟨0, h⟩⟩

theorem halts_lift {x : Outcome χ ε α} (h : x.status ≠ .running) : (lift x).Halts := ⟨0, h⟩

def andThen (p : Process χ ε α) (f : α → Process χ ε β) : Process χ ε β where
  run n := (p.run n).andThen fun a => (f a).run n
  extends_succ n := (p.extends_succ n).andThen fun a => (f a).extends_succ n

instance : Monad (Process χ ε) where
  pure a := lift (.ret a)
  bind := andThen

theorem bind_run (p : Process χ ε α) (f : α → Process χ ε β) (n : ℕ) :
    (p >>= f).run n = (p.run n).andThen fun a => (f a).run n := rfl

@[simp] theorem emits_pure (a : α) (e : ε) : ¬ (pure a : Process χ ε α).Emits e := by
  rintro ⟨n, hn⟩
  exact List.not_mem_nil hn

@[simp] theorem yields_pure (a b : α) : (pure a : Process χ ε α).Yields b ↔ a = b := by
  change (lift (.ret a)).Yields b ↔ _
  simp

theorem halts_pure (a : α) : (pure a : Process χ ε α).Halts := ⟨0, by simp [pure, lift]⟩

theorem yields_bind (p : Process χ ε α) (f : α → Process χ ε β) (b : β) :
    (p >>= f).Yields b ↔ ∃ a, p.Yields a ∧ (f a).Yields b := by
  constructor
  · rintro ⟨n, hn⟩
    rw [bind_run] at hn
    cases hs : (p.run n).status with
    | done a => exact ⟨a, ⟨n, hs⟩, n, by simpa only [Outcome.andThen, hs] using hn⟩
    | thrown c => simp only [Outcome.andThen, hs, reduceCtorEq] at hn
    | running => simp only [Outcome.andThen, hs, reduceCtorEq] at hn
  · rintro ⟨a, ⟨n, hn⟩, m, hm⟩
    have hp := p.run_eq_of_ended (le_max_left n m) (by rw [hn]; simp)
    have hf := (f a).run_eq_of_ended (le_max_right n m) (by rw [hm]; simp)
    exact ⟨max n m, by rw [bind_run, hp, Outcome.andThen_done hn, hf]; exact hm⟩

theorem emits_bind (p : Process χ ε α) (f : α → Process χ ε β) (e : ε) :
    (p >>= f).Emits e ↔ p.Emits e ∨ ∃ a, p.Yields a ∧ (f a).Emits e := by
  constructor
  · rintro ⟨n, hn⟩
    rw [bind_run] at hn
    cases hs : (p.run n).status with
    | done a =>
      simp only [Outcome.andThen, hs, List.mem_append] at hn
      rcases hn with h | h
      · exact Or.inl ⟨n, h⟩
      · exact Or.inr ⟨a, ⟨n, hs⟩, n, h⟩
    | thrown c => exact Or.inl ⟨n, by simpa only [Outcome.andThen, hs] using hn⟩
    | running => exact Or.inl ⟨n, by simpa only [Outcome.andThen, hs] using hn⟩
  · rintro (⟨n, hn⟩ | ⟨a, ⟨n, hn⟩, m, hm⟩)
    · refine ⟨n, ?_⟩
      rw [bind_run]
      unfold Outcome.andThen
      cases (p.run n).status with
      | done a => exact List.mem_append_left _ hn
      | thrown c => exact hn
      | running => exact hn
    · have hp := p.run_eq_of_ended (le_max_left n m) (by rw [hn]; simp)
      have hf := ((f a).extends_le (le_max_right n m)).isPrefix.subset hm
      exact ⟨max n m, by rw [bind_run, hp, Outcome.andThen_done hn]; exact List.mem_append_right _ hf⟩

theorem halts_bind {p : Process χ ε α} {f : α → Process χ ε β} (hp : p.Halts)
    (hf : ∀ a, p.Yields a → (f a).Halts) : (p >>= f).Halts := by
  obtain ⟨n, hn⟩ := hp
  cases hs : (p.run n).status with
  | done a =>
    obtain ⟨m, hm⟩ := hf a ⟨n, hs⟩
    have hp' := p.run_eq_of_ended (le_max_left n m) hn
    have hf' := (f a).run_eq_of_ended (le_max_right n m) hm
    exact ⟨max n m, by rw [bind_run, hp', Outcome.andThen_done hs, hf']; exact hm⟩
  | thrown c => exact ⟨n, by simp [bind_run, Outcome.andThen, hs]⟩
  | running => exact absurd hs hn

theorem halts_of_bind {p : Process χ ε α} {f : α → Process χ ε β} (h : (p >>= f).Halts) :
    p.Halts := by
  obtain ⟨n, hn⟩ := h
  refine ⟨n, fun hr => hn ?_⟩
  simp only [bind_run, Outcome.andThen, hr]

/-! ## The `while` loop -/

def iterate (cond : σ → Bool) (body : σ → Outcome χ ε σ) : ℕ → σ → Outcome χ ε σ
  | 0, _ => .cut
  | k + 1, s => if cond s then (body s).andThen (iterate cond body k) else .ret s

theorem iterate_extends {cond : σ → Bool} {b₁ b₂ : σ → Outcome χ ε σ}
    (hb : ∀ s, (b₁ s).ExtendedBy (b₂ s)) {k₁ k₂ : ℕ} (hk : k₁ ≤ k₂) (s : σ) :
    (iterate cond b₁ k₁ s).ExtendedBy (iterate cond b₂ k₂ s) := by
  induction k₁ generalizing k₂ s with
  | zero => exact Or.inr ⟨rfl, List.nil_prefix⟩
  | succ k₁ ih =>
    obtain ⟨k₂, rfl⟩ : ∃ k, k₂ = k + 1 := ⟨k₂ - 1, by omega⟩
    simp only [iterate]
    split_ifs
    · exact (hb s).andThen fun s' => ih (by omega) s'
    · exact Outcome.ExtendedBy.refl _

def whileLoop (cond : σ → Bool) (body : σ → Process χ ε σ) (s : σ) : Process χ ε σ where
  run n := iterate cond (fun t => (body t).run n) n s
  extends_succ n := iterate_extends (fun t => (body t).extends_succ n) (Nat.le_succ n) s

/-- One full round of the loop, from a state in which the condition holds. -/
def Round (cond : σ → Bool) (body : σ → Process χ ε σ) (s t : σ) : Prop :=
  cond s = true ∧ (body s).Yields t

abbrev Rounds (cond : σ → Bool) (body : σ → Process χ ε σ) : σ → σ → Prop :=
  Relation.ReflTransGen (Round cond body)

variable {cond : σ → Bool} {body : σ → Process χ ε σ} {s t : σ}

theorem whileLoop_run_succ (hs : cond s = true) (n : ℕ) :
    (whileLoop cond body s).run (n + 1) = ((body s).run (n + 1)).andThen
      fun t => iterate cond (fun u => (body u).run (n + 1)) n t := by
  simp only [whileLoop, iterate, hs, if_true]

theorem whileLoop_below_bind (hs : cond s = true) (n : ℕ) :
    ((whileLoop cond body s).run n).ExtendedBy ((body s >>= whileLoop cond body).run n) := by
  cases n with
  | zero => exact Or.inr ⟨rfl, List.nil_prefix⟩
  | succ n =>
    rw [whileLoop_run_succ hs, bind_run]
    exact (Outcome.ExtendedBy.refl _).andThen fun t =>
      iterate_extends (fun u => Outcome.ExtendedBy.refl _) (Nat.le_succ n) t

theorem bind_below_whileLoop (hs : cond s = true) (n : ℕ) :
    ((body s >>= whileLoop cond body).run n).ExtendedBy
      ((whileLoop cond body s).run (n + 1)) := by
  rw [whileLoop_run_succ hs, bind_run]
  exact ((body s).extends_succ n).andThen fun t =>
    iterate_extends (fun u => (body u).extends_succ n) le_rfl t

theorem yields_whileLoop_step (hs : cond s = true) (a : σ) :
    (whileLoop cond body s).Yields a ↔
      ∃ t, (body s).Yields t ∧ (whileLoop cond body t).Yields a := by
  rw [← yields_bind]
  constructor
  · rintro ⟨n, hn⟩
    have h : ((whileLoop cond body s).run n).ExtendedBy _ := whileLoop_below_bind hs n
    exact ⟨n, by rw [← h.eq_of_ended (by rw [hn]; simp)]; exact hn⟩
  · rintro ⟨n, hn⟩
    have h : Outcome.ExtendedBy _ ((whileLoop cond body s).run (n + 1)) := bind_below_whileLoop hs n
    exact ⟨n + 1, by rw [← h.eq_of_ended (by rw [hn]; simp)]; exact hn⟩

theorem emits_whileLoop_step (hs : cond s = true) (e : ε) :
    (whileLoop cond body s).Emits e ↔
      (body s).Emits e ∨ ∃ t, (body s).Yields t ∧ (whileLoop cond body t).Emits e := by
  rw [← emits_bind]
  constructor
  · rintro ⟨n, hn⟩
    exact ⟨n, (whileLoop_below_bind hs n).isPrefix.subset hn⟩
  · rintro ⟨n, hn⟩
    exact ⟨n + 1, (bind_below_whileLoop hs n).isPrefix.subset hn⟩

theorem halts_whileLoop_step (hs : cond s = true) (hb : (body s).Halts)
    (ht : ∀ t, (body s).Yields t → (whileLoop cond body t).Halts) :
    (whileLoop cond body s).Halts := by
  obtain ⟨n, hn⟩ := halts_bind hb ht
  have h : Outcome.ExtendedBy _ ((whileLoop cond body s).run (n + 1)) := bind_below_whileLoop hs n
  exact ⟨n + 1, by rw [← h.eq_of_ended hn]; exact hn⟩

theorem yields_whileLoop_exit (hs : cond s = false) (a : σ) :
    (whileLoop cond body s).Yields a ↔ s = a := by
  constructor
  · rintro ⟨n, hn⟩
    cases n with
    | zero => simp [whileLoop, iterate, Outcome.cut] at hn
    | succ n => simpa [whileLoop, iterate, hs] using hn
  · rintro rfl
    exact ⟨1, by simp [whileLoop, iterate, hs]⟩

/-- A loop yields exactly the states that some rounds lead to and in which its condition fails. -/
theorem yields_whileLoop (s a : σ) : (whileLoop cond body s).Yields a ↔
    Rounds cond body s a ∧ cond a = false := by
  constructor
  · rintro ⟨n, hn⟩
    suffices h : ∀ k t, (iterate cond (fun u => (body u).run n) k t).status = .done a →
        Rounds cond body t a ∧ cond a = false from h n s hn
    intro k
    induction k with
    | zero => intro t ht; simp [iterate, Outcome.cut] at ht
    | succ k ih =>
      intro t ht
      simp only [iterate] at ht
      split_ifs at ht with hc
      · cases hb : ((body t).run n).status with
        | done u =>
          rw [Outcome.andThen_done hb] at ht
          obtain ⟨hr, ha⟩ := ih u ht
          exact ⟨.head ⟨hc, n, hb⟩ hr, ha⟩
        | thrown c => simp [Outcome.andThen, hb] at ht
        | running => simp [Outcome.andThen, hb] at ht
      · simp only [Outcome.ret_status, Status.done.injEq] at ht
        subst ht
        exact ⟨.refl, by simpa using hc⟩
  · rintro ⟨hr, ha⟩
    induction hr using Relation.ReflTransGen.head_induction_on with
    | refl => exact (yields_whileLoop_exit ha a).mpr rfl
    | head h _ ih => exact (yields_whileLoop_step h.1 a).mpr ⟨_, h.2, ih⟩

/-- A loop emits exactly what the body emits in a state that some rounds lead to. -/
theorem emits_whileLoop (s : σ) (e : ε) : (whileLoop cond body s).Emits e ↔
    ∃ t, Rounds cond body s t ∧ cond t = true ∧ (body t).Emits e := by
  constructor
  · rintro ⟨n, hn⟩
    suffices h : ∀ k u, e ∈ (iterate cond (fun v => (body v).run n) k u).trace →
        ∃ t, Rounds cond body u t ∧ cond t = true ∧ (body t).Emits e from h n s hn
    intro k
    induction k with
    | zero => intro u hu; simp [iterate, Outcome.cut] at hu
    | succ k ih =>
      intro u hu
      simp only [iterate] at hu
      split_ifs at hu with hc
      · cases hb : ((body u).run n).status with
        | done v =>
          rw [Outcome.andThen_done hb] at hu
          rcases List.mem_append.mp hu with h | h
          · exact ⟨u, .refl, hc, n, h⟩
          · obtain ⟨t, hr, ht⟩ := ih v h
            exact ⟨t, .head ⟨hc, n, hb⟩ hr, ht⟩
        | thrown c => exact ⟨u, .refl, hc, n, by simpa only [Outcome.andThen, hb] using hu⟩
        | running => exact ⟨u, .refl, hc, n, by simpa only [Outcome.andThen, hb] using hu⟩
      · simp at hu
  · rintro ⟨t, hr, hc, he⟩
    induction hr using Relation.ReflTransGen.head_induction_on with
    | refl => exact (emits_whileLoop_step hc e).mpr (Or.inl he)
    | head h _ ih => exact (emits_whileLoop_step h.1 e).mpr (Or.inr ⟨_, h.2, ih⟩)

/-- A loop halts when every round it starts halts and lowers a measure. -/
theorem halts_whileLoop (μ : σ → ℕ) (s : σ)
    (hb : ∀ t, Rounds cond body s t → cond t = true → (body t).Halts)
    (hμ : ∀ t u, Rounds cond body s t → Round cond body t u → μ u < μ t) :
    (whileLoop cond body s).Halts := by
  suffices h : ∀ n t, Rounds cond body s t → μ t ≤ n → (whileLoop cond body t).Halts from
    h _ s .refl le_rfl
  intro n
  induction n with
  | zero =>
    intro t ht hn
    cases hc : cond t with
    | false => exact ((yields_whileLoop_exit hc t).mpr rfl).halts
    | true =>
      refine halts_whileLoop_step hc (hb t ht hc) fun u hu => ?_
      have h := hμ t u ht ⟨hc, hu⟩
      omega
  | succ n ih =>
    intro t ht hn
    cases hc : cond t with
    | false => exact ((yields_whileLoop_exit hc t).mpr rfl).halts
    | true =>
      refine halts_whileLoop_step hc (hb t ht hc) fun u hu => ?_
      have h := hμ t u ht ⟨hc, hu⟩
      exact ih u (ht.tail ⟨hc, hu⟩) (by omega)

/-- A loop that a round takes back to where it started does not halt. -/
theorem not_halts_of_cycle (hs : cond s = true) (hb : (body s).Yields s) :
    ¬ (whileLoop cond body s).Halts := by
  rintro ⟨n, hn⟩
  apply hn
  suffices h : ∀ k, (iterate cond (fun u => (body u).run n) k s).status = .running from h n
  intro k
  induction k with
  | zero => rfl
  | succ k ih =>
    simp only [iterate, hs, if_true]
    by_cases hr : ((body s).run n).status = .running
    · simp only [Outcome.andThen, hr]
    · obtain ⟨l, hl⟩ := hb
      have hl' : ((body s).run (max n l)).status = .done s := by
        rw [(body s).run_eq_of_ended (le_max_right n l) (by rw [hl]; simp), hl]
      rw [(body s).run_eq_of_ended (le_max_left n l) hr] at hl'
      rw [Outcome.andThen_done hl']
      exact ih

end Process
end Stoatpp.Library
