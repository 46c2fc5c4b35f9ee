import Mathlib.Data.List.TakeWhile

/-!
# Fields joined by a separator

A reader takes what stands before the first stop and splits it at every separator. It finds
the fields that were joined exactly if none of them holds a separator or a stop, for any
decoder of the single pieces that never makes one longer. A reader that drops empty pieces finds
the maximal runs without a separator.
-/

namespace Stoatpp.Library

variable {α : Type}

def Plain (sep : α) (stop : α → Bool) (raw : List α) : Prop := sep ∉ raw ∧ ∀ c ∈ raw, stop c = false

variable {sep : α} {stop : α → Bool} {raw rest : List α}

theorem plain_cons {c : α} : Plain sep stop (c :: raw) ↔ (c ≠ sep ∧ stop c = false) ∧ Plain sep stop raw := by
  simp only [Plain, List.mem_cons, not_or, forall_eq_or_imp, ne_comm (a := c)]
  exact and_and_and_comm

theorem first_end (h : ¬ Plain sep stop raw) :
    ∃ p c q, raw = p ++ c :: q ∧ Plain sep stop p ∧ (c = sep ∨ stop c = true) := by
  induction raw with
  | nil => exact absurd ⟨List.not_mem_nil, List.forall_mem_nil _⟩ h
  | cons a rest ih =>
    by_cases ha : a ≠ sep ∧ stop a = false
    · obtain ⟨p, c, q, rfl, hp, hc⟩ := ih fun hrest => h (plain_cons.mpr ⟨ha, hrest⟩)
      exact ⟨a :: p, c, q, rfl, plain_cons.mpr ⟨ha, hp⟩, hc⟩
    · refine ⟨[], a, rest, rfl, ⟨List.not_mem_nil, List.forall_mem_nil _⟩, ?_⟩
      rwa [not_and_or, not_not, Bool.not_eq_false] at ha

theorem mem_join {c : α} {ls : List (List α)} (h : c ∈ [sep].intercalate ls) :
    c = sep ∨ ∃ l ∈ ls, c ∈ l := by
  induction ls with
  | nil => simp [List.intercalate] at h
  | cons l rest ih =>
    cases rest with
    | nil => exact Or.inr ⟨l, List.mem_singleton_self l, by simpa [List.intercalate] using h⟩
    | cons m ms =>
      have hjoin : [sep].intercalate (l :: m :: ms) = l ++ sep :: [sep].intercalate (m :: ms) := by
        simp [List.intercalate]
      rw [hjoin, List.mem_append, List.mem_cons] at h
      rcases h with h | h | h
      · exact Or.inr ⟨l, List.mem_cons_self, h⟩
      · exact Or.inl h
      · exact (ih h).imp_right fun ⟨l', hl', hc⟩ => ⟨l', List.mem_cons_of_mem _ hl', hc⟩

/-! ## Texts that are cut at a separator -/

theorem append_inj_of_cut {p p' q q' : List α} (hp : sep ∉ p) (hp' : sep ∉ p')
    (hq : ∀ c ∈ q.head?, c = sep) (hq' : ∀ c ∈ q'.head?, c = sep) (h : p ++ q = p' ++ q') : p = p' ∧ q = q' := by
  induction p generalizing p' with
  | nil =>
    cases p' with
    | nil => exact ⟨rfl, h⟩
    | cons c p' =>
      obtain rfl : q = c :: (p' ++ q') := h
      exact absurd (hq c rfl ▸ List.mem_cons_self) hp'
  | cons c p ih =>
    cases p' with
    | nil =>
      obtain rfl : c :: (p ++ q) = q' := h
      exact absurd (hq' c rfl ▸ List.mem_cons_self) hp
    | cons c' p' =>
      obtain ⟨hc, hrest⟩ := List.cons.inj h
      rw [List.mem_cons, not_or] at hp hp'
      obtain ⟨hp_eq, hq_eq⟩ := ih hp.2 hp'.2 hrest
      exact ⟨by rw [hc, hp_eq], hq_eq⟩

theorem flatMap_cons_inj {ls ls' : List (List α)} (hls : ∀ l ∈ ls, sep ∉ l) (hls' : ∀ l ∈ ls', sep ∉ l)
    (h : ls.flatMap (sep :: ·) = ls'.flatMap (sep :: ·)) : ls = ls' := by
  have hhead (ms : List (List α)) : ∀ c ∈ (ms.flatMap (sep :: ·)).head?, c = sep := by
    cases ms with
    | nil => simp
    | cons m ms => simp
  induction ls generalizing ls' with
  | nil =>
    cases ls' with
    | nil => rfl
    | cons l' ls' => cases h
  | cons l ls ih =>
    cases ls' with
    | nil => cases h
    | cons l' ls' =>
      rw [List.forall_mem_cons] at hls hls'
      rw [List.flatMap_cons, List.flatMap_cons] at h
      obtain ⟨hl, hrest⟩ := append_inj_of_cut hls.1 hls'.1 (hhead ls) (hhead ls') (List.cons.inj h).2
      rw [hl, ih hls.2 hls'.2 hrest]

/-! ## Runs between separators -/

/-- A text and the runs without a separator in it, none of which can be made longer. -/
inductive MaximalRuns (split : α → Bool) : List α → List (List α) → Prop where
  | nil : MaximalRuns split [] []
  | skip {a : α} {text : List α} {runs : List (List α)} :
    split a = true → MaximalRuns split text runs → MaximalRuns split (a :: text) runs
  | run {r text : List α} {runs : List (List α)} : r ≠ [] → (∀ a ∈ r, split a = false) →
    (∀ a ∈ text.head?, split a = true) → MaximalRuns split text runs →
    MaximalRuns split (r ++ text) (r :: runs)

theorem exists_maximalRuns (split : α → Bool) (text : List α) : ∃ runs, MaximalRuns split text runs := by
  induction text with
  | nil => exact ⟨[], .nil⟩
  | cons a text ih =>
    obtain ⟨runs, hruns⟩ := ih
    by_cases ha : split a = true
    · exact ⟨runs, .skip ha hruns⟩
    have hone : ∀ b ∈ [a], split b = false := fun b hb => by
      rw [List.mem_singleton.mp hb, Bool.eq_false_iff.mpr ha]
    cases hruns with
    | nil => exact ⟨[[a]], .run (List.cons_ne_nil _ _) hone (by simp) .nil⟩
    | skip hb hrest =>
      exact ⟨[a] :: runs, .run (List.cons_ne_nil _ _) hone (by simpa using hb) (.skip hb hrest)⟩
    | @run r text runs _ hr hend hrest =>
      refine ⟨(a :: r) :: runs, .run (List.cons_ne_nil _ _) (fun b hb => ?_) hend hrest⟩
      rcases List.mem_cons.mp hb with rfl | hb
      · exact hone b List.mem_cons_self
      · exact hr b hb

theorem MaximalRuns.splitOnP {split : α → Bool} {text : List α} {runs : List (List α)}
    (h : MaximalRuns split text runs) : (text.splitOnP split).filter (· ≠ []) = runs := by
  induction h with
  | nil => simp
  | skip ha _ ih =>
    rw [← List.nil_append (_ :: _), List.splitOnP_append_cons_of_forall_mem (List.forall_mem_nil _) _ ha]
    simpa using ih
  | @run r text runs hne hr hend hrest ih =>
    cases text with
    | nil =>
      have hruns : [] = runs := by simpa using ih
      rw [List.append_nil, List.splitOnP_eq_singleton hr, ← hruns]
      simp [hne]
    | cons a text =>
      have ha : split a = true := hend a rfl
      have htext : (text.splitOnP split).filter (· ≠ []) = runs := by
        rw [← List.nil_append (_ :: _), List.splitOnP_append_cons_of_forall_mem (List.forall_mem_nil _) _ ha] at ih
        simpa using ih
      rw [List.splitOnP_append_cons_of_forall_mem hr _ ha, List.filter_cons_of_pos (by simpa using hne), htext]

theorem maximalRuns_iff {split : α → Bool} {text : List α} {runs : List (List α)} :
    MaximalRuns split text runs ↔ (text.splitOnP split).filter (· ≠ []) = runs := by
  constructor
  · exact MaximalRuns.splitOnP
  · intro h
    obtain ⟨runs', hruns⟩ := exists_maximalRuns split text
    rw [← h, hruns.splitOnP]
    exact hruns

/-! ## Reading the fields back -/

/-- A field as it stands in the text and as it is meant. -/
structure Written (α : Type) where
  raw : List α
  meaning : List α

/-- It is not shortened where it is not plain. -/
def Written.Full (sep : α) (stop : α → Bool) (f : Written α) : Prop :=
  ¬ Plain sep stop f.raw → f.raw.length ≤ f.meaning.length

variable [DecidableEq α]

def pieces (sep : α) (stop : α → Bool) (t : List α) : List (List α) :=
  (t.takeWhile fun c => !stop c).splitOn sep

theorem pieces_plain (h : Plain sep stop raw) (hrest : rest.takeWhile (fun c => !stop c) = []) :
    pieces sep stop (raw ++ rest) = [raw] := by
  have htake : (raw ++ rest).takeWhile (fun c => !stop c) = raw := by
    rw [List.takeWhile_append_of_pos fun c hc => by simp [h.2 c hc], hrest, List.append_nil]
  rw [pieces, htake, List.splitOn_eq_singleton h.1]

theorem pieces_plain_sep (h : Plain sep stop raw) (hsep : stop sep = false) :
    pieces sep stop (raw ++ sep :: rest) = raw :: pieces sep stop rest := by
  have htake : (raw ++ sep :: rest).takeWhile (fun c => !stop c) =
      raw ++ sep :: rest.takeWhile (fun c => !stop c) := by
    rw [List.takeWhile_append_of_pos fun c hc => by simp [h.2 c hc],
      List.takeWhile_cons_of_pos (by simp [hsep])]
  rw [pieces, htake, List.splitOn_append_cons_self_of_not_mem h.1, pieces]

/-- The first piece ends early in a field that is not plain. -/
theorem pieces_cut (h : ¬ Plain sep stop raw) (hsep : stop sep = false) (rest : List α) :
    ∃ p ps, pieces sep stop (raw ++ rest) = p :: ps ∧ p.length < raw.length := by
  obtain ⟨p, c, q, rfl, hp, hc⟩ := first_end h
  rw [List.append_assoc, List.cons_append]
  by_cases hstop : stop c = true
  · exact ⟨p, [], pieces_plain hp (by simp [hstop]), by simp⟩
  · obtain rfl := hc.resolve_right hstop
    exact ⟨p, _, pieces_plain_sep hp hsep, by simp⟩

variable {decode : List α → List α}

theorem pieces_meaning_iff (hdecode : ∀ p, (decode p).length ≤ p.length) (hsep : stop sep = false)
    (hrest : rest.takeWhile (fun c => !stop c) = []) (fields : List (Written α)) (hne : fields ≠ [])
    (hfull : ∀ f ∈ fields, f.Full sep stop) :
    (pieces sep stop ([sep].intercalate (fields.map Written.raw) ++ rest)).map decode =
        fields.map Written.meaning ↔
      ∀ f ∈ fields, Plain sep stop f.raw ∧ decode f.raw = f.meaning := by
  induction fields with
  | nil => exact absurd rfl hne
  | cons f fs ih =>
    obtain ⟨hf, hfs⟩ := List.forall_mem_cons.mp hfull
    rw [List.forall_mem_cons]
    by_cases hplain : Plain sep stop f.raw
    · cases fs with
      | nil =>
        have hone : [sep].intercalate ([f].map Written.raw) = f.raw := by simp [List.intercalate]
        rw [hone, pieces_plain hplain hrest]
        simp [hplain]
      | cons g gs =>
        have hjoin : [sep].intercalate ((f :: g :: gs).map Written.raw) ++ rest =
            f.raw ++ sep :: ([sep].intercalate ((g :: gs).map Written.raw) ++ rest) := by
          simp [List.intercalate]
        rw [hjoin, pieces_plain_sep hplain hsep, List.map_cons, List.map_cons (l := g :: gs),
          List.cons.injEq, ih (List.cons_ne_nil _ _) hfs]
        simp only [hplain, true_and]
    · refine iff_of_false (fun heq => ?_) fun h => hplain h.1.1
      obtain ⟨more, hmore⟩ : ∃ more, [sep].intercalate ((f :: fs).map Written.raw) ++ rest =
          f.raw ++ more := by
        cases fs with
        | nil => exact ⟨rest, by simp [List.intercalate]⟩
        | cons g gs => exact ⟨_, by simp [List.intercalate]; rfl⟩
      obtain ⟨p, ps, hp, hlt⟩ := pieces_cut hplain hsep more
      rw [hmore, hp, List.map_cons, List.map_cons] at heq
      have hlength := congrArg List.length (List.cons.inj heq).1
      have := hdecode p
      have := hf hplain
      omega

/-! ## The first and the last separator -/

variable {text before after : List α}

/-- What stands before the first separator and behind it. -/
def splitFirst (sep : α) : List α → Option (List α × List α)
  | [] => none
  | a :: rest =>
    if a = sep then some ([], rest)
    else (splitFirst sep rest).map fun x => (a :: x.1, x.2)

def splitLast (sep : α) : List α → Option (List α × List α)
  | [] => none
  | a :: rest =>
    match splitLast sep rest with
    | some (before, after) => some (a :: before, after)
    | none => if a = sep then some ([], rest) else none

theorem splitFirst_append (h : sep ∉ before) : splitFirst sep (before ++ sep :: after) = some (before, after) := by
  induction before with
  | nil => exact if_pos rfl
  | cons a rest ih =>
    rw [List.mem_cons, not_or] at h
    rw [List.cons_append, splitFirst, if_neg (Ne.symm h.1), ih h.2, Option.map_some]

theorem splitFirst_eq_none (h : sep ∉ text) : splitFirst sep text = none := by
  induction text with
  | nil => rfl
  | cons a rest ih =>
    rw [List.mem_cons, not_or] at h
    rw [splitFirst, if_neg (Ne.symm h.1), ih h.2, Option.map_none]

theorem splitLast_eq_none_iff : splitLast sep text = none ↔ sep ∉ text := by
  induction text with
  | nil => simp [splitLast]
  | cons a rest ih =>
    rw [splitLast]
    cases hrest : splitLast sep rest with
    | none =>
      have hno := ih.mp hrest
      by_cases ha : a = sep
      · simp [ha]
      · simp [ha, hno, Ne.symm ha]
    | some x =>
      have hmem : sep ∈ rest := by
        by_contra hno
        cases hrest.symm.trans (ih.mpr hno)
      simp [hmem]

theorem splitLast_append (h : sep ∉ after) : splitLast sep (before ++ sep :: after) = some (before, after) := by
  induction before with
  | nil => rw [List.nil_append, splitLast, splitLast_eq_none_iff.mpr h, if_pos rfl]
  | cons a rest ih => rw [List.cons_append, splitLast, ih]

theorem eq_of_splitLast (h : splitLast sep text = some (before, after)) : text = before ++ sep :: after := by
  induction text generalizing before with
  | nil => cases h
  | cons a rest ih =>
    rw [splitLast] at h
    split at h
    · next hrest =>
      cases h
      rw [ih hrest, List.cons_append]
    · split_ifs at h with ha
      cases h
      rw [ha, List.nil_append]

end Stoatpp.Library
