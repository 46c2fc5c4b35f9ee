import Mathlib.Algebra.Order.Field.Basic
import Mathlib.Data.Rat.Defs
import Mathlib.Tactic.Linarith
import Stoatpp.Cluster.Registration
import Stoatpp.Library.EditDistance

/-!
# Which commands a mistyped one suggests

A row of the distance table holds the distances of the bytes read so far from every beginning of
the second string, so the last entry of the last row is the edit distance. The suggestion then
depends on the enabled commands only, and not on their order: the running maximum is the best
score of all of them, and a candidate that is kept is as good as it up to a thousandth.
-/

namespace Stoatpp.Cluster
open Stoatpp.Library

/-! ## The distance table -/

/-- Distances of `r` from `q` and from what comes of it as the bytes of `t` are put before. -/
def row (r q : Bytes) : Bytes → List ℕ
  | [] => [distance r q]
  | b :: t => distance r q :: row r (b :: q) t

theorem row_cons (r q t : Bytes) : ∃ above, row r q t = distance r q :: above := by
  cases t with
  | nil => exact ⟨[], rfl⟩
  | cons b t => exact ⟨row r (b :: q) t, rfl⟩

theorem row_getLastD (r q t : Bytes) : (row r q t).getLastD 0 = distance r (t.reverse ++ q) := by
  induction t generalizing q with
  | nil => rfl
  | cons b t ih =>
    obtain ⟨above, habove⟩ := row_cons r (b :: q) t
    have hlast := ih (b :: q)
    rw [habove, List.getLastD_cons] at hlast
    rw [row, habove, List.getLastD_cons, List.getLastD_cons, hlast]
    simp

theorem row_start (q t : Bytes) :
    row [] q t = (List.range (t.length + 1)).map (q.length + ·) := by
  induction t generalizing q with
  | nil => simp [row, distance_nil_left]
  | cons b t ih =>
    rw [row, ih, distance_nil_left, List.length_cons, List.length_cons,
      List.range_succ_eq_map (n := t.length + 1), List.map_cons, List.map_map]
    congr 1
    apply List.map_congr_left
    intro i _
    simp only [Function.comp_apply]
    omega

/-- The loop over `j`, behind the bytes `q` of the second string. -/
theorem nextEntries_row (a : UInt8) (r q t : Bytes) :
    distance (a :: r) q :: nextEntries a t (row r q t).tail (distance r q) (distance (a :: r) q) =
      row (a :: r) q t := by
  induction t generalizing q with
  | nil => rfl
  | cons b t ih =>
    obtain ⟨above, habove⟩ := row_cons r (b :: q) t
    have hrest := ih (b :: q)
    rw [habove, List.tail_cons] at hrest
    rw [row, row, List.tail_cons, habove, nextEntries, ← distance_cons_cons, hrest]

theorem nextRow_row (s2 : Bytes) (r : Bytes) (a : UInt8) :
    nextRow s2 (row r [] s2) a = row (a :: r) [] s2 := by
  obtain ⟨above, habove⟩ := row_cons r [] s2
  have hentries := nextEntries_row a r [] s2
  rw [habove, List.tail_cons, distance_nil_right, distance_nil_right] at hentries
  rw [habove, nextRow, distance_nil_right]
  exact hentries

theorem table_row (s2 s1 r : Bytes) :
    s1.foldl (nextRow s2) (row r [] s2) = row (s1.reverse ++ r) [] s2 := by
  induction s1 generalizing r with
  | nil => rfl
  | cons a s1 ih =>
    rw [List.foldl_cons, nextRow_row, ih]
    simp

theorem levenshteinDistance_eq (s1 s2 : Bytes) : levenshteinDistance s1 s2 = distance s1 s2 := by
  have hstart : List.range (s2.length + 1) = row [] [] s2 := by simp [row_start]
  rw [levenshteinDistance, hstart, table_row, row_getLastD, List.append_nil, List.append_nil,
    distance_reverse]

/-- The table computes the least number of edits, which is a metric bounded by the length of the
longer string. -/
theorem levenshteinDistance_metric (s t : Bytes) :
    IsLeast { n | Edits n s t } (levenshteinDistance s t) ∧
    (levenshteinDistance s t = 0 ↔ s = t) ∧
    levenshteinDistance s t = levenshteinDistance t s ∧
    (∀ u, levenshteinDistance s u ≤ levenshteinDistance s t + levenshteinDistance t u) ∧
    levenshteinDistance s t ≤ max s.length t.length := by
  simp only [levenshteinDistance_eq]
  exact ⟨distance_isLeast s t, distance_eq_zero_iff, distance_comm s t, distance_triangle s t,
    distance_le_max s t⟩

/-! ## The best similarity -/

theorem foldl_max_isGreatest {β κ : Type} [LinearOrder κ] (f : β → κ) (xs : List β) (start : κ) :
    IsGreatest (insert start (f '' { x | x ∈ xs })) (xs.foldl (fun best x => max best (f x)) start) := by
  induction xs generalizing start with
  | nil =>
    constructor
    · exact Or.inl rfl
    · rintro y (rfl | ⟨x, hx, rfl⟩)
      · exact le_refl _
      · exact absurd hx List.not_mem_nil
  | cons b xs ih =>
    obtain ⟨hmem, hupper⟩ := ih (max start (f b))
    rw [List.foldl_cons]
    constructor
    · rcases hmem with hmem | ⟨x, hx, hmem⟩
      · rw [hmem]
        rcases max_choice start (f b) with hmax | hmax
        · exact Or.inl hmax
        · exact Or.inr ⟨b, List.mem_cons_self, hmax.symm⟩
      · exact Or.inr ⟨x, List.mem_cons_of_mem b hx, hmem⟩
    · have hstart : max start (f b) ≤ xs.foldl (fun best x => max best (f x)) (max start (f b)) :=
        hupper (Or.inl rfl)
      rintro y (rfl | ⟨x, hx, rfl⟩)
      · exact (le_max_left _ _).trans hstart
      · rcases List.mem_cons.mp hx with rfl | hx
        · exact (le_max_right _ _).trans hstart
        · exact hupper (Or.inr ⟨x, hx, rfl⟩)

theorem similarity_nonneg (typed name : Bytes) : 0 ≤ similarity typed name := by
  have hle : levenshteinDistance typed name ≤ max name.length typed.length := by
    rw [levenshteinDistance_eq, max_comm]
    exact distance_le_max typed name
  have hdiv : (levenshteinDistance typed name : ℚ) / (max name.length typed.length : ℕ) ≤ 1 :=
    div_le_one_of_le₀ (Nat.cast_le.mpr hle) (Nat.cast_nonneg _)
  rw [similarity]
  linarith

/-- How close what was typed comes to a command, over its name and its aliases. -/
def Closeness (typed : Bytes) (c : Command) (score : ℚ) : Prop :=
  IsGreatest ((fun name => similarity typed (toLower name)) '' { name | name ∈ c.name :: c.aliases }) score

theorem closeness_bestScore (typed : Bytes) (c : Command) : Closeness typed c (bestScore typed c) := by
  have hpos := similarity_nonneg typed (toLower c.name)
  have hname : max (-1) (similarity typed (toLower c.name)) = similarity typed (toLower c.name) :=
    max_eq_right (by linarith)
  obtain ⟨hmem, hupper⟩ := foldl_max_isGreatest (fun a => similarity typed (toLower a)) c.aliases
    (similarity typed (toLower c.name))
  rw [Closeness, bestScore, hname]
  constructor
  · rcases hmem with hmem | ⟨a, ha, hmem⟩
    · exact ⟨c.name, List.mem_cons_self, hmem.symm⟩
    · exact ⟨a, List.mem_cons_of_mem _ ha, hmem⟩
  · rintro y ⟨name, hname, rfl⟩
    rcases List.mem_cons.mp hname with rfl | ha
    · exact hupper (Or.inl rfl)
    · exact hupper (Or.inr ⟨name, ha, rfl⟩)

theorem closeness_iff {typed : Bytes} {c : Command} {score : ℚ} :
    Closeness typed c score ↔ score = bestScore typed c := by
  constructor
  · intro h
    exact h.unique (closeness_bestScore typed c)
  · rintro rfl
    exact closeness_bestScore typed c

/-! ## The commands that are named -/

/-- An enabled command at least half as good as a match, and as good as any other enabled one up
to a thousandth. -/
def Near (disabled : Command → Bool) (registry : List Command) (typed : Bytes) (c : Command) : Prop :=
  disabled c = false ∧ ∃ score, Closeness typed c score ∧ 1 / 2 ≤ score ∧
    ∀ c' ∈ registry, disabled c' = false → ∀ score', Closeness typed c' score' → score' - 1 / 1000 ≤ score

open Classical in
/-- The names of these commands in order. -/
noncomputable def nearNames (disabled : Command → Bool) (registry : List Command) (typed : Bytes) :
    List Bytes :=
  ((registry.filter (Near disabled registry typed)).map (·.name)).insertionSort fun a b => a ≤ b

def candidates (disabled : Command → Bool) (registry : List Command) (typed : Bytes) : List (Bytes × ℚ) :=
  ((registry.filter (!disabled ·)).map fun c => (c.name, bestScore typed c)).filter fun x => (1 / 2 : ℚ) ≤ x.2

def maxScore (disabled : Command → Bool) (registry : List Command) (typed : Bytes) : ℚ :=
  (candidates disabled registry typed).foldl (fun best x => max best x.2) (-1)

section
variable {disabled : Command → Bool} {registry registry' : List Command} {typed : Bytes} {c : Command}

theorem near_iff : Near disabled registry typed c ↔ disabled c = false ∧ 1 / 2 ≤ bestScore typed c ∧
    ∀ c' ∈ registry, disabled c' = false → bestScore typed c' - 1 / 1000 ≤ bestScore typed c := by
  simp only [Near, closeness_iff, forall_eq, exists_eq_left]

theorem mem_candidates {x : Bytes × ℚ} : x ∈ candidates disabled registry typed ↔
    ∃ c ∈ registry, disabled c = false ∧ 1 / 2 ≤ bestScore typed c ∧ x = (c.name, bestScore typed c) := by
  rw [candidates, List.mem_filter, decide_eq_true_iff]
  constructor
  · rintro ⟨hx, hhalf⟩
    obtain ⟨c, hc, rfl⟩ := List.mem_map.mp hx
    obtain ⟨hc, hd⟩ := List.mem_filter.mp hc
    exact ⟨c, hc, by simpa using hd, hhalf, rfl⟩
  · rintro ⟨c, hc, hd, hhalf, rfl⟩
    exact ⟨List.mem_map.mpr ⟨c, List.mem_filter.mpr ⟨hc, by simp [hd]⟩, rfl⟩, hhalf⟩

/-- The running maximum decides as the best score of all enabled commands does, since a
candidate is at least half as good as a match. -/
theorem maxScore_le_iff {score : ℚ} (hscore : 1 / 2 ≤ score) :
    maxScore disabled registry typed - 1 / 1000 ≤ score ↔
      ∀ c ∈ registry, disabled c = false → bestScore typed c - 1 / 1000 ≤ score := by
  obtain ⟨hmem, hupper⟩ :=
    foldl_max_isGreatest (fun x : Bytes × ℚ => x.2) (candidates disabled registry typed) (-1)
  constructor
  · intro hle c hc hd
    by_cases hhalf : 1 / 2 ≤ bestScore typed c
    · have hbound : bestScore typed c ≤ maxScore disabled registry typed :=
        hupper (Or.inr ⟨_, mem_candidates.mpr ⟨c, hc, hd, hhalf, rfl⟩, rfl⟩)
      linarith
    · linarith
  · intro hall
    rcases hmem with hstart | ⟨x, hx, hval⟩
    · rw [maxScore, hstart]
      linarith
    · obtain ⟨c, hc, hd, -, rfl⟩ := mem_candidates.mp hx
      rw [maxScore, ← hval]
      exact hall c hc hd

open Classical in
theorem kept_names (disabled : Command → Bool) (registry : List Command) (typed : Bytes) :
    ((candidates disabled registry typed).filter fun x =>
        maxScore disabled registry typed - 1 / 1000 ≤ x.2).map (·.1) =
      (registry.filter (Near disabled registry typed)).map (·.name) := by
  rw [candidates]
  simp only [List.filter_map, List.filter_filter, List.map_map]
  refine congrArg (List.map _) (List.filter_congr fun c _ => ?_)
  rw [Bool.eq_iff_iff, decide_eq_true_iff, near_iff]
  simp only [Function.comp_apply, Bool.and_eq_true, decide_eq_true_iff, Bool.not_eq_true']
  constructor
  · rintro ⟨hle, hhalf, hd⟩
    exact ⟨hd, hhalf, (maxScore_le_iff hhalf).mp hle⟩
  · rintro ⟨hd, hhalf, hall⟩
    exact ⟨(maxScore_le_iff hhalf).mpr hall, hhalf, hd⟩

theorem suggestion_eq (disabled : Command → Bool) (registry : List Command) (cmd : Bytes) :
    suggestion disabled registry cmd =
      if nearNames disabled registry (toLower cmd) = [] then none
      else some (bytes "did you mean **" ++ listNames (nearNames disabled registry (toLower cmd)) ++
        bytes "**?") := by
  have hkept := kept_names disabled registry (toLower cmd)
  rw [maxScore, candidates] at hkept
  have hempty (names : List Bytes) : (names.insertionSort fun a b => a ≤ b) = [] ↔ names = [] := by
    rw [← List.length_eq_zero_iff, List.length_insertionSort, List.length_eq_zero_iff]
  rw [suggestion, hkept, nearNames]
  simp only [hempty]

theorem nearNames_congr (h : (registry'.filter (!disabled ·)).Perm (registry.filter (!disabled ·))) :
    nearNames disabled registry' typed = nearNames disabled registry typed := by
  classical
  have hmem (c : Command) (hd : disabled c = false) : c ∈ registry' ↔ c ∈ registry := by
    have hiff := h.mem_iff (a := c)
    simpa [hd] using hiff
  have hnear : Near disabled registry' typed = Near disabled registry typed := by
    funext c
    rw [eq_iff_iff, near_iff, near_iff]
    refine and_congr_right fun _ => and_congr_right fun _ => ?_
    constructor
    · intro hle c' hc' hd
      exact hle c' ((hmem c' hd).mpr hc') hd
    · intro hle c' hc' hd
      exact hle c' ((hmem c' hd).mp hc') hd
  have henabled (registry : List Command) {p : Command → Prop} [DecidablePred p]
      (hp : ∀ c, p c → disabled c = false) :
      registry.filter p = (registry.filter (!disabled ·)).filter p := by
    rw [List.filter_filter]
    refine List.filter_congr fun c _ => ?_
    by_cases hc : p c
    · simp [hc, hp c hc]
    · simp [hc]
  have hnames : ((registry'.filter (Near disabled registry typed)).map (·.name)).Perm
      ((registry.filter (Near disabled registry typed)).map (·.name)) := by
    rw [henabled registry' fun c hc => hc.1, henabled registry fun c hc => hc.1]
    exact (h.filter _).map _
  rw [nearNames, nearNames, hnear]
  exact List.Perm.eq_of_pairwise (fun a b _ _ => List.le_antisymm) (List.pairwise_insertionSort _ _)
    (List.pairwise_insertionSort _ _)
    ((List.perm_insertionSort _ _).trans (hnames.trans (List.perm_insertionSort _ _).symm))

end

/-! ## At the end of the dispatch -/

/-- The message, as the dispatch takes it, matches no command. -/
def Unmatched (cfg : CommandConfig) (h : CommandHandlers) (registry : List Command) (s : Shared)
    (msg : Events.Message) : Prop :=
  ∀ p token args, parseCommand cfg h (prepare h s.caches.toStore msg) = some (p, token, args) →
    findCommand cfg.caseInsensitiveCommands registry token = none

def CommandHandlers.disabled (h : CommandHandlers) (msg : Events.Message) (c : Command) : Bool :=
  (h.disabledChecker.map (· msg c)).getD false

/-- The suggestion for a message that matches no command. -/
noncomputable def suggestedText (cfg : CommandConfig) (h : CommandHandlers) (registry : List Command)
    (msg : Events.Message) : Option Bytes :=
  (parseCommand cfg h msg).bind fun (_, token, _) =>
    let names := nearNames (h.disabled msg) registry (toLower token)
    if token.length ≤ 2 ∨ names = [] then none
    else some (bytes "did you mean **" ++ listNames names ++ bytes "**?")

section
variable {cfg : CommandConfig} {h : CommandHandlers} {registry registry' : List Command} {s : Shared}
  {msg : Events.Message}

theorem Unmatched.perm (hnone : Unmatched cfg h registry s msg) (hperm : registry'.Perm registry) :
    Unmatched cfg h registry' s msg := by
  intro p token args hparse
  have hfound := findCommand_eq_none.mp (hnone p token args hparse)
  exact findCommand_eq_none.mpr fun c hc => hfound c (hperm.mem_iff.mp hc)

theorem dispatchCommand_unmatched (hnone : Unmatched cfg h registry s msg) (env : Surroundings) :
    let prepared := prepare h s.caches.toStore msg
    dispatchCommand cfg h registry env msg s =
      ({ s with caches := cacheAuthor prepared s.caches },
        .emit ((suggestedText cfg h registry prepared).toList.map (.suggest prepared.channelId))) := by
  intro prepared
  cases hparse : parseCommand cfg h prepared with
  | none =>
    rw [suggestedText, hparse]
    simp only [prepared] at hparse
    simp only [dispatchCommand, hparse]
    rfl
  | some x =>
    obtain ⟨p, token, args⟩ := x
    have hnone := hnone p token args hparse
    have hdisabled : (fun c => (h.disabledChecker.map (· prepared c)).getD false) = h.disabled prepared := rfl
    rw [suggestedText, hparse]
    simp only [prepared] at hparse hdisabled ⊢
    simp only [dispatchCommand, hparse, hnone, hdisabled, suggestion_eq, Option.bind_some]
    by_cases hshort : token.length ≤ 2
    · rw [if_neg (by omega), if_pos (Or.inl hshort)]
      rfl
    · rw [if_pos (by omega)]
      by_cases hnames : nearNames (h.disabled (prepare h s.caches.toStore msg)) registry (toLower token) = []
      · rw [if_pos (Or.inr hnames), if_pos hnames]
        rfl
      · rw [if_neg hnames, if_neg (not_or.mpr ⟨hshort, hnames⟩)]
        rfl

theorem suggestedText_congr
    (hperm : (registry'.filter (!h.disabled msg ·)).Perm (registry.filter (!h.disabled msg ·))) :
    suggestedText cfg h registry' msg = suggestedText cfg h registry msg := by
  refine congrArg (Option.bind _) (funext fun x => ?_)
  simp only [nearNames_congr hperm]

end

def ping : Command where
  name := bytes "ping"

def pong : Command where
  name := bytes "pong"

end Stoatpp.Cluster
