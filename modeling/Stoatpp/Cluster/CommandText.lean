import Stoatpp.Cluster.Commands
import Stoatpp.Library.Delimited

/-!
# How a message is read as a command

Two beginnings of one text that are equally long are the same, so the first hit in any order by
falling length is the longest prefix there is, whichever way the sort leaves equally long ones.
What stands behind it is cut at whitespace.
-/

namespace Stoatpp.Cluster
open Stoatpp.Library

/-- A prefix from the list that starts the content, and no shorter than any other that does. -/
structure Longest (prefixes : List Bytes) (content p : Bytes) : Prop where
  mem : p ∈ prefixes
  ne_nil : p ≠ []
  starts : p <+: content
  longest : ∀ q ∈ prefixes, q <+: content → q.length ≤ p.length

variable {prefixes sorted : List Bytes} {content p q : Bytes}

theorem Longest.unique (hp : Longest prefixes content p) (hq : Longest prefixes content q) : p = q := by
  have hle := hp.longest q hq.mem hq.starts
  have hge := hq.longest p hp.mem hp.starts
  have hbegins : p <+: q := List.prefix_of_prefix_length_le hp.starts hq.starts hge
  exact hbegins.eq_of_length (by omega)

theorem Longest.perm {prefixes' : List Bytes} (h : Longest prefixes content p)
    (hperm : prefixes'.Perm prefixes) : Longest prefixes' content p where
  mem := hperm.mem_iff.mpr h.mem
  ne_nil := h.ne_nil
  starts := h.starts
  longest := fun q hq => h.longest q (hperm.mem_iff.mp hq)

/-- The loop over the sorted prefixes. -/
def firstMatch (content : Bytes) (sorted : List Bytes) : Option Bytes :=
  sorted.find? fun p => p ≠ [] && p.isPrefixOf content

theorem firstMatch_longest (hsorted : sorted.Pairwise fun a b => b.length ≤ a.length)
    (hfirst : firstMatch content sorted = some p) : Longest sorted content p := by
  obtain ⟨hp, before, after, rfl, hbefore⟩ := List.find?_eq_some_iff_append.mp hfirst
  have hmatch : p ≠ [] ∧ p <+: content := by simpa using hp
  refine ⟨by simp, hmatch.1, hmatch.2, fun q hq hstarts => ?_⟩
  rcases List.mem_append.mp hq with hq | hq
  · -- what stands before does not match, unless it is empty
    have hempty : q = [] := by
      by_contra hne
      have hno := hbefore q hq
      simp only [hne, ne_eq, not_false_eq_true, decide_true, Bool.true_and, Bool.not_eq_true',
        List.isPrefixOf_iff_prefix.mpr hstarts, Bool.true_eq_false] at hno
    simp [hempty]
  · rcases List.mem_cons.mp hq with rfl | hq
    · exact Nat.le_refl _
    · have hafter := (List.pairwise_append.mp hsorted).2.1
      exact List.rel_of_pairwise_cons hafter hq

theorem firstMatch_eq_none :
    firstMatch content sorted = none ↔ ∀ p ∈ sorted, p ≠ [] → ¬ p <+: content := by
  simp [firstMatch, List.find?_eq_none]

theorem firstMatch_eq_some (hsorted : sorted.Pairwise fun a b => b.length ≤ a.length) :
    firstMatch content sorted = some p ↔ Longest sorted content p := by
  constructor
  · exact firstMatch_longest hsorted
  · intro h
    cases hfirst : firstMatch content sorted with
    | none => exact absurd h.starts (firstMatch_eq_none.mp hfirst p h.mem h.ne_nil)
    | some q => rw [(firstMatch_longest hsorted hfirst).unique h]

theorem sortPrefixes_pairwise (prefixes : List Bytes) :
    (sortPrefixes prefixes).Pairwise fun a b => b.length ≤ a.length := by
  have : Std.Total fun a b : Bytes => b.length ≤ a.length := ⟨fun a b => Nat.le_total _ _⟩
  have : IsTrans Bytes fun a b => b.length ≤ a.length := ⟨fun a b c hab hbc => Nat.le_trans hbc hab⟩
  exact List.pairwise_insertionSort _ prefixes

theorem matchPrefix_eq_some : matchPrefix prefixes content = some p ↔ Longest prefixes content p := by
  have hperm := List.perm_insertionSort (fun a b : Bytes => b.length ≤ a.length) prefixes
  refine (firstMatch_eq_some (sortPrefixes_pairwise prefixes)).trans ?_
  exact ⟨fun h => h.perm hperm.symm, fun h => h.perm hperm⟩

/-- Any other order by falling length gives the same. -/
theorem firstMatch_sorted (hperm : sorted.Perm prefixes)
    (hsorted : sorted.Pairwise fun a b => b.length ≤ a.length) :
    firstMatch content sorted = matchPrefix prefixes content := by
  refine Option.ext fun p => ?_
  rw [firstMatch_eq_some hsorted, matchPrefix_eq_some]
  exact ⟨fun h => h.perm hperm.symm, fun h => h.perm hperm⟩

theorem matchPrefix_isSome :
    (matchPrefix prefixes content).isSome = true ↔ ∃ p ∈ prefixes, p ≠ [] ∧ p <+: content := by
  have hperm := List.perm_insertionSort (fun a b : Bytes => b.length ≤ a.length) prefixes
  rw [← not_iff_not, Bool.not_eq_true, Option.isSome_eq_false_iff, Option.isNone_iff_eq_none]
  refine firstMatch_eq_none.trans ?_
  simp only [sortPrefixes, hperm.mem_iff, not_exists, not_and]

/-! ## The command and its arguments -/

/-- The prefix is the longest that matches, and the command and its arguments are the runs without
whitespace behind it. -/
def ReadAs (prefixes : List Bytes) (content p token : Bytes) (args : List Bytes) : Prop :=
  Longest prefixes content p ∧ ∃ rest words, content = p ++ rest ∧ MaximalRuns isSpace rest words ∧
    token = words.headD [] ∧ args = words.tail

variable {cfg : CommandConfig} {h : CommandHandlers} {msg : Events.Message} {token : Bytes} {args : List Bytes}

theorem parseCommand_eq_some {resolve : Events.Message → List Bytes} (hr : h.prefixResolver = some resolve) :
    parseCommand cfg h msg = some (p, token, args) ↔ ReadAs (resolve msg) msg.content p token args := by
  rw [parseCommand, hr, Option.map_eq_some_iff]
  constructor
  · rintro ⟨p', hp, heq⟩
    obtain ⟨rfl, htoken⟩ := Prod.mk.inj heq
    obtain ⟨rfl, rfl⟩ := Prod.mk.inj htoken
    have hlongest := matchPrefix_eq_some.mp hp
    refine ⟨hlongest, msg.content.drop p'.length, tokens (msg.content.drop p'.length), ?_,
      maximalRuns_iff.mpr rfl, rfl, rfl⟩
    exact (List.prefix_iff_eq_append.mp hlongest.starts).symm
  · rintro ⟨hlongest, rest, words, hcontent, hruns, rfl, rfl⟩
    refine ⟨p, matchPrefix_eq_some.mpr hlongest, ?_⟩
    have htokens : tokens rest = words := maximalRuns_iff.mp hruns
    rw [hcontent, List.drop_left, htokens]

theorem parseCommand_perm {resolve resolve' : Events.Message → List Bytes}
    (hperm : (resolve' msg).Perm (resolve msg)) :
    parseCommand cfg { h with prefixResolver := some resolve' } msg =
      parseCommand cfg { h with prefixResolver := some resolve } msg := by
  have hmatch : matchPrefix (resolve' msg) msg.content = matchPrefix (resolve msg) msg.content := by
    refine Option.ext fun p => ?_
    rw [matchPrefix_eq_some, matchPrefix_eq_some]
    exact ⟨fun h => h.perm hperm.symm, fun h => h.perm hperm⟩
  simp only [parseCommand, hmatch]

/-- For every list the resolver returns: when the dispatch goes on, what it goes on with, and
that neither the order of the list nor the way it is sorted matters. -/
theorem prefixes_read (cfg : CommandConfig) (h : CommandHandlers) (resolve : Events.Message → List Bytes)
    (msg : Events.Message) :
    let h' := { h with prefixResolver := some resolve }
    ((parseCommand cfg h' msg).isSome = true ↔ ∃ p ∈ resolve msg, p ≠ [] ∧ p <+: msg.content) ∧
    (∀ p token args, parseCommand cfg h' msg = some (p, token, args) ↔
      ReadAs (resolve msg) msg.content p token args) ∧
    (∀ resolve', (resolve' msg).Perm (resolve msg) →
      parseCommand cfg { h with prefixResolver := some resolve' } msg = parseCommand cfg h' msg) ∧
    (∀ sorted : List Bytes, sorted.Perm (resolve msg) → sorted.Pairwise (fun a b => b.length ≤ a.length) →
      sorted.find? (fun p => p ≠ [] && p.isPrefixOf msg.content) = matchPrefix (resolve msg) msg.content) := by
  refine ⟨?_, fun p token args => parseCommand_eq_some rfl, fun resolve' => parseCommand_perm,
    fun sorted => firstMatch_sorted⟩
  rw [parseCommand, Option.isSome_map]
  exact matchPrefix_isSome

end Stoatpp.Cluster
