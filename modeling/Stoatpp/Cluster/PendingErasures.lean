import Stoatpp.Cluster.CacheRuns

/-!
# Pending erasures

A ServerDelete event starts a thread that erases the server half a second later, whatever has
happened to it in between. A server that comes back is kept if and only if no erasure was
pending when it came.
-/

namespace Stoatpp.Cluster
open Stoatpp.Library

def AddsServer (id : String) : CacheTurn → Prop
  | .event (.ready e) => ∃ s ∈ e.servers, s.id = id
  | .event (.serverCreate e) => e.server.id = id
  | .cacheServer s => s.id = id
  | _ => False

def DeletesServer (id : String) : CacheTurn → Prop
  | .event (.serverDelete id') => id' = id
  | _ => False

variable {d : Dispatching} {h h' : Caching} {a : CacheTurn} {id : String}

/-! ## The last event about a server -/

theorem isSome_changed {before : Option Server} (hb : before.isSome) (p : Prop) [Decidable p]
    (f : Server → Server) : (if p then before.map f else before).isSome := by
  split_ifs
  · rw [Option.isSome_map]
    exact hb
  · exact hb

theorem serverAfter_isSome {before : Option Server} (hb : before.isSome) (e : Event) :
    (Store.serverAfter id before e).isSome := by
  cases e with
  | ready e => exact Keyed.latest_isSome.mpr (Or.inl hb)
  | serverCreate e =>
    simp only [Store.serverAfter]
    split_ifs
    · rfl
    · exact hb
  | serverUpdate e => exact isSome_changed hb _ _
  | serverRoleCreate e => exact isSome_changed hb _ _
  | serverRoleUpdate e => exact isSome_changed hb _ _
  | serverRoleDelete s r => exact isSome_changed hb _ _
  | _ => exact hb

theorem serverBehind_added (ha : AddsServer id a) : (serverBehind h id a).isSome := by
  cases a with
  | event e =>
    cases e with
    | ready e =>
      obtain ⟨s, hs, hid⟩ := ha
      exact Keyed.latest_isSome.mpr (Or.inr (List.mem_map.mpr ⟨s, hs, hid⟩))
    | serverCreate e =>
      simp only [serverBehind, Store.serverAfter, if_pos (show e.server.id = id from ha),
        Option.isSome_some]
    | _ => exact ha.elim
  | cacheServer s =>
    simp only [serverBehind, if_pos (show s.id = id from ha), Option.isSome_some]
  | _ => exact ha.elim

theorem serverBehind_absent (hn : h.store.getServer id = none) (ha : ¬ AddsServer id a) :
    serverBehind h id a = none := by
  cases a with
  | event e =>
    rw [serverBehind, hn]
    cases e with
    | ready e =>
      rcases Keyed.latest_cases Server.id id e.servers none with
        ⟨s, hs, hid, -⟩ | ⟨hs, -⟩
      · exact absurd ⟨s, hs, hid⟩ ha
      · exact hs
    | serverCreate e => exact if_neg ha
    | serverUpdate e => exact ite_self _
    | serverRoleCreate e => exact ite_self _
    | serverRoleUpdate e => exact ite_self _
    | serverRoleDelete s r => exact ite_self _
    | _ => rfl
  | erase i =>
    rw [serverBehind, hn]
    exact ite_self _
  | cacheServer s =>
    rw [serverBehind, hn]
    exact if_neg ha
  | cacheMember m => exact hn

theorem mem_erasures {e : Event} : id ∈ erasures e ↔ DeletesServer id (.event e) := by
  cases e with
  | serverDelete id' =>
    rw [erasures, List.mem_singleton]
    exact eq_comm
  | _ => exact iff_of_false List.not_mem_nil not_false

theorem mem_eraseIdx {xs : List String} {i : ℕ} (hm : id ∈ xs) (hi : xs[i]? ≠ some id) :
    id ∈ xs.eraseIdx i := by
  obtain ⟨k, hk⟩ := List.mem_iff_getElem?.mp hm
  refine List.mem_eraseIdx_iff_getElem?.mpr ⟨k, fun hik => hi ?_, hk⟩
  rw [← hik]
  exact hk

theorem kept_turn (hp : id ∉ h.pending ∧ (h.store.getServer id).isSome)
    (ha : ¬ DeletesServer id a) (ht : cacheTurn d h a = some h') :
    id ∉ h'.pending ∧ (h'.store.getServer id).isSome := by
  obtain ⟨hpending, hsome⟩ := hp
  rw [getServer_turn ht, pending_turn ht]
  cases a with
  | event e =>
    refine ⟨fun hm => ?_, serverAfter_isSome hsome e⟩
    rcases List.mem_append.mp hm with hm | hm
    · exact hpending hm
    · exact ha (mem_erasures.mp hm)
  | erase i =>
    have hi : h.pending[i]? ≠ some id := fun hi => hpending (List.mem_of_getElem? hi)
    refine ⟨fun hm => hpending (List.mem_of_mem_eraseIdx hm), ?_⟩
    rw [serverBehind, if_neg hi]
    exact hsome
  | cacheServer s =>
    refine ⟨hpending, ?_⟩
    simp only [serverBehind]
    split_ifs
    · rfl
    · exact hsome
  | cacheMember m => exact ⟨hpending, hsome⟩

theorem doomed_turn (hp : id ∈ h.pending ∨ h.store.getServer id = none)
    (ha : ¬ AddsServer id a) (ht : cacheTurn d h a = some h') :
    id ∈ h'.pending ∨ h'.store.getServer id = none := by
  rw [getServer_turn ht, pending_turn ht]
  rcases hp with hp | hn
  · cases a with
    | event e => exact Or.inl (List.mem_append_left _ hp)
    | erase i =>
      by_cases hi : h.pending[i]? = some id
      · exact Or.inr (if_pos hi)
      · exact Or.inl (mem_eraseIdx hp hi)
    | cacheServer s => exact Or.inl hp
    | cacheMember m => exact Or.inl hp
  · exact Or.inr (serverBehind_absent hn ha)

/-- A turn brings the server into the cache, and none after it adds or deletes it. Once its
erasures have run, the server is there if and only if none was pending at that turn. -/
theorem returned_present_iff (d : Dispatching) (h₀ : Caching) (a : CacheTurn)
    (after : List CacheTurn) (h : Caching) (id : String)
    (hrun : runFrom (cacheTurn d) h₀ (a :: after) = some h) (hadds : AddsServer id a)
    (hafter : ∀ b ∈ after, ¬ AddsServer id b ∧ ¬ DeletesServer id b) (hdone : id ∉ h.pending) :
    (h.store.getServer id).isSome ↔ id ∉ h₀.pending := by
  obtain ⟨h₁, hturn, hrest⟩ := runFrom_cons.mp hrun
  have hsome : (h₁.store.getServer id).isSome := by
    rw [getServer_turn hturn]
    exact serverBehind_added hadds
  have hpending : id ∈ h₁.pending ↔ id ∈ h₀.pending := by
    rw [pending_turn hturn]
    cases a with
    | event e =>
      cases e with
      | ready e => simp [pendingBehind, erasures]
      | serverCreate e => simp [pendingBehind, erasures]
      | _ => exact hadds.elim
    | cacheServer s => exact Iff.rfl
    | _ => exact hadds.elim
  have hquiet : Along (cacheTurn d) (fun _ b => ¬ AddsServer id b ∧ ¬ DeletesServer id b) h₁ after :=
    along_of_forall hafter
  constructor
  · intro hpresent hm
    have hend := run_invariant (P := fun h => id ∈ h.pending ∨ h.store.getServer id = none)
      (fun _ _ _ hp hb ht => doomed_turn hp hb.1 ht) (Or.inl (hpending.mpr hm)) hquiet hrest
    rcases hend with hm' | hn
    · exact hdone hm'
    · rw [hn] at hpresent
      exact absurd hpresent (by decide)
  · intro hm
    have hend := run_invariant (P := fun h => id ∉ h.pending ∧ (h.store.getServer id).isSome)
      (fun _ _ _ hp hb ht => kept_turn hp hb.2 ht) ⟨fun hp => hm (hpending.mp hp), hsome⟩
      hquiet hrest
    exact hend.2

def serverFrame (type : String) : Json := .obj [("_id", .str "s"),
  ("channels", .arr [.obj [("_id", .str "general"), ("server", .str "s")]]), ("id", .str "s"),
  ("type", .str type)]

def comeback : List CacheTurn :=
  ["ServerCreate", "ServerDelete", "ServerCreate"].flatMap fun type => frameTurns (serverFrame type)

def channelGone : Json := .obj [("id", .str "general"), ("type", .str "ChannelDelete")]

/-- The server is there behind an erasure that has run in time, and gone behind one that has not. -/
theorem comeback_present : ∃ a h₀ h₁ h h', comeback[5]? = some a ∧
    runFrom (cacheTurn {}) {} (comeback.take 4 ++ [.erase 0]) = some h₀ ∧ h₀.store.getServer "s" = none ∧
    runFrom (cacheTurn {}) h₀ (a :: frameTurns channelGone) = some h ∧ (h.store.getServer "s").isSome ∧
    runFrom (cacheTurn {}) {} (comeback.take 5) = some h₁ ∧
    runFrom (cacheTurn {}) h₁ (a :: frameTurns channelGone ++ [.erase 0]) = some h' ∧
    ¬ (h'.store.getServer "s").isSome := by
  have hrun : ∃ a h₀ h₁ h h', comeback[5]? = some a ∧ AddsServer "s" a ∧
      runFrom (cacheTurn {}) {} (comeback.take 4 ++ [.erase 0]) = some h₀ ∧ h₀.store.getServer "s" = none ∧
      h₀.pending = [] ∧ runFrom (cacheTurn {}) h₀ (a :: frameTurns channelGone) = some h ∧ h.pending = [] ∧
      runFrom (cacheTurn {}) {} (comeback.take 5) = some h₁ ∧ h₁.pending = ["s"] ∧
      runFrom (cacheTurn {}) h₁ (a :: frameTurns channelGone ++ [.erase 0]) = some h' ∧ h'.pending = [] :=
    ⟨_, _, _, _, _, rfl, rfl, rfl, by decide, by decide, rfl, by decide, rfl, by decide, rfl, by decide⟩
  obtain ⟨a, h₀, h₁, h, h', ha, hadds, hrun₀, hgone, hnone, hrun, hdone, hrun₁, hlate, hrun', hdone'⟩ := hrun
  have hchannel : ∀ b ∈ frameTurns channelGone, ¬ AddsServer "s" b ∧ ¬ DeletesServer "s" b := by
    intro b hb
    rcases List.mem_pair.mp hb with rfl | rfl <;> exact ⟨not_false, not_false⟩
  have hafter : ∀ b ∈ frameTurns channelGone ++ [.erase 0], ¬ AddsServer "s" b ∧ ¬ DeletesServer "s" b :=
    List.forall_mem_append.mpr ⟨hchannel, List.forall_mem_singleton.mpr ⟨not_false, not_false⟩⟩
  refine ⟨a, h₀, h₁, h, h', ha, hrun₀, hgone, hrun, ?_, hrun₁, hrun', ?_⟩
  · refine (returned_present_iff {} h₀ a _ h "s" hrun hadds hchannel ?_).mpr ?_
    · rw [hdone]
      exact List.not_mem_nil
    · rw [hnone]
      exact List.not_mem_nil
  · rw [returned_present_iff {} h₁ a _ h' "s" hrun' hadds hafter (by rw [hdone']; exact List.not_mem_nil), hlate]
    exact not_not.mpr List.mem_cons_self

theorem returned_server_erased : ¬ ∀ (d : Dispatching) (before : List CacheTurn) (a : CacheTurn)
    (after : List CacheTurn) (h : Caching) (id : String),
    runFrom (cacheTurn d) {} (before ++ a :: after) = some h → AddsServer id a →
    (∀ b ∈ after, ¬ AddsServer id b ∧ ¬ DeletesServer id b) → h.pending = [] →
    (h.store.getServer id).isSome := by
  intro hall
  have hrun : ∃ a h, comeback[5]? = some a ∧ AddsServer "s" a ∧
      runFrom (cacheTurn {}) {} (comeback.take 5 ++ a :: [.erase 0]) = some h ∧
      h.pending = [] ∧ (h.store.getServer "s").isSome = false :=
    ⟨_, _, rfl, rfl, rfl, by decide, by decide⟩
  obtain ⟨a, h, -, hadds, hrun, hpending, habsent⟩ := hrun
  have hafter : ∀ b ∈ [CacheTurn.erase 0], ¬ AddsServer "s" b ∧ ¬ DeletesServer "s" b := by
    intro b hb
    rw [List.mem_singleton.mp hb]
    exact ⟨not_false, not_false⟩
  have hpresent := hall {} (comeback.take 5) a [.erase 0] h "s" hrun hadds hafter hpending
  rw [habsent] at hpresent
  cases hpresent

end Stoatpp.Cluster
