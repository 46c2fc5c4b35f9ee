import Stoatpp.Cluster.ServerRemoval

/-!
# Ignored users and the caches

`should_ignore_user` is asked before all handlers of an event, and the listeners that keep the
caches are among them. The same frames are handled once with the predicate and once without.
-/

namespace Stoatpp.Cluster
open Stoatpp.Library Stoatpp.Gateway

variable {d : Dispatching}

/-- Frames are handled one after the other: the events that are left of the one in hand, the
store, and the servers whose erasure has been started. -/
structure InTurn where
  store : Store := {}
  pending : List String := []
  todo : List Event := []

inductive FrameTurn where
  | take (frame : Option Json)
  | event
  | erase (i : ℕ)

def frameTurn (d : Dispatching) (h : InTurn) : FrameTurn → Option InTurn
  | .take frame =>
    if h.todo = [] then some { h with todo := (frame.map (frameEvents d.self)).getD [] } else none
  | .event =>
    match h.todo with
    | [] => none
    | e :: rest =>
      let r := (CacheStep.event e).perform d h.store
      -- an exception takes the rest of the frame with it
      some { store := r.1, pending := h.pending ++ erasures e, todo := if r.2 then rest else [] }
  | .erase i => (h.pending[i]?).map fun id =>
      { h with store := h.store.eraseServer id, pending := h.pending.eraseIdx i }

def Dispatching.unset (d : Dispatching) : Dispatching := { d with shouldIgnoreUser := fun _ => false }

/-- The listener of the event finds the member as it would leave it. -/
def NothingToDo (c : Store) : Event → Prop
  | .serverMemberJoin e =>
    e.member.serverId = "" ∨ e.member.id = "" ∨ c.getMember e.member.serverId e.member.id = some e.member
  | .serverMemberLeave serverId userId =>
    serverId = "" ∨ userId = "" ∨ c.getMember serverId userId = none
  | _ => True

/-- An ignored event has nothing to do, and none of its other handlers throws unless it is the
last event of its frame. -/
def Spared (d : Dispatching) (h : InTurn) : FrameTurn → Prop
  | .event => ∀ e rest, h.todo = e :: rest → ignored d.shouldIgnoreUser e = true →
    NothingToDo h.store e ∧ (d.othersReturn e = true ∨ rest = [])
  | _ => True

namespace Store

structure Agree (c c' : Store) : Prop where
  server : ∀ id, c.getServer id = c'.getServer id
  channel : ∀ id, c.getChannel id = c'.getChannel id
  member : ∀ s u, c.getMember s u = c'.getMember s u

variable {c c' : Store}

theorem Agree.count (h : c.Agree c') (s : String) :
    c.getMemberCountSync s = c'.getMemberCountSync s := by
  have hkeys : (c.membersOf s).keys = (c'.membersOf s).keys := by
    ext u
    have hlookup : (c.membersOf s).lookup u = (c'.membersOf s).lookup u := by
      rw [← getMember_eq, ← getMember_eq, h.member]
    rw [Finmap.mem_keys, Finmap.mem_keys, ← not_iff_not, ← Finmap.lookup_eq_none,
      ← Finmap.lookup_eq_none, hlookup]
  rw [getMemberCountSync_eq, getMemberCountSync_eq, hkeys]

theorem Agree.tables (h : c.Agree c') : c.server = c'.server ∧ c.channel = c'.channel :=
  ⟨Finmap.ext_lookup h.server, Finmap.ext_lookup h.channel⟩

theorem modifyServer_returns (id : String) (f : Server → Server × Bool) :
    (c.modifyServer id f).2 = ((c.getServer id).map fun s => (f s).2).getD true := by
  unfold modifyServer getServer
  cases c.server.lookup id <;> rfl

theorem Agree.listen (h : c.Agree c') (e : Event) :
    (Store.listen e c).1.Agree (Store.listen e c').1 ∧ (Store.listen e c).2 = (Store.listen e c').2 := by
  refine ⟨⟨fun id => ?_, fun id => ?_, fun s u => ?_⟩, ?_⟩
  · rw [getServer_listen, getServer_listen, h.server]
  · rw [getChannel_listen, getChannel_listen, h.channel]
  · rw [getMember_listen, getMember_listen, h.member]
  · have hmodify (id : String) (f : Server → Server × Bool) :
        (c.modifyServer id f).2 = (c'.modifyServer id f).2 := by
      rw [modifyServer_returns, modifyServer_returns, h.server]
    cases e with
    | serverUpdate e => exact hmodify _ _
    | serverRoleCreate e => exact hmodify _ _
    | serverRoleUpdate e => exact hmodify _ _
    | serverRoleDelete s r => exact hmodify _ _
    | _ => rfl

theorem memberPut_eq_self {s u : String} {before : Option Member} {m : Member}
    (h : m.serverId = "" ∨ m.id = "" ∨ (m.serverId = s → m.id = u → before = some m)) :
    memberPut s u before m = before := by
  unfold memberPut
  split_ifs with hm
  · rcases h with h | h | h
    · exact absurd h hm.1
    · exact absurd h hm.2.1
    · exact (h hm.2.2.1 hm.2.2.2).symm
  · rfl

/-- An ignored event with nothing to do changes no report. -/
theorem agree_of_ignored {e : Event} (he : ignored d.shouldIgnoreUser e = true) (hn : NothingToDo c e) :
    c.Agree (Store.listen e c).1 ∧ (Store.listen e c).2 = true := by
  refine ⟨⟨fun id => ?_, fun id => ?_, fun s u => ?_⟩, ?_⟩
  · rw [getServer_listen, serverAfter_ignored he]
  · rw [getChannel_listen, channelAfter_ignored he]
  · rw [getMember_listen]
    cases e with
    | serverMemberJoin e =>
      refine (memberPut_eq_self (hn.imp_right (Or.imp_right fun hcached => ?_))).symm
      rintro rfl rfl
      exact hcached
    | serverMemberLeave s' u' =>
      simp only [memberAfter]
      split_ifs with hm
      · obtain ⟨hs, hu, rfl, rfl⟩ := hm
        exact (hn.resolve_left hs).resolve_left hu
      · rfl
    | ready e => cases he
    | _ => rfl
  · cases e with
    | serverUpdate e => cases he
    | serverRoleCreate e => cases he
    | serverRoleUpdate e => cases he
    | serverRoleDelete s r => cases he
    | _ => rfl

end Store

/-! ## The two runs -/

structure InTurn.Agree (h h' : InTurn) : Prop where
  store : h.store.Agree h'.store
  pending : h.pending = h'.pending
  todo : h.todo = h'.todo

theorem perform_heard {e : Event} (he : ignored d.shouldIgnoreUser e = false) (c : Store) :
    (CacheStep.event e).perform d c = ((Store.listen e c).1, (Store.listen e c).2 && d.othersReturn e) := by
  simp only [CacheStep.perform, dispatch, he, Bool.false_eq_true, if_false]

theorem perform_ignored {e : Event} (he : ignored d.shouldIgnoreUser e = true) (c : Store) :
    (CacheStep.event e).perform d c = (c, true) := by
  simp only [CacheStep.perform, dispatch, he, if_true]

theorem unset_ignores (d : Dispatching) (e : Event) : ignored d.unset.shouldIgnoreUser e = false := by
  unfold ignored Dispatching.unset
  cases checkedUser e <;> rfl

theorem agree_turn {h h' t : InTurn} {a : FrameTurn} (hagree : h.Agree h') (hspared : Spared d h a)
    (ht : frameTurn d.unset h a = some t) : ∃ t', frameTurn d h' a = some t' ∧ t.Agree t' := by
  obtain ⟨c, pending, todo⟩ := h
  obtain ⟨c', pending', todo'⟩ := h'
  obtain ⟨hstore, rfl, rfl⟩ := hagree
  cases a with
  | take frame =>
    simp only [frameTurn] at ht ⊢
    split_ifs at ht with hnone
    obtain rfl := Option.some.inj ht
    exact ⟨_, if_pos hnone, hstore, rfl, rfl⟩
  | erase i =>
    obtain ⟨id, hid, rfl⟩ := Option.map_eq_some_iff.mp ht
    refine ⟨_, Option.map_eq_some_iff.mpr ⟨id, hid, rfl⟩, ?_, rfl, rfl⟩
    refine ⟨fun id' => ?_, hstore.channel, hstore.member⟩
    exact (Store.getServer_eraseServer c id' id).trans
      ((congrArg _ (hstore.server id')).trans (Store.getServer_eraseServer c' id' id).symm)
  | event =>
    cases todo with
    | nil => cases ht
    | cons e rest =>
      simp only [frameTurn, perform_heard (unset_ignores d e)] at ht
      obtain rfl := Option.some.inj ht
      cases he : ignored d.shouldIgnoreUser e with
      | false =>
        obtain ⟨hlisten, hflag⟩ := Store.Agree.listen hstore e
        simp only [frameTurn, perform_heard he, ← hflag]
        exact ⟨_, rfl, hlisten, rfl, rfl⟩
      | true =>
        obtain ⟨hnothing, hothers⟩ := hspared e rest rfl he
        obtain ⟨hsame, hflag⟩ := Store.agree_of_ignored he hnothing
        simp only [frameTurn, perform_ignored he, hflag, Bool.true_and, if_true]
        refine ⟨_, rfl, ?_, rfl, ?_⟩
        · exact ⟨fun id => (hsame.server id).symm.trans (hstore.server id),
            fun id => (hsame.channel id).symm.trans (hstore.channel id),
            fun s u => (hsame.member s u).symm.trans (hstore.member s u)⟩
        · rcases hothers with hothers | rfl
          · exact if_pos hothers
          · exact ite_self _

/-- A run with the predicate reports what the run without it reports, if each ignored event has
nothing to do when its turn comes. -/
theorem ignoring_unnoticed (d : Dispatching) (turns : List FrameTurn) (t : InTurn)
    (hrun : runFrom (frameTurn d.unset) {} turns = some t)
    (hspared : Along (frameTurn d.unset) (Spared d) {} turns) :
    ∃ t', runFrom (frameTurn d) {} turns = some t' ∧ t'.store.server = t.store.server ∧
      t'.store.channel = t.store.channel ∧ ∀ s,
        (∀ u, t'.store.getMember s u = t.store.getMember s u) ∧
          t'.store.getMemberCountSync s = t.store.getMemberCountSync s := by
  have hstart : ({} : InTurn).Agree {} := ⟨⟨fun _ => rfl, fun _ => rfl, fun _ _ => rfl⟩, rfl, rfl⟩
  have hstep (h h' : InTurn) (a : FrameTurn) (t : InTurn) : h.Agree h' → Spared d h a →
      frameTurn d.unset h a = some t → ∃ t', frameTurn d h' a = some t' ∧ t.Agree t' := agree_turn
  obtain ⟨t', ht', hagree⟩ := run_lockstep hstep hstart hspared hrun
  exact ⟨t', ht', hagree.store.tables.1.symm, hagree.store.tables.2.symm, fun s =>
    ⟨fun u => (hagree.store.member s u).symm, (hagree.store.count s).symm⟩⟩

def joinFrame (userId : String) : Json :=
  .obj [("id", .str "s"), ("member", .obj [("_id", .obj [("server", .str "s"), ("user", .str userId)])]),
    ("type", .str "ServerMemberJoin"), ("user", .str userId)]

def leaveFrame : Json :=
  .obj [("id", .str "s"), ("type", .str "ServerMemberLeave"), ("user", .str "u")]

def ignoringU : Dispatching := { shouldIgnoreUser := fun id => id = "u" }

/-- The raw event of each frame, then its own. -/
def frameByFrame (frames : List Json) : List FrameTurn :=
  frames.flatMap fun frame => [.take (some frame), .event, .event]

/-- A server with a channel comes, another user joins it, and the ignored one leaves who was not there. -/
def leaving : List FrameTurn := frameByFrame [serverFrame "ServerCreate", joinFrame "v", leaveFrame]

theorem spared_heard {h : InTurn} {e : Event} {rest : List Event} (htodo : h.todo = e :: rest)
    (he : ignored d.shouldIgnoreUser e = false) : Spared d h .event := by
  intro e' rest' htodo' he'
  obtain ⟨rfl, -⟩ := List.cons.inj (htodo.symm.trans htodo')
  exact absurd (he.symm.trans he') nofun

theorem spared_last {h : InTurn} {e : Event} (htodo : h.todo = [e]) (hn : NothingToDo h.store e) :
    Spared d h .event := by
  intro e' rest' htodo' _
  obtain ⟨rfl, rfl⟩ := List.cons.inj (htodo.symm.trans htodo')
  exact ⟨hn, Or.inr rfl⟩

theorem ignored_leave_unnoticed : ∃ t t', runFrom (frameTurn ignoringU.unset) {} leaving = some t ∧
    runFrom (frameTurn ignoringU) {} leaving = some t' ∧ (t.store.getServer "s").isSome ∧
    (t.store.getChannel "general").isSome ∧ t.store.getMemberCountSync "s" = 1 ∧
    t'.store.server = t.store.server ∧ t'.store.channel = t.store.channel ∧
    (∀ u, t'.store.getMember "s" u = t.store.getMember "s" u) ∧ t'.store.getMemberCountSync "s" = 1 := by
  obtain ⟨t, ht, hserver, hchannel, hcount⟩ : ∃ t, runFrom (frameTurn ignoringU.unset) {} leaving = some t ∧
      (t.store.getServer "s").isSome ∧ (t.store.getChannel "general").isSome ∧
      t.store.getMemberCountSync "s" = 1 := ⟨_, rfl, rfl, rfl, rfl⟩
  have hspared : Along (frameTurn ignoringU.unset) (Spared ignoringU) {} leaving := by
    refine .cons trivial rfl (.cons (spared_heard rfl rfl) rfl (.cons (spared_heard rfl rfl) rfl ?_))
    refine .cons trivial rfl (.cons (spared_heard rfl rfl) rfl (.cons (spared_heard rfl rfl) rfl ?_))
    refine .cons trivial rfl (.cons (spared_heard rfl rfl) rfl (.cons (spared_last rfl ?_) rfl trivial))
    exact Or.inr (Or.inr rfl)
  obtain ⟨t', ht', hsame⟩ := ignoring_unnoticed ignoringU leaving t ht hspared
  obtain ⟨hservers, hchannels, hmembers⟩ := hsame
  exact ⟨t, t', ht, ht', hserver, hchannel, hcount, hservers, hchannels, (hmembers "s").1,
    (hmembers "s").2.trans hcount⟩

def joining : List FrameTurn := frameByFrame [joinFrame "u"]

theorem ignored_join_not_cached : ∃ t t', runFrom (frameTurn ignoringU.unset) {} joining = some t ∧
    runFrom (frameTurn ignoringU) {} joining = some t' ∧ (t.store.getMember "s" "u").isSome ∧
      t.store.getMemberCountSync "s" = 1 ∧ t'.store.getMember "s" "u" = none ∧
      t'.store.getMemberCountSync "s" = 0 :=
  ⟨_, _, rfl, rfl, rfl, rfl, rfl, rfl⟩

end Stoatpp.Cluster
