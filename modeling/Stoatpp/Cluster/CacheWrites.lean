import Stoatpp.Cluster.Cache

/-!
# The entries a listener writes

What a listener does is a list of writes to single entries of the store. Writes to different
entries commute, and whether a write throws depends on its own entry only.
-/

namespace Stoatpp.Cluster

inductive Entry where
  | server (id : String)
  | channel (id : String)
  | member (serverId userId : String)
  deriving DecidableEq

/-- One entry gets a value or is taken out. Only the change of a server may throw. -/
inductive Write where
  | server (id : String) (f : Option Server → Option Server × Bool)
  | channel (id : String) (value : Option Channel)
  | member (serverId userId : String) (value : Option Member)

def Write.entry : Write → Entry
  | .server id _ => .server id
  | .channel id _ => .channel id
  | .member serverId userId _ => .member serverId userId

section
variable {α : Type}

def setEntry (t : Table α) (key : String) : Option α → Table α
  | some a => t.insert key a
  | none => t.erase key

theorem lookup_setEntry (t : Table α) (key k : String) (v : Option α) :
    (setEntry t key v).lookup k = if k = key then v else t.lookup k := by
  by_cases h : k = key
  · subst h
    cases v with
    | none => simp only [setEntry, Finmap.lookup_erase, if_true]
    | some a => simp only [setEntry, Finmap.lookup_insert, if_true]
  · cases v with
    | none => simp only [setEntry, Finmap.lookup_erase_ne h, if_neg h]
    | some a => simp only [setEntry, Finmap.lookup_insert_of_ne t h, if_neg h]

theorem setEntry_comm (t : Table α) {a b : String} (h : a ≠ b) (v w : Option α) :
    setEntry (setEntry t a v) b w = setEntry (setEntry t b w) a v := by
  apply Finmap.ext_lookup
  intro k
  simp only [lookup_setEntry]
  by_cases hb : k = b
  · rw [if_pos hb, if_neg (fun ha => h (ha.symm.trans hb)), if_pos hb]
  · rw [if_neg hb, if_neg hb]

theorem setEntry_absent (t : Table α) {key : String} (h : t.lookup key = none) :
    setEntry t key none = t := by
  apply Finmap.ext_lookup
  intro k
  rw [lookup_setEntry]
  split_ifs with hk
  · rw [hk, h]
  · rfl

end

def Write.apply : Write → Store → Store × Bool
  | .server id f, c =>
    ({ c with server := setEntry c.server id (f (c.server.lookup id)).1 }, (f (c.server.lookup id)).2)
  | .channel id value, c => ({ c with channel := setEntry c.channel id value }, true)
  | .member serverId userId value, c =>
    ({ c with member :=
        c.member.insert serverId (setEntry (c.membersOf serverId) userId value) }, true)

def applyAll : List Write → Store → Store × Bool
  | [], c => (c, true)
  | w :: ws, c =>
    let r := applyAll ws (w.apply c).1
    (r.1, (w.apply c).2 && r.2)

/-! ## Different entries -/

theorem membersOf_insert (c : Store) (s s' : String) (t : Table Member) :
    ({ c with member := c.member.insert s t } : Store).membersOf s' =
      if s' = s then t else c.membersOf s' := by
  unfold Store.membersOf
  split_ifs with h
  · rw [h, Finmap.lookup_insert]
    rfl
  · rw [Finmap.lookup_insert_of_ne _ h]

theorem member_comm (c : Store) {s u s' u' : String} (h : ¬ (s = s' ∧ u = u')) (v v' : Option Member) :
    ((Write.member s' u' v').apply ((Write.member s u v).apply c).1).1 =
      ((Write.member s u v).apply ((Write.member s' u' v').apply c).1).1 := by
  simp only [Write.apply, membersOf_insert]
  congr 1
  -- two members of one server share the table that is written back
  by_cases hs : s = s'
  · subst hs
    have hu : u ≠ u' := fun hu => h ⟨rfl, hu⟩
    simp only [if_true, Finmap.insert_insert, setEntry_comm _ hu]
  · rw [if_neg hs, if_neg (Ne.symm hs), Finmap.insert_insert_of_ne _ hs]

theorem apply_comm {a b : Write} (h : a.entry ≠ b.entry) (c : Store) :
    (b.apply (a.apply c).1).1 = (a.apply (b.apply c).1).1 ∧
      (b.apply (a.apply c).1).2 = (b.apply c).2 := by
  cases a with
  | server id f =>
    cases b with
    | server id' f' =>
      have hid : id ≠ id' := fun he => h (congrArg Entry.server he)
      simp only [Write.apply, lookup_setEntry, if_neg hid, if_neg hid.symm, and_true]
      rw [setEntry_comm _ hid]
    | channel id' v' => exact ⟨rfl, rfl⟩
    | member s' u' v' => exact ⟨rfl, rfl⟩
  | channel id v =>
    cases b with
    | server id' f' => exact ⟨rfl, rfl⟩
    | channel id' v' =>
      have hid : id ≠ id' := fun he => h (congrArg Entry.channel he)
      simp only [Write.apply, and_true]
      rw [setEntry_comm _ hid]
    | member s' u' v' => exact ⟨rfl, rfl⟩
  | member s u v =>
    cases b with
    | server id' f' => exact ⟨rfl, rfl⟩
    | channel id' v' => exact ⟨rfl, rfl⟩
    | member s' u' v' =>
      refine ⟨member_comm c (fun he => h ?_) v v', rfl⟩
      rw [Write.entry, Write.entry, he.1, he.2]

theorem apply_applyAll {a : Write} {ws : List Write} (h : ∀ w ∈ ws, a.entry ≠ w.entry) (c : Store) :
    (applyAll ws (a.apply c).1).1 = (a.apply (applyAll ws c).1).1 ∧
      (applyAll ws (a.apply c).1).2 = (applyAll ws c).2 ∧
      (a.apply (applyAll ws c).1).2 = (a.apply c).2 := by
  induction ws generalizing c with
  | nil => exact ⟨rfl, rfl, rfl⟩
  | cons w ws ih =>
    have hw : a.entry ≠ w.entry := h w List.mem_cons_self
    obtain ⟨hstate, hflag⟩ := apply_comm hw c
    obtain ⟨ihstate, ihflag, ihown⟩ := ih (fun w hw => h w (List.mem_cons_of_mem _ hw)) (w.apply c).1
    simp only [applyAll, hstate, hflag, ihstate, ihflag, ihown, true_and]
    exact (apply_comm hw.symm c).2

theorem applyAll_comm {vs ws : List Write} (h : ∀ v ∈ vs, ∀ w ∈ ws, v.entry ≠ w.entry) (c : Store) :
    (applyAll ws (applyAll vs c).1).1 = (applyAll vs (applyAll ws c).1).1 ∧
      (applyAll ws (applyAll vs c).1).2 = (applyAll ws c).2 := by
  induction vs generalizing c with
  | nil => exact ⟨rfl, rfl⟩
  | cons v vs ih =>
    obtain ⟨hstate, hflag, -⟩ := apply_applyAll (h v List.mem_cons_self) c
    obtain ⟨ihstate, ihflag⟩ := ih (fun v hv => h v (List.mem_cons_of_mem _ hv)) (v.apply c).1
    simp only [applyAll, ihstate, ihflag, hstate, hflag, true_and]

/-! ## The listeners as writes -/

def putServer (s : Server) : List Write := [.server s.id fun _ => (some s, true)]

def putChannel (ch : Channel) : List Write := [.channel ch.id (some ch)]

def setMember (serverId userId : String) (value : Option Member) : List Write :=
  if serverId ≠ "" ∧ userId ≠ "" then [.member serverId userId value] else []

def putMember (m : Member) : List Write := setMember m.serverId m.id (some m)

def modifyServer (id : String) (f : Server → Server × Bool) : List Write :=
  [.server id fun
    | some s => (some (f s).1, (f s).2)
    | none => (none, true)]

def writes : Event → List Write
  | .serverMemberJoin e => putMember e.member
  | .serverMemberLeave serverId userId => setMember serverId userId none
  | .ready e =>
    e.servers.flatMap putServer ++ (e.channels.flatMap putChannel ++ e.members.flatMap putMember)
  | .channelCreate e => putChannel e.channel
  | .channelDelete id => [.channel id none]
  | .serverCreate e => putServer e.server ++ (Store.listedChannels e.raw).flatMap putChannel
  | .serverUpdate e => modifyServer e.id (Store.updateServer e)
  | .serverRoleCreate e =>
    modifyServer e.serverId fun s => ({ s with roles := Store.addRole e s.roles }, true)
  | .serverRoleUpdate e =>
    modifyServer e.serverId fun s =>
      ({ s with roles := (Store.updateRoles e s.roles).1 }, (Store.updateRoles e s.roles).2)
  | .serverRoleDelete serverId roleId =>
    modifyServer serverId fun s => ({ s with roles := s.roles.filter (·.id ≠ roleId) }, true)
  | _ => []

theorem applyAll_append (vs ws : List Write) (c : Store) :
    applyAll (vs ++ ws) c =
      ((applyAll ws (applyAll vs c).1).1, (applyAll vs c).2 && (applyAll ws (applyAll vs c).1).2) := by
  induction vs generalizing c with
  | nil => simp only [List.nil_append, applyAll, Bool.true_and]
  | cons v vs ih => simp only [List.cons_append, applyAll, ih, Bool.and_assoc]

theorem applyAll_flatMap {β : Type} {put : β → List Write} {f : Store → β → Store}
    (h : ∀ c x, applyAll (put x) c = (f c x, true)) (xs : List β) (c : Store) :
    applyAll (xs.flatMap put) c = (xs.foldl f c, true) := by
  induction xs generalizing c with
  | nil => rfl
  | cons x xs ih => simp only [List.flatMap_cons, applyAll_append, h, ih, List.foldl_cons, Bool.true_and]

theorem applyAll_putServer (c : Store) (s : Server) :
    applyAll (putServer s) c = (c.putServer s, true) := rfl

theorem applyAll_putChannel (c : Store) (ch : Channel) :
    applyAll (putChannel ch) c = (c.putChannel ch, true) := rfl

theorem applyAll_putMember (c : Store) (m : Member) :
    applyAll (putMember m) c = (c.putMember m, true) := by
  unfold putMember setMember Store.putMember
  split_ifs <;> rfl

theorem applyAll_eraseMember (c : Store) (serverId userId : String) :
    applyAll (setMember serverId userId none) c = (c.eraseMember serverId userId, true) := by
  unfold setMember Store.eraseMember
  split_ifs <;> rfl

theorem applyAll_modifyServer (c : Store) (id : String) (f : Server → Server × Bool) :
    applyAll (modifyServer id f) c = c.modifyServer id f := by
  simp only [modifyServer, applyAll, Write.apply, Store.modifyServer, Bool.and_true]
  cases h : c.server.lookup id with
  | none => simp only [setEntry_absent _ h]
  | some s => rfl

theorem listen_eq_applyAll (e : Event) (c : Store) : Store.listen e c = applyAll (writes e) c := by
  cases e with
  | serverMemberJoin e => exact (applyAll_putMember c e.member).symm
  | serverMemberLeave serverId userId => exact (applyAll_eraseMember c serverId userId).symm
  | ready e =>
    simp only [writes, applyAll_append, applyAll_flatMap applyAll_putServer,
      applyAll_flatMap applyAll_putChannel, applyAll_flatMap applyAll_putMember, Bool.and_true]
    rfl
  | serverCreate e =>
    simp only [writes, applyAll_append, applyAll_putServer, applyAll_flatMap applyAll_putChannel,
      Bool.and_true]
    rfl
  | serverUpdate e => exact (applyAll_modifyServer c _ _).symm
  | serverRoleCreate e => exact (applyAll_modifyServer c _ _).symm
  | serverRoleUpdate e => exact (applyAll_modifyServer c _ _).symm
  | serverRoleDelete serverId roleId => exact (applyAll_modifyServer c _ _).symm
  | _ => rfl

end Stoatpp.Cluster
