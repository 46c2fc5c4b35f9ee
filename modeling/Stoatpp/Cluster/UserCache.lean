import Stoatpp.Cluster.MessageListener
import Stoatpp.Library.Keyed

/-!
# The entry of a user

The Ready listener takes its users for the authoritative ones, and `dispatch_command` writes
the user objects of the messages over them, which lack what a message does not say. An entry
stays as it is as long as nothing that differs is written over it.
-/

namespace Stoatpp.Cluster
open Stoatpp.Library Stoatpp.Gateway

/-! ## What is written for an id -/

def authorWrites (id : String) (msg : Events.Message) : Option User :=
  if msg.author.username ≠ "" ∧ msg.author.id = id then some msg.author else none

def userWrites (id : String) (msg : Events.Message) : Option User :=
  (((msg.raw.get? "user").bind Json.object?).map User.fromJson).filter (·.id = id)

/-- The user object goes over the author. -/
def messageWrites (h : CommandHandlers) (c : Store) (id : String) (msg : Events.Message) : Option User :=
  let msg := prepare h c msg
  userWrites id msg <|> authorWrites id msg

def readyWrites (id : String) (e : Events.Ready) : Option User :=
  Keyed.latest User.id id (e.users.filter (·.id ≠ "")) (if e.user.id = id then some e.user else none)

namespace Caches
variable (c : Caches) (id : String)

theorem getUser_putUser (usr : User) :
    (c.putUser usr).getUser id = if usr.id = id then some usr else c.getUser id := by
  unfold getUser putUser
  split_ifs with h
  · rw [h, Finmap.lookup_insert]
  · exact Finmap.lookup_insert_of_ne _ (Ne.symm h)

theorem getUser_foldl (us : List User) :
    (us.foldl putUser c).getUser id = Keyed.latest User.id id us (c.getUser id) := by
  induction us generalizing c with
  | nil => rfl
  | cons usr us ih => rw [List.foldl_cons, ih, getUser_putUser, Keyed.latest_cons]

theorem getUser_readyUsers (e : Events.Ready) :
    (readyUsers e c).getUser id = (readyWrites id e <|> c.getUser id) := by
  unfold readyUsers readyWrites
  rw [getUser_foldl, getUser_putUser, ← Keyed.latest_orElse]
  split_ifs <;> rfl

theorem getUser_cacheAuthor (msg : Events.Message) : (cacheAuthor msg c).getUser id =
    ((userWrites id msg <|> authorWrites id msg) <|> c.getUser id) := by
  have hauthor : (if msg.author.username ≠ "" then c.putUser msg.author else c).getUser id =
      (authorWrites id msg <|> c.getUser id) := by
    unfold authorWrites
    by_cases hname : msg.author.username ≠ ""
    · rw [if_pos hname, getUser_putUser]
      by_cases hid : msg.author.id = id
      · rw [if_pos hid, if_pos ⟨hname, hid⟩]
        rfl
      · rw [if_neg hid, if_neg fun h => hid h.2]
        rfl
    · rw [if_neg hname, if_neg fun h => hname h.1]
      rfl
  unfold cacheAuthor userWrites
  cases (msg.raw.get? "user").bind Json.object? with
  | none => exact hauthor
  | some user =>
    simp only [Option.map_some, Option.filter_some, decide_eq_true_eq, getUser_putUser]
    by_cases hid : (User.fromJson user).id = id
    · rw [if_pos hid, if_pos hid]
      rfl
    · rw [if_neg hid, if_neg hid]
      exact hauthor

theorem getUser_listen (e : Event) : (listen e c).1.getUser id =
    ((match e with
      | .ready r => readyWrites id r
      | _ => none) <|> c.getUser id) := by
  cases e with
  | ready r => exact getUser_readyUsers c id r
  | _ => rfl

end Caches

variable {u : Setup} {id : String} {b b' : Bot}

theorem dispatchCommand_caches (cfg : CommandConfig) (h : CommandHandlers) (registry : List Command)
    (env : Surroundings) (msg : Events.Message) (s : Shared) :
    (dispatchCommand cfg h registry env msg s).1.caches =
      cacheAuthor (prepare h s.caches.toStore msg) s.caches := by
  unfold dispatchCommand
  dsimp only
  cases parseCommand cfg h (prepare h s.caches.toStore msg) with
  | none => rfl
  | some parsed =>
    obtain ⟨p, token, args⟩ := parsed
    dsimp only
    split
    · split <;> rfl
    · split_ifs
      · split <;> rfl
      · rfl

theorem getUser_dispatchCommand (cfg : CommandConfig) (h : CommandHandlers) (registry : List Command)
    (env : Surroundings) (msg : Events.Message) (s : Shared) :
    (dispatchCommand cfg h registry env msg s).1.caches.getUser id =
      (messageWrites h s.caches.toStore id msg <|> s.caches.getUser id) := by
  rw [dispatchCommand_caches]
  exact Caches.getUser_cacheAuthor s.caches id _

/-! ## What a step writes -/

def Bot.getUser (b : Bot) (id : String) : Option User := b.shared.caches.getUser id

/-- The message is neither ignored nor taken by the callback of a watcher. -/
def handedOver (u : Setup) (b : Bot) (msg : Events.Message) : Bool :=
  !u.shouldIgnoreUser msg.author.id &&
    match b.watchers.find? (·.wants msg) with
    | some w => w.callback.isNone
    | none => true

def eventWrites (u : Setup) (id : String) (b : Bot) : Event → Option User
  | .message msg =>
    if handedOver u b msg then messageWrites u.handlers b.shared.caches.toStore id msg else none
  | .ready e => readyWrites id e
  | _ => none

def stepWrites (u : Setup) (id : String) (b : Bot) : Choice → Option User
  | .advance i _ _ =>
    match b.threads[i]? with
    | some (.dispatch e :: _) => eventWrites u id b e
    | _ => none
  | .refetch i (some body) channel _ =>
    let c := b.shared.caches.toStore
    (b.refetches[i]?).bind fun _ => messageWrites u.handlers c id (fetchedMessage c body channel)
  | _ => none

theorem callDispatch_getUser (env : Surroundings) (msg : Events.Message) :
    (callDispatch u env msg b).1.getUser id =
      (messageWrites u.handlers b.shared.caches.toStore id msg <|> b.getUser id) :=
  getUser_dispatchCommand _ _ _ _ _ _

theorem onMessage_getUser (env : Surroundings) {msg : Events.Message}
    (hmsg : u.shouldIgnoreUser msg.author.id = false) :
    (onMessage u env msg b).1.getUser id = (eventWrites u id b (.message msg) <|> b.getUser id) := by
  simp only [eventWrites, handedOver, hmsg, onMessage, Bool.not_false, Bool.true_and]
  cases b.watchers.find? (·.wants msg) with
  | none => exact callDispatch_getUser env msg
  | some w =>
    cases hw : w.callback with
    | none =>
      simp only [hw]
      exact callDispatch_getUser env msg
    | some cb =>
      simp only [hw]
      rfl

theorem act_getUser (env : Surroundings) (others : Bool) (e : Event) :
    (act u env others (.dispatch e) b).1.getUser id = (eventWrites u id b e <|> b.getUser id) := by
  simp only [act, dispatch]
  cases e with
  | message msg =>
    split_ifs with he
    · have hno : handedOver u b msg = false := by
        rw [handedOver, (show u.shouldIgnoreUser msg.author.id = true from he)]
        rfl
      rw [eventWrites, hno]
      rfl
    · exact onMessage_getUser env (Bool.eq_false_iff.mpr he)
  | messageUpdate e =>
    simp only [handler, onMessageUpdate]
    split_ifs <;> rfl
  | ready e => exact Caches.getUser_listen b.shared.caches id (.ready e)
  | _ => split_ifs <;> rfl

theorem step_getUser (a : Choice) (hs : step u b a = some b') :
    b'.getUser id = (stepWrites u id b a <|> b.getUser id) := by
  cases a with
  | advance i env others =>
    obtain ⟨action, rest, hthread, rfl⟩ := step_advance hs
    simp only [stepWrites, hthread]
    cases action with
    | dispatch e => exact act_getUser env others e
    | _ => rfl
  | refetch i message channel env =>
    obtain ⟨e, he, rfl⟩ := Option.map_eq_some_iff.mp hs
    cases message with
    | none => rfl
    | some body =>
      simp only [stepWrites, he, Option.bind_some]
      exact callDispatch_getUser env _
  | _ =>
    obtain rfl := Option.some.inj hs
    rfl

theorem stepWrites_impossible {a : Choice} (hs : step u b a = none) : stepWrites u id b a = none := by
  cases a with
  | advance i env others =>
    simp only [step] at hs
    split at hs
    · cases hs
    · next hno =>
      simp only [stepWrites]
      split
      · next e rest hthread => exact absurd hthread (hno _ _)
      · rfl
  | refetch i message channel env =>
    cases message with
    | none => rfl
    | some body =>
      simp only [stepWrites, Option.map_eq_none_iff.mp hs, Option.bind_none]
  | _ => cases hs

/-! ## Whole runs -/

/-- Of a bot, with this bio and with this banner. -/
def SameAs (usr w : User) : Prop := w.bot = usr.bot ∧ w.bio = usr.bio ∧ w.banner = usr.banner

def EntryKept (id : String) (usr : User) (b : Bot) : Prop := ∃ w, b.getUser id = some w ∧ SameAs usr w

def WritesSame (u : Setup) (id : String) (usr : User) (b : Bot) (a : Choice) : Prop :=
  ∀ w, stepWrites u id b a = some w → SameAs usr w

theorem step_entryKept {usr : User} {a : Choice} (hb : EntryKept id usr b) (hs : step u b a = some b') :
    EntryKept id usr b' ↔ WritesSame u id usr b a := by
  unfold EntryKept WritesSame
  rw [step_getUser a hs]
  cases stepWrites u id b a with
  | none => exact iff_of_true hb fun w hw => (nomatch hw)
  | some w =>
    constructor
    · rintro ⟨w', hw', hsame⟩ w'' hw''
      obtain rfl : w'' = w' := Option.some.inj (hw''.symm.trans hw')
      exact hsame
    · exact fun h => ⟨w, rfl, h w rfl⟩

/-- An entry is kept along a run if and only if whatever the run writes for the id says the same. -/
theorem entry_kept_iff (u : Setup) (id : String) (usr : User) (b : Bot) (choices : List Choice)
    (hb : b.getUser id = some usr) :
    Along (step u) (fun b a => ∀ b', step u b a = some b' → EntryKept id usr b') b choices ↔
      Along (step u) (WritesSame u id usr) b choices := by
  refine along_congr (P := EntryKept id usr) (fun b a hb => ?_) (fun _ _ _ _ hc ha => hc _ ha)
    ⟨usr, hb, rfl, rfl, rfl⟩
  cases hs : step u b a with
  | none =>
    refine iff_of_true (fun _ h => (nomatch h)) fun w hw => ?_
    rw [stepWrites_impossible hs] at hw
    cases hw
  | some b₁ =>
    rw [← step_entryKept hb hs]
    refine ⟨fun h => h b₁ rfl, fun h b' hb' => ?_⟩
    obtain rfl := Option.some.inj hb'
    exact h

def botUser : Json := .obj [("_id", .str "u"), ("bot", .obj []), ("username", .str "helper")]

def botReady : Json := .obj [("type", .str "Ready"), ("users", .arr [botUser])]

def messageFrame (user : List (String × Json)) : Json :=
  .obj ([("_id", .str "m"), ("author", .str "u"), ("channel", .str "general"),
    ("type", .str "Message")] ++ user)

def handled (j : Json) (i : ℕ) : List Choice :=
  let env : Surroundings := { now := 0, memberReply := none, later := {} }
  [.frame {} j, .advance i env true, .advance i env true]

theorem bare_message_keeps : ∃ b usr, runFrom (step {}) (Bot.start {} []) (handled botReady 0) = some b ∧
    b.getUser "u" = some usr ∧ usr.bot = true ∧
    Along (step {}) (fun b a => ∀ b', step {} b a = some b' → EntryKept "u" usr b') b
      (handled (messageFrame []) 1) := by
  have hrun : ∃ b usr, runFrom (step {}) (Bot.start {} []) (handled botReady 0) = some b ∧
      b.getUser "u" = some usr ∧ usr.bot = true ∧
      Along (step {}) (WritesSame {} "u" usr) b (handled (messageFrame []) 1) := by
    refine ⟨_, _, rfl, rfl, rfl, fun w hw => (nomatch hw), fun b₁ h₁ => ⟨fun w hw => ?_,
      fun b₂ h₂ => ⟨fun w hw => ?_, fun _ _ => trivial⟩⟩⟩
    · obtain rfl := Option.some.inj h₁
      cases (show (none : Option User) = some w from hw)
    · obtain rfl := Option.some.inj h₁
      obtain rfl := Option.some.inj h₂
      cases (show (none : Option User) = some w from hw)
  obtain ⟨b, usr, hrun, husr, hbot, hsame⟩ := hrun
  exact ⟨b, usr, hrun, husr, hbot, (entry_kept_iff {} "u" usr b _ husr).mpr hsame⟩

/-- A Message frame by the user whose user object says nothing about a bot, or a step of a thread. -/
def OmitsBot (id : String) : Choice → Prop
  | .frame _ j => frameType j = "Message" ∧ (Events.Message.fromJson j).author.id = id ∧
    ∀ user, j.get? "user" = some user → user.get? "bot" = none
  | .advance _ _ _ => True
  | _ => False

theorem message_clears_bot : ¬ ∀ (u : Setup) (id : String) (usr : User) (before choices : List Choice)
    (b b' : Bot), runFrom (step u) (Bot.start {} []) before = some b → b.getUser id = some usr →
    usr.bot = true → (∀ a ∈ choices, OmitsBot id a) → runFrom (step u) b choices = some b' →
    ∃ w, b'.getUser id = some w ∧ w.bot = true := by
  intro hall
  have hrun : ∃ b b' usr w, runFrom (step {}) (Bot.start {} []) (handled botReady 0) = some b ∧
      b.getUser "u" = some usr ∧ usr.bot = true ∧
      runFrom (step {}) b (handled (messageFrame [("user", .obj [("_id", .str "u")])]) 1) = some b' ∧
      b'.getUser "u" = some w ∧ w.bot = false := ⟨_, _, _, _, rfl, rfl, rfl, rfl, rfl, rfl⟩
  obtain ⟨b, b', usr, w, hready, husr, hbot, hmsg, hw, hcleared⟩ := hrun
  have homits : ∀ a ∈ handled (messageFrame [("user", .obj [("_id", .str "u")])]) 1, OmitsBot "u" a := by
    refine List.forall_mem_cons.mpr ⟨⟨rfl, rfl, fun user huser => ?_⟩, ?_⟩
    · obtain rfl := Option.some.inj huser
      rfl
    · exact List.forall_mem_cons.mpr ⟨trivial, List.forall_mem_cons.mpr ⟨trivial, List.forall_mem_nil _⟩⟩
  obtain ⟨w', hw', hset⟩ := hall {} "u" usr _ _ b b' hready husr hbot homits hmsg
  obtain rfl := Option.some.inj (hw.symm.trans hw')
  rw [hcleared] at hset
  cases hset

end Stoatpp.Cluster
