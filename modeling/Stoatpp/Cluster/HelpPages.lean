import Stoatpp.Cluster.Commands
import Stoatpp.Library.Pages
import Stoatpp.Library.Runs

/-!
# The built-in help command

The help command sends the first page and, once the message is there, opens a session for its
author; the reaction listener turns the pages of that session. Each of the two counts the pages
and cuts the sorted commands for itself.
-/

namespace Stoatpp.Cluster
open Stoatpp.Library

structure DescribedCommand extends Command where
  description : Bytes := []
  usage : Bytes := []
  args : List Bytes := []

structure HelpConfig extends CommandConfig where
  defaultHelpColor : String := "#5865f2"

structure HelpSession where
  currentPage : ℤ := 0
  maxPages : ℤ := 1
  userId : String := ""

abbrev HelpSessions := String → Option HelpSession

structure HelpEmbed where
  colour : String
  title : Bytes
  description : Bytes

inductive HelpAction where
  | send (channelId : String) (embed : HelpEmbed)
  | edit (channelId messageId : String) (content : Bytes) (embed : HelpEmbed)
  | react (channelId messageId emoji : String)
  | unreact (channelId messageId emoji userId : String)

/-! ## What a page says -/

def sortByName (cmds : List DescribedCommand) : List DescribedCommand :=
  cmds.insertionSort fun a b => a.name ≤ b.name

/-- The configured prefix, or the first one the resolver returns. -/
def helpLead (cfg : HelpConfig) (h : CommandHandlers) (msg : Events.Message) : Bytes :=
  match h.prefixResolver with
  | some resolve => (resolve msg).headD cfg.commandPrefix
  | none => cfg.commandPrefix

def aliasText (lead : Bytes) (aliases : List Bytes) : Bytes :=
  if aliases = [] then []
  else bytes " (aliases: " ++
    (bytes ", ").intercalate (aliases.map fun a => bytes "`" ++ lead ++ a ++ bytes "`") ++ bytes ")"

def usageText (lead : Bytes) (cmd : DescribedCommand) : Bytes :=
  if cmd.args ≠ [] then lead ++ cmd.name ++ cmd.args.flatMap (bytes " " ++ ·)
  else if cmd.usage ≠ [] then cmd.usage
  else lead ++ cmd.name

def describe (lead : Bytes) (cmd : DescribedCommand) : Bytes :=
  bytes "• **" ++ lead ++ cmd.name ++ bytes "**" ++ aliasText lead cmd.aliases ++ bytes "\n" ++
    bytes "  *syntax:* `" ++ usageText lead cmd ++ bytes "`\n" ++
    (if cmd.description = [] then [] else bytes "  *description:* " ++ cmd.description ++ bytes "\n") ++
    bytes "\n"

def helpDescription (lead : Bytes) (cmds : List DescribedCommand) : Bytes :=
  bytes "here is a list of all registered commands:\n\n" ++ cmds.flatMap (describe lead)

section
variable (cfg : HelpConfig) (h : CommandHandlers) (registry : List DescribedCommand)

/-! ## The command -/

def helpMaxPages : ℤ :=
  let maxPages := (registry.length + 2) / 3
  if maxPages = 0 then 1 else maxPages

def helpEmbed (msg : Events.Message) : HelpEmbed where
  colour := cfg.defaultHelpColor
  title := bytes "stoat++ default help menu (page 1 of " ++ bytes (toString (helpMaxPages registry)) ++ bytes ")"
  description := helpDescription (helpLead cfg h msg) ((sortByName registry).take 3)

def helpCommand (msg : Events.Message) : List HelpAction := [.send msg.channelId (helpEmbed cfg h registry msg)]

/-- The callback of `send_message`. -/
def onHelpSent (msg : Events.Message) (messageId : String) (success : Bool) (sessions : HelpSessions) :
    HelpSessions × List HelpAction :=
  if success && 1 < helpMaxPages registry then
    (Function.update sessions messageId (some ⟨0, helpMaxPages registry, msg.author.id⟩),
      [.react msg.channelId messageId "⬅", .react msg.channelId messageId "➡"])
  else (sessions, [])

/-! ## The reaction listener -/

inductive Arrow where
  | left
  | right
  deriving DecidableEq

def arrow? (emojiId : String) : Option Arrow :=
  if emojiId = "⬅️" ∨ emojiId = "◀" ∨ emojiId = "⬅" then some .left
  else if emojiId = "➡️" ∨ emojiId = "▶" ∨ emojiId = "➡" then some .right
  else none

def HelpSession.turn (session : HelpSession) : Arrow → HelpSession
  | .left => { session with currentPage := previousPage session.maxPages session.currentPage }
  | .right => { session with currentPage := nextPage session.maxPages session.currentPage }

/-- The message that stands for the reaction where prefixes are resolved. -/
def dummyMessage (c : Store) (e : Events.MessageReact) : Events.Message where
  author := { id := e.userId }
  channelId := e.channelId
  serverId := ((c.getChannel e.channelId).bind (·.server)).getD ""

/-- The commands from `page * 3` on, which is past the end when the product is negative. -/
def helpShown (page : ℤ) : List DescribedCommand :=
  if page < 0 then [] else pageAt 3 (sortByName registry) page.toNat

def pageEmbed (msg : Events.Message) (session : HelpSession) : HelpEmbed where
  colour := cfg.defaultHelpColor
  title := bytes "stoat++ default help menu (page " ++ bytes (toString (session.currentPage + 1)) ++
    bytes " of " ++ bytes (toString session.maxPages) ++ bytes ")"
  description := helpDescription (helpLead cfg h msg) (helpShown registry session.currentPage)

def onMessageReact (botId : String) (c : Store) (e : Events.MessageReact) (sessions : HelpSessions) :
    HelpSessions × List HelpAction :=
  match sessions e.id with
  | none => (sessions, [])
  | some session =>
    let unreact := HelpAction.unreact e.channelId e.id e.emojiId e.userId
    if e.userId = botId then (sessions, [])
    else if e.userId ≠ session.userId then (sessions, [unreact])
    else
      match arrow? e.emojiId with
      | none => (sessions, [])
      | some arrow =>
        (Function.update sessions e.id (some (session.turn arrow)),
          [.edit e.channelId e.id (bytes " ")
            (pageEmbed cfg h registry (dummyMessage c e) (session.turn arrow)), unreact])

/-- A help message has been sent, or not, or somebody reacts to some message. -/
inductive HelpTurn where
  | sent (msg : Events.Message) (messageId : String) (success : Bool)
  | reaction (botId : String) (c : Store) (e : Events.MessageReact)

def helpStep (sessions : HelpSessions) : HelpTurn → Option HelpSessions
  | .sent msg messageId success => some (onHelpSent registry msg messageId success sessions).1
  | .reaction botId c e => some (onMessageReact cfg h registry botId c e sessions).1

end

variable {cfg : HelpConfig} {h : CommandHandlers} {registry : List DescribedCommand} {session : HelpSession}

/-! ## Turning the pages -/

structure HelpSession.Valid (registry : List DescribedCommand) (session : HelpSession) : Prop where
  nonneg : 0 ≤ session.currentPage
  below : session.currentPage < session.maxPages
  pages : session.maxPages = helpMaxPages registry

def Arrow.opposite : Arrow → Arrow
  | .left => .right
  | .right => .left

def Arrow.pages : Arrow → ℤ
  | .left => -1
  | .right => 1

/-- A left arrow leads a page back and a right one a page on, modulo the number of pages. -/
def HelpSession.moved (session : HelpSession) (arrow : Arrow) : HelpSession :=
  { session with currentPage := (session.currentPage + arrow.pages) % session.maxPages }

theorem HelpSession.Valid.turn (hs : session.Valid registry) (arrow : Arrow) :
    (session.turn arrow).Valid registry := by
  cases arrow with
  | left =>
    obtain ⟨hnonneg, hbelow⟩ := previousPage_range hs.nonneg hs.below
    exact ⟨hnonneg, hbelow, hs.pages⟩
  | right =>
    obtain ⟨hnonneg, hbelow⟩ := nextPage_range hs.nonneg hs.below
    exact ⟨hnonneg, hbelow, hs.pages⟩

theorem HelpSession.Valid.turn_eq (hs : session.Valid registry) (arrow : Arrow) :
    session.turn arrow = session.moved arrow := by
  have hpages : 0 < session.maxPages := lt_of_le_of_lt hs.nonneg hs.below
  have hpage : session.currentPage % session.maxPages = session.currentPage :=
    Int.emod_eq_of_lt hs.nonneg hs.below
  cases arrow with
  | left =>
    have hturned := previousPage_emod hpages session.currentPage
    rw [hpage] at hturned
    rw [HelpSession.turn, hturned]
    rfl
  | right =>
    have hturned := nextPage_emod hpages session.currentPage
    rw [hpage] at hturned
    rw [HelpSession.turn, hturned]
    rfl

theorem HelpSession.Valid.turn_back (hs : session.Valid registry) (arrow : Arrow) :
    (session.turn arrow).turn arrow.opposite = session := by
  cases arrow with
  | left =>
    have hpage := nextPage_previousPage hs.nonneg hs.below
    simp only [HelpSession.turn, Arrow.opposite, hpage]
  | right =>
    have hpage := previousPage_nextPage hs.nonneg hs.below
    simp only [HelpSession.turn, Arrow.opposite, hpage]

/-- What a reaction does to the sessions: nothing, or its user turns the page of the message. -/
theorem onMessageReact_cases (cfg : HelpConfig) (h : CommandHandlers) (registry : List DescribedCommand)
    (botId : String) (c : Store) (e : Events.MessageReact) (sessions : HelpSessions) :
    (onMessageReact cfg h registry botId c e sessions).1 = sessions ∨
    ∃ session arrow, sessions e.id = some session ∧ e.userId ≠ botId ∧ e.userId = session.userId ∧
      arrow? e.emojiId = some arrow ∧ (onMessageReact cfg h registry botId c e sessions).1 =
        Function.update sessions e.id (some (session.turn arrow)) := by
  unfold onMessageReact
  cases hsession : sessions e.id with
  | none => exact Or.inl rfl
  | some session =>
    simp only
    split_ifs with hbot huser
    · exact Or.inl rfl
    · exact Or.inl rfl
    · cases harrow : arrow? e.emojiId with
      | none => exact Or.inl rfl
      | some arrow => exact Or.inr ⟨session, arrow, rfl, hbot, not_not.mp huser, rfl, rfl⟩

theorem onMessageReact_turns {botId : String} {e : Events.MessageReact} {sessions : HelpSessions} {arrow : Arrow}
    (hsession : sessions e.id = some session) (hbot : e.userId ≠ botId) (huser : e.userId = session.userId)
    (harrow : arrow? e.emojiId = some arrow) (c : Store) :
    onMessageReact cfg h registry botId c e sessions =
      (Function.update sessions e.id (some (session.turn arrow)),
        [.edit e.channelId e.id (bytes " ") (pageEmbed cfg h registry (dummyMessage c e) (session.turn arrow)),
          .unreact e.channelId e.id e.emojiId e.userId]) := by
  simp only [onMessageReact, hsession]
  rw [if_neg hbot, if_neg (not_not.mpr huser), harrow]

theorem arrow?_left (emojiId : String) :
    arrow? emojiId = some .left ↔ emojiId ∈ ["⬅️", "◀", "⬅"] := by
  unfold arrow?
  split_ifs with hleft hright <;> simp [hleft]

theorem arrow?_right (emojiId : String) :
    arrow? emojiId = some .right ↔ emojiId ∈ ["➡️", "▶", "➡"] := by
  unfold arrow?
  split_ifs with hleft hright
  · obtain rfl | rfl | rfl := hleft <;> decide
  · simpa using hright
  · simpa using hright

def SessionsValid (registry : List DescribedCommand) (sessions : HelpSessions) : Prop :=
  ∀ id session, sessions id = some session → session.Valid registry

theorem SessionsValid.update {sessions : HelpSessions} (hs : SessionsValid registry sessions) (id : String)
    (hsession : session.Valid registry) : SessionsValid registry (Function.update sessions id (some session)) := by
  intro id' session' hid
  by_cases heq : id' = id
  · rw [heq, Function.update_self] at hid
    rw [← Option.some.inj hid]
    exact hsession
  · rw [Function.update_of_ne heq] at hid
    exact hs id' session' hid

theorem helpStep_valid {sessions sessions' : HelpSessions} {turn : HelpTurn} (hs : SessionsValid registry sessions)
    (hstep : helpStep cfg h registry sessions turn = some sessions') : SessionsValid registry sessions' := by
  cases turn with
  | sent msg messageId success =>
    obtain rfl := Option.some.inj hstep
    unfold onHelpSent
    split_ifs with hopen
    · have hpages : 1 < helpMaxPages registry := by simpa using (Bool.and_eq_true_iff.mp hopen).2
      exact hs.update messageId ⟨le_refl _, by simp only; omega, rfl⟩
    · exact hs
  | reaction botId c e =>
    obtain rfl := Option.some.inj hstep
    rcases onMessageReact_cases cfg h registry botId c e sessions with
      hsame | ⟨session, arrow, hsession, -, -, -, hturned⟩
    · rw [hsame]
      exact hs
    · rw [hturned]
      exact hs.update e.id ((hs e.id session hsession).turn arrow)

theorem run_valid {sessions : HelpSessions} {turns : List HelpTurn}
    (hrun : runFrom (helpStep cfg h registry) (fun _ => none) turns = some sessions) :
    SessionsValid registry sessions := by
  have hstart : SessionsValid registry fun _ => none := fun _ _ hnone => absurd hnone (Option.some_ne_none _).symm
  exact run_invariant (fun _ _ _ hs _ hstep => helpStep_valid hs hstep) hstart
    (along_of_forall fun _ _ => trivial) hrun

theorem turned_back {botId : String} {e e' : Events.MessageReact} {sessions : HelpSessions} {arrow : Arrow}
    (hs : SessionsValid registry sessions) (hsession : sessions e.id = some session) (hbot : session.userId ≠ botId)
    (hid : e'.id = e.id) (huser : e.userId = session.userId) (huser' : e'.userId = session.userId)
    (harrow : arrow? e.emojiId = some arrow) (harrow' : arrow? e'.emojiId = some arrow.opposite) (c c' : Store) :
    (onMessageReact cfg h registry botId c' e'
      (onMessageReact cfg h registry botId c e sessions).1).1 = sessions := by
  have hturned := congrArg Prod.fst (@onMessageReact_turns cfg h registry session botId e sessions arrow hsession
    (huser ▸ hbot) huser harrow c)
  have hsession' : (Function.update sessions e.id (some (session.turn arrow))) e'.id = some (session.turn arrow) := by
    rw [hid, Function.update_self]
  have hkept : e'.userId = (session.turn arrow).userId := by
    rw [huser']
    cases arrow <;> rfl
  rw [hturned, onMessageReact_turns hsession' (huser' ▸ hbot) hkept harrow' c', hid, Function.update_idem,
    (hs e.id session hsession).turn_back, ← hsession, Function.update_eq_self]

/-! ## The commands on the pages -/

theorem sortByName_perm (registry : List DescribedCommand) : (sortByName registry).Perm registry :=
  List.perm_insertionSort _ registry

theorem sortByName_pairwise (registry : List DescribedCommand) :
    (sortByName registry).Pairwise fun a b => a.name ≤ b.name := by
  have : Std.Total fun a b : DescribedCommand => a.name ≤ b.name := ⟨fun a b => List.le_total a.name b.name⟩
  have : IsTrans DescribedCommand fun a b => a.name ≤ b.name := ⟨fun _ _ _ hab hbc => List.le_trans hab hbc⟩
  exact List.pairwise_insertionSort _ registry

/-- With distinct names there is one order by name, whichever way the sort takes. -/
theorem sorted_eq (hnames : (registry.map (·.name)).Nodup) {sorted : List DescribedCommand}
    (hperm : sorted.Perm registry) (hsorted : sorted.Pairwise fun a b => a.name ≤ b.name) :
    sorted = sortByName registry := by
  have hboth := hperm.trans (sortByName_perm registry).symm
  refine List.Perm.eq_of_pairwise (fun a b ha hb hab hba => ?_) hsorted (sortByName_pairwise registry) hboth
  have hname : a.name = b.name := List.le_antisymm hab hba
  exact List.inj_on_of_nodup_map hnames (hperm.mem_iff.mp ha) ((sortByName_perm registry).mem_iff.mp hb) hname

theorem helpMaxPages_eq (hne : registry ≠ []) : helpMaxPages registry = pageCount 3 (sortByName registry) := by
  have hpos := List.length_pos_of_ne_nil hne
  have hlength := (sortByName_perm registry).length_eq
  simp only [helpMaxPages, pageCount, hlength]
  rw [if_neg (by omega)]

theorem helpShown_eq (page : ℕ) : helpShown registry page = pageAt 3 (sortByName registry) page := by
  rw [helpShown, if_neg (by omega), Int.toNat_natCast]

/-- The command sends what the listener shows for the first page. -/
theorem helpEmbed_eq (cfg : HelpConfig) (h : CommandHandlers) (registry : List DescribedCommand)
    (msg : Events.Message) :
    helpEmbed cfg h registry msg = pageEmbed cfg h registry msg ⟨0, helpMaxPages registry, msg.author.id⟩ := by
  have hfirst : (sortByName registry).take 3 = helpShown registry 0 := (helpShown_eq 0).symm
  have htitle : bytes "stoat++ default help menu (page 1 of " =
      bytes "stoat++ default help menu (page " ++ bytes (toString (0 + 1 : ℤ)) ++ bytes " of " := by decide
  rw [helpEmbed, pageEmbed, hfirst, htitle]

/-- The pages of a registry, as the two handlers cut them. -/
structure PagesPartition (registry : List DescribedCommand) : Prop where
  perm : (sortByName registry).Perm registry
  sorted : (sortByName registry).Pairwise fun a b => a.name ≤ b.name
  order : ∀ sorted : List DescribedCommand, sorted.Perm registry →
    (sorted.Pairwise fun a b => a.name ≤ b.name) → sorted = sortByName registry
  consecutive : (List.range (helpMaxPages registry).toNat).flatMap (fun page : ℕ => helpShown registry page) =
    sortByName registry
  nonempty : ∀ page, 0 ≤ page → page < helpMaxPages registry → helpShown registry page ≠ []
  once : ∀ cmd ∈ registry, ∃ page,
    (0 ≤ page ∧ page < helpMaxPages registry ∧ cmd ∈ helpShown registry page) ∧
      ∀ page', cmd ∈ helpShown registry page' → page' = page

theorem pages_partition (hne : registry ≠ []) (hnames : (registry.map (·.name)).Nodup) :
    PagesPartition registry where
  perm := sortByName_perm registry
  sorted := sortByName_pairwise registry
  order := fun _ => sorted_eq hnames
  consecutive := by
    rw [helpMaxPages_eq hne, Int.toNat_natCast]
    simp only [helpShown_eq]
    exact flatMap_pageAt (by decide)
  nonempty := by
    intro page hpage hbelow
    obtain ⟨page, rfl⟩ := Int.eq_ofNat_of_zero_le hpage
    rw [helpMaxPages_eq hne] at hbelow
    rw [helpShown_eq]
    exact pageAt_ne_nil (by decide) (by omega)
  once := by
    intro cmd hcmd
    have hnodup : (sortByName registry).Nodup := (sortByName_perm registry).nodup_iff.mpr (List.Nodup.of_map _ hnames)
    obtain ⟨page, ⟨hbelow, hon⟩, honly⟩ := exists_unique_page (by decide : 0 < 3) hnodup
      ((sortByName_perm registry).mem_iff.mpr hcmd)
    refine ⟨page, ⟨by omega, ?_, ?_⟩, fun page' hon' => ?_⟩
    · rw [helpMaxPages_eq hne]
      omega
    · rw [helpShown_eq]
      exact hon
    · unfold helpShown at hon'
      split_ifs at hon' with hneg
      · exact absurd hon' List.not_mem_nil
      · have := honly page'.toNat hon'
        omega

/-- With a fixed registry of distinct names: a session stays on one of its pages, only its user
turns them, an arrow leads a page on or back and is undone by the opposite one, the listener shows
the commands of the page it turned to, and the pages show each command once, in the order of the
names. -/
theorem help_pages (cfg : HelpConfig) (h : CommandHandlers) (registry : List DescribedCommand)
    (hne : registry ≠ []) (hnames : (registry.map (·.name)).Nodup) :
    (∀ turns sessions, runFrom (helpStep cfg h registry) (fun _ => none) turns = some sessions →
      (∀ id session, sessions id = some session → 0 ≤ session.currentPage ∧
        session.currentPage < session.maxPages ∧ session.maxPages = helpMaxPages registry) ∧
      (∀ (e : Events.MessageReact) session arrow botId c, sessions e.id = some session →
        e.userId ≠ botId → e.userId = session.userId → arrow? e.emojiId = some arrow →
        ∃ embed : HelpEmbed, onMessageReact cfg h registry botId c e sessions =
          (Function.update sessions e.id (some (session.moved arrow)),
            [.edit e.channelId e.id (bytes " ") embed, .unreact e.channelId e.id e.emojiId e.userId]) ∧
          embed.description = helpDescription (helpLead cfg h (dummyMessage c e))
            (helpShown registry (session.moved arrow).currentPage)) ∧
      ∀ (e e' : Events.MessageReact) session arrow botId c c', sessions e.id = some session →
        session.userId ≠ botId → e'.id = e.id → e.userId = session.userId → e'.userId = session.userId →
        arrow? e.emojiId = some arrow → arrow? e'.emojiId = some arrow.opposite →
        (onMessageReact cfg h registry botId c' e'
          (onMessageReact cfg h registry botId c e sessions).1).1 = sessions) ∧
    (∀ emojiId, (arrow? emojiId = some .left ↔ emojiId ∈ ["⬅️", "◀", "⬅"]) ∧
      (arrow? emojiId = some .right ↔ emojiId ∈ ["➡️", "▶", "➡"])) ∧
    (∀ msg messageId sessions, 1 < helpMaxPages registry →
      (onHelpSent registry msg messageId true sessions).1 =
        Function.update sessions messageId (some ⟨0, helpMaxPages registry, msg.author.id⟩)) ∧
    (∀ botId c (e : Events.MessageReact) sessions id,
      (onMessageReact cfg h registry botId c e sessions).1 id ≠ sessions id →
      ∃ session arrow, sessions id = some session ∧ e.id = id ∧
        e.userId = session.userId ∧ e.userId ≠ botId ∧
        arrow? e.emojiId = some arrow ∧
        (onMessageReact cfg h registry botId c e sessions).1 id = some (session.turn arrow)) ∧
    PagesPartition registry ∧
    ∀ msg, helpCommand cfg h registry msg =
      [.send msg.channelId (pageEmbed cfg h registry msg ⟨0, helpMaxPages registry, msg.author.id⟩)] := by
  refine ⟨fun turns sessions hrun => ⟨fun id session hid => ?_, ?_, ?_⟩,
    fun emojiId => ⟨arrow?_left emojiId, arrow?_right emojiId⟩, fun msg messageId sessions hmore => ?_, ?_,
    pages_partition hne hnames, fun msg => ?_⟩
  · have hvalid := run_valid hrun id session hid
    exact ⟨hvalid.nonneg, hvalid.below, hvalid.pages⟩
  · intro e session arrow botId c hsession hbot huser harrow
    have hvalid := run_valid hrun e.id session hsession
    rw [← hvalid.turn_eq]
    exact ⟨_, onMessageReact_turns hsession hbot huser harrow c, rfl⟩
  · intro e e' session arrow botId c c' hsession hbot hid huser huser' harrow harrow'
    exact turned_back (run_valid hrun) hsession hbot hid huser huser' harrow harrow' c c'
  · rw [onHelpSent, if_pos (by simpa using hmore)]
  · intro botId c e sessions id hchanged
    rcases onMessageReact_cases cfg h registry botId c e sessions with
      hsame | ⟨session, arrow, hsession, hbot, huser, harrow, hturned⟩
    · exact absurd (congrFun hsame id) hchanged
    · rw [hturned] at hchanged ⊢
      by_cases heq : id = e.id
      · subst heq
        exact ⟨session, arrow, hsession, rfl, huser, hbot, harrow, Function.update_self _ _ _⟩
      · exact absurd (Function.update_of_ne heq _ _) hchanged
  · rw [helpCommand, helpEmbed_eq]

def helpRegistry : List DescribedCommand :=
  [{ name := bytes "help" }, { name := bytes "ban" }, { name := bytes "kick" }, { name := bytes "ping" }]

def helpAsked : Events.Message := { author := { id := "u" }, channelId := "c" }

/-- The author turns to the second page, where the last of the four names stands, and back. -/
theorem four_commands_turned : ∃ sessions,
    runFrom (helpStep {} {} helpRegistry) (fun _ => none) [.sent helpAsked "h" true] = some sessions ∧
    sessions "h" = some ⟨0, 2, "u"⟩ ∧
    (∃ embed : HelpEmbed, onMessageReact {} {} helpRegistry "bot" {} ⟨"h", "c", "u", "➡"⟩ sessions =
      (Function.update sessions "h" (some ⟨1, 2, "u"⟩),
        [.edit "c" "h" (bytes " ") embed, .unreact "c" "h" "➡" "u"]) ∧
      embed.description =
        bytes "here is a list of all registered commands:\n\n• **!ping**\n  *syntax:* `!ping`\n\n") ∧
    (onMessageReact {} {} helpRegistry "bot" {} ⟨"h", "c", "u", "◀"⟩
      (onMessageReact {} {} helpRegistry "bot" {} ⟨"h", "c", "u", "➡"⟩ sessions).1).1 = sessions ∧
    PagesPartition helpRegistry := by
  obtain ⟨hruns, -, -, -, hpages, -⟩ := help_pages {} {} helpRegistry (by decide) (by decide)
  obtain ⟨-, hturned, hback⟩ := hruns [.sent helpAsked "h" true] _ rfl
  obtain ⟨embed, haction, hdescription⟩ :=
    hturned ⟨"h", "c", "u", "➡"⟩ ⟨0, 2, "u"⟩ .right "bot" {} rfl (by decide) rfl rfl
  refine ⟨_, rfl, rfl, ⟨embed, haction, hdescription.trans ?_⟩, ?_, hpages⟩
  · decide +kernel
  · exact hback _ _ ⟨0, 2, "u"⟩ .right "bot" {} {} rfl (by decide) rfl rfl rfl rfl rfl

end Stoatpp.Cluster
