import Stoatpp.Cluster.Dispatcher
import Stoatpp.Cluster.HelpPages

/-!
# The paginator

`send` shows the first page and, once the message is there, registers a listener for reactions,
which outlives the message. Each `send` registers one more, and a reaction on the message of the
last one is handled by all of them.
-/

namespace Stoatpp.Cluster
open Stoatpp.Library

/-- `utils::paginator` while it is alive; a page is what `to_json` makes of its embed. -/
structure Paginator where
  pages : List Json := []
  channelId : String := ""
  messageId : String := ""
  ownerUserId : String := ""
  currentPage : ℤ := 0

inductive PaginatorAction where
  | send (channelId : String) (payload : MessagePayload)
  | react (channelId messageId emoji : String)
  | edit (channelId messageId : String) (payload : MessagePayload)
  | unreact (channelId messageId emojiId userId : String)

namespace Paginator

/-- `pages_[i]`, which must be one of the pages. -/
def payload (p : Paginator) (i : ℤ) : MessagePayload where
  content := " "
  embeds := if i < 0 then [] else (p.pages[i.toNat]?).toList

def addPage (page : Json) (p : Paginator) : Paginator := { p with pages := p.pages ++ [page] }

def send (channelId ownerUserId : String) (p : Paginator) : Paginator × List PaginatorAction :=
  if p.pages = [] then (p, [])
  else
    ({ p with channelId := channelId, ownerUserId := ownerUserId, currentPage := 0 },
      [.send channelId (p.payload 0)])

/-- The callback of `send_message`, and whether it registers the listener. -/
def onSent (messageId : String) (success : Bool) (p : Paginator) :
    Paginator × List PaginatorAction × Bool :=
  if success then
    ({ p with messageId := messageId },
      if 1 < p.pages.length then [.react p.channelId messageId "⬅", .react p.channelId messageId "➡"] else [],
      1 < p.pages.length)
  else (p, [], false)

/-- The page an arrow leads to; the number of pages is converted to `int`. -/
def turned (count : ℕ) (page : ℤ) : Arrow → ℤ
  | .left => if page > 0 then page - 1 else int32 (count - 1)
  | .right => if page < int32 count - 1 then page + 1 else 0

def onReact (botId : String) (e : Events.MessageReact) (p : Paginator) :
    Paginator × List PaginatorAction :=
  let unreact := PaginatorAction.unreact e.channelId e.id e.emojiId e.userId
  if e.id ≠ p.messageId then (p, [])
  else if e.userId = botId then (p, [])
  else if p.ownerUserId ≠ "" ∧ e.userId ≠ p.ownerUserId then (p, [unreact])
  else
    match arrow? e.emojiId with
    | some arrow =>
      let page := turned p.pages.length p.currentPage arrow
      ({ p with currentPage := page }, [.edit e.channelId e.id (p.payload page), unreact])
    | none => (p, [unreact])

/-- `for (auto& h : handlers) h(e);`, over the listeners that are left. -/
def reactAll (botId : String) (e : Events.MessageReact) :
    ℕ → Paginator → Paginator × List PaginatorAction
  | 0, p => (p, [])
  | n + 1, p =>
    let first := p.onReact botId e
    let others := reactAll botId e n first.1
    (others.1, first.2 ++ others.2)

end Paginator

/-- The paginator, the messages that are being sent and the listeners that are registered. -/
structure Paging where
  paginator : Paginator := {}
  sending : ℕ := 0
  listeners : ℕ := 0

inductive PagingTurn where
  | addPage (page : Json)
  | send (channelId ownerUserId : String)
  | sent (messageId : String) (success : Bool)
  | reaction (botId : String) (e : Events.MessageReact)

section
variable (shouldIgnoreUser : String → Bool)

def Paging.react (botId : String) (e : Events.MessageReact) (s : Paging) :
    Paginator × List PaginatorAction :=
  if ignored shouldIgnoreUser (.messageReact e) then (s.paginator, [])
  else s.paginator.reactAll botId e s.listeners

def pagingTurn (s : Paging) : PagingTurn → Option Paging
  | .addPage page => some { s with paginator := s.paginator.addPage page }
  | .send channelId ownerUserId =>
    some { s with
      paginator := (s.paginator.send channelId ownerUserId).1
      sending := s.sending + if s.paginator.pages = [] then 0 else 1 }
  | .sent messageId success =>
    if 0 < s.sending then
      some {
        paginator := (s.paginator.onSent messageId success).1
        sending := s.sending - 1
        listeners := s.listeners + (s.paginator.onSent messageId success).2.2.toNat }
    else none
  | .reaction botId e => some { s with paginator := (s.react shouldIgnoreUser botId e).1 }

end

/-! ## One listener -/

/-- The checks of the listener let the reaction through, and its emoji is an arrow. -/
structure Paginator.Accepts (p : Paginator) (botId : String) (e : Events.MessageReact) (arrow : Arrow) :
    Prop where
  message : e.id = p.messageId
  user : e.userId ≠ botId
  owner : p.ownerUserId = "" ∨ e.userId = p.ownerUserId
  emoji : arrow? e.emojiId = some arrow

namespace Paginator
variable {p : Paginator} {botId : String} {e : Events.MessageReact} {arrow : Arrow} {count : ℕ}

theorem onReact_accepts (h : p.Accepts botId e arrow) :
    (p.onReact botId e).1 = { p with currentPage := turned p.pages.length p.currentPage arrow } := by
  have howner : ¬ (p.ownerUserId ≠ "" ∧ e.userId ≠ p.ownerUserId) := by
    rw [not_and_or, not_not, not_not]
    exact h.owner
  simp only [onReact]
  rw [if_neg (not_not.mpr h.message), if_neg h.user, if_neg howner, h.emoji]

theorem onReact_rejects (h : ∀ arrow, ¬ p.Accepts botId e arrow) : (p.onReact botId e).1 = p := by
  simp only [onReact]
  split_ifs with hmessage huser howner
  · rfl
  · rfl
  · rfl
  · cases harrow : arrow? e.emojiId with
    | none => rfl
    | some arrow =>
      rw [not_and_or, not_not, not_not] at howner
      exact absurd ⟨not_not.mp hmessage, huser, howner, harrow⟩ (h arrow)

theorem reactAll_accepts (h : p.Accepts botId e arrow) (n : ℕ) : (p.reactAll botId e n).1 =
    { p with currentPage := (fun page => turned p.pages.length page arrow)^[n] p.currentPage } := by
  induction n generalizing p with
  | zero => rfl
  | succ n ih =>
    have hfirst := onReact_accepts h
    have hagain : (p.onReact botId e).1.Accepts botId e arrow := by
      rw [hfirst]
      exact ⟨h.message, h.user, h.owner, h.emoji⟩
    rw [reactAll, ih hagain, hfirst, Function.iterate_succ_apply]

theorem reactAll_rejects (h : ∀ arrow, ¬ p.Accepts botId e arrow) (n : ℕ) :
    (p.reactAll botId e n).1 = p := by
  induction n with
  | zero => rfl
  | succ n ih => rw [reactAll, onReact_rejects h, ih]

theorem turned_left (hcount : count < 2 ^ 31) : (fun page => turned count page .left) = previousPage count := by
  have hconvert : int32 (count - 1) = count - 1 := int32_of_range (by omega) (by omega)
  funext page
  rw [turned, hconvert, previousPage]

theorem turned_right (hcount : count < 2 ^ 31) : (fun page => turned count page .right) = nextPage count := by
  have hconvert : int32 count = count := int32_of_range (by omega) (by omega)
  funext page
  rw [turned, hconvert, nextPage]

end Paginator

def Arrow.sign : Arrow → ℤ
  | .left => -1
  | .right => 1

theorem iterate_turned {count : ℕ} {page : ℤ} (hcount : count < 2 ^ 31) (h : 0 ≤ page) (h' : page < count)
    (arrow : Arrow) (n : ℕ) :
    (fun page => Paginator.turned count page arrow)^[n] page = (page + arrow.sign * n) % count := by
  cases arrow with
  | left => rw [Paginator.turned_left hcount, previousPage_iterate h h', Arrow.sign, neg_one_mul, sub_eq_add_neg]
  | right => rw [Paginator.turned_right hcount, nextPage_iterate h h', Arrow.sign, one_mul]

/-! ## Runs -/

variable {shouldIgnoreUser : String → Bool} {s s' : Paging} {turn : PagingTurn}

/-- The page shown is one of the pages, and there were several when a listener was registered. -/
structure Paging.Valid (s : Paging) : Prop where
  nonneg : 0 ≤ s.paginator.currentPage
  below : s.paginator.currentPage < max 1 s.paginator.pages.length
  several : 0 < s.listeners → 1 < s.paginator.pages.length

theorem react_cases (shouldIgnoreUser : String → Bool) (s : Paging) (botId : String) (e : Events.MessageReact) :
    (s.react shouldIgnoreUser botId e).1 = s.paginator ∨
    ∃ arrow, s.paginator.Accepts botId e arrow ∧ (s.react shouldIgnoreUser botId e).1 = { s.paginator with
      currentPage := (fun page => Paginator.turned s.paginator.pages.length page arrow)^[s.listeners]
        s.paginator.currentPage } := by
  unfold Paging.react
  split_ifs with hignored
  · exact Or.inl rfl
  · by_cases haccepts : ∃ arrow, s.paginator.Accepts botId e arrow
    · obtain ⟨arrow, harrow⟩ := haccepts
      exact Or.inr ⟨arrow, harrow, Paginator.reactAll_accepts harrow s.listeners⟩
    · exact Or.inl (Paginator.reactAll_rejects (not_exists.mp haccepts) s.listeners)

theorem pagingTurn_pages (hs : pagingTurn shouldIgnoreUser s turn = some s') :
    s.paginator.pages.length ≤ s'.paginator.pages.length := by
  cases turn with
  | addPage page =>
    obtain rfl := Option.some.inj hs
    simp only [Paginator.addPage, List.length_append]
    omega
  | send channelId ownerUserId =>
    obtain rfl := Option.some.inj hs
    simp only [Paginator.send]
    split_ifs <;> exact le_refl _
  | sent messageId success =>
    simp only [pagingTurn] at hs
    split_ifs at hs
    obtain rfl := Option.some.inj hs
    simp only [Paginator.onSent]
    split_ifs <;> exact le_refl _
  | reaction botId e =>
    obtain rfl := Option.some.inj hs
    rcases react_cases shouldIgnoreUser s botId e with hsame | ⟨arrow, -, hturned⟩
    · exact (congrArg (·.pages.length) hsame).ge
    · exact (congrArg (·.pages.length) hturned).ge

theorem pagingTurn_valid (hv : s.Valid) (hcount : s.paginator.pages.length < 2 ^ 31)
    (hs : pagingTurn shouldIgnoreUser s turn = some s') : s'.Valid := by
  obtain ⟨hnonneg, hbelow, hseveral⟩ := hv
  cases turn with
  | addPage page =>
    obtain rfl := Option.some.inj hs
    have hlength : (s.paginator.addPage page).pages.length = s.paginator.pages.length + 1 := List.length_append
    refine ⟨hnonneg, ?_, fun hlisteners => ?_⟩
    · change s.paginator.currentPage < _
      simp only [hlength]
      omega
    · have := hseveral hlisteners
      simp only [hlength]
      omega
  | send channelId ownerUserId =>
    obtain rfl := Option.some.inj hs
    simp only [Paginator.send]
    split_ifs
    · exact ⟨hnonneg, hbelow, hseveral⟩
    · exact ⟨le_refl _, by simp only; omega, hseveral⟩
  | sent messageId success =>
    simp only [pagingTurn] at hs
    split_ifs at hs
    obtain rfl := Option.some.inj hs
    cases success with
    | false => exact ⟨hnonneg, hbelow, hseveral⟩
    | true =>
      refine ⟨hnonneg, hbelow, fun hlisteners => ?_⟩
      by_cases hlong : 1 < s.paginator.pages.length
      · exact hlong
      · simp only [Paginator.onSent, if_true, hlong, decide_false, Bool.toNat_false] at hlisteners
        exact hseveral hlisteners
  | reaction botId e =>
    obtain rfl := Option.some.inj hs
    rcases react_cases shouldIgnoreUser s botId e with hsame | ⟨arrow, -, hturned⟩
    · simp only [hsame]
      exact ⟨hnonneg, hbelow, hseveral⟩
    · by_cases hlisteners : 0 < s.listeners
      · have hlong := hseveral hlisteners
        have hpage := iterate_turned hcount hnonneg (by omega) arrow s.listeners
        have hpos : (s.paginator.pages.length : ℤ) ≠ 0 := by omega
        have hlow := Int.emod_nonneg (s.paginator.currentPage + arrow.sign * s.listeners) hpos
        have hhigh := Int.emod_lt_of_pos (s.paginator.currentPage + arrow.sign * s.listeners)
          (by omega : 0 < (s.paginator.pages.length : ℤ))
        simp only [hturned, hpage]
        exact ⟨hlow, by simp only; omega, hseveral⟩
      · obtain hnone : s.listeners = 0 := by omega
        simp only [hturned, hnone, Function.iterate_zero, id]
        exact ⟨hnonneg, hbelow, fun hl => absurd (hnone ▸ hl) (Nat.lt_irrefl 0)⟩

theorem run_pages {turns : List PagingTurn} (hrun : runFrom (pagingTurn shouldIgnoreUser) {} turns = some s)
    (hcount : s.paginator.pages.length < 2 ^ 31) : s.Valid := by
  have hstep (s : Paging) (turn : PagingTurn) (s' : Paging)
      (hv : s.paginator.pages.length < 2 ^ 31 → s.Valid) (_ : True)
      (hs : pagingTurn shouldIgnoreUser s turn = some s') (hcount : s'.paginator.pages.length < 2 ^ 31) :
      s'.Valid := by
    have hbefore := Nat.lt_of_le_of_lt (pagingTurn_pages hs) hcount
    exact pagingTurn_valid (hv hbefore) hbefore hs
  have hstart : ({} : Paging).Valid := ⟨le_refl _, by decide, fun hl => absurd hl (Nat.lt_irrefl 0)⟩
  exact run_invariant hstep (fun _ => hstart) (along_of_forall fun _ _ => trivial) hrun hcount

/-- One step forwards or backwards, modulo the number of pages. -/
def OneStep (count : ℕ) (page page' : ℤ) : Prop :=
  (count : ℤ) ∣ page' - (page + 1) ∨ (count : ℤ) ∣ page' - (page - 1)

theorem oneStep_iff (count : ℕ) (page : ℤ) (arrow : Arrow) (n : ℕ) :
    OneStep count page ((page + arrow.sign * n) % count) ↔ (count : ℤ) ∣ n - 1 ∨ (count : ℤ) ∣ n + 1 := by
  have hmod (x : ℤ) : (count : ℤ) ∣ (page + arrow.sign * n) % count - x ↔
      (count : ℤ) ∣ page + arrow.sign * n - x := by
    rw [Int.dvd_iff_emod_eq_zero, Int.dvd_iff_emod_eq_zero, Int.emod_sub_emod]
  rw [OneStep, hmod, hmod]
  cases arrow with
  | right =>
    have hnext : page + Arrow.right.sign * n - (page + 1) = n - 1 := by simp only [Arrow.sign]; omega
    have hprevious : page + Arrow.right.sign * n - (page - 1) = n + 1 := by simp only [Arrow.sign]; omega
    rw [hnext, hprevious]
  | left =>
    have hnext : page + Arrow.left.sign * n - (page + 1) = -(n + 1) := by simp only [Arrow.sign]; omega
    have hprevious : page + Arrow.left.sign * n - (page - 1) = -(n - 1) := by simp only [Arrow.sign]; omega
    rw [hnext, hprevious, Int.dvd_neg, Int.dvd_neg]
    exact or_comm

/-- A reaction that is heard by some listener, accepted, and on an arrow. -/
structure Paging.Accepted (shouldIgnoreUser : String → Bool) (s : Paging) (botId : String)
    (e : Events.MessageReact) (arrow : Arrow) : Prop where
  heard : ignored shouldIgnoreUser (.messageReact e) = false
  accepts : s.paginator.Accepts botId e arrow
  listened : 0 < s.listeners

/-- The page shown is always one of the pages, and an accepted arrow turns as many pages as there are
listeners, which is one step exactly if that number is one up or down modulo the number of pages. -/
theorem pages_turned (shouldIgnoreUser : String → Bool) (turns : List PagingTurn) (s : Paging)
    (hrun : runFrom (pagingTurn shouldIgnoreUser) {} turns = some s)
    (hcount : s.paginator.pages.length < 2 ^ 31) :
    (s.paginator.pages ≠ [] → 0 ≤ s.paginator.currentPage ∧
      s.paginator.currentPage < s.paginator.pages.length) ∧
    ∀ botId e arrow, s.Accepted shouldIgnoreUser botId e arrow →
      let count := s.paginator.pages.length
      let page := (s.react shouldIgnoreUser botId e).1.currentPage
      page = (s.paginator.currentPage + arrow.sign * s.listeners) % count ∧
        (OneStep count s.paginator.currentPage page ↔
          (count : ℤ) ∣ s.listeners - 1 ∨ (count : ℤ) ∣ s.listeners + 1) := by
  have hv := run_pages hrun hcount
  constructor
  · intro hpages
    have hpos := List.length_pos_of_ne_nil hpages
    have hbelow := hv.below
    exact ⟨hv.nonneg, by omega⟩
  · intro botId e arrow haccepted
    have hlong := hv.several haccepted.listened
    have hbelow := hv.below
    have hpage : (s.react shouldIgnoreUser botId e).1.currentPage =
        (s.paginator.currentPage + arrow.sign * s.listeners) % s.paginator.pages.length := by
      rw [Paging.react, haccepted.heard, if_neg Bool.false_ne_true,
        Paginator.reactAll_accepts haccepted.accepts]
      exact iterate_turned hcount hv.nonneg (by omega) arrow s.listeners
    exact ⟨hpage, by rw [hpage]; exact oneStep_iff _ _ arrow _⟩

def fourPages : List PagingTurn := [.addPage .null, .addPage .null, .addPage .null, .addPage .null]

def rightArrow : Events.MessageReact := ⟨"m", "c", "u", "▶"⟩

theorem one_send_turns : ∃ s, runFrom (pagingTurn fun _ => false) {}
      (fourPages ++ [.send "c" "", .sent "m" true]) = some s ∧
    OneStep 4 0 (s.react (fun _ => false) "bot" rightArrow).1.currentPage := by
  refine ⟨_, rfl, ?_⟩
  refine ((pages_turned _ (fourPages ++ [.send "c" "", .sent "m" true]) _ rfl (by decide)).2 "bot" rightArrow
    .right ?_).2.mpr (Or.inl (by decide))
  exact ⟨rfl, ⟨rfl, by decide, Or.inl rfl, by decide⟩, by decide⟩

/-- Two sends, and an arrow on the message of the second. -/
theorem second_send_skips : ∃ s, runFrom (pagingTurn fun _ => false) {}
      (fourPages ++ [.send "c" "", .sent "l" true, .send "c" "", .sent "m" true]) = some s ∧
    s.Accepted (fun _ => false) "bot" rightArrow .right ∧ s.paginator.currentPage = 0 ∧
    (s.react (fun _ => false) "bot" rightArrow).1.currentPage = 2 ∧ ¬ OneStep 4 0 2 := by
  refine ⟨_, rfl, ⟨rfl, ⟨rfl, by decide, Or.inl rfl, by decide⟩, by decide⟩, rfl, ?_, ?_⟩
  · decide
  · rintro (h | h)
    · exact absurd h (by decide)
    · exact absurd h (by decide)

end Stoatpp.Cluster
