import Stoatpp.Cluster.CommandGate
import Stoatpp.Library.Runs

/-!
# Cooldowns

The check under `cooldowns_mutex_` reads and sets one entry of the table. Every call of a
command is noted with the instant of its check and what it was told, so the entry is the last
admission noted, and the rest are facts about one note and those before it.
-/

namespace Stoatpp.Cluster
open Stoatpp.Library

/-! ## What a call is told -/

def rejection (t : List CommandEvent) : Option ℤ :=
  t.findSome? fun
    | .rejected remaining => some remaining
    | _ => none

def CommandEvent.isRejected : CommandEvent → Bool
  | .rejected _ => true
  | _ => false

def Unrejected {α : Type} (x : Dispatch α) : Prop := ∀ e ∈ x.trace, e.isRejected = false

variable {cfg : CommandConfig} {h : CommandHandlers} {registry : List Command} {env : Surroundings}
  {msg : Events.Message} {cmd : Command} {args : List Bytes}

theorem Unrejected.rejection {x : Dispatch Unit} (hx : Unrejected x) : rejection x.trace = none := by
  refine List.findSome?_eq_none_iff.mpr fun e he => ?_
  cases e with
  | rejected remaining => exact Bool.noConfusion (hx _ he)
  | _ => rfl

theorem unrejected_ret {α : Type} (a : α) : Unrejected (.ret a) := List.forall_mem_nil _

theorem Unrejected.andThen {α β : Type} {x : Dispatch α} {f : α → Dispatch β} (hx : Unrejected x)
    (hf : ∀ a, Unrejected (f a)) : Unrejected (x.andThen f) := by
  intro e he
  rcases Outcome.mem_andThen.mp he with he | ⟨a, -, he⟩
  · exact hx e he
  · exact hf a e he

theorem reportError_unrejected (kind : String) : Unrejected (reportError h kind) := by
  intro e he
  have hmem : h.errorHandler = true ∧ e = .error kind := by simpa [reportError] using he
  rw [hmem.2]
  rfl

theorem invoke_unrejected : Unrejected (invoke cmd msg args) := by
  rw [Unrejected, invoke_trace]
  simp [CommandEvent.isRejected]

theorem askRunHandler_unrejected (mem : Option Member) : Unrejected (askRunHandler h cmd msg args mem) := by
  unfold askRunHandler
  cases h.runHandler with
  | none => exact unrejected_ret _
  | some run =>
    refine Unrejected.andThen ?_ fun _ => ?_
    · simp [Unrejected, CommandEvent.isRejected]
    · cases run msg cmd mem args <;> exact unrejected_ret _

theorem onMember_unrejected (later : Caches) (mem : Member) (success : Bool) :
    Unrejected (onMember h cmd msg args later mem success) := by
  unfold onMember
  split_ifs
  · exact reportError_unrejected _
  · refine Unrejected.andThen (askRunHandler_unrejected _) fun ask => ?_
    cases ask with
    | none => exact unrejected_ret _
    | some bypassPermissions =>
      simp only
      split_ifs
      · cases later.getServer msg.serverId with
        | none => exact reportError_unrejected _
        | some server =>
          simp only
          split_ifs
          · exact invoke_unrejected
          · exact reportError_unrejected _
      · exact invoke_unrejected

theorem fetchMember_unrejected (reply : Option Json) {continuation : Member → Bool → Dispatch Unit}
    (hc : ∀ mem success, Unrejected (continuation mem success)) :
    Unrejected (fetchMember reply continuation) := by
  intro e he
  unfold fetchMember at he
  rcases Outcome.mem_orElse.mp he with he | ⟨_, -, he⟩
  · cases reply with
    | none => exact hc _ _ e he
    | some body => exact hc _ _ e he
  · exact hc _ _ e he

theorem runDirect_unrejected : Unrejected (runDirect h cmd msg args) := by
  refine Unrejected.andThen (askRunHandler_unrejected _) fun ask => ?_
  cases ask with
  | none => exact unrejected_ret _
  | some bypassPermissions =>
    simp only
    split_ifs
    · exact reportError_unrejected _
    · exact invoke_unrejected

theorem runCommand_unrejected : Unrejected (runCommand h cmd msg args env) := by
  unfold runCommand
  split_ifs
  · refine Unrejected.andThen ?_ fun _ => fetchMember_unrejected _ fun _ _ => onMember_unrejected _ _ _
    simp [Unrejected, CommandEvent.isRejected]
  · exact runDirect_unrejected

theorem rejectCommand_rejection (remaining : ℤ) :
    rejection (rejectCommand h cmd msg remaining).trace = some remaining := by
  unfold rejectCommand
  simp [Outcome.andThen, Outcome.emit, rejection]

/-! ## One call -/

/-- The command a message calls, and for whom. -/
def calledBy (cfg : CommandConfig) (h : CommandHandlers) (registry : List Command) (c : Store)
    (msg : Events.Message) : Option (Command × String) :=
  (parseCommand cfg h (prepare h c msg)).bind fun x =>
    (findCommand cfg.caseInsensitiveCommands registry x.2.1).map fun cmd => (cmd, (prepare h c msg).author.id)

/-- What a call is told at `now` if its entry in the table is `last`. -/
def secondsLeft (cmd : Command) (now : ℤ) (last : Option ℤ) : Option ℤ :=
  if cmd.cooldownSeconds ≤ 0 then none
  else last.bind fun last =>
    let elapsed := (now - last).tdiv 1000000000
    if elapsed < cmd.cooldownSeconds then some (cmd.cooldownSeconds - elapsed) else none

/-- The table after a call that is told `remaining`. -/
def Cooldowns.after (table : Cooldowns) (cmd : Command) (author : String) (now : ℤ) (remaining : Option ℤ) :
    Cooldowns :=
  if remaining = none ∧ 0 < cmd.cooldownSeconds then
    fun name user => if name = cmd.name ∧ user = author then some now else table name user
  else table

theorem checkCooldown_eq (table : Cooldowns) (cmd : Command) (author : String) (now : ℤ) :
    checkCooldown table cmd author now =
      match secondsLeft cmd now (table cmd.name author) with
      | some remaining => .inl remaining
      | none => .inr (table.after cmd author now none) := by
  by_cases hoff : cmd.cooldownSeconds ≤ 0
  · have hnot : ¬ 0 < cmd.cooldownSeconds := by omega
    rw [checkCooldown, if_pos hoff, secondsLeft, if_pos hoff, Cooldowns.after, if_neg fun hon => hnot hon.2]
  · have hon : 0 < cmd.cooldownSeconds := by omega
    rw [checkCooldown, if_neg hoff, secondsLeft, if_neg hoff, Cooldowns.after, if_pos ⟨rfl, hon⟩]
    cases table cmd.name author with
    | none => rfl
    | some last =>
      simp only [Option.bind_some]
      split_ifs <;> rfl

variable {s : Shared} {author : String} {now : ℤ}

theorem dispatchCommand_called (hcall : calledBy cfg h registry s.caches.toStore msg = some (cmd, author)) :
    let r := dispatchCommand cfg h registry env msg s
    rejection r.2.trace = secondsLeft cmd env.now (s.cooldowns cmd.name author) ∧
      r.1.cooldowns = s.cooldowns.after cmd author env.now (rejection r.2.trace) := by
  obtain ⟨⟨p, token, args⟩, hparse, hcmd⟩ := Option.bind_eq_some_iff.mp hcall
  obtain ⟨cmd', hfind, heq⟩ := Option.map_eq_some_iff.mp hcmd
  obtain ⟨rfl, rfl⟩ := Prod.mk.inj heq
  simp only at hfind
  simp only [dispatchCommand, hparse, hfind, checkCooldown_eq]
  cases secondsLeft cmd' env.now (s.cooldowns cmd'.name (prepare h s.caches.toStore msg).author.id) with
  | some remaining =>
    simp only [rejectCommand_rejection, Cooldowns.after]
    simp
  | none =>
    simp only [runCommand_unrejected.rejection]
    simp

theorem dispatchCommand_uncalled (hcall : calledBy cfg h registry s.caches.toStore msg = none) :
    (dispatchCommand cfg h registry env msg s).1.cooldowns = s.cooldowns := by
  cases hparse : parseCommand cfg h (prepare h s.caches.toStore msg) with
  | none => simp only [dispatchCommand, hparse]
  | some x =>
    obtain ⟨p, token, args⟩ := x
    have hfind : findCommand cfg.caseInsensitiveCommands registry token = none := by
      simpa [calledBy, hparse] using hcall
    simp only [dispatchCommand, hparse, hfind]
    split_ifs
    · split <;> rfl
    · rfl

/-! ## Any order of calls -/

/-- A call of a command: the instant of its check and the seconds it is told to wait, if any. -/
structure Note where
  cmd : Command
  author : String
  now : ℤ
  remaining : Option ℤ

structure Timed where
  cooldowns : Cooldowns := fun _ _ => none
  clock : ℤ
  notes : List Note := []

/-- A call of `dispatch_command` with the caches as it finds them. -/
structure TimedCall where
  env : Surroundings
  caches : Caches
  msg : Events.Message

/-- The calls in the order of their checks, at a clock that does not go back. -/
def timedStep (cfg : CommandConfig) (h : CommandHandlers) (registry : List Command) (d : Timed) (t : TimedCall) :
    Option Timed :=
  if t.env.now < d.clock then none
  else
    let r := dispatchCommand cfg h registry t.env t.msg { caches := t.caches, cooldowns := d.cooldowns }
    some {
      cooldowns := r.1.cooldowns
      clock := t.env.now
      notes := match calledBy cfg h registry t.caches.toStore t.msg with
        | some (cmd, author) => d.notes ++ [⟨cmd, author, t.env.now, rejection r.2.trace⟩]
        | none => d.notes }

def Note.Sets (n : Note) (name : Bytes) (author : String) : Prop :=
  n.cmd.name = name ∧ n.author = author ∧ n.remaining = none ∧ 0 < n.cmd.cooldownSeconds

instance (n : Note) (name : Bytes) (author : String) : Decidable (n.Sets name author) :=
  inferInstanceAs (Decidable (_ ∧ _ ∧ _ ∧ _))

def lastAdmission (name : Bytes) (author : String) (notes : List Note) : Option ℤ :=
  (notes.reverse.find? (·.Sets name author)).map (·.now)

section
variable {name : Bytes} {notes notes' : List Note} {n m : Note} {last : ℤ}

theorem lastAdmission_append : lastAdmission name author (notes ++ notes') =
    (lastAdmission name author notes' <|> lastAdmission name author notes) := by
  rw [lastAdmission, List.reverse_append, List.find?_append]
  cases hfind : notes'.reverse.find? (·.Sets name author) <;> simp [lastAdmission, hfind]

theorem lastAdmission_concat : lastAdmission name author (notes ++ [n]) =
    if n.Sets name author then some n.now else lastAdmission name author notes := by
  rw [lastAdmission_append]
  split_ifs with hn <;> simp [lastAdmission, hn]

theorem lastAdmission_none (h : ∀ k ∈ notes, ¬ k.Sets name author) : lastAdmission name author notes = none := by
  rw [lastAdmission, Option.map_eq_none_iff, List.find?_eq_none]
  intro k hk
  simpa using h k (List.mem_reverse.mp hk)

theorem lastAdmission_mem (h : lastAdmission name author notes = some last) :
    ∃ k ∈ notes, k.now = last := by
  obtain ⟨k, hk, hlast⟩ := Option.map_eq_some_iff.mp h
  exact ⟨k, List.mem_reverse.mp (List.mem_of_find?_eq_some hk), hlast⟩

end

/-- The table holds the last admissions noted, and each note is what the one before it leads to. -/
structure Booked (registry : List Command) (d : Timed) : Prop where
  entries : ∀ name author, d.cooldowns name author = lastAdmission name author d.notes
  answers : EachAfter (fun before n =>
    n.remaining = secondsLeft n.cmd n.now (lastAdmission n.cmd.name n.author before)) d.notes
  ordered : EachAfter (fun before n => ∀ m ∈ before, m.now ≤ n.now) d.notes
  past : ∀ n ∈ d.notes, n.now ≤ d.clock
  known : ∀ n ∈ d.notes, n.cmd ∈ registry

theorem calledBy_mem {c : Store} (hcall : calledBy cfg h registry c msg = some (cmd, author)) : cmd ∈ registry := by
  obtain ⟨x, -, hcmd⟩ := Option.bind_eq_some_iff.mp hcall
  obtain ⟨cmd', hfind, heq⟩ := Option.map_eq_some_iff.mp hcmd
  obtain ⟨rfl, -⟩ := Prod.mk.inj heq
  rw [findCommand, Option.orElse_eq_some] at hfind
  rcases hfind with hfind | ⟨-, hfind⟩
  · exact List.mem_of_find?_eq_some hfind
  · exact List.mem_of_find?_eq_some hfind

theorem Booked.note {d : Timed} (hd : Booked registry d) (hnow : d.clock ≤ now) (hcmd : cmd ∈ registry)
    {remaining : Option ℤ} (htold : remaining = secondsLeft cmd now (d.cooldowns cmd.name author)) :
    Booked registry {
      cooldowns := d.cooldowns.after cmd author now remaining
      clock := now
      notes := d.notes ++ [⟨cmd, author, now, remaining⟩] } := by
  have hbefore : ∀ n ∈ d.notes, n.now ≤ now := fun n hn => (hd.past n hn).trans hnow
  refine ⟨fun name user => ?_, eachAfter_concat.mpr ⟨hd.answers, ?_⟩,
    eachAfter_concat.mpr ⟨hd.ordered, hbefore⟩, ?_, ?_⟩
  · rw [lastAdmission_concat, ← hd.entries, Cooldowns.after]
    by_cases hset : remaining = none ∧ 0 < cmd.cooldownSeconds
    · rw [if_pos hset]
      simp only [Note.Sets, hset.1, hset.2, and_true, eq_comm]
    · rw [if_neg hset, if_neg fun hsets => hset hsets.2.2]
  · rw [htold, hd.entries]
  · exact List.forall_mem_append.mpr ⟨hbefore, List.forall_mem_singleton.mpr (le_refl now)⟩
  · exact List.forall_mem_append.mpr ⟨hd.known, List.forall_mem_singleton.mpr hcmd⟩

theorem timedStep_booked {d d' : Timed} {t : TimedCall} (hd : Booked registry d)
    (hstep : timedStep cfg h registry d t = some d') : Booked registry d' := by
  unfold timedStep at hstep
  split_ifs at hstep with hclock
  obtain rfl := Option.some.inj hstep
  have hnow : d.clock ≤ t.env.now := not_lt.mp hclock
  cases hcall : calledBy cfg h registry t.caches.toStore t.msg with
  | some call =>
    obtain ⟨cmd, author⟩ := call
    obtain ⟨htold, htable⟩ := @dispatchCommand_called cfg h registry t.env t.msg cmd
      { caches := t.caches, cooldowns := d.cooldowns } author hcall
    simp only [htable]
    exact hd.note hnow (calledBy_mem hcall) htold
  | none =>
    have htable := @dispatchCommand_uncalled cfg h registry t.env t.msg
      { caches := t.caches, cooldowns := d.cooldowns } hcall
    simp only [htable]
    exact { hd with past := fun n hn => (hd.past n hn).trans hnow }

theorem run_booked {d : Timed} {clock : ℤ} {turns : List TimedCall}
    (hrun : runFrom (timedStep cfg h registry) { clock := clock } turns = some d) : Booked registry d := by
  have hstart : Booked registry { clock := clock } :=
    ⟨fun _ _ => rfl, eachAfter_nil _, eachAfter_nil _, List.forall_mem_nil _, List.forall_mem_nil _⟩
  exact run_invariant (fun _ _ _ hd _ hstep => timedStep_booked hd hstep) hstart
    (along_of_forall fun _ _ => trivial) hrun

/-! ## What the notes say -/

theorem secondsLeft_none_iff (hpos : 0 < cmd.cooldownSeconds) {last : ℤ} (hlast : last ≤ now) :
    secondsLeft cmd now (some last) = none ↔ last + cmd.cooldownSeconds * 1000000000 ≤ now := by
  have hoff : ¬ cmd.cooldownSeconds ≤ 0 := by omega
  rw [secondsLeft, if_neg hoff, Option.bind_some, Int.tdiv_eq_ediv_of_nonneg (by omega)]
  simp only [ite_eq_right_iff, reduceCtorEq, imp_false]
  omega

theorem secondsLeft_eq_some {remaining : ℤ} {entry : Option ℤ}
    (htold : secondsLeft cmd now entry = some remaining) :
    ∃ last, entry = some last ∧ 0 < cmd.cooldownSeconds ∧
      (now - last).tdiv 1000000000 < cmd.cooldownSeconds ∧
      remaining = cmd.cooldownSeconds - (now - last).tdiv 1000000000 := by
  unfold secondsLeft at htold
  split_ifs at htold with hoff
  obtain ⟨last, rfl, helapsed⟩ := Option.bind_eq_some_iff.mp htold
  simp only at helapsed
  split_ifs at helapsed with hlt
  exact ⟨last, rfl, by omega, hlt, (Option.some.inj helapsed).symm⟩

/-- A call of the command by this author. -/
def Note.Calls (n : Note) (cmd : Command) (author : String) : Prop := n.cmd = cmd ∧ n.author = author

section
variable {d : Timed} {before between after : List Note} {n m : Note}

theorem Booked.answer (hd : Booked registry d) (hnotes : d.notes = before ++ n :: after)
    (hn : n.Calls cmd author) : n.remaining = secondsLeft cmd n.now (lastAdmission cmd.name author before) := by
  obtain ⟨rfl, rfl⟩ := hn
  exact hd.answers before n after hnotes

/-- The admission the table knows of is no older than any admission of the command noted. -/
theorem Booked.lastAdmission_ge (hd : Booked registry d)
    (hnotes : d.notes = before ++ n :: between ++ m :: after) (hn : n.Calls cmd author)
    (hadmitted : n.remaining = none) (hpos : 0 < cmd.cooldownSeconds) :
    ∃ last, lastAdmission cmd.name author (before ++ n :: between) = some last ∧
      n.now ≤ last ∧ last ≤ m.now := by
  have hordered := hd.ordered (before ++ n :: between) m after hnotes
  have hsets : n.Sets cmd.name author := by
    obtain ⟨rfl, rfl⟩ := hn
    exact ⟨rfl, rfl, hadmitted, hpos⟩
  have hsplit : before ++ n :: between = (before ++ [n]) ++ between := by simp
  rw [hsplit, lastAdmission_append, lastAdmission_concat, if_pos hsets]
  cases hlast : lastAdmission cmd.name author between with
  | none => exact ⟨n.now, rfl, le_refl _, hordered n (by simp)⟩
  | some last =>
    obtain ⟨k, hk, rfl⟩ := lastAdmission_mem hlast
    obtain ⟨xs, ys, rfl⟩ := List.append_of_mem hk
    have hk := hd.ordered (before ++ n :: xs) k (ys ++ m :: after) (by simp [hnotes])
    exact ⟨k.now, rfl, hk n (by simp), hordered k (by simp)⟩

theorem Booked.spaced (hd : Booked registry d) (hnotes : d.notes = before ++ n :: between ++ m :: after)
    (hpos : 0 < cmd.cooldownSeconds) (hn : n.Calls cmd author) (hm : m.Calls cmd author)
    (hadmitted : n.remaining = none) (hadmitted' : m.remaining = none) :
    n.now + cmd.cooldownSeconds * 1000000000 ≤ m.now := by
  obtain ⟨last, hlast, hge, hle⟩ := hd.lastAdmission_ge hnotes hn hadmitted hpos
  have htold := hd.answer hnotes hm
  rw [hlast, hadmitted'] at htold
  have hspace := (secondsLeft_none_iff hpos hle).mp htold.symm
  omega

theorem Booked.remaining_range (hd : Booked registry d) (hn : n ∈ d.notes) {remaining : ℤ}
    (hrejected : n.remaining = some remaining) : 1 ≤ remaining ∧ remaining ≤ n.cmd.cooldownSeconds := by
  obtain ⟨before, after, hnotes⟩ := List.append_of_mem hn
  have htold := hd.answer hnotes ⟨rfl, rfl⟩
  rw [hrejected] at htold
  obtain ⟨last, hlast, -, hlt, hremaining⟩ := secondsLeft_eq_some htold.symm
  obtain ⟨k, hk, rfl⟩ := lastAdmission_mem hlast
  have hle := hd.ordered before n after hnotes k hk
  have helapsed : 0 ≤ (n.now - k.now).tdiv 1000000000 := Int.tdiv_nonneg (by omega) (by decide)
  omega

theorem Booked.admitted_again (hd : Booked registry d) (hnames : (registry.map (·.name)).Nodup)
    (hnotes : d.notes = before ++ n :: between ++ m :: after) (hn : n.Calls cmd author) (hm : m.Calls cmd author)
    {remaining : ℤ} (hrejected : n.remaining = some remaining)
    (hbetween : ∀ k ∈ between, k.Calls cmd author → k.remaining ≠ none)
    (hwait : n.now + remaining * 1000000000 ≤ m.now) : m.remaining = none := by
  have hfirst : d.notes = before ++ n :: (between ++ m :: after) := by simp [hnotes]
  have htold := hd.answer hfirst hn
  rw [hrejected] at htold
  obtain ⟨last, hlast, hpos, -, hremaining⟩ := secondsLeft_eq_some htold.symm
  -- nothing noted from the rejection on sets the entry
  have hkept : lastAdmission cmd.name author (before ++ n :: between) = some last := by
    have hcmd : cmd ∈ registry := hn.1 ▸ hd.known n (by simp [hnotes])
    have hquiet : ∀ k ∈ n :: between, ¬ k.Sets cmd.name author := by
      intro k hk hsets
      have hk' : k ∈ d.notes := by
        rw [hnotes]
        exact List.mem_append_left _ (List.mem_append_right before hk)
      have hsame : k.cmd = cmd := List.inj_on_of_nodup_map hnames (hd.known k hk') hcmd hsets.1
      rcases List.mem_cons.mp hk with rfl | hk
      · exact Option.some_ne_none _ (hrejected.symm.trans hsets.2.2.1)
      · exact hbetween k hk ⟨hsame, hsets.2.1⟩ hsets.2.2.1
    rw [lastAdmission_append, lastAdmission_none hquiet, hlast]
    rfl
  obtain ⟨k, hk, rfl⟩ := lastAdmission_mem hlast
  have hn' := hd.ordered before n (between ++ m :: after) hfirst k hk
  have hm' := hd.ordered _ m after hnotes n (by simp)
  rw [hd.answer hnotes hm, hkept]
  refine (secondsLeft_none_iff hpos (by omega)).mpr ?_
  rw [Int.tdiv_eq_ediv_of_nonneg (by omega)] at hremaining
  omega

end

/-- In every order of the checks: admissions of a command for one author are as far apart as its
cooldown says, a rejection names between one second and the whole cooldown, and who waits as
long as it says is admitted, if nothing has been meanwhile. -/
theorem cooldowns_kept (cfg : CommandConfig) (h : CommandHandlers) (registry : List Command)
    (hnames : (registry.map (·.name)).Nodup) (clock : ℤ) (turns : List TimedCall) (d : Timed)
    (hrun : runFrom (timedStep cfg h registry) { clock := clock } turns = some d)
    (cmd : Command) (hpos : 0 < cmd.cooldownSeconds) (author : String) :
    (∀ (before between after : List Note) (n m : Note), d.notes = before ++ n :: between ++ m :: after →
      n.Calls cmd author → m.Calls cmd author → n.remaining = none → m.remaining = none →
      n.now + cmd.cooldownSeconds * 1000000000 ≤ m.now) ∧
    (∀ n ∈ d.notes, n.Calls cmd author → ∀ remaining, n.remaining = some remaining →
      1 ≤ remaining ∧ remaining ≤ cmd.cooldownSeconds) ∧
    (∀ (before between after : List Note) (n m : Note) (remaining : ℤ),
      d.notes = before ++ n :: between ++ m :: after →
      n.Calls cmd author → m.Calls cmd author → n.remaining = some remaining →
      (∀ k ∈ between, k.Calls cmd author → k.remaining ≠ none) →
      n.now + remaining * 1000000000 ≤ m.now → m.remaining = none) := by
  have hd := run_booked hrun
  refine ⟨?_, ?_, ?_⟩
  · intro before between after n m hnotes hn hm
    exact hd.spaced hnotes hpos hn hm
  · rintro n hmem ⟨rfl, -⟩ remaining
    exact hd.remaining_range hmem
  · intro before between after n m remaining hnotes hn hm hrejected hbetween
    exact hd.admitted_again hnames hnotes hn hm hrejected hbetween

def wave : Command where
  name := bytes "hi"
  callback := some fun _ _ => true
  cooldownSeconds := 5

def waving : Events.Message where
  author := { id := "u" }
  content := bytes "!hi"

def waveAt (now : ℤ) : TimedCall where
  env := { now := now, memberReply := none, later := {} }
  caches := {}
  msg := waving

theorem waves_spaced : ∃ d, runFrom (timedStep {} {} [wave]) { clock := 0 }
      [waveAt 0, waveAt 2500000000, waveAt 5500000000] = some d ∧
    d.notes.map (·.remaining) = [none, some 3, none] ∧
    ∀ n ∈ d.notes, n.Calls wave "u" → ∀ remaining, n.remaining = some remaining →
      1 ≤ remaining ∧ remaining ≤ 5 :=
  ⟨_, rfl, by decide, (cooldowns_kept {} {} [wave] (by decide) 0
    [waveAt 0, waveAt 2500000000, waveAt 5500000000] _ rfl wave (by decide) "u").2.1⟩

/-! ## Refused calls -/

/-- The check alone writes the table: a call it lets pass sets the author's entry for the command to
the instant of the check, whatever refuses the call later, and no other call writes anything. -/
theorem cooldown_set_by_check (cfg : CommandConfig) (h : CommandHandlers) (registry : List Command)
    (env : Surroundings) (msg : Events.Message) (s : Shared) :
    let r := dispatchCommand cfg h registry env msg s
    (calledBy cfg h registry s.caches.toStore msg = none → r.1.cooldowns = s.cooldowns) ∧
    ∀ cmd author, calledBy cfg h registry s.caches.toStore msg = some (cmd, author) →
      (cmd.cooldownSeconds ≤ 0 ∨ rejection r.2.trace ≠ none → r.1.cooldowns = s.cooldowns) ∧
      (0 < cmd.cooldownSeconds → rejection r.2.trace = none →
        r.1.cooldowns cmd.name author = some env.now ∧
        ∀ name user, ¬ (name = cmd.name ∧ user = author) →
          r.1.cooldowns name user = s.cooldowns name user) := by
  refine ⟨dispatchCommand_uncalled, fun cmd author hcall => ?_⟩
  obtain ⟨-, htable⟩ := @dispatchCommand_called cfg h registry env msg cmd s author hcall
  rw [htable, Cooldowns.after]
  constructor
  · intro hkept
    rw [if_neg]
    rintro ⟨hadmitted, hpos⟩
    rcases hkept with hoff | hrejected
    · omega
    · exact hrejected hadmitted
  · intro hpos hadmitted
    rw [if_pos ⟨hadmitted, hpos⟩]
    exact ⟨if_pos ⟨rfl, rfl⟩, fun name user hother => if_neg hother⟩

theorem denied_call_counts : ¬ ∀ (cfg : CommandConfig) (h : CommandHandlers) (registry : List Command)
    (env : Surroundings) (msg : Events.Message) (s : Shared) (cmd : Command) (author : String),
    calledBy cfg h registry s.caches.toStore msg = some (cmd, author) → 0 < cmd.cooldownSeconds →
    callbacks (dispatchCommand cfg h registry env msg s).2.trace = 0 →
    rejection (dispatchCommand cfg h registry env msg s).2.trace = none →
    (dispatchCommand cfg h registry env msg s).1.cooldowns cmd.name author = s.cooldowns cmd.name author := by
  intro hall
  have hsame := hall {} { runHandler := some fun _ _ _ _ => .deny } [wave] (waveAt 7).env waving {} wave "u"
    rfl (by decide) (by decide) (by decide)
  exact absurd hsame (by decide)

end Stoatpp.Cluster
