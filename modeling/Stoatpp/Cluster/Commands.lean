import Mathlib.Data.List.Sort
import Stoatpp.Cluster.Cache
import Stoatpp.Library.Process

/-!
# `dispatch_command`

Command text is bytes, as in the program. The preprocessor, the prefix resolver, the run
handler and the disabled check give a result and return; a command callback and the
cooldown handler may throw. A command in a server goes on in a thread that fetches the member
first, and what that thread finds in the cache is what the cache holds then.
-/

namespace Stoatpp.Cluster
open Stoatpp.Library

abbrev Bytes := List UInt8

inductive CommandRunResult where
  | deny
  | allow
  | allowBypassPermissions
  deriving DecidableEq

/-- The callback tells whether it returns; `none` is an empty function, whose call throws. -/
structure Command where
  name : Bytes
  aliases : List Bytes := []
  callback : Option (Events.Message → List Bytes → Bool) := none
  requiredPermissions : BitVec 64 := 0
  cooldownSeconds : ℤ := 0

structure CommandHandlers where
  preprocessor : Option (Events.Message → Events.Message) := none
  prefixResolver : Option (Events.Message → List Bytes) := none
  runHandler : Option (Events.Message → Command → Option Member → List Bytes → CommandRunResult) := none
  /-- whether an error handler is set -/
  errorHandler : Bool := false
  cooldownHandler : Option (Events.Message → Command → ℤ → Bool) := none
  disabledChecker : Option (Events.Message → Command → Bool) := none

structure CommandConfig where
  commandPrefix : Bytes := [33]
  caseInsensitiveCommands : Bool := false

/-- Command name and author to the instant of the last admitted dispatch, in nanoseconds. -/
abbrev Cooldowns := Bytes → String → Option ℤ

structure Shared where
  caches : Caches := {}
  cooldowns : Cooldowns := fun _ _ => none

/-- The clock at the cooldown check, the member document the fetch returns if it succeeds, and
the caches at the permission check. -/
structure Surroundings where
  now : ℤ
  memberReply : Option Json
  later : Caches

inductive CommandEvent where
  | rejected (remaining : ℤ)
  | cooldown (remaining : ℤ)
  | fetchMember (serverId userId : String)
  | ran (result : CommandRunResult)
  | error (kind : String)
  | executed
  | callback (cmd : Command) (msg : Events.Message) (args : List Bytes)
  | suggest (channelId : String) (text : Bytes)

abbrev Dispatch := Outcome Unit CommandEvent

/-! ## Permissions -/

/-- `default_permissions` of a server document, a number or the `server` field of an object. -/
def defaultPermissions (raw : Json) : BitVec 64 :=
  match raw.get? "default_permissions" with
  | some dp =>
    match dp.number? with
    | some n => BitVec.ofInt 64 n
    | none => (Role.mask? dp "server").getD 0
  | none => 0

def rolesAllow (roles : List Role) (held : List String) (allowed : BitVec 64) : BitVec 64 :=
  held.foldl (fun allowed roleId => roles.foldl (fun allowed r =>
    if r.id = roleId then allowed ||| r.allowedPermissions else allowed) allowed) allowed

def hasPermission (server : Server) (member : Member) (mask : BitVec 64) : Bool :=
  if server.owner = member.id then true
  else rolesAllow server.roles member.roles (defaultPermissions server.raw) &&& mask = mask

/-! ## Text -/

def isSpace (b : UInt8) : Bool := b = 32 || (9 ≤ b && b ≤ 13)

def toLower (s : Bytes) : Bytes := s.map fun b => if 65 ≤ b && b ≤ 90 then b + 32 else b

/-- What `ss >> token` reads one after the other. -/
def tokens (content : Bytes) : List Bytes := (content.splitOnP isSpace).filter (· ≠ [])

def sortPrefixes (prefixes : List Bytes) : List Bytes :=
  prefixes.insertionSort fun a b => b.length ≤ a.length

def matchPrefix (prefixes : List Bytes) (content : Bytes) : Option Bytes :=
  (sortPrefixes prefixes).find? fun p => p ≠ [] && p.isPrefixOf content

/-- The two passes over the registered commands, names before aliases. -/
def findCommand (caseInsensitive : Bool) (registry : List Command) (cmd : Bytes) : Option Command :=
  let fold := if caseInsensitive then toLower else id
  registry.find? (fun c => fold c.name = fold cmd) <|>
    registry.find? fun c => c.aliases.any fun a => fold a = fold cmd

/-! ## Suggestions -/

/-- A row of the distance table from the row above it; `diag` and `left` are the entries before
the first of `above`. -/
def nextEntries (a : UInt8) : Bytes → List ℕ → ℕ → ℕ → List ℕ
  | b :: rest, up :: above, diag, left =>
    let d := min (min (up + 1) (left + 1)) (diag + if a = b then 0 else 1)
    d :: nextEntries a rest above up d
  | _, _, _, _ => []

def nextRow (s2 : Bytes) (row : List ℕ) (a : UInt8) : List ℕ :=
  match row with
  | diag :: above => (diag + 1) :: nextEntries a s2 above diag (diag + 1)
  | [] => []

def levenshteinDistance (s1 s2 : Bytes) : ℕ :=
  (s1.foldl (nextRow s2) (List.range (s2.length + 1))).getLastD 0

def similarity (typed name : Bytes) : ℚ :=
  1 - (levenshteinDistance typed name : ℚ) / (max name.length typed.length : ℕ)

def bestScore (typed : Bytes) (c : Command) : ℚ :=
  c.aliases.foldl (fun best a => max best (similarity typed (toLower a)))
    (max (-1) (similarity typed (toLower c.name)))

def listNames : List Bytes → Bytes
  | [] => []
  | [name] => name
  | [name, last] => name ++ bytes " or " ++ last
  | name :: rest => name ++ bytes ", " ++ listNames rest

def suggestion (disabled : Command → Bool) (registry : List Command) (cmd : Bytes) : Option Bytes :=
  let candidates := ((registry.filter (!disabled ·)).map fun c =>
    (c.name, bestScore (toLower cmd) c)).filter fun x => (1 / 2 : ℚ) ≤ x.2
  let maxScore := candidates.foldl (fun best x => max best x.2) (-1)
  let names := (candidates.filter fun x => maxScore - 1 / 1000 ≤ x.2).map (·.1)
  if names = [] then none
  else some (bytes "did you mean **" ++ listNames (names.insertionSort fun a b => a ≤ b) ++
    bytes "**?")

/-! ## Before the command runs -/

def resolveServer (c : Store) (msg : Events.Message) : Events.Message :=
  if msg.serverId = "" ∧ msg.channelId ≠ "" then
    { msg with serverId := ((c.getChannel msg.channelId).bind (·.server)).getD "" }
  else msg

def prepare (h : CommandHandlers) (c : Store) (msg : Events.Message) : Events.Message :=
  resolveServer c ((h.preprocessor.map (· msg)).getD msg)

def cacheAuthor (msg : Events.Message) (c : Caches) : Caches :=
  let c := if msg.author.username ≠ "" then c.putUser msg.author else c
  match (msg.raw.get? "user").bind Json.object? with
  | some user => c.putUser (User.fromJson user)
  | none => c

def parseCommand (cfg : CommandConfig) (h : CommandHandlers) (msg : Events.Message) :
    Option (Bytes × Bytes × List Bytes) :=
  let prefixes := match h.prefixResolver with
    | some resolve => resolve msg
    | none => [cfg.commandPrefix]
  (matchPrefix prefixes msg.content).map fun p =>
    let words := tokens (msg.content.drop p.length)
    (p, words.headD [], words.tail)

/-- The locked check-and-set: the seconds that are left, or the table with the new instant. -/
def checkCooldown (cooldowns : Cooldowns) (cmd : Command) (author : String) (now : ℤ) :
    ℤ ⊕ Cooldowns :=
  if cmd.cooldownSeconds ≤ 0 then .inr cooldowns
  else
    let admitted : Cooldowns := fun name user =>
      if name = cmd.name ∧ user = author then some now else cooldowns name user
    match cooldowns cmd.name author with
    | none => .inr admitted
    | some last =>
      -- `duration_cast` drops the fraction of a second
      let elapsed := (now - last).tdiv 1000000000
      if elapsed < cmd.cooldownSeconds then .inl (cmd.cooldownSeconds - elapsed) else .inr admitted

section
variable (h : CommandHandlers) (cmd : Command) (msg : Events.Message) (args : List Bytes)

def reportError (kind : String) : Dispatch Unit :=
  .emit (if h.errorHandler then [.error kind] else [])

def invoke : Dispatch Unit := do
  .emit [.executed, .callback cmd msg args]
  match cmd.callback with
  | none => .throw ()
  | some cb => if cb msg args then return () else .throw ()

/-- The run handler: whether the command may go on, and whether past the permission check. -/
def askRunHandler (mem : Option Member) : Dispatch (Option Bool) :=
  match h.runHandler with
  | none => return some false
  | some run => do
    let result := run msg cmd mem args
    .emit [.ran result]
    match result with
    | .deny => return none
    | .allow => return some false
    | .allowBypassPermissions => return some true

def onMember (later : Caches) (mem : Member) (success : Bool) : Dispatch Unit :=
  if !success then reportError h "member_fetch_failed"
  else do
    let ask ← askRunHandler h cmd msg args (some mem)
    match ask with
    | none => return ()
    | some bypassPermissions =>
      if !bypassPermissions && 0 < cmd.requiredPermissions.toInt then
        match later.getServer msg.serverId with
        | none => reportError h "server_resolve_failed"
        | some server =>
          if hasPermission server mem cmd.requiredPermissions then invoke cmd msg args
          else reportError h "permission_denied"
      else invoke cmd msg args

/-- `fetch_member`: an exception of the continuation calls it once more, without success. -/
def fetchMember (reply : Option Json) (continuation : Member → Bool → Dispatch Unit) :
    Dispatch Unit :=
  (match reply with
    | some body => continuation (Member.fromJson body) true
    | none => continuation {} false).orElse fun _ => continuation {} false

def runDirect : Dispatch Unit := do
  let ask ← askRunHandler h cmd msg args none
  match ask with
  | none => return ()
  | some bypassPermissions =>
    if !bypassPermissions && 0 < cmd.requiredPermissions.toInt then reportError h "server_only"
    else invoke cmd msg args

def runCommand (env : Surroundings) : Dispatch Unit :=
  if msg.serverId ≠ "" then do
    .emit [.fetchMember msg.serverId msg.author.id]
    fetchMember env.memberReply (onMember h cmd msg args env.later)
  else runDirect h cmd msg args

def rejectCommand (remaining : ℤ) : Dispatch Unit := do
  .emit [.rejected remaining]
  match h.cooldownHandler with
  | none => return ()
  | some cooldown =>
    .emit [.cooldown remaining]
    if cooldown msg cmd remaining then return () else .throw ()

end

/-- The tables after the synchronous part, and what the call does. -/
def dispatchCommand (cfg : CommandConfig) (h : CommandHandlers) (registry : List Command)
    (env : Surroundings) (msg : Events.Message) (s : Shared) : Shared × Dispatch Unit :=
  let msg := prepare h s.caches.toStore msg
  let s := { s with caches := cacheAuthor msg s.caches }
  match parseCommand cfg h msg with
  | none => (s, .ret ())
  | some (p, token, args) =>
    match findCommand cfg.caseInsensitiveCommands registry token with
    | some cmd =>
      let msg := { msg with cmdPrefix := p }
      match checkCooldown s.cooldowns cmd msg.author.id env.now with
      | .inl remaining => (s, rejectCommand h cmd msg remaining)
      | .inr cooldowns => ({ s with cooldowns := cooldowns }, runCommand h cmd msg args env)
    | none =>
      let disabled := fun c => (h.disabledChecker.map (· msg c)).getD false
      if 2 < token.length then
        match suggestion disabled registry token with
        | some text => (s, .emit [.suggest msg.channelId text])
        | none => (s, .ret ())
      else (s, .ret ())

end Stoatpp.Cluster
