import Mathlib.Data.Nat.Digits.Defs
import Stoatpp.Library.Delimited
import Stoatpp.Library.Percent
import Stoatpp.Library.Words

/-!
# Request targets

The helpers build their targets by concatenation and encode the emoji of a reaction only. The
other arguments come back out of a target exactly if they hold none of the characters that end
a segment or a parameter, and no escape.
-/

namespace Stoatpp.Rest
open Stoatpp.Library

def bytes (s : String) : Bytes := s.toUTF8.data.toList

def isUnreserved (c : UInt8) : Bool :=
  (48 ≤ c && c ≤ 57) || (65 ≤ c && c ≤ 90) || (97 ≤ c && c ≤ 122) || c == 45 || c == 95 || c == 46 ||
    c == 126

def hexDigit (n : UInt8) : UInt8 := if n < 10 then 48 + n else 55 + n

def urlEncode (value : Bytes) : Bytes :=
  value.flatMap fun c => if isUnreserved c then [c] else [37, hexDigit (c / 16), hexDigit (c % 16)]

def digits (k : ℕ) : Bytes :=
  if k = 0 then [48] else ((Nat.digits 10 k).map fun d => UInt8.ofNat (48 + d)).reverse

/-- `std::to_string` of an integer. -/
def decimal (n : ℤ) : Bytes := if n < 0 then 45 :: digits n.natAbs else digits n.natAbs

structure MessageQuery where
  limit : Option ℤ := none
  before : Option Bytes := none
  after : Option Bytes := none
  sort : Option Bytes := none
  nearby : Option Bytes := none

/-- `if (value) q += (q.empty() ? "?" : "&") + name + *value;` -/
def addParameter (q : Bytes) (name : String) : Option Bytes → Bytes
  | none => q
  | some value => q ++ (if q = [] then bytes "?" else bytes "&") ++ bytes name ++ value

def MessageQuery.toQueryString (m : MessageQuery) : Bytes :=
  let q := addParameter [] "limit=" (m.limit.map decimal)
  let q := addParameter q "before=" m.before
  let q := addParameter q "after=" m.after
  let q := addParameter q "sort=" m.sort
  addParameter q "nearby=" m.nearby

/-- The helpers with the arguments that go into their targets. -/
inductive Helper where
  | kickMember (serverId userId : Bytes)
  | banUser (serverId userId : Bytes)
  | editMember (serverId userId : Bytes)
  | deleteMessage (channelId messageId : Bytes)
  | editChannel (channelId : Bytes)
  | removeReaction (channelId messageId emoji : Bytes) (userId : Option Bytes)
  | getMessages (channelId : Bytes) (query : MessageQuery)

namespace Helper

def target : Helper → Bytes
  | kickMember serverId userId => bytes "/servers/" ++ serverId ++ bytes "/members/" ++ userId
  | banUser serverId userId => bytes "/servers/" ++ serverId ++ bytes "/bans/" ++ userId
  | editMember serverId userId => bytes "/servers/" ++ serverId ++ bytes "/members/" ++ userId
  | deleteMessage channelId messageId =>
    bytes "/channels/" ++ channelId ++ bytes "/messages/" ++ messageId
  | editChannel channelId => bytes "/channels/" ++ channelId
  | removeReaction channelId messageId emoji userId =>
    let path := bytes "/channels/" ++ channelId ++ bytes "/messages/" ++ messageId ++
      bytes "/reactions/" ++ urlEncode emoji
    match userId with
    | some userId => path ++ bytes "?user_id=" ++ userId
    | none => path
  | getMessages channelId query =>
    bytes "/channels/" ++ channelId ++ bytes "/messages" ++ query.toQueryString

def name : Helper → String
  | kickMember _ _ => "kick_member"
  | banUser _ _ => "ban_user"
  | editMember _ _ => "edit_member"
  | deleteMessage _ _ => "delete_message"
  | editChannel _ => "edit_channel"
  | removeReaction _ _ _ _ => "remove_reaction"
  | getMessages _ _ => "get_messages"

end Helper

/-! ## Reading a target -/

structure Target where
  segments : List Bytes
  parameters : List Bytes
  deriving DecidableEq

def endsPath (c : UInt8) : Bool := c == 63

def parameters (t : Bytes) : List Bytes :=
  match t.dropWhile fun c => !endsPath c with
  | [] => []
  | _ :: query => (pieces 38 (fun _ => false) query).map percentDecode

/-- The path ends at the first question mark and is split at the slashes, the query at the
ampersands; each piece is percent-decoded. -/
def parse (t : Bytes) : Target where
  segments := (pieces 47 endsPath t).map percentDecode
  parameters := parameters t

namespace Helper

/-- What a helper means by its target: its own segments and names, and the arguments. -/
def meant : Helper → Target
  | kickMember serverId userId => ⟨[[], bytes "servers", serverId, bytes "members", userId], []⟩
  | banUser serverId userId => ⟨[[], bytes "servers", serverId, bytes "bans", userId], []⟩
  | editMember serverId userId => ⟨[[], bytes "servers", serverId, bytes "members", userId], []⟩
  | deleteMessage channelId messageId =>
    ⟨[[], bytes "channels", channelId, bytes "messages", messageId], []⟩
  | editChannel channelId => ⟨[[], bytes "channels", channelId], []⟩
  | removeReaction channelId messageId emoji userId =>
    ⟨[[], bytes "channels", channelId, bytes "messages", messageId, bytes "reactions", emoji],
      (userId.map (bytes "user_id=" ++ ·)).toList⟩
  | getMessages channelId query =>
    ⟨[[], bytes "channels", channelId, bytes "messages"],
      (query.limit.map (bytes "limit=" ++ decimal ·)).toList ++
        (query.before.map (bytes "before=" ++ ·)).toList ++
        (query.after.map (bytes "after=" ++ ·)).toList ++
        (query.sort.map (bytes "sort=" ++ ·)).toList ++
        (query.nearby.map (bytes "nearby=" ++ ·)).toList⟩

/-- The arguments that go into the path as they are. -/
def pathArguments : Helper → List Bytes
  | kickMember serverId userId => [serverId, userId]
  | banUser serverId userId => [serverId, userId]
  | editMember serverId userId => [serverId, userId]
  | deleteMessage channelId messageId => [channelId, messageId]
  | editChannel channelId => [channelId]
  | removeReaction channelId messageId _ _ => [channelId, messageId]
  | getMessages channelId _ => [channelId]

def queryArguments : Helper → List Bytes
  | removeReaction _ _ _ userId => userId.toList
  | getMessages _ query =>
    query.before.toList ++ query.after.toList ++ query.sort.toList ++ query.nearby.toList
  | _ => []

/-- No slash, question mark or escape in the path arguments, no ampersand or escape in the
query arguments. -/
def PlainArguments (h : Helper) : Prop :=
  (∀ a ∈ h.pathArguments, 47 ∉ a ∧ 63 ∉ a ∧ ¬ HasEscape a) ∧
    ∀ a ∈ h.queryArguments, 38 ∉ a ∧ ¬ HasEscape a

end Helper

/-! ## Encoding -/

theorem hexDigit_value (c : UInt8) : hexValue? (hexDigit (c / 16)) = some (c / 16) ∧
    hexValue? (hexDigit (c % 16)) = some (c % 16) ∧ 16 * (c / 16) + c % 16 = c := by
  revert c
  exact byte_cases (by decide +kernel)

theorem percentDecode_urlEncode (value : Bytes) : percentDecode (urlEncode value) = value := by
  induction value with
  | nil => rfl
  | cons c rest ih =>
    rw [urlEncode, List.flatMap_cons]
    split_ifs with hc
    · have hne : c ≠ 37 := by
        rintro rfl
        exact absurd hc (by decide)
      rw [List.singleton_append, percentDecode_cons hne]
      exact congrArg (c :: ·) ih
    · obtain ⟨hhigh, hlow, hsum⟩ := hexDigit_value c
      simp only [List.cons_append, List.nil_append, percentDecode, hhigh, hlow, hsum]
      exact congrArg (c :: ·) ih

theorem urlEncode_plain (value : Bytes) : Plain 47 endsPath (urlEncode value) := by
  have hchars : ∀ c ∈ urlEncode value, c ≠ 47 ∧ endsPath c = false := by
    intro c hc
    obtain ⟨b, -, hb⟩ := List.mem_flatMap.mp hc
    have hbyte : ∀ b : UInt8, (if isUnreserved b then [b] else
        [37, hexDigit (b / 16), hexDigit (b % 16)]).all (fun c => c ≠ 47 && !endsPath c) = true :=
      byte_cases (by decide +kernel)
    simpa using List.all_eq_true.mp (hbyte b) c hb
  exact ⟨fun h => (hchars 47 h).1 rfl, fun c hc => (hchars c hc).2⟩

/-! ## Fields of a target -/

def render (segments params : List (Written UInt8)) : Bytes :=
  [47].intercalate (segments.map Written.raw) ++
    (if params = [] then [] else 63 :: [38].intercalate (params.map Written.raw))

theorem parse_render_iff (segments params : List (Written UInt8)) (hne : segments ≠ [])
    (hsegments : ∀ f ∈ segments, f.Full 47 endsPath)
    (hparams : ∀ f ∈ params, f.Full 38 fun _ => false) :
    parse (render segments params) = ⟨segments.map Written.meaning, params.map Written.meaning⟩ ↔
      (∀ f ∈ segments, Plain 47 endsPath f.raw ∧ percentDecode f.raw = f.meaning) ∧
        ∀ f ∈ params, Plain 38 (fun _ => false) f.raw ∧ percentDecode f.raw = f.meaning := by
  have hquery : (if params = [] then [] else 63 :: [38].intercalate (params.map Written.raw)).takeWhile
      (fun c => !endsPath c) = [] := by
    split_ifs
    · rfl
    · rfl
  rw [parse, Target.mk.injEq, render,
    pieces_meaning_iff percentDecode_length_le rfl hquery segments hne hsegments]
  refine and_congr_right fun hgood => ?_
  have hpath : ∀ c ∈ [47].intercalate (segments.map Written.raw), endsPath c = false := by
    intro c hc
    rcases mem_join hc with rfl | ⟨l, hl, hc⟩
    · rfl
    · obtain ⟨f, hf, rfl⟩ := List.mem_map.mp hl
      exact (hgood f hf).1.2 c hc
  have hdrop : parameters ([47].intercalate (segments.map Written.raw) ++
      (if params = [] then [] else 63 :: [38].intercalate (params.map Written.raw))) =
      if params = [] then [] else
        (pieces 38 (fun _ => false) ([38].intercalate (params.map Written.raw))).map percentDecode := by
    rw [parameters, List.dropWhile_append_of_pos fun c hc => by simp [hpath c hc]]
    split_ifs
    · rfl
    · rfl
  rw [hdrop]
  split_ifs with hnil
  · simp [hnil]
  · have hiff : (pieces 38 (fun _ => false) ([38].intercalate (params.map Written.raw) ++ [])).map
        percentDecode = params.map Written.meaning ↔ _ :=
      pieces_meaning_iff percentDecode_length_le rfl rfl params hnil hparams
    rwa [List.append_nil] at hiff

def literal (s : String) : Written UInt8 := ⟨bytes s, bytes s⟩
def argument (a : Bytes) : Written UInt8 := ⟨a, a⟩
def encoded (a : Bytes) : Written UInt8 := ⟨urlEncode a, a⟩
def parameter (name : String) (value : Bytes) : Written UInt8 := ⟨bytes name ++ value, bytes name ++ value⟩

theorem hasEscape_mem {s : Bytes} (h : HasEscape s) : 37 ∈ s := by
  obtain ⟨before, a, b, after, rfl, -, -⟩ := h
  simp

theorem argument_good {a : Bytes} : (Plain 47 endsPath (argument a).raw ∧
    percentDecode (argument a).raw = (argument a).meaning) ↔ 47 ∉ a ∧ 63 ∉ a ∧ ¬ HasEscape a := by
  have hstop : (∀ c ∈ a, endsPath c = false) ↔ 63 ∉ a := by
    constructor
    · intro h hmem
      exact absurd (h 63 hmem) (by decide)
    · intro h c hc
      exact beq_false_of_ne fun heq => h (heq ▸ hc)
  rw [argument, percentDecode_eq_self_iff, Plain, hstop, and_assoc]

theorem literal_good {s : String} (h : 47 ∉ bytes s ∧ 63 ∉ bytes s ∧ 37 ∉ bytes s) :
    Plain 47 endsPath (literal s).raw ∧ percentDecode (literal s).raw = (literal s).meaning :=
  argument_good.mpr ⟨h.1, h.2.1, fun hesc => h.2.2 (hasEscape_mem hesc)⟩

theorem encoded_good (a : Bytes) :
    Plain 47 endsPath (encoded a).raw ∧ percentDecode (encoded a).raw = (encoded a).meaning :=
  ⟨urlEncode_plain a, percentDecode_urlEncode a⟩

theorem parameter_good (name : String) (h : 38 ∉ bytes name ∧ 37 ∉ bytes name) (value : Bytes) :
    (Plain 38 (fun _ => false) (parameter name value).raw ∧
      percentDecode (parameter name value).raw = (parameter name value).meaning) ↔
        38 ∉ value ∧ ¬ HasEscape value := by
  rw [parameter, percentDecode_append h.2, List.append_cancel_left_eq, percentDecode_eq_self_iff]
  simp [Plain, h.1]

def MessageQuery.values (m : MessageQuery) : List (String × Option Bytes) :=
  [("limit=", m.limit.map decimal), ("before=", m.before), ("after=", m.after), ("sort=", m.sort),
    ("nearby=", m.nearby)]

def given (values : List (String × Option Bytes)) : List (Written UInt8) :=
  values.filterMap fun x => x.2.map (parameter x.1)

theorem addParameters_behind (values : List (String × Option Bytes)) {q : Bytes} (hq : q ≠ []) :
    values.foldl (fun q x => addParameter q x.1 x.2) q =
      q ++ (given values).flatMap fun f => 38 :: f.raw := by
  induction values generalizing q with
  | nil => simp [given]
  | cons x rest ih =>
    obtain ⟨name, value⟩ := x
    cases value with
    | none => exact ih hq
    | some value =>
      rw [List.foldl_cons, addParameter, if_neg hq, ih (by simp [hq])]
      simp [given, parameter, show bytes "&" = [38] by decide]

theorem intercalate_cons_raw (f : Written UInt8) (fs : List (Written UInt8)) :
    [38].intercalate ((f :: fs).map Written.raw) = f.raw ++ fs.flatMap fun f => 38 :: f.raw := by
  induction fs generalizing f with
  | nil => simp [List.intercalate]
  | cons g gs ih =>
    rw [List.flatMap_cons, List.cons_append, ← ih g]
    simp [List.intercalate]

theorem addParameters (values : List (String × Option Bytes)) :
    values.foldl (fun q x => addParameter q x.1 x.2) [] =
      if given values = [] then [] else 63 :: [38].intercalate ((given values).map Written.raw) := by
  induction values with
  | nil => rfl
  | cons x rest ih =>
    obtain ⟨name, value⟩ := x
    cases value with
    | none => exact ih
    | some value =>
      have hgiven : given ((name, some value) :: rest) = parameter name value :: given rest := rfl
      have hmark : bytes "?" = [63] := by decide
      rw [List.foldl_cons, addParameter, if_pos rfl, hgiven, if_neg (List.cons_ne_nil _ _),
        intercalate_cons_raw, addParameters_behind rest (by simp [hmark])]
      simp [hmark, parameter]

namespace Helper

def segments : Helper → List (Written UInt8)
  | kickMember serverId userId =>
    [literal "", literal "servers", argument serverId, literal "members", argument userId]
  | banUser serverId userId =>
    [literal "", literal "servers", argument serverId, literal "bans", argument userId]
  | editMember serverId userId =>
    [literal "", literal "servers", argument serverId, literal "members", argument userId]
  | deleteMessage channelId messageId =>
    [literal "", literal "channels", argument channelId, literal "messages", argument messageId]
  | editChannel channelId => [literal "", literal "channels", argument channelId]
  | removeReaction channelId messageId emoji _ =>
    [literal "", literal "channels", argument channelId, literal "messages", argument messageId,
      literal "reactions", encoded emoji]
  | getMessages channelId _ =>
    [literal "", literal "channels", argument channelId, literal "messages"]

def values : Helper → List (String × Option Bytes)
  | removeReaction _ _ _ userId => [("user_id=", userId)]
  | getMessages _ query => query.values
  | _ => []

theorem target_eq (h : Helper) : h.target = render h.segments (given h.values) := by
  have hempty : bytes "" = [] := by decide
  have hservers : bytes "/servers/" = 47 :: (bytes "servers" ++ [47]) := by decide
  have hmembers : bytes "/members/" = 47 :: (bytes "members" ++ [47]) := by decide
  have hbans : bytes "/bans/" = 47 :: (bytes "bans" ++ [47]) := by decide
  have hchannels : bytes "/channels/" = 47 :: (bytes "channels" ++ [47]) := by decide
  have hinside : bytes "/messages/" = 47 :: (bytes "messages" ++ [47]) := by decide
  have hmessages : bytes "/messages" = 47 :: bytes "messages" := by decide
  have hreactions : bytes "/reactions/" = 47 :: (bytes "reactions" ++ [47]) := by decide
  have huser : bytes "?user_id=" = 63 :: bytes "user_id=" := by decide
  cases h with
  | removeReaction channelId messageId emoji userId =>
    cases userId <;> simp [target, render, segments, values, given, literal, argument, encoded,
      parameter, List.intercalate, hempty, hchannels, hinside, hreactions, huser]
  | getMessages channelId query =>
    have hquery := addParameters query.values
    rw [target, render, values, ← hquery]
    simp [segments, literal, argument, List.intercalate, hempty, hchannels, hmessages]
    rfl
  | _ =>
    simp [target, render, segments, values, given, literal, argument, List.intercalate, hempty,
      hservers, hmembers, hbans, hchannels, hinside]

theorem meant_eq (h : Helper) :
    h.meant = ⟨h.segments.map Written.meaning, (given h.values).map Written.meaning⟩ := by
  have hempty : bytes "" = [] := by decide
  cases h with
  | removeReaction channelId messageId emoji userId =>
    cases userId <;> simp [meant, segments, values, given, literal, argument, encoded, parameter, hempty]
  | getMessages channelId query =>
    obtain ⟨limit, before, after, sort, nearby⟩ := query
    cases limit <;> cases before <;> cases after <;> cases sort <;> cases nearby <;>
      simp [meant, segments, values, MessageQuery.values, given, literal, argument, parameter, hempty]
  | _ => simp [meant, segments, values, given, literal, argument, hempty]

end Helper

/-! ## What makes a field plain -/

theorem mem_digits {k : ℕ} {c : UInt8} (h : c ∈ digits k) : 48 ≤ c ∧ c ≤ 57 := by
  rw [digits] at h
  split_ifs at h
  · obtain rfl := List.mem_singleton.mp h
    exact ⟨by decide, by decide⟩
  · rw [List.mem_reverse, List.mem_map] at h
    obtain ⟨d, hd, rfl⟩ := h
    have hlt : d < 10 := Nat.digits_lt_base (by decide) hd
    rw [UInt8.le_iff_toNat_le, UInt8.le_iff_toNat_le, UInt8.toNat_ofNat']
    simp only [UInt8.toNat_ofNat]
    omega

theorem mem_decimal {n : ℤ} {c : UInt8} (h : c ∈ decimal n) : c = 45 ∨ (48 ≤ c ∧ c ≤ 57) := by
  rw [decimal] at h
  split_ifs at h
  · exact (List.mem_cons.mp h).imp_right mem_digits
  · exact Or.inr (mem_digits h)

theorem decimal_plain (n : ℤ) : 38 ∉ decimal n ∧ ¬ HasEscape (decimal n) := by
  constructor
  · intro h
    exact absurd (mem_decimal h) (by decide)
  · intro h
    exact absurd (mem_decimal (hasEscape_mem h)) (by decide)

theorem forall_given {P : Written UInt8 → Prop} {values : List (String × Option Bytes)} :
    (∀ f ∈ given values, P f) ↔ ∀ x ∈ values, ∀ v ∈ x.2, P (parameter x.1 v) := by
  simp only [given, List.mem_filterMap, Option.map_eq_some_iff]
  constructor
  · intro h x hx v hv
    exact h _ ⟨x, hx, v, hv, rfl⟩
  · rintro h f ⟨x, hx, v, hv, rfl⟩
    exact h x hx v hv

namespace Helper

theorem segments_good (h : Helper) :
    (∀ f ∈ h.segments, Plain 47 endsPath f.raw ∧ percentDecode f.raw = f.meaning) ↔
      ∀ a ∈ h.pathArguments, 47 ∉ a ∧ 63 ∉ a ∧ ¬ HasEscape a := by
  have hempty := literal_good (s := "") (by decide)
  have hservers := literal_good (s := "servers") (by decide)
  have hmembers := literal_good (s := "members") (by decide)
  have hbans := literal_good (s := "bans") (by decide)
  have hchannels := literal_good (s := "channels") (by decide)
  have hmessages := literal_good (s := "messages") (by decide)
  have hreactions := literal_good (s := "reactions") (by decide)
  cases h <;> simp only [segments, pathArguments, List.forall_mem_cons, List.not_mem_nil,
    false_implies, implies_true, and_true, true_and, argument_good, encoded_good, hempty, hservers,
    hmembers, hbans, hchannels, hmessages, hreactions]

theorem parameters_good (h : Helper) :
    (∀ f ∈ given h.values, Plain 38 (fun _ => false) f.raw ∧ percentDecode f.raw = f.meaning) ↔
      ∀ a ∈ h.queryArguments, 38 ∉ a ∧ ¬ HasEscape a := by
  have huser := parameter_good "user_id=" (by decide)
  have hlimit := parameter_good "limit=" (by decide)
  have hbefore := parameter_good "before=" (by decide)
  have hafter := parameter_good "after=" (by decide)
  have hsort := parameter_good "sort=" (by decide)
  have hnearby := parameter_good "nearby=" (by decide)
  rw [forall_given]
  cases h with
  | removeReaction channelId messageId emoji userId =>
    simp only [values, queryArguments, List.forall_mem_cons, List.not_mem_nil, false_implies,
      implies_true, and_true, huser, Option.mem_toList, Option.mem_def]
  | getMessages channelId query =>
    have hnumber : ∀ v ∈ query.limit.map decimal, 38 ∉ v ∧ ¬ HasEscape v := by
      intro v hv
      obtain ⟨n, -, rfl⟩ := Option.map_eq_some_iff.mp hv
      exact decimal_plain n
    simp only [values, MessageQuery.values, queryArguments, List.forall_mem_cons, List.not_mem_nil,
      false_implies, implies_true, and_true, hlimit, hbefore, hafter, hsort, hnearby,
      List.forall_mem_append, Option.mem_toList, and_assoc]
    exact and_iff_right hnumber
  | _ => simp [values, queryArguments]

/-- Only the encoded segment is longer than what it means, and it is plain. -/
theorem segments_full (h : Helper) : ∀ f ∈ h.segments, f.Full 47 endsPath := by
  have hliteral (s : String) : (literal s).Full 47 endsPath := fun _ => le_rfl
  have hargument (a : Bytes) : (argument a).Full 47 endsPath := fun _ => le_rfl
  have hencoded (a : Bytes) : (encoded a).Full 47 endsPath := fun hno => absurd (encoded_good a).1 hno
  cases h <;> simp only [segments, List.forall_mem_cons, List.not_mem_nil, false_implies, implies_true,
    and_true, hliteral, hargument, hencoded]

theorem parse_target_iff (h : Helper) : parse h.target = h.meant ↔ h.PlainArguments := by
  rw [target_eq, meant_eq, PlainArguments, ← segments_good, ← parameters_good]
  refine parse_render_iff h.segments (given h.values) ?_ (segments_full h) ?_
  · cases h <;> exact List.cons_ne_nil _ _
  · rw [forall_given]
    exact fun _ _ _ _ _ => le_rfl

end Helper

/-! ## Different arguments -/

theorem digits_injective : Function.Injective digits := by
  have hinverse (k : ℕ) : Nat.ofDigits 10 ((digits k).reverse.map fun c => c.toNat - 48) = k := by
    rw [digits]
    split_ifs with hk
    · simp [hk]
    · have hback : ∀ d ∈ Nat.digits 10 k,
          ((fun c : UInt8 => c.toNat - 48) ∘ fun d => UInt8.ofNat (48 + d)) d = d := by
        intro d hd
        have hlt : d < 10 := Nat.digits_lt_base (by decide) hd
        simp only [Function.comp_apply, UInt8.toNat_ofNat']
        omega
      rw [List.reverse_reverse, List.map_map, List.map_congr_left hback, List.map_id',
        Nat.ofDigits_digits]
  intro k l h
  rw [← hinverse k, h, hinverse l]

theorem decimal_injective : Function.Injective decimal := by
  intro n m h
  have hsign (k : ℕ) : 45 ∉ digits k := fun hmem => absurd (mem_digits hmem) (by decide)
  rw [decimal, decimal] at h
  split_ifs at h
  · have := digits_injective (List.cons.inj h).2
    omega
  · exact absurd (h ▸ List.mem_cons_self) (hsign m.natAbs)
  · exact absurd (h ▸ List.mem_cons_self) (hsign n.natAbs)
  · have := digits_injective h
    omega

theorem given_injective (xs : List (String × Option Bytes × Option Bytes))
    (hnames : (xs.map Prod.fst).Pairwise fun a b => ∀ v w, bytes a ++ v ≠ bytes b ++ w)
    (h : (given (xs.map fun x => (x.1, x.2.1))).map Written.meaning =
      (given (xs.map fun x => (x.1, x.2.2))).map Written.meaning) :
    ∀ x ∈ xs, x.2.1 = x.2.2 := by
  induction xs with
  | nil => exact List.forall_mem_nil _
  | cons x rest ih =>
    obtain ⟨name, v, w⟩ := x
    rw [List.map_cons, List.pairwise_cons] at hnames
    have hnot (value : Bytes) (ys : List (String × Option Bytes)) (hys : ∀ y ∈ ys, y.1 ∈ rest.map Prod.fst)
        (hmem : bytes name ++ value ∈ (given ys).map Written.meaning) : False := by
      obtain ⟨f, hf, heq⟩ := List.mem_map.mp hmem
      obtain ⟨y, hy, hy'⟩ := List.mem_filterMap.mp hf
      obtain ⟨b, -, rfl⟩ := Option.map_eq_some_iff.mp hy'
      exact hnames.1 y.1 (hys y hy) value b heq.symm
    have hnames' (p : String × Option Bytes × Option Bytes → Option Bytes) :
        ∀ y ∈ rest.map fun x => (x.1, p x), y.1 ∈ rest.map Prod.fst := by
      intro y hy
      obtain ⟨x, hx, rfl⟩ := List.mem_map.mp hy
      exact List.mem_map_of_mem hx
    cases v with
    | none =>
      cases w with
      | none => exact List.forall_mem_cons.mpr ⟨rfl, ih hnames.2 h⟩
      | some w =>
        refine (hnot w _ (hnames' fun x => x.2.1) ?_).elim
        rw [show (given (rest.map fun x => (x.1, x.2.1))).map Written.meaning = _ from h]
        exact List.mem_cons_self
    | some v =>
      cases w with
      | none =>
        refine (hnot v _ (hnames' fun x => x.2.2) ?_).elim
        rw [← show _ = (given (rest.map fun x => (x.1, x.2.2))).map Written.meaning from h]
        exact List.mem_cons_self
      | some w =>
        obtain ⟨hhead, htail⟩ := List.cons.inj (show (bytes name ++ v) ::
          (given (rest.map fun x => (x.1, x.2.1))).map Written.meaning = (bytes name ++ w) ::
          (given (rest.map fun x => (x.1, x.2.2))).map Written.meaning from h)
        exact List.forall_mem_cons.mpr ⟨congrArg some (List.append_cancel_left hhead), ih hnames.2 htail⟩

theorem MessageQuery.given_injective {q q' : MessageQuery}
    (h : (given q.values).map Written.meaning = (given q'.values).map Written.meaning) : q = q' := by
  have hheads {a b : String} (ha : bytes a ≠ []) (hb : bytes b ≠ [])
      (hne : (bytes a).head? ≠ (bytes b).head?) : ∀ v w, bytes a ++ v ≠ bytes b ++ w := by
    intro v w heq
    have := congrArg List.head? heq
    rw [List.head?_append_of_ne_nil _ ha, List.head?_append_of_ne_nil _ hb] at this
    exact hne this
  have hvalues := Rest.given_injective
    [("limit=", q.limit.map decimal, q'.limit.map decimal), ("before=", q.before, q'.before),
      ("after=", q.after, q'.after), ("sort=", q.sort, q'.sort), ("nearby=", q.nearby, q'.nearby)]
    (by
      have hfirst : ["limit=", "before=", "after=", "sort=", "nearby="].Pairwise fun a b =>
          bytes a ≠ [] ∧ bytes b ≠ [] ∧ (bytes a).head? ≠ (bytes b).head? := by
        decide
      exact hfirst.imp fun h => hheads h.1 h.2.1 h.2.2) h
  simp only [List.forall_mem_cons] at hvalues
  obtain ⟨hlimit, hbefore, hafter, hsort, hnearby, -⟩ := hvalues
  cases q
  cases q'
  simp only [MessageQuery.mk.injEq]
  exact ⟨Option.map_injective decimal_injective hlimit, hbefore, hafter, hsort, hnearby⟩

namespace Helper

theorem eq_of_meant {h h' : Helper} (hname : h.name = h'.name) (hmeant : h.meant = h'.meant) : h = h' := by
  cases h with
  | removeReaction c m e u =>
    cases h' with
    | removeReaction c' m' e' u' =>
      cases u <;> cases u' <;> simp_all [meant]
    | _ => simp [name] at hname
  | getMessages c q =>
    cases h' with
    | getMessages c' q' =>
      rw [meant_eq, meant_eq, Target.mk.injEq] at hmeant
      obtain rfl := MessageQuery.given_injective hmeant.2
      simpa [segments, literal, argument] using hmeant.1
    | _ => simp [name] at hname
  | _ => cases h' <;> simp_all [name, meant]

/-- A target reads as what it is meant for exactly if its arguments are plain, and of plain
arguments different ones have different targets. -/
theorem target_faithful_iff (h : Helper) :
    (parse h.target = h.meant ↔ h.PlainArguments) ∧
      (h.PlainArguments → ∀ h' : Helper, h'.name = h.name → h'.PlainArguments →
        h'.target = h.target → h' = h) := by
  refine ⟨parse_target_iff h, fun hplain h' hname hplain' htarget => eq_of_meant hname ?_⟩
  rw [← (parse_target_iff h).mpr hplain, ← (parse_target_iff h').mpr hplain', htarget]

theorem arguments_leave_their_places :
    parse (kickMember (bytes "01S") (bytes "01U/../../bans/01V")).target ≠
        (kickMember (bytes "01S") (bytes "01U/../../bans/01V")).meant ∧
      parse (getMessages (bytes "01C") { before := some (bytes "01M&sort=Oldest") }).target =
        (getMessages (bytes "01C") { before := some (bytes "01M"), sort := some (bytes "Oldest") }).meant ∧
      (kickMember (bytes "01S") (bytes "01U/members/01V")).target =
        (kickMember (bytes "01S/members/01U") (bytes "01V")).target := by
  decide

end Helper

end Stoatpp.Rest
