import Stoatpp.Library.Delimited
import Stoatpp.Library.Words
import Stoatpp.Model.Events
import Stoatpp.Rest.RateLimiter

/-!
# The URLs of ICE servers

`add_ice_server` takes a `stun`, `turn` or `turns` URL apart at the first colon, the first question
mark behind it and the last colon in between. That colon is the one in front of the port unless
there is no port and the host is an address in brackets.
-/

namespace Stoatpp.Voice
open Stoatpp.Library

inductive RelayType where
  | turnUdp
  | turnTls
  deriving DecidableEq

/-- The arguments of `rtc::IceServer`; a STUN server has no login. -/
structure IceServer where
  hostname : List UInt8
  port : UInt16
  login : Option (List UInt8 × List UInt8 × RelayType)
  deriving DecidableEq

def stripSlashes : List UInt8 → List UInt8
  | 47 :: 47 :: host => host
  | host => host

/-- `std::stoi` of bytes, each of them a character. -/
def stoi (s : List UInt8) : Option ℤ := Rest.stoi (String.ofList (s.map fun c => Char.ofNat c.toNat))

/-- The port is cast to 16 bits, and stays the one given where `stoi` throws. -/
def endpoint (port : UInt16) (hostPort : List UInt8) : List UInt8 × UInt16 :=
  match splitLast 58 hostPort with
  | some (hostname, digits) => (hostname, ((stoi digits).map UInt16.ofInt).getD port)
  | none => (hostPort, port)

def addIceServer (servers : List IceServer) (url username credential : List UInt8) : List IceServer :=
  match splitFirst 58 url with
  | none => servers
  | some (scheme, rest) =>
    let address := stripSlashes rest
    let hostPort := ((splitFirst 63 address).map (·.1)).getD address
    let (hostname, port) := endpoint (if scheme = bytes "turns" then 5349 else 3478) hostPort
    if scheme = bytes "stun" then servers ++ [⟨hostname, port, none⟩]
    else if (scheme = bytes "turn" ∨ scheme = bytes "turns") ∧ username ≠ [] then
      let relay := if scheme = bytes "turns" then .turnTls else .turnUdp
      servers ++ [⟨hostname, port, some (username, credential, relay)⟩]
    else servers

/-! ## URLs -/

inductive Scheme where
  | stun
  | turn
  | turns
  deriving DecidableEq

namespace Scheme

def text : Scheme → List UInt8
  | stun => bytes "stun"
  | turn => bytes "turn"
  | turns => bytes "turns"

def defaultPort : Scheme → UInt16
  | turns => 5349
  | _ => 3478

def login (username credential : List UInt8) : Scheme → Option (List UInt8 × List UInt8 × RelayType)
  | stun => none
  | turn => some (username, credential, .turnUdp)
  | turns => some (username, credential, .turnTls)

end Scheme

def isRegNameChar (c : UInt8) : Bool :=
  (48 ≤ c && c ≤ 57) || (65 ≤ c && c ≤ 90) || (97 ≤ c && c ≤ 122) || (bytes "-._~%!$&'()*+,;=").contains c

def isAddressChar (c : UInt8) : Bool :=
  (48 ≤ c && c ≤ 57) || (65 ≤ c && c ≤ 70) || (97 ≤ c && c ≤ 102) || c == 58 || c == 46

/-- A registered name or an IPv4 address, or an IPv6 address in brackets, of which there is none
without a colon. -/
inductive Host where
  | name (s : List UInt8) (h : ∀ c ∈ s, isRegNameChar c = true)
  | literal (address : List UInt8) (h : ∀ c ∈ address, isAddressChar c = true) (colon : 58 ∈ address)

namespace Host

def text : Host → List UInt8
  | name s _ => s
  | literal address _ _ => 91 :: address ++ [93]

def IsLiteral : Host → Prop
  | name _ _ => False
  | literal _ _ _ => True

end Host

structure Port where
  digits : List UInt8
  nonempty : digits ≠ []
  decimal : ∀ c ∈ digits, 48 ≤ c ∧ c ≤ 57

def Port.value (p : Port) : ℕ := p.digits.foldl (fun n c => n * 10 + (c.toNat - 48)) 0

structure IceUrl where
  scheme : Scheme
  slashes : Bool
  host : Host
  port : Option Port
  query : Option (List UInt8)

namespace IceUrl

def hostPort (url : IceUrl) : List UInt8 :=
  url.host.text ++ match url.port with
    | some p => 58 :: p.digits
    | none => []

def queryText (url : IceUrl) : List UInt8 :=
  match url.query with
  | some query => 63 :: query
  | none => []

def text (url : IceUrl) : List UInt8 :=
  url.scheme.text ++ 58 :: ((if url.slashes then [47, 47] else []) ++ (url.hostPort ++ url.queryText))

def Adds (url : IceUrl) (servers : List IceServer) (username credential host : List UInt8) (port : ℕ) : Prop :=
  ∃ server, addIceServer servers url.text username credential = servers ++ [server] ∧
    server.hostname = host ∧ server.port.toNat = port

end IceUrl

variable {url : IceUrl} {servers : List IceServer} {username credential : List UInt8}

/-! ## Splitting -/

theorem name_plain {s : List UInt8} (h : ∀ c ∈ s, isRegNameChar c = true) : 58 ∉ s ∧ 63 ∉ s ∧ 47 ∉ s :=
  ⟨fun hc => absurd (h _ hc) (by decide), fun hc => absurd (h _ hc) (by decide),
    fun hc => absurd (h _ hc) (by decide)⟩

theorem Port.plain (p : Port) : 58 ∉ p.digits ∧ 63 ∉ p.digits :=
  ⟨fun hc => absurd (p.decimal _ hc) (by decide), fun hc => absurd (p.decimal _ hc) (by decide)⟩

theorem Host.text_plain (host : Host) : 63 ∉ host.text ∧ 47 ∉ host.text := by
  cases host with
  | name s h => exact (name_plain h).2
  | literal address h colon =>
    have hinside (c : UInt8) (hc : c ∈ 91 :: address ++ [93]) : c = 91 ∨ isAddressChar c = true ∨ c = 93 := by
      rcases List.mem_append.mp hc with hc | hc
      · exact (List.mem_cons.mp hc).imp_right fun hmem => Or.inl (h c hmem)
      · exact Or.inr (Or.inr (List.mem_singleton.mp hc))
    exact ⟨fun hc => absurd (hinside _ hc) (by decide), fun hc => absurd (hinside _ hc) (by decide)⟩

theorem IceUrl.hostPort_plain (url : IceUrl) : 63 ∉ url.hostPort ∧ 47 ∉ url.hostPort := by
  obtain ⟨hquery, hslash⟩ := url.host.text_plain
  unfold hostPort
  cases url.port with
  | none =>
    rw [List.append_nil]
    exact ⟨hquery, hslash⟩
  | some p =>
    have hdigits : 47 ∉ p.digits := fun hc => absurd (p.decimal _ hc) (by decide)
    simp [hquery, hslash, hdigits, p.plain.2]

theorem stripSlashes_cons {s : List UInt8} (h : s.head? ≠ some 47) : stripSlashes s = s := by
  unfold stripSlashes
  split
  · exact absurd rfl h
  · rfl

theorem IceUrl.address_eq (url : IceUrl) :
    stripSlashes ((if url.slashes then [47, 47] else []) ++ (url.hostPort ++ url.queryText)) =
      url.hostPort ++ url.queryText := by
  split_ifs
  · rfl
  · rw [List.nil_append]
    apply stripSlashes_cons
    cases hhp : url.hostPort with
    | nil =>
      unfold queryText
      cases url.query with
      | none => exact nofun
      | some query => simp
    | cons c rest =>
      intro hc
      have hmem : c ∈ url.hostPort := by
        rw [hhp]
        exact List.mem_cons_self
      exact url.hostPort_plain.2 (Option.some.inj hc ▸ hmem)

theorem IceUrl.cut_query (url : IceUrl) :
    ((splitFirst 63 (url.hostPort ++ url.queryText)).map (·.1)).getD (url.hostPort ++ url.queryText) =
      url.hostPort := by
  have hplain := url.hostPort_plain.1
  unfold queryText
  cases url.query with
  | none =>
    rw [List.append_nil, splitFirst_eq_none hplain]
    rfl
  | some query =>
    rw [splitFirst_append hplain]
    rfl

theorem addIceServer_url (url : IceUrl) (hu : url.scheme = .stun ∨ username ≠ []) :
    addIceServer servers url.text username credential =
      servers ++ [⟨(endpoint url.scheme.defaultPort url.hostPort).1,
        (endpoint url.scheme.defaultPort url.hostPort).2, url.scheme.login username credential⟩] := by
  have hcolon : 58 ∉ url.scheme.text := by
    cases url.scheme <;> decide
  rw [addIceServer, IceUrl.text, splitFirst_append hcolon]
  simp only [url.address_eq, url.cut_query]
  cases hs : url.scheme with
  | stun => rfl
  | turn =>
    have hlogin : username ≠ [] := hu.resolve_left (by rw [hs]; decide)
    have hturn : Scheme.turn.text = bytes "turn" := rfl
    simp only [hturn, true_or, true_and, if_pos hlogin]
    rfl
  | turns =>
    have hlogin : username ≠ [] := hu.resolve_left (by rw [hs]; decide)
    have hturns : Scheme.turns.text = bytes "turns" := rfl
    simp only [hturns, or_true, true_and, if_pos hlogin, if_true]
    rfl

/-! ## Ports -/

theorem digit_char (c : UInt8) : 48 ≤ c ∧ c ≤ 57 → (Char.ofNat c.toNat).isDigit = true ∧
    (Char.ofNat c.toNat).toNat - '0'.toNat = c.toNat - 48 := by
  revert c
  exact byte_cases (by decide +kernel)

theorem Port.stoi (p : Port) : stoi p.digits = if p.value < 2 ^ 31 then some (p.value : ℤ) else none := by
  apply Rest.stoi_of_numeral
  have hdigits : (p.digits.map fun c => Char.ofNat c.toNat).all Char.isDigit = true := by
    rw [List.all_map, List.all_eq_true]
    exact fun c hc => (digit_char c (p.decimal c hc)).1
  have hvalue : Rest.digitsValue (p.digits.map fun c => Char.ofNat c.toNat) = p.value := by
    rw [Rest.digitsValue, List.foldl_map]
    exact List.foldl_ext _ _ _ fun n c hc => by rw [(digit_char c (p.decimal c hc)).2]
  have hnonempty : (p.digits.map fun c => Char.ofNat c.toNat) ≠ [] := by
    simpa using p.nonempty
  rw [Rest.numeral, String.toList_ofList, if_pos ⟨hnonempty, hdigits⟩, hvalue]

def Port.cast (default : UInt16) (p : Port) : ℕ := if p.value < 2 ^ 31 then p.value % 2 ^ 16 else default.toNat

theorem Port.endpoint (p : Port) (host : Host) (default : UInt16) :
    ∃ port, endpoint default (host.text ++ 58 :: p.digits) = (host.text, port) ∧ port.toNat = p.cast default := by
  rw [Voice.endpoint, splitLast_append p.plain.1]
  refine ⟨_, rfl, ?_⟩
  rw [p.stoi, cast]
  split_ifs with h
  · have hmod : (p.value : ℤ) % 2 ^ 16 = (p.value % 2 ^ 16 : ℕ) := by omega
    rw [Option.map_some, Option.getD_some, UInt16.ofInt, hmod, Int.toNat_natCast]
    exact UInt16.toNat_ofNat_of_lt (Nat.mod_lt _ (by decide))
  · rfl

/-! ## The server that is added -/

theorem adds_iff (hu : url.scheme = .stun ∨ username ≠ []) {host : List UInt8} {port : ℕ} :
    url.Adds servers username credential host port ↔
      (endpoint url.scheme.defaultPort url.hostPort).1 = host ∧
        (endpoint url.scheme.defaultPort url.hostPort).2.toNat = port := by
  constructor
  · rintro ⟨server, hadd, hhost, hport⟩
    rw [addIceServer_url url hu] at hadd
    obtain rfl := List.singleton_inj.mp (List.append_cancel_left hadd)
    exact ⟨hhost, hport⟩
  · rintro ⟨hhost, hport⟩
    exact ⟨_, addIceServer_url url hu, hhost, hport⟩

theorem endpoint_name {s : List UInt8} (h : ∀ c ∈ s, isRegNameChar c = true) (default : UInt16) :
    endpoint default s = (s, default) := by
  rw [endpoint, splitLast_eq_none_iff.mpr (name_plain h).1]

/-- Without a port the address of a literal is cut at its own last colon. -/
theorem endpoint_literal {address : List UInt8} (colon : 58 ∈ address) (default : UInt16) :
    (endpoint default (91 :: address ++ [93])).1 ≠ 91 :: address ++ [93] := by
  have hmem : 58 ∈ 91 :: address ++ [93] := List.mem_append_left _ (List.mem_cons_of_mem _ colon)
  cases hsplit : splitLast 58 (91 :: address ++ [93]) with
  | none => exact absurd hmem (splitLast_eq_none_iff.mp hsplit)
  | some x =>
    obtain ⟨hostname, digits⟩ := x
    have hwhole := eq_of_splitLast hsplit
    intro heq
    rw [endpoint, hsplit] at heq
    have hlength := congrArg List.length hwhole
    rw [← heq] at hlength
    simp only [List.length_append, List.length_cons] at hlength
    omega

theorem adds_default_iff (hu : url.scheme = .stun ∨ username ≠ []) (hp : url.port = none) :
    url.Adds servers username credential url.host.text url.scheme.defaultPort.toNat ↔ ¬ url.host.IsLiteral := by
  rw [adds_iff hu, IceUrl.hostPort, hp, List.append_nil]
  cases url.host with
  | name s h =>
    rw [Host.text, endpoint_name h]
    exact iff_of_true ⟨rfl, rfl⟩ id
  | literal address h colon =>
    exact iff_of_false (fun hadds => endpoint_literal colon _ hadds.1) fun hno => hno trivial

theorem adds_port_iff (hu : url.scheme = .stun ∨ username ≠ []) {p : Port} (hp : url.port = some p) {port : ℕ} :
    url.Adds servers username credential url.host.text port ↔ p.cast url.scheme.defaultPort = port := by
  obtain ⟨cast, hendpoint, hcast⟩ := p.endpoint url.host url.scheme.defaultPort
  rw [adds_iff hu, IceUrl.hostPort, hp, hendpoint, ← hcast]
  exact and_iff_right rfl

/-- A URL with a port in range, or none, adds its host with this port or the default of the scheme, and
one with a port out of range never adds the port that is left of it modulo 2^16, exactly if an IPv6
address comes with a port, and a port out of range is one that `stoi` throws on. -/
theorem ice_server_added_iff (url : IceUrl) (servers : List IceServer) (username credential : List UInt8)
    (hu : url.scheme = .stun ∨ username ≠ []) :
    ((∀ p, url.port = some p → p.value < 2 ^ 16) → url.Adds servers username credential url.host.text
        ((url.port.map Port.value).getD url.scheme.defaultPort.toNat)) ∧
      (∀ p, url.port = some p → 2 ^ 16 ≤ p.value →
        ¬ url.Adds servers username credential url.host.text (p.value % 2 ^ 16)) ↔
    (url.port = none → ¬ url.host.IsLiteral) ∧ ∀ p, url.port = some p → 2 ^ 16 ≤ p.value →
      2 ^ 31 ≤ p.value ∧ url.scheme.defaultPort.toNat ≠ p.value % 2 ^ 16 := by
  cases hp : url.port with
  | none =>
    rw [Option.map_none, Option.getD_none, adds_default_iff hu hp]
    simp only [reduceCtorEq, false_implies, implies_true, and_true, true_implies]
  | some p =>
    simp only [Option.map_some, Option.getD_some, Option.some.injEq, forall_eq', adds_port_iff hu hp,
      reduceCtorEq, false_implies, true_and, Port.cast]
    by_cases hrange : p.value < 2 ^ 16
    · have hint : p.value < 2 ^ 31 := by omega
      rw [if_pos hint, Nat.mod_eq_of_lt hrange]
      exact iff_of_true ⟨fun _ => rfl, fun hle => absurd hrange (Nat.not_lt.mpr hle)⟩
        fun hle => absurd hrange (Nat.not_lt.mpr hle)
    · have hle : 2 ^ 16 ≤ p.value := Nat.not_lt.mp hrange
      by_cases hint : p.value < 2 ^ 31
      · rw [if_pos hint]
        exact iff_of_false (fun h => h.2 hle rfl) fun h => absurd hint (Nat.not_lt.mpr (h hle).1)
      · rw [if_neg hint]
        exact ⟨fun h _ => ⟨Nat.not_lt.mp hint, h.2 hle⟩, fun h => ⟨fun hno => absurd hno hrange, fun _ => (h hle).2⟩⟩

def localhost : Host := .name (bytes "localhost") (List.all_eq_true.mp (by decide))

def localStun : IceUrl := ⟨.stun, true, localhost, none, some (bytes "transport=udp")⟩

theorem local_stun_added : localStun.Adds [] [] [] (bytes "localhost") 3478 := by
  have hno : ∀ p, localStun.port ≠ some p := fun _ => Option.some_ne_none _ |>.symm
  have hadds := (ice_server_added_iff localStun [] [] [] (Or.inl rfl)).mpr
    ⟨fun _ => id, fun p hp => absurd hp (hno p)⟩
  exact hadds.1 fun p hp => absurd hp (hno p)

def loopback : IceUrl :=
  ⟨.turn, false, .literal (bytes "::1") (List.all_eq_true.mp (by decide)) (by decide), none, none⟩

theorem loopback_cut_and_port_wrapped :
    loopback.text = bytes "turn:[::1]" ∧
    addIceServer [] loopback.text [117] [] = [⟨bytes "[:", 1, some ([117], [], .turnUdp)⟩] ∧
    ¬ loopback.Adds [] [117] [] (bytes "[::1]") 3478 ∧
    addIceServer [] (bytes "stun:localhost:70000") [] [] = [⟨bytes "localhost", 4464, none⟩] := by
  have hcut : addIceServer [] loopback.text [117] [] = [⟨bytes "[:", 1, some ([117], [], .turnUdp)⟩] := by
    decide
  refine ⟨by decide, hcut, ?_, by decide⟩
  rintro ⟨server, hadd, hhost, -⟩
  rw [hcut] at hadd
  obtain rfl := List.singleton_inj.mp hadd
  exact absurd hhost (by decide)

end Stoatpp.Voice
