import Stoatpp.Library.Runs
import Stoatpp.Voice.Requests
import Stoatpp.Voice.Sending

/-!
# The requests on a connection

The client sends a join request when its socket opens, and then what its peer connections come up
with. These are made by a join response and gone before the socket is started again, so nothing is
sent ahead of the join request.
-/

namespace Stoatpp.Voice
open Stoatpp.Library

/-! ## The socket and what passes it -/

/-- `opening` is before the Open callback has run, and `closing` before the Close callback. -/
inductive Socket where
  | idle
  | connecting
  | opening
  | opened
  | closing
  | closed
  deriving DecidableEq

/-- What passes the socket, and on which of its connections. -/
inductive Passed where
  | sent (connection : ℕ) (r : SignalRequest)
  | received (connection : ℕ) (σ : Signal)
  deriving DecidableEq

def Passed.connection : Passed → ℕ
  | sent n _ => n
  | received n _ => n

structure Signalling where
  sending : Sending := {}
  socket : Socket := .idle
  connection : ℕ := 0
  log : List Passed := []
  deriving DecidableEq

inductive SignallingTurn where
  | turn (t : SendTurn)
  | opens
  | greets
  | fails
  /-- `ws.stop()` or the server begins to close it -/
  | shut
  | closes
  /-- `onLocalDescription` of a peer connection -/
  | described (pc : SignalTarget) (sdp : List UInt8)
  /-- `onLocalCandidate` -/
  | found (pc : SignalTarget) (candidate : List UInt8)
  deriving DecidableEq

namespace Signalling

def isOpen (s : Signalling) : Bool := s.socket = .opening || s.socket = .opened

/-- `sendBinary` does nothing on a socket that is not open. -/
def send (r : SignalRequest) (s : Signalling) : Signalling :=
  if s.isOpen then { s with log := s.log ++ [.sent s.connection r] } else s

def receive (σ : Signal) (s : Signalling) : Signalling :=
  { s with log := s.log ++ [.received s.connection σ] }

def peer (s : Signalling) : SignalTarget → Option PeerConnection
  | .publisher => s.sending.impl.pubPc
  | .subscriber => s.sending.impl.subPc

def description (sdp : List UInt8) : SignalTarget → SignalRequest
  | .publisher => .offer sdp
  | .subscriber => .answer sdp

/-- Messages come between the two callbacks of the socket, and `ws.stop()` returns behind the second. -/
def permits (s : Signalling) : SendTurn → Bool
  | .signal _ _ => s.socket = .opened || s.socket = .closing
  | .call .closed => s.socket = .closed
  | .returns => s.sending.caller = .joined .closed || s.socket = .idle || s.socket = .closed
  | _ => true

/-- Whether the join response is followed up to `send_add_track`. -/
def addsTrack (a : Answers) : Signal → Bool
  | .joinResponse => a.subscriber && a.publisher && a.callbacks && a.addTrackSent
  | _ => false

def follow (s : Signalling) (t : SendTurn) (sending : Sending) : Signalling :=
  match t with
  | .signal σ a =>
    let s := { s with sending }.receive σ
    if addsTrack a σ then s.send .addTrack else s
  | .returns =>
    match s.sending.caller with
    | .joined .connect => { s with sending, socket := .connecting }
    | .joined .disconnect => { s with sending, socket := .idle }
    | _ => { s with sending }
  | _ => { s with sending }

end Signalling

def signallingTurn (s : Signalling) : SignallingTurn → Option Signalling
  | .turn t => if s.permits t then (sendTurn s.sending t).map (s.follow t) else none
  | .opens =>
    if s.socket = .connecting then some { s with socket := .opening, connection := s.connection + 1 } else none
  | .greets => if s.socket = .opening then some { s.send .join with socket := .opened } else none
  | .fails => if s.socket = .connecting then some { s with socket := .closed } else none
  | .shut => if s.isOpen then some { s with socket := .closing } else none
  | .closes => if s.isOpen ∨ s.socket = .closing then some { s with socket := .closed } else none
  | .described pc sdp => if (s.peer pc).isSome then some (s.send (Signalling.description sdp pc)) else none
  | .found pc candidate => if (s.peer pc).isSome then some (s.send (.trickle candidate pc)) else none

def SignallingTurn.turn? : SignallingTurn → Option SendTurn
  | .turn t => some t
  | _ => none

/-! ## Peer connections -/

def HasPeer (s : Impl) : Prop := s.subPc.isSome ∨ s.pubPc.isSome

def PeersKept (p : Impl) (x : Performing Impl) : Prop :=
  x.Meets [] (fun _ q => HasPeer q → HasPeer p) (fun _ y => HasPeer y.2 → HasPeer p) fun _ => True

/-- Only a join response makes a peer connection. -/
theorem peersKept_perform (p : Impl) {σ : Signal} (a : Answers) (hσ : σ ≠ .joinResponse) :
    PeersKept p (perform a p σ) := by
  have hdescribed (pc : Option PeerConnection) : PeersKept p (setRemoteDescription pc a p) := by
    unfold setRemoteDescription
    split_ifs
    · exact Outcome.meets_ret id
    · exact call_meets (fun _ => Outcome.meets_ret id) fun _ => id
  cases σ with
  | iceServer info => exact Outcome.meets_ret id
  | joinResponse => exact absurd rfl hσ
  | offer sdp => exact hdescribed _
  | answer sdp => exact hdescribed _
  | trickle candidate target => exact Outcome.meets_ret id
  | trackPublished cid sid =>
    simp only [perform]
    split_ifs
    · unfold PeersKept initializePublisherTrack
      refine Outcome.meets_emit_andThen ?_
      refine call_meets (fun _ => ?_) fun _ => id
      split_ifs
      · exact Outcome.meets_throw id
      · refine call_meets (fun _ => call_meets (fun _ => ?_) fun _ => id) fun _ => id
        split_ifs
        · exact Outcome.meets_throw id
        · exact Outcome.meets_ret id
    · exact Outcome.meets_ret id

variable {s s' : Sending} {t : SendTurn}

theorem signal_peers {σ : Signal} {a : Answers} (hσ : σ ≠ .joinResponse) (h : s.signal σ a = some s')
    (hpeer : HasPeer s'.impl) : HasPeer s.impl := by
  have hkept := peersKept_perform s.impl a hσ
  unfold PeersKept Outcome.Meets at hkept
  unfold Sending.signal at h
  split at h
  · next impl hs =>
    rw [hs] at hkept
    obtain rfl := Option.some.inj h
    exact hkept hpeer
  · next impl hs =>
    rw [hs] at hkept
    obtain rfl := Option.some.inj h
    exact hkept hpeer
  · exact absurd h (by simp)

theorem sendTurn_peers (h : sendTurn s t = some s') (hpeer : HasPeer s'.impl) :
    HasPeer s.impl ∨ ∃ a, t = .signal .joinResponse a := by
  cases t with
  | signal σ a =>
    by_cases hσ : σ = .joinResponse
    · exact .inr ⟨a, by rw [hσ]⟩
    · exact .inl (signal_peers hσ h hpeer)
  | call c =>
    obtain ⟨-, h⟩ := Option.ite_none_right_eq_some.mp h
    obtain rfl := Option.some.inj h
    exact .inl hpeer
  | join =>
    simp only [sendTurn, Sending.join] at h
    split at h
    · obtain ⟨-, h⟩ := Option.ite_none_right_eq_some.mp h
      obtain rfl := Option.some.inj h
      exact .inl hpeer
    · exact absurd h (by simp)
  | returns =>
    simp only [sendTurn, Sending.returns] at h
    split at h
    · obtain rfl := Option.some.inj h
      exact .inl hpeer
    · obtain rfl := Option.some.inj h
      exact absurd hpeer (by simp [HasPeer, disconnect])
    · obtain rfl := Option.some.inj h
      exact absurd hpeer (by simp [HasPeer, connect, disconnect])
    · exact absurd h (by simp)
  | writePcm block =>
    obtain rfl := Option.some.inj h
    refine .inl ?_
    unfold Sending.writePcm at hpeer
    split_ifs at hpeer
    · exact hpeer
    · exact hpeer
  | cut =>
    obtain ⟨-, h⟩ := Option.ite_none_right_eq_some.mp h
    obtain rfl := Option.some.inj h
    exact .inl hpeer
  | encode isOpen =>
    simp only [sendTurn, Sending.encode] at h
    split at h
    · obtain rfl := Option.some.inj h
      exact .inl hpeer
    · exact absurd h (by simp)
  | leave =>
    obtain ⟨-, h⟩ := Option.ite_none_right_eq_some.mp h
    obtain rfl := Option.some.inj h
    exact .inl hpeer

theorem returns_no_peer (h : s.returns = some s') (hc : s.caller = .joined .connect) : ¬ HasPeer s'.impl := by
  simp only [Sending.returns, hc] at h
  obtain rfl := Option.some.inj h
  simp [HasPeer, connect, disconnect]

/-! ## The order on a connection -/

/-- The join request opens a connection, and the others are behind its answer. -/
def Proper (before : List Passed) : Passed → Prop
  | .sent n .join => ∀ x ∈ before, x.connection < n
  | .sent n _ => .sent n .join ∈ before ∧ .received n .joinResponse ∈ before
  | .received _ _ => True

structure Ordered (s : Signalling) : Prop where
  proper : EachAfter Proper s.log
  past : ∀ x ∈ s.log, x.connection ≤ s.connection
  ahead : s.socket = .opening → ∀ x ∈ s.log, x.connection < s.connection
  unmet : s.socket = .connecting ∨ s.socket = .opening → ¬ HasPeer s.sending.impl
  greeted : s.socket = .opened → .sent s.connection .join ∈ s.log
  answered : s.socket = .opened → HasPeer s.sending.impl → .received s.connection .joinResponse ∈ s.log

namespace Ordered
variable {s s' : Signalling} {sending : Sending} {r : SignalRequest} {σ : Signal}

theorem receive (hs : Ordered s) (hmessage : s.socket = .opened ∨ s.socket = .closing)
    (hpeer : HasPeer sending.impl → HasPeer s.sending.impl ∨ σ = .joinResponse) :
    Ordered ({ s with sending }.receive σ) where
  proper := eachAfter_concat.mpr ⟨hs.proper, trivial⟩
  past := by
    simp only [Signalling.receive, List.forall_mem_append, List.forall_mem_singleton]
    exact ⟨hs.past, le_refl _⟩
  ahead hopening := by rcases hmessage with hm | hm <;> exact absurd (hm.symm.trans hopening) (by decide)
  unmet hearly := by
    rcases hmessage with hm | hm <;> rcases hearly with he | he <;> exact absurd (hm.symm.trans he) (by decide)
  greeted hopened := List.mem_append_left _ (hs.greeted hopened)
  answered hopened hp := by
    rcases hpeer hp with hold | rfl
    · exact List.mem_append_left _ (hs.answered hopened hold)
    · exact List.mem_append_right _ List.mem_cons_self

/-- A request that is in its place on an open socket. -/
theorem send (hs : Ordered s) (hr : s.socket = .opened → Proper s.log (.sent s.connection r))
    (hopening : s.socket ≠ .opening) : Ordered (s.send r) := by
  unfold Signalling.send
  split_ifs with hopen
  · have hopened : s.socket = .opened := by
      simpa [Signalling.isOpen, hopening] using hopen
    refine ⟨eachAfter_concat.mpr ⟨hs.proper, hr hopened⟩, ?_, fun h => absurd h hopening, hs.unmet,
      fun h => List.mem_append_left _ (hs.greeted h), fun h hp => List.mem_append_left _ (hs.answered h hp)⟩
    simp only [List.forall_mem_append, List.forall_mem_singleton]
    exact ⟨hs.past, le_refl _⟩
  · exact hs

theorem of_peer (hs : Ordered s) (hpeer : HasPeer s.sending.impl) (hr : r ≠ .join) : Ordered (s.send r) := by
  refine hs.send (fun hopened => ?_) fun hopening => hs.unmet (.inr hopening) hpeer
  have hbehind : .sent s.connection .join ∈ s.log ∧ .received s.connection .joinResponse ∈ s.log :=
    ⟨hs.greeted hopened, hs.answered hopened hpeer⟩
  cases r with
  | join => exact absurd rfl hr
  | _ => exact hbehind

theorem greets (hs : Ordered s) (hopening : s.socket = .opening) :
    Ordered { s.send .join with socket := .opened } := by
  have hopen : s.isOpen = true := by simp [Signalling.isOpen, hopening]
  simp only [Signalling.send, hopen, if_true]
  refine ⟨eachAfter_concat.mpr ⟨hs.proper, hs.ahead hopening⟩, ?_, by simp, by simp, fun _ => ?_, fun _ hp => ?_⟩
  · simp only [List.forall_mem_append, List.forall_mem_singleton]
    exact ⟨hs.past, le_refl _⟩
  · exact List.mem_append_right _ List.mem_cons_self
  · exact absurd hp (hs.unmet (.inr hopening))

theorem opens (hs : Ordered s) (hconnecting : s.socket = .connecting) :
    Ordered { s with socket := .opening, connection := s.connection + 1 } where
  proper := hs.proper
  past x hx := (hs.past x hx).trans (Nat.le_succ _)
  ahead _ x hx := Nat.lt_succ_of_le (hs.past x hx)
  unmet _ := hs.unmet (.inl hconnecting)
  greeted h := by cases h
  answered h := by cases h

/-- A socket over which nothing passes. -/
theorem still {socket : Socket} (hs : Ordered s) (hopening : socket ≠ .opening) (hopened : socket ≠ .opened)
    (hconnecting : socket = .connecting → ¬ HasPeer sending.impl) : Ordered { s with sending, socket } where
  proper := hs.proper
  past := hs.past
  ahead h := absurd h hopening
  unmet h := h.elim hconnecting fun h => absurd h hopening
  greeted h := absurd h hopened
  answered h := absurd h hopened

theorem within (hs : Ordered s) (hpeer : HasPeer sending.impl → HasPeer s.sending.impl) :
    Ordered { s with sending } where
  proper := hs.proper
  past := hs.past
  ahead := hs.ahead
  unmet h hp := hs.unmet h (hpeer hp)
  greeted := hs.greeted
  answered h hp := hs.answered h (hpeer hp)

theorem signal {a : Answers} (hs : Ordered s) (hmessage : s.socket = .opened ∨ s.socket = .closing)
    (h : sendTurn s.sending (.signal σ a) = some sending) : Ordered (s.follow (.signal σ a) sending) := by
  have hreceived : Ordered ({ s with sending }.receive σ) := by
    refine hs.receive hmessage fun hp => (sendTurn_peers h hp).imp_right ?_
    rintro ⟨a', heq⟩
    exact (SendTurn.signal.inj heq).1
  simp only [Signalling.follow]
  split_ifs with hadds
  · refine hreceived.send (fun hopened => ?_) fun hopening => ?_
    · have hσ : σ = .joinResponse := by
        cases σ with
        | joinResponse => rfl
        | _ => simp [Signalling.addsTrack] at hadds
      subst hσ
      exact ⟨hreceived.greeted hopened, List.mem_append_right _ List.mem_cons_self⟩
    · rcases hmessage with hm | hm <;> exact absurd (hm.symm.trans hopening) (by decide)
  · exact hreceived

theorem returns (hs : Ordered s) (h : sendTurn s.sending .returns = some sending) :
    Ordered (s.follow .returns sending) := by
  have hpeer : HasPeer sending.impl → HasPeer s.sending.impl := fun hp =>
    (sendTurn_peers h hp).resolve_right fun ⟨a, heq⟩ => by cases heq
  simp only [Signalling.follow]
  split
  · next hc => exact hs.still (by decide) (by decide) fun _ => returns_no_peer h hc
  · exact hs.still (by decide) (by decide) fun h => by cases h
  · exact hs.within hpeer

theorem turn {t : SendTurn} (hs : Ordered s) (hpermits : s.permits t = true)
    (h : sendTurn s.sending t = some sending) : Ordered (s.follow t sending) := by
  cases t with
  | signal σ a => exact hs.signal (by simpa [Signalling.permits] using hpermits) h
  | returns => exact hs.returns h
  | _ =>
    refine hs.within fun hp => (sendTurn_peers h hp).resolve_right ?_
    rintro ⟨a, heq⟩
    cases heq

theorem step {a : SignallingTurn} (hs : Ordered s) (h : signallingTurn s a = some s') : Ordered s' := by
  cases a with
  | turn t =>
    obtain ⟨hpermits, h⟩ := Option.ite_none_right_eq_some.mp h
    obtain ⟨sending, hsend, rfl⟩ := Option.map_eq_some_iff.mp h
    exact hs.turn hpermits hsend
  | opens =>
    obtain ⟨hsocket, h⟩ := Option.ite_none_right_eq_some.mp h
    obtain rfl := Option.some.inj h
    exact hs.opens hsocket
  | greets =>
    obtain ⟨hsocket, h⟩ := Option.ite_none_right_eq_some.mp h
    obtain rfl := Option.some.inj h
    exact hs.greets hsocket
  | fails =>
    obtain ⟨-, h⟩ := Option.ite_none_right_eq_some.mp h
    obtain rfl := Option.some.inj h
    exact hs.still (by decide) (by decide) fun h => by cases h
  | shut =>
    obtain ⟨-, h⟩ := Option.ite_none_right_eq_some.mp h
    obtain rfl := Option.some.inj h
    exact hs.still (by decide) (by decide) fun h => by cases h
  | closes =>
    obtain ⟨-, h⟩ := Option.ite_none_right_eq_some.mp h
    obtain rfl := Option.some.inj h
    exact hs.still (by decide) (by decide) fun h => by cases h
  | described pc sdp =>
    obtain ⟨hpeer, h⟩ := Option.ite_none_right_eq_some.mp h
    obtain rfl := Option.some.inj h
    cases pc with
    | publisher => exact hs.of_peer (.inr hpeer) SignalRequest.noConfusion
    | subscriber => exact hs.of_peer (.inl hpeer) SignalRequest.noConfusion
  | found pc candidate =>
    obtain ⟨hpeer, h⟩ := Option.ite_none_right_eq_some.mp h
    obtain rfl := Option.some.inj h
    cases pc with
    | publisher => exact hs.of_peer (.inr hpeer) SignalRequest.noConfusion
    | subscriber => exact hs.of_peer (.inl hpeer) SignalRequest.noConfusion

end Ordered

/-! ## Runs -/

def Passed.request? (n : ℕ) : Passed → Option SignalRequest
  | .sent m r => if m = n then some r else none
  | .received _ _ => none

/-- The requests on the `n`-th connection, the earliest first. -/
def Signalling.requests (s : Signalling) (n : ℕ) : List SignalRequest := s.log.filterMap (Passed.request? n)

theorem Passed.request?_eq_some {n : ℕ} {x : Passed} {r : SignalRequest} (h : x.request? n = some r) :
    x = .sent n r := by
  cases x with
  | sent m r' =>
    obtain ⟨rfl, hr⟩ := Option.ite_none_right_eq_some.mp h
    rw [Option.some.inj hr]
  | received m σ => cases h

theorem mem_requests {log : List Passed} {n : ℕ} {r : SignalRequest} (h : .sent n r ∈ log) :
    r ∈ log.filterMap (Passed.request? n) :=
  List.mem_filterMap.mpr ⟨_, h, if_pos rfl⟩

theorem join_first_of_proper {log : List Passed} (h : EachAfter Proper log) (n : ℕ) :
    log.filterMap (Passed.request? n) = [] ∨
      ∃ rest, log.filterMap (Passed.request? n) = .join :: rest ∧ .join ∉ rest := by
  rcases hrequests : log.filterMap (Passed.request? n) with - | ⟨r, rest⟩
  · exact .inl rfl
  obtain ⟨before, x, after, rfl, hbefore, hx, hafter⟩ := List.filterMap_eq_cons_iff.mp hrequests
  obtain rfl := Passed.request?_eq_some hx
  have hnone (r : SignalRequest) : .sent n r ∉ before := fun hmem =>
    List.not_mem_nil (List.filterMap_eq_nil_iff.mpr hbefore ▸ mem_requests hmem)
  have hjoin : r = .join := by
    by_contra hr
    have hproper := h before (.sent n r) after rfl
    cases r with
    | join => exact hr rfl
    | _ => exact hnone .join hproper.1
  subst hjoin
  refine .inr ⟨rest, rfl, fun hagain => ?_⟩
  rw [← hafter] at hagain
  obtain ⟨y, hy, hyr⟩ := List.mem_filterMap.mp hagain
  obtain rfl := Passed.request?_eq_some hyr
  obtain ⟨between, rest', rfl⟩ := List.append_of_mem hy
  have hproper := h (before ++ .sent n .join :: between) (.sent n .join) rest' (by simp)
  exact lt_irrefl n (hproper (.sent n .join) (by simp))

variable {s s' : Signalling} {turns : List SignallingTurn}

theorem send_sending (s : Signalling) (r : SignalRequest) : (s.send r).sending = s.sending := by
  unfold Signalling.send
  split_ifs <;> rfl

theorem follow_signalled (s : Signalling) (t : SendTurn) (sending : Sending) :
    (s.follow t sending).sending = sending := by
  unfold Signalling.follow
  split
  · split_ifs
    · exact send_sending _ _
    · rfl
  · split <;> rfl
  · rfl

/-- With the socket and the peer connections left out, a run is a run of the connection. -/
theorem signalling_sending (h : runFrom signallingTurn s turns = some s') :
    runFrom sendTurn s.sending (turns.filterMap SignallingTurn.turn?) = some s'.sending := by
  induction turns generalizing s with
  | nil =>
    obtain rfl := Option.some.inj h
    rfl
  | cons a rest ih =>
    obtain ⟨m, hstep, hrest⟩ := runFrom_cons.mp h
    have hm := ih hrest
    cases a with
    | turn t =>
      obtain ⟨-, hstep⟩ := Option.ite_none_right_eq_some.mp hstep
      obtain ⟨sending, hsend, rfl⟩ := Option.map_eq_some_iff.mp hstep
      rw [follow_signalled] at hm
      exact runFrom_cons.mpr ⟨sending, hsend, hm⟩
    | opens | fails | shut | closes =>
      obtain ⟨-, hstep⟩ := Option.ite_none_right_eq_some.mp hstep
      obtain rfl := Option.some.inj hstep
      exact hm
    | greets | described | found =>
      obtain ⟨-, hstep⟩ := Option.ite_none_right_eq_some.mp hstep
      obtain rfl := Option.some.inj hstep
      rwa [send_sending] at hm

/-- On every connection the join request goes first and once, and whatever else is sent is behind a join
response that came on the same connection. -/
theorem join_goes_first (turns : List SignallingTurn) (h : runFrom signallingTurn {} turns = some s) :
    (∀ n, s.requests n = [] ∨ ∃ rest, s.requests n = .join :: rest ∧ .join ∉ rest) ∧
    (∀ before n r after, s.log = before ++ .sent n r :: after → r = .join ∨ .received n .joinResponse ∈ before) ∧
    runFrom sendTurn {} (turns.filterMap SignallingTurn.turn?) = some s.sending := by
  have hstart : Ordered {} := by
    constructor <;> simp [eachAfter_nil]
  have hs : Ordered s := run_invariant (C := fun _ _ => True) (fun _ _ _ hs _ hstep => hs.step hstep) hstart
    (along_of_forall fun _ _ => trivial) h
  refine ⟨join_first_of_proper hs.proper, fun before n r after hlog => ?_, signalling_sending h⟩
  have hproper := hs.proper before _ after hlog
  cases r with
  | join => exact .inl rfl
  | _ => exact .inr hproper.2

def joined : List SignallingTurn :=
  (reconnect.map .turn) ++ [.opens, .greets, .turn (.signal .joinResponse {}), .described .publisher [118]]

theorem joined_in_order : ∃ s, runFrom signallingTurn {} joined = some s ∧
    s.requests 1 = [.join, .addTrack, .offer [118]] ∧
    ∀ before n r after, s.log = before ++ .sent n r :: after → r = .join ∨ .received n .joinResponse ∈ before :=
  ⟨_, rfl, by decide, (join_goes_first joined rfl).2.1⟩

end Stoatpp.Voice
