import Stoatpp.Voice.ParserSafety

/-!
# Publishing the audio track

A voice connection goes from connected to joined to publishing, but the source keeps no such
state: a join response makes the peer connections and a published track starts the encoder
and the send thread, each whenever it comes. `Due` is the order the server has to keep for the
publisher track to start on a publisher, once.
-/

namespace Stoatpp.Voice
open Stoatpp.Library

structure PeerConnection where
  iceServers : List IceServerInfo
  deriving DecidableEq

structure Encoder where
  bitrate : ℤ
  deriving DecidableEq

/-- The part of `voice_connection::impl` that signals and `disconnect` change. -/
structure Impl where
  subPc : Option PeerConnection := none
  pubPc : Option PeerConnection := none
  /-- the track, under the id the server assigned -/
  audioTrack : Option (List UInt8) := none
  encoder : Option Encoder := none
  iceServers : List IceServerInfo := []
  joined : Bool := false
  failed : Bool := false
  /-- `send_thread.joinable()` -/
  sendThread : Bool := false
  running : Bool := false
  trackSid : List UInt8 := []
  deriving DecidableEq

def myCid : List UInt8 := "audio-track-0".toUTF8.data.toList

/-- What the libraries answer while one signal is performed: whether each call returns, or
throws, and what `opus_encoder_create` gives. -/
structure Answers where
  subscriber : Bool := true
  publisher : Bool := true
  callbacks : Bool := true
  addTrackSent : Bool := true
  described : Bool := true
  audio : Bool := true
  offered : Bool := true
  encoder : Except ℤ Encoder := .ok ⟨-1000⟩
  threadStarted : Bool := true
  deriving DecidableEq

inductive Activity where
  | performed (signal : Signal) (answers : Answers)
  /-- `initialize_publisher_track` starts in this state -/
  | publishing (s : Impl)
  deriving DecidableEq

inductive Ended where
  | exception
  /-- the process is over -/
  | crash
  deriving DecidableEq

/-- Whatever ends it, the state stays as it was left. -/
abbrev Performing := Outcome (Ended × Impl) Activity

def call (returns : Bool) (s : Impl) : Performing Unit :=
  if returns then .ret () else .throw (.exception, s)

def initializePeerConnections (a : Answers) (s : Impl) : Performing Impl := do
  call a.subscriber s
  let s := { s with subPc := some ⟨s.iceServers⟩ }
  call a.publisher s
  let s := { s with pubPc := some ⟨s.iceServers⟩ }
  call a.callbacks s
  return s

/-- The end of `parse_join_response`, behind its loop. -/
def joinResponse (a : Answers) (s : Impl) : Performing Impl := do
  let s ← initializePeerConnections a s
  let s := { s with joined := true }
  call a.addTrackSent s
  return s

def initializePublisherTrack (a : Answers) (s : Impl) : Performing Impl := do
  .emit [.publishing s]
  call a.audio s
  -- `pub_pc->addTrack` with no publisher goes through a null pointer
  if s.pubPc = none then .throw (.crash, s) else
  call a.offered s
  let s := { s with
    audioTrack := some s.trackSid
    encoder := a.encoder.toOption.map fun e => { e with bitrate := 64000 }
    running := true }
  call a.threadStarted s
  -- assigning to a joinable thread calls `std::terminate`
  if s.sendThread then .throw (.crash, s) else
  return { s with sendThread := true }

def setRemoteDescription (pc : Option PeerConnection) (a : Answers) (s : Impl) :
    Performing Impl :=
  if pc = none then .ret s else do
  call a.described s
  return s

def perform (a : Answers) (s : Impl) : Signal → Performing Impl
  | .iceServer info => .ret { s with iceServers := s.iceServers ++ [info] }
  | .joinResponse => joinResponse a s
  | .offer _ => setRemoteDescription s.subPc a s
  | .answer _ => setRemoteDescription s.pubPc a s
  | .trickle _ _ => .ret s -- whatever a candidate throws is caught
  | .trackPublished cid sid =>
    if cid = myCid ∧ sid ≠ [] then initializePublisherTrack a { s with trackSid := sid } else .ret s

/-! ## Messages -/

/-- A binary message, how far its loops have come, and the answers to each of its signals. -/
structure Handled where
  memory : Memory
  bound : ℕ
  answers : ℕ → Answers

def Handled.parsed (m : Handled) : Outcome Fault Event Unit :=
  (handleBinaryMessage m.memory).run m.bound

def Event.signal? : Event → Option Signal
  | .signal s => some s
  | _ => none

def Handled.signals (m : Handled) : List (Signal × Answers) :=
  (m.parsed.trace.filterMap Event.signal?).zipIdx.map fun x => (x.1, m.answers x.2)

def handleSignal (s : Impl) (x : Signal × Answers) : Performing Impl := do
  .emit [.performed x.1 x.2]
  perform x.2 s x.1

/-- The parser reads nothing of the connection, so its signals are performed one by one; an
exception of one of them ends the message there. -/
def Handled.handle (m : Handled) (s : Impl) : Performing Impl := do
  let s ← m.signals.foldlM handleSignal s
  match m.parsed.status with
  | .done _ => return s
  | .thrown _ => .throw (.exception, s)
  | .running => .cut

/-- After an exception the next message finds the connection as it was left, if the socket
has caught it. -/
def handleMessages : List Handled → Impl → Performing Impl
  | [], s => .ret s
  | m :: rest, s =>
    ((m.handle s).orElse fun x => if x.1 = .crash then .throw x else .ret x.2).andThen
      (handleMessages rest)

def stopThread (s : Impl) : Impl := { s with running := false, sendThread := false }

/-- `meanwhile` is what messages do that are handled before `ws.stop()` has returned. -/
def disconnect (meanwhile : Impl → Impl) (s : Impl) : Impl :=
  { meanwhile (stopThread s) with
    subPc := none
    pubPc := none
    audioTrack := none
    encoder := none
    joined := false
    failed := false }

/-- `connect`, up to the point where the socket is started. -/
def connect (meanwhile : Impl → Impl) (s : Impl) : Impl :=
  { disconnect meanwhile s with joined := false, failed := false, iceServers := [] }

/-! ## The order of the signals -/

def Fresh (s : Impl) : Prop := s.pubPc.isSome ∧ s.sendThread = false ∧ s.encoder = none

def Acts : Signal → Prop
  | .trackPublished cid sid => cid = myCid ∧ sid ≠ []
  | _ => False

def MakesPublisher : Activity → Prop
  | .performed .joinResponse a => a.subscriber ∧ a.publisher
  | _ => False

/-- The library gave the published track an encoder or a thread. -/
def Publishes : Activity → Prop
  | .performed σ a => Acts σ ∧ a.audio ∧ a.offered ∧ (a.encoder.toOption.isSome ∨ a.threadStarted)
  | _ => False

/-- A track of ours is published once, and behind a join response. -/
def Due (thread : Bool) (before : List Activity) : Activity → Prop
  | .performed σ _ => Acts σ →
    thread = false ∧ (∃ x ∈ before, MakesPublisher x) ∧ ∀ x ∈ before, ¬ Publishes x
  | .publishing _ => True

def StartsFresh (h : List Activity) : Prop := ∀ p, .publishing p ∈ h → Fresh p

structure Tracks (thread : Bool) (h : List Activity) (s : Impl) : Prop where
  publisher : s.pubPc.isSome ↔ ∃ x ∈ h, MakesPublisher x
  free : StartsFresh h →
    ((s.sendThread = false ∧ s.encoder = none) ↔ thread = false ∧ ∀ x ∈ h, ¬ Publishes x)
  due : StartsFresh h ↔ EachAfter (Due thread) h

variable {thread : Bool} {h : List Activity} {s p : Impl} {σ : Signal} {a : Answers}

theorem tracks_start (hp : s.pubPc = none) (he : s.encoder = none) : Tracks s.sendThread [] s where
  publisher := by simp [hp]
  free _ := by simp [he]
  due := iff_of_true (fun _ hp => (List.not_mem_nil hp).elim) (eachAfter_nil _)

theorem startsFresh_performed : StartsFresh (h ++ [.performed σ a]) ↔ StartsFresh h := by
  simp [StartsFresh]

theorem startsFresh_publishing : StartsFresh (h ++ [.publishing p]) ↔ StartsFresh h ∧ Fresh p := by
  simp only [StartsFresh, List.mem_append, List.mem_singleton, Activity.publishing.injEq]
  constructor
  · intro hall
    exact ⟨fun q hq => hall q (Or.inl hq), hall p (Or.inr rfl)⟩
  · rintro ⟨hall, hp⟩ q (hq | rfl)
    · exact hall q hq
    · exact hp

theorem Tracks.fresh_iff (ht : Tracks thread h s) (hf : StartsFresh h) :
    Fresh s ↔ thread = false ∧ (∃ x ∈ h, MakesPublisher x) ∧ ∀ x ∈ h, ¬ Publishes x := by
  have hfree := ht.free hf
  rw [Fresh, ht.publisher, hfree]
  tauto

/-- A signal that starts no track. -/
theorem Tracks.performed {s' : Impl} (ht : Tracks thread h s) (hσ : ¬ Acts σ)
    (hp : s'.pubPc.isSome ↔ s.pubPc.isSome ∨ MakesPublisher (.performed σ a))
    (hthread : s'.sendThread = s.sendThread) (hencoder : s'.encoder = s.encoder) :
    Tracks thread (h ++ [.performed σ a]) s' where
  publisher := by
    rw [hp, ht.publisher]
    simp [or_and_right, exists_or]
  free hf := by
    have hnot : ¬ Publishes (.performed σ a) := fun hpub => hσ hpub.1
    rw [hthread, hencoder, ht.free (startsFresh_performed.mp hf)]
    simp [or_imp, forall_and, hnot]
  due := by
    rw [startsFresh_performed, eachAfter_concat, ht.due]
    exact (and_iff_left fun hacts => absurd hacts hσ).symm

theorem Tracks.published {s' : Impl} (ht : Tracks thread h s) (hσ : Acts σ)
    (hp : Fresh p ↔ Fresh s) (hpub : s'.pubPc = s.pubPc)
    (hfree : Fresh s → ((s'.sendThread = false ∧ s'.encoder = none) ↔ ¬ Publishes (.performed σ a))) :
    Tracks thread (h ++ [.performed σ a] ++ [.publishing p]) s' where
  publisher := by
    have hnot : ¬ MakesPublisher (.performed σ a) := by
      cases σ with
      | trackPublished cid sid => exact not_false
      | _ => exact hσ.elim
    rw [hpub, ht.publisher]
    simp [or_and_right, exists_or, hnot, show ¬ MakesPublisher (.publishing p) from not_false]
  free hf := by
    obtain ⟨hf, hfresh⟩ := startsFresh_publishing.mp hf
    rw [startsFresh_performed] at hf
    rw [hp] at hfresh
    obtain ⟨hthread, -, hno⟩ := (ht.fresh_iff hf).mp hfresh
    rw [hfree hfresh]
    simpa [or_imp, forall_and, hthread, show ¬ Publishes (.publishing p) from not_false]
      using fun _ => hno
  due := by
    rw [startsFresh_publishing, startsFresh_performed, eachAfter_concat, eachAfter_concat, ← ht.due]
    constructor
    · rintro ⟨hf, hfresh⟩
      exact ⟨⟨hf, fun _ => (ht.fresh_iff hf).mp (hp.mp hfresh)⟩, trivial⟩
    · rintro ⟨⟨hf, hdue⟩, -⟩
      exact ⟨hf, hp.mpr ((ht.fresh_iff hf).mpr (hdue hσ))⟩

/-! ## Runs -/

/-- Whichever way it ends, what it leaves is tracked. -/
def Keeps (thread : Bool) (h : List Activity) (x : Performing Impl) : Prop :=
  x.Meets h (Tracks thread) (fun h y => Tracks thread h y.2)
    fun h => StartsFresh h ↔ EachAfter (Due thread) h

theorem emit_keeps {e : Activity} {f : Unit → Performing Impl}
    (hf : Keeps thread (h ++ [e]) (f ())) : Keeps thread h ((Outcome.emit [e]).andThen f) :=
  Outcome.meets_emit_andThen hf

theorem call_meets {b : Bool} {f : Unit → Performing Impl} {Q : List Activity → Impl → Prop}
    {E : List Activity → Ended × Impl → Prop} {R : List Activity → Prop}
    (hret : b = true → (f ()).Meets h Q E R) (hthrow : b = false → E h (.exception, s)) :
    ((call b s).andThen f).Meets h Q E R := by
  cases b with
  | true => exact hret rfl
  | false => exact Outcome.meets_throw (hthrow rfl)

theorem call_keeps {b : Bool} {f : Unit → Performing Impl}
    (hret : b = true → Keeps thread h (f ())) (hthrow : b = false → Tracks thread h s) :
    Keeps thread h ((call b s).andThen f) :=
  call_meets hret hthrow

theorem setRemoteDescription_keeps (pc : Option PeerConnection) (ht : Tracks thread h s) :
    Keeps thread h (setRemoteDescription pc a s) := by
  unfold setRemoteDescription
  split_ifs
  · exact Outcome.meets_ret ht
  · exact call_keeps (fun _ => Outcome.meets_ret ht) fun _ => ht

theorem joinResponse_keeps (ht : Tracks thread h s) :
    Keeps thread (h ++ [.performed .joinResponse a]) (joinResponse a s) := by
  refine Outcome.Meets.andThen (Q := Tracks thread) ?_ fun h' s' ht' => ?_
  · refine call_keeps (fun hsub => call_keeps (fun hmade => ?_) fun hmade => ?_) fun hsub => ?_
    · have ht' : Tracks thread (h ++ [.performed .joinResponse a])
          { s with subPc := some ⟨s.iceServers⟩, pubPc := some ⟨s.iceServers⟩ } :=
        ht.performed not_false (iff_of_true rfl (Or.inr ⟨hsub, hmade⟩)) rfl rfl
      exact call_keeps (fun _ => Outcome.meets_ret ht') fun _ => ht'
    · exact ht.performed not_false (by simp [MakesPublisher, hmade]) rfl rfl
    · exact ht.performed not_false (by simp [MakesPublisher, hsub]) rfl rfl
  · have ht' : Tracks thread h' { s' with joined := true } := ⟨ht'.publisher, ht'.free, ht'.due⟩
    exact call_keeps (fun _ => Outcome.meets_ret ht') fun _ => ht'

theorem initializePublisherTrack_keeps {sid : List UInt8} (ht : Tracks thread h s) (hσ : Acts σ) :
    Keeps thread (h ++ [.performed σ a])
      (initializePublisherTrack a { s with trackSid := sid }) := by
  refine emit_keeps ?_
  refine call_keeps (fun haudio => ?_) fun haudio => ?_
  · split_ifs with hnone
    · refine Outcome.meets_throw (ht.published hσ Iff.rfl rfl fun hfresh => ?_)
      rw [Fresh, show s.pubPc = none from hnone] at hfresh
      exact absurd hfresh.1 (by simp)
    · refine call_keeps (fun hoffered => call_keeps (fun hstarted => ?_) fun hstarted => ?_)
        fun hoffered => ?_
      · split_ifs with hjoinable
        · refine Outcome.meets_throw (ht.published hσ Iff.rfl rfl fun hfresh => ?_)
          exact absurd (hfresh.2.1.symm.trans hjoinable) (by simp)
        · refine Outcome.meets_ret (ht.published hσ Iff.rfl rfl fun _ => ?_)
          simp [Publishes, hσ, haudio, hoffered, hstarted]
      · refine ht.published hσ Iff.rfl rfl fun hfresh => ?_
        simp [Publishes, hσ, haudio, hoffered, hstarted, hfresh.2.1]
      · refine ht.published hσ Iff.rfl rfl fun hfresh => ?_
        simp [Publishes, hoffered, hfresh.2]
  · refine ht.published hσ Iff.rfl rfl fun hfresh => ?_
    simp [Publishes, haudio, hfresh.2]

theorem handleSignal_keeps (ht : Tracks thread h s) (x : Signal × Answers) :
    Keeps thread h (handleSignal s x) := by
  obtain ⟨σ, a⟩ := x
  refine emit_keeps ?_
  have hquiet : ¬ Acts σ → ¬ MakesPublisher (.performed σ a) →
      Tracks thread (h ++ [.performed σ a]) s := fun hσ hjoin =>
    ht.performed hσ (or_iff_left hjoin).symm rfl rfl
  cases σ with
  | iceServer info =>
    exact Outcome.meets_ret (ht.performed not_false (or_iff_left not_false).symm rfl rfl)
  | joinResponse => exact joinResponse_keeps ht
  | offer sdp => exact setRemoteDescription_keeps _ (hquiet not_false not_false)
  | answer sdp => exact setRemoteDescription_keeps _ (hquiet not_false not_false)
  | trickle candidate target => exact Outcome.meets_ret (hquiet not_false not_false)
  | trackPublished cid sid =>
    simp only [perform]
    split_ifs with hσ
    · exact initializePublisherTrack_keeps ht hσ
    · exact Outcome.meets_ret (hquiet hσ not_false)

theorem signals_keep (xs : List (Signal × Answers)) (ht : Tracks thread h s) :
    Keeps thread h (xs.foldlM handleSignal s) := by
  induction xs generalizing h s with
  | nil => exact Outcome.meets_ret ht
  | cons x rest ih =>
    rw [List.foldlM_cons]
    exact (handleSignal_keeps ht x).andThen fun _ _ ht' => ih ht'

theorem handle_keeps (m : Handled) (ht : Tracks thread h s) : Keeps thread h (m.handle s) := by
  refine (signals_keep m.signals ht).andThen fun h' s' ht' => ?_
  cases m.parsed.status with
  | done _ => exact Outcome.meets_ret ht'
  | thrown _ => exact Outcome.meets_throw ht'
  | running => exact Outcome.meets_cut ht'.due

theorem handleMessages_keeps (messages : List Handled) (ht : Tracks thread h s) :
    Keeps thread h (handleMessages messages s) := by
  induction messages generalizing h s with
  | nil => exact Outcome.meets_ret ht
  | cons m rest ih =>
    refine ((handle_keeps m ht).orElse fun h' y ht' => ?_).andThen fun _ _ ht' => ih ht'
    split_ifs
    · exact Outcome.meets_throw ht'
    · exact Outcome.meets_ret ht'

/-- Every publisher track starts on a publisher, with no thread and no encoder yet, exactly if
the server sends a published track of ours once and behind a join response. -/
theorem publisher_starts_fresh_iff (meanwhile : Impl → Impl) (s : Impl) (messages : List Handled) :
    StartsFresh (handleMessages messages (connect meanwhile s)).trace ↔
      EachAfter (Due (meanwhile (stopThread s)).sendThread)
        (handleMessages messages (connect meanwhile s)).trace := by
  have ht : Tracks (meanwhile (stopThread s)).sendThread [] (connect meanwhile s) :=
    tracks_start (s := connect meanwhile s) rfl rfl
  have hkeeps := handleMessages_keeps messages ht
  exact Outcome.Meets.trace (hkeeps.imp (fun _ _ ht' => ht'.due) (fun _ _ ht' => ht'.due)
    fun _ hr => hr)

def published : Handled where
  memory := .ofBytes ([0x32, 0x14, 0x0A, 0x0D] ++ myCid ++ [0x12, 0x03, 0x0A, 0x01, 0x53])
    (by decide)
  bound := 4
  answers _ := {}

theorem published_early : ¬ StartsFresh (handleMessages [published] (connect id {})).trace := by
  intro h
  have hstart : Activity.publishing { trackSid := [0x53] } ∈
      (handleMessages [published] (connect id {})).trace := by
    decide
  exact absurd (h _ hstart).1 (by decide)

end Stoatpp.Voice
