import Stoatpp.Library.Runs
import Stoatpp.Voice.Publishing

/-!
# Sending audio

`write_pcm` puts samples into a queue and the send thread cuts frames off it. The queue belongs
to the connection object: `stop_thread`, `disconnect` and `connect` leave it as it is, so what a
session has not sent is what the next one starts with. `Accounted` says where every sample is.
-/

namespace Stoatpp.Voice
open Stoatpp.Library

def frameSize : ℕ := 960

inductive SendLoop where
  | absent
  | waiting
  /-- a frame has left the queue and is still to be encoded -/
  | cut (frame : List Int16)
  | ended
  deriving DecidableEq

def SendLoop.inHand : SendLoop → List Int16
  | .cut frame => frame
  | _ => []

/-- The three that call `stop_thread`; `closed` is the Close callback of the socket. -/
inductive Call where
  | closed
  | disconnect
  | connect
  deriving DecidableEq

inductive Caller where
  | idle
  | joining (c : Call)
  | joined (c : Call)
  deriving DecidableEq

/-- What has happened since the last `connect`. -/
structure Session where
  leftover : List Int16 := []
  accepted : List (List Int16) := []
  /-- the frames the loop came to encode, each with whether it found the track open and an
  encoder -/
  turns : List (List Int16 × Bool) := []
  handed : List (List Int16) := []
  deriving DecidableEq

structure Sending where
  impl : Impl := {}
  pcmQueue : List Int16 := []
  loop : SendLoop := .absent
  caller : Caller := .idle
  session : Session := {}
  deriving DecidableEq

inductive SendTurn where
  | signal (σ : Signal) (a : Answers)
  | call (c : Call)
  | join
  | returns
  | writePcm (block : List Int16)
  | cut
  | encode (isOpen : Bool)
  | leave
  deriving DecidableEq

namespace Sending
variable {s t : Sending}

/-- A thread that was not there runs `send_loop` from its start. -/
def signalled (s : Sending) (impl : Impl) : Sending :=
  { s with
    impl
    loop := if !s.impl.sendThread && impl.sendThread then .waiting else s.loop }

def signal (σ : Signal) (a : Answers) (s : Sending) : Option Sending :=
  match (perform a s.impl σ).status with
  | .done impl => some (s.signalled impl)
  | .thrown (.exception, impl) => some (s.signalled impl)
  | _ => none

/-- The critical section of `stop_thread`. -/
def call (c : Call) (s : Sending) : Option Sending :=
  if s.caller = .idle then
    some { s with impl := { s.impl with running := false }, caller := .joining c }
  else none

/-- `send_thread.join()` returns when the thread has left its loop. -/
def join (s : Sending) : Option Sending :=
  match s.caller with
  | .joining c =>
    if s.impl.sendThread = false ∨ s.loop = .ended then
      some { s with
        impl := { s.impl with sendThread := false }
        loop := .absent
        caller := .joined c }
    else none
  | _ => none

/-- Signals that came while `ws.stop()` was running have been performed on `impl` already. -/
def returns (s : Sending) : Option Sending :=
  match s.caller with
  | .joined .closed => some { s with caller := .idle }
  | .joined .disconnect => some { s with
      impl := disconnect (fun _ => s.impl) s.impl
      caller := .idle }
  | .joined .connect => some { s with
      impl := connect (fun _ => s.impl) s.impl
      caller := .idle
      session := { leftover := s.loop.inHand ++ s.pcmQueue } }
  | _ => none

def writePcm (block : List Int16) (s : Sending) : Sending :=
  if s.impl.running then
    { s with
      pcmQueue := s.pcmQueue ++ block
      session := { s.session with accepted := s.session.accepted ++ [block] } }
  else s

def cut (s : Sending) : Option Sending :=
  if s.loop = .waiting ∧ s.impl.running ∧ frameSize ≤ s.pcmQueue.length then
    some { s with
      pcmQueue := s.pcmQueue.drop frameSize
      loop := .cut (s.pcmQueue.take frameSize) }
  else none

def ready (isOpen : Bool) (s : Sending) : Bool :=
  s.impl.audioTrack.isSome && isOpen && s.impl.encoder.isSome

def encode (isOpen : Bool) (s : Sending) : Option Sending :=
  match s.loop with
  | .cut frame => some { s with
      loop := .waiting
      session := { s.session with
        turns := s.session.turns ++ [(frame, s.ready isOpen)]
        handed := if s.ready isOpen then s.session.handed ++ [frame] else s.session.handed } }
  | _ => none

def leave (s : Sending) : Option Sending :=
  if s.loop = .waiting ∧ s.impl.running = false then some { s with loop := .ended } else none

end Sending

def sendTurn (s : Sending) : SendTurn → Option Sending
  | .signal σ a => s.signal σ a
  | .call c => s.call c
  | .join => s.join
  | .returns => s.returns
  | .writePcm block => some (s.writePcm block)
  | .cut => s.cut
  | .encode isOpen => s.encode isOpen
  | .leave => s.leave

/-! ## Where the samples are -/

structure Accounted (s : Sending) : Prop where
  samples : s.session.leftover ++ s.session.accepted.flatten =
    (s.session.turns.map Prod.fst).flatten ++ s.loop.inHand ++ s.pcmQueue
  whole : ∀ x ∈ s.session.turns, x.1.length = frameSize
  next : ∀ frame, s.loop = .cut frame → frame.length = frameSize
  handed : s.session.handed = (s.session.turns.filter Prod.snd).map Prod.fst
  absent : s.impl.sendThread = false → s.loop = .absent

variable {s t : Sending}

def ThreadKept (s : Impl) (x : Performing Impl) : Prop :=
  x.Meets [] (fun _ s' => s.sendThread → s'.sendThread) (fun _ y => s.sendThread → y.2.sendThread)
    fun _ => True

theorem threadKept_perform (p : Impl) (σ : Signal) (a : Answers) :
    ThreadKept p (perform a p σ) := by
  have hdescribed (pc : Option PeerConnection) : ThreadKept p (setRemoteDescription pc a p) := by
    unfold setRemoteDescription
    split_ifs
    · exact Outcome.meets_ret id
    · exact call_meets (fun _ => Outcome.meets_ret id) fun _ => id
  cases σ with
  | iceServer info => exact Outcome.meets_ret id
  | joinResponse =>
    refine Outcome.Meets.andThen (Q := fun _ q => p.sendThread → q.sendThread) ?_ fun _ q hq => ?_
    · exact call_meets (fun _ => call_meets (fun _ => call_meets (fun _ => Outcome.meets_ret id)
        fun _ => id) fun _ => id) fun _ => id
    · exact call_meets (fun _ => Outcome.meets_ret hq) fun _ => hq
  | offer sdp => exact hdescribed _
  | answer sdp => exact hdescribed _
  | trickle candidate target => exact Outcome.meets_ret id
  | trackPublished cid sid =>
    simp only [perform]
    split_ifs
    · unfold ThreadKept initializePublisherTrack
      refine Outcome.meets_emit_andThen ?_
      refine call_meets (fun _ => ?_) fun _ => id
      split_ifs
      · exact Outcome.meets_throw id
      · refine call_meets (fun _ => call_meets (fun _ => ?_) fun _ => id) fun _ => id
        split_ifs
        · exact Outcome.meets_throw id
        · exact Outcome.meets_ret fun _ => rfl
    · exact Outcome.meets_ret id

theorem Sending.signal_eq {σ : Signal} {a : Answers} (h : s.signal σ a = some t) :
    ∃ impl : Impl, (s.impl.sendThread → impl.sendThread) ∧ t = s.signalled impl := by
  have hkept := threadKept_perform s.impl σ a
  unfold ThreadKept Outcome.Meets at hkept
  unfold Sending.signal at h
  split at h
  · next impl hs =>
    rw [hs] at hkept
    exact ⟨impl, hkept, (Option.some.inj h).symm⟩
  · next impl hs =>
    rw [hs] at hkept
    exact ⟨impl, hkept, (Option.some.inj h).symm⟩
  · exact absurd h (by simp)

theorem Accounted.signalled {impl : Impl} (hs : Accounted s)
    (hkept : s.impl.sendThread → impl.sendThread) : Accounted (s.signalled impl) := by
  by_cases hnew : s.impl.sendThread = false ∧ impl.sendThread = true
  · have hloop : (s.signalled impl).loop = .waiting := by simp [Sending.signalled, hnew]
    have hsamples := hs.samples
    rw [hs.absent hnew.1] at hsamples
    exact ⟨by rw [hloop]; exact hsamples, hs.whole, fun _ h => by simp [hloop] at h, hs.handed,
      fun h => absurd (hnew.2.symm.trans h) (by simp)⟩
  · have hloop : (s.signalled impl).loop = s.loop := by
      have hsame : (!s.impl.sendThread && impl.sendThread) = false :=
        Bool.eq_false_iff.mpr fun hboth => hnew (by simpa using hboth)
      simp [Sending.signalled, hsame]
    refine ⟨by rw [hloop]; exact hs.samples, hs.whole, fun f h => hs.next f (hloop ▸ h),
      hs.handed, fun h => ?_⟩
    rw [hloop]
    exact hs.absent (Bool.eq_false_iff.mpr fun hthread => absurd (h.symm.trans (hkept hthread)) (by simp))

theorem Accounted.joined (hs : Accounted s) (h : s.join = some t) : Accounted t := by
  unfold Sending.join at h
  split at h
  · split_ifs at h with hended
    obtain rfl := Option.some.inj h
    have hnone : s.loop.inHand = [] := by
      rcases hended with hended | hended
      · rw [hs.absent hended]; rfl
      · rw [hended]; rfl
    have hsamples := hs.samples
    rw [hnone] at hsamples
    exact ⟨hsamples, hs.whole, by simp, hs.handed, fun _ => rfl⟩
  · exact absurd h (by simp)

theorem Accounted.returned (hs : Accounted s) (h : s.returns = some t) : Accounted t := by
  unfold Sending.returns at h
  split at h
  · obtain rfl := Option.some.inj h
    exact ⟨hs.samples, hs.whole, hs.next, hs.handed, hs.absent⟩
  · obtain rfl := Option.some.inj h
    exact ⟨hs.samples, hs.whole, hs.next, hs.handed, hs.absent⟩
  · obtain rfl := Option.some.inj h
    exact ⟨by simp, by simp, hs.next, rfl, hs.absent⟩
  · exact absurd h (by simp)

theorem Accounted.written (hs : Accounted s) (block : List Int16) :
    Accounted (s.writePcm block) := by
  unfold Sending.writePcm
  split_ifs
  · refine ⟨?_, hs.whole, hs.next, hs.handed, hs.absent⟩
    have hsamples := congrArg (· ++ block) hs.samples
    simpa only [List.flatten_append, List.flatten_singleton, List.append_assoc] using hsamples
  · exact hs

theorem Accounted.cut (hs : Accounted s) (h : s.cut = some t) : Accounted t := by
  unfold Sending.cut at h
  split_ifs at h with hready
  obtain rfl := Option.some.inj h
  obtain ⟨hloop, -, hlength⟩ := hready
  refine ⟨?_, hs.whole, fun f hf => ?_, hs.handed, fun hthread => ?_⟩
  · have hsamples := hs.samples
    rw [hloop] at hsamples
    simpa [SendLoop.inHand, List.append_assoc] using hsamples
  · obtain rfl := SendLoop.cut.inj hf
    exact List.length_take_of_le hlength
  · exact absurd (hloop.symm.trans (hs.absent hthread)) (by simp)

theorem Accounted.encoded {isOpen : Bool} (hs : Accounted s) (h : s.encode isOpen = some t) :
    Accounted t := by
  unfold Sending.encode at h
  split at h
  · next frame hloop =>
    obtain rfl := Option.some.inj h
    refine ⟨?_, ?_, by simp, ?_, fun hthread => ?_⟩
    · have hsamples := hs.samples
      rw [hloop] at hsamples
      simpa [SendLoop.inHand, List.append_assoc] using hsamples
    · simpa [or_imp, forall_and, hs.next frame hloop] using hs.whole
    · cases s.ready isOpen <;> simp [hs.handed]
    · exact absurd (hloop.symm.trans (hs.absent hthread)) (by simp)
  · exact absurd h (by simp)

theorem Accounted.left (hs : Accounted s) (h : s.leave = some t) : Accounted t := by
  unfold Sending.leave at h
  split_ifs at h with hwaiting
  obtain rfl := Option.some.inj h
  have hsamples := hs.samples
  rw [hwaiting.1] at hsamples
  exact ⟨hsamples, hs.whole, by simp, hs.handed,
    fun hthread => absurd (hwaiting.1.symm.trans (hs.absent hthread)) (by simp)⟩

theorem accounted_step {turn : SendTurn} (hs : Accounted s) (h : sendTurn s turn = some t) :
    Accounted t := by
  cases turn with
  | signal σ a =>
    obtain ⟨impl, hkept, rfl⟩ := Sending.signal_eq h
    exact hs.signalled hkept
  | call c =>
    simp only [sendTurn, Sending.call] at h
    split_ifs at h
    obtain rfl := Option.some.inj h
    exact ⟨hs.samples, hs.whole, hs.next, hs.handed, hs.absent⟩
  | join => exact hs.joined h
  | returns => exact hs.returned h
  | writePcm block =>
    obtain rfl := Option.some.inj h
    exact hs.written block
  | cut => exact hs.cut h
  | encode isOpen => exact hs.encoded h
  | leave => exact hs.left h

theorem accounted_start : Accounted {} := ⟨rfl, by simp, by simp, rfl, fun _ => rfl⟩

theorem accounted_run {turns : List SendTurn} (h : runFrom sendTurn {} turns = some t) :
    Accounted t :=
  run_invariant (C := fun _ _ => True) (fun _ _ _ hs _ hstep => accounted_step hs hstep)
    accounted_start (along_of_forall fun _ _ => trivial) h

/-- A session that starts with nothing left over cuts its frames off what it has accepted, one
behind the other, and hands over those whose turn finds the track open and an encoder. -/
theorem frames_of_session (turns : List SendTurn) (h : runFrom sendTurn {} turns = some t)
    (hclean : t.session.leftover = []) :
    (t.session.turns.map Prod.fst).flatten <+: t.session.accepted.flatten ∧
      (∀ x ∈ t.session.turns, x.1.length = frameSize) ∧
      t.session.handed = (t.session.turns.filter Prod.snd).map Prod.fst ∧
      ((∀ x ∈ t.session.turns, x.2 = true) →
        t.session.handed.flatten <+: t.session.accepted.flatten) := by
  have ht := accounted_run h
  have hcut : (t.session.turns.map Prod.fst).flatten <+: t.session.accepted.flatten := by
    have hsamples := ht.samples
    rw [hclean, List.nil_append, List.append_assoc] at hsamples
    exact ⟨_, hsamples.symm⟩
  refine ⟨hcut, ht.whole, ht.handed, fun hready => ?_⟩
  rw [ht.handed, List.filter_eq_self.mpr hready]
  exact hcut

/-- Connecting, with whatever was there before stopped. -/
def reconnect : List SendTurn := [.call .connect, .join, .returns]

def publish : List SendTurn :=
  [.signal .joinResponse {}, .signal (.trackPublished myCid [0x53]) {}]

def block (x : Int16) : List Int16 := List.replicate frameSize x

def keptOver : List SendTurn :=
  reconnect ++ publish ++ [.writePcm (block 1), .call .disconnect, .leave, .join, .returns] ++
    reconnect ++ publish ++ [.writePcm (block 2), .cut, .encode true]

def openedLate : List SendTurn :=
  reconnect ++ publish ++
    [.writePcm (block 1), .cut, .encode false, .writePcm (block 2), .cut, .encode true]

theorem openedLate_frames : ∃ t, runFrom sendTurn {} openedLate = some t ∧
    t.session.leftover = [] ∧ (t.session.turns.map Prod.fst).flatten <+: t.session.accepted.flatten := by
  have hstart : (runFrom sendTurn {} openedLate).map (fun t => t.session.leftover) = some [] := by
    decide +kernel
  obtain ⟨t, ht, hclean⟩ := Option.map_eq_some_iff.mp hstart
  exact ⟨t, ht, hclean, (frames_of_session openedLate ht hclean).1⟩

theorem stale_or_skipped_frame :
    (∃ t, runFrom sendTurn {} keptOver = some t ∧
      ¬ t.session.handed.flatten <+: t.session.accepted.flatten) ∧
    ∃ t, runFrom sendTurn {} openedLate = some t ∧
      ¬ t.session.handed.flatten <+: t.session.accepted.flatten := by
  have hstray (turns : List SendTurn) (h : (runFrom sendTurn {} turns).any
      (fun t => !t.session.handed.flatten.isPrefixOf t.session.accepted.flatten) = true) :
      ∃ t, runFrom sendTurn {} turns = some t ∧
        ¬ t.session.handed.flatten <+: t.session.accepted.flatten := by
    obtain ⟨t, ht, hno⟩ := (Option.any_eq_true _ _).mp h
    exact ⟨t, ht, fun hcut => by simp [List.isPrefixOf_iff_prefix.mpr hcut] at hno⟩
  exact ⟨hstray keptOver (by decide +kernel), hstray openedLate (by decide +kernel)⟩

end Stoatpp.Voice
