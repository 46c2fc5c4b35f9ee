import Stoatpp.Library.Pacing
import Stoatpp.Voice.Sending

/-!
# The pace of the send loop

Between two frames `send_loop` sleeps until a due time that moves on by 20 ms a frame; when it
wakes more than 100 ms late it starts over from the present. Here its turns carry the steady
clock, in nanoseconds, and the time at which each frame comes to the encoder.
-/

namespace Stoatpp.Voice
open Stoatpp.Library

def millis (n : ℤ) : ℤ := n * 1000000

/-- Where the loop stands between two frames. -/
inductive Pace where
  /-- before `next_time` has its first value -/
  | starting
  | ready
  | encoded
  | asleep
  | awake
  /-- more than 100 ms late, and about to read the clock again -/
  | late
  deriving DecidableEq

structure Paced where
  sending : Sending := {}
  now : ℤ := 0
  nextTime : ℤ := 0
  pace : Pace := .ready
  /-- when this loop's frames came to the encoder, the latest first -/
  times : List ℤ := []
  /-- the first `next_time` of this loop -/
  begun : ℤ := 0
  deriving DecidableEq

inductive PacedTurn where
  | wait (ns : ℕ)
  | turn (t : SendTurn)
  | begins
  | sleep
  | wake
  | check
  | startOver
  deriving DecidableEq

/-- A frame is cut, and the loop left, only where it waits for samples. -/
def SendTurn.inPace (pace : Pace) : SendTurn → Bool
  | .cut => pace = .ready
  | .leave => pace = .ready
  | _ => true

namespace Paced

/-- What a turn of the connection is for the loop. -/
def follow (s : Paced) (t : SendTurn) (sending : Sending) : Paced :=
  match t with
  | .encode _ => { s with sending, pace := .encoded, times := s.now :: s.times }
  | .signal _ _ =>
    if !s.sending.impl.sendThread && sending.impl.sendThread then
      { s with sending, pace := .starting, times := [] }
    else { s with sending }
  | _ => { s with sending }

end Paced

def pacedTurn (s : Paced) : PacedTurn → Option Paced
  | .wait ns => some { s with now := s.now + ns }
  | .turn t => if t.inPace s.pace then (sendTurn s.sending t).map (s.follow t) else none
  | .begins =>
    if s.pace = .starting then some { s with pace := .ready, nextTime := s.now, begun := s.now } else none
  | .sleep =>
    if s.pace = .encoded then some { s with pace := .asleep, nextTime := s.nextTime + millis 20 } else none
  | .wake => if s.pace = .asleep ∧ s.nextTime ≤ s.now then some { s with pace := .awake } else none
  | .check =>
    if s.pace = .awake then
      some { s with pace := if s.nextTime + millis 100 < s.now then .late else .ready }
    else none
  | .startOver => if s.pace = .late then some { s with pace := .ready, nextTime := s.now } else none

def PacedTurn.turn? : PacedTurn → Option SendTurn
  | .turn t => some t
  | _ => none

variable {s s' : Paced} {a : PacedTurn} {turns : List PacedTurn}

theorem follow_sending (s : Paced) (t : SendTurn) (sending : Sending) : (s.follow t sending).sending = sending := by
  unfold Paced.follow
  split
  · rfl
  · split_ifs <;> rfl
  · rfl

/-- With the clock and the pace left out, a run is a run of the connection. -/
theorem paced_sending (h : runFrom pacedTurn s turns = some s') :
    runFrom sendTurn s.sending (turns.filterMap PacedTurn.turn?) = some s'.sending := by
  induction turns generalizing s with
  | nil =>
    obtain rfl := Option.some.inj h
    rfl
  | cons a rest ih =>
    obtain ⟨m, hstep, hrest⟩ := runFrom_cons.mp h
    have hm := ih hrest
    cases a with
    | turn t =>
      simp only [pacedTurn] at hstep
      split_ifs at hstep
      obtain ⟨sending, hsend, rfl⟩ := Option.map_eq_some_iff.mp hstep
      rw [follow_sending] at hm
      exact runFrom_cons.mpr ⟨sending, hsend, hm⟩
    | wait ns =>
      obtain rfl := Option.some.inj hstep
      exact hm
    | _ =>
      obtain ⟨-, hstep⟩ := Option.ite_none_right_eq_some.mp hstep
      obtain rfl := Option.some.inj hstep
      exact hm

/-! ## The due time and the times of the frames -/

abbrev frameGap : ℤ := millis 20
abbrev frameSlack : ℤ := millis 120

/-- The frame that is on its way, the first of `times`, counts once its due time is set. -/
def Placed (s : Paced) : Prop :=
  match s.pace with
  | .starting => s.times = []
  | .ready => s.nextTime ≤ s.now ∧ Behind frameGap frameSlack s.nextTime s.times ∧
      s.begun + frameGap * s.times.length ≤ s.nextTime
  | .encoded => Behind frameGap frameSlack s.nextTime s.times.tail ∧
      s.begun + frameGap * s.times.tail.length ≤ s.nextTime
  | .asleep => Behind frameGap frameSlack (s.nextTime - frameGap) s.times.tail ∧
      s.begun + frameGap * s.times.length ≤ s.nextTime
  | .awake => s.nextTime ≤ s.now ∧ Behind frameGap frameSlack (s.nextTime - frameGap) s.times.tail ∧
      s.begun + frameGap * s.times.length ≤ s.nextTime
  | .late => s.nextTime + millis 100 < s.now ∧
      Behind frameGap frameSlack (s.nextTime - frameGap) s.times.tail ∧
      s.begun + frameGap * s.times.length ≤ s.nextTime

structure OnPace (s : Paced) : Prop where
  past : ∀ t ∈ s.times, t ≤ s.now
  spaced : Spaced frameGap frameSlack s.times
  notAhead : NotAhead frameGap s.begun s.times
  cut : ∀ frame, s.sending.loop = .cut frame → s.pace = .ready
  placed : Placed s

theorem loop_cut {s t : Sending} {turn : SendTurn} (h : sendTurn s turn = some t) {frame : List Int16}
    (hloop : t.loop = .cut frame) : turn = .cut ∨ s.loop = .cut frame := by
  cases turn with
  | signal σ a =>
    obtain ⟨impl, -, rfl⟩ := Sending.signal_eq h
    simp only [Sending.signalled] at hloop
    split_ifs at hloop
    exact Or.inr hloop
  | cut => exact Or.inl rfl
  | call c =>
    obtain ⟨-, h⟩ := Option.ite_none_right_eq_some.mp h
    obtain rfl := Option.some.inj h
    exact Or.inr hloop
  | join =>
    simp only [sendTurn, Sending.join] at h
    split at h
    · obtain ⟨-, h⟩ := Option.ite_none_right_eq_some.mp h
      obtain rfl := Option.some.inj h
      cases hloop
    · cases h
  | returns =>
    simp only [sendTurn, Sending.returns] at h
    split at h
    · obtain rfl := Option.some.inj h
      exact Or.inr hloop
    · obtain rfl := Option.some.inj h
      exact Or.inr hloop
    · obtain rfl := Option.some.inj h
      exact Or.inr hloop
    · cases h
  | writePcm block =>
    obtain rfl := Option.some.inj h
    simp only [Sending.writePcm] at hloop
    split_ifs at hloop <;> exact Or.inr hloop
  | encode isOpen =>
    simp only [sendTurn, Sending.encode] at h
    split at h
    · obtain rfl := Option.some.inj h
      cases hloop
    · cases h
  | leave =>
    obtain ⟨-, h⟩ := Option.ite_none_right_eq_some.mp h
    obtain rfl := Option.some.inj h
    cases hloop

theorem OnPace.turned {t : SendTurn} (hs : OnPace s) (h : pacedTurn s (.turn t) = some s') : OnPace s' := by
  simp only [pacedTurn] at h
  obtain ⟨hpace, h⟩ := Option.ite_none_right_eq_some.mp h
  obtain ⟨sending, hsend, rfl⟩ := Option.map_eq_some_iff.mp h
  have hcut (frame : List Int16) (hloop : sending.loop = .cut frame) : s.pace = .ready := by
    obtain rfl | hold := loop_cut hsend hloop
    · exact of_decide_eq_true hpace
    · exact hs.cut frame hold
  cases t with
  | encode isOpen =>
    have hready : s.pace = .ready := by
      simp only [sendTurn, Sending.encode] at hsend
      split at hsend
      · next frame hloop => exact hs.cut frame hloop
      · cases hsend
    have hloop : sending.loop = .waiting := by
      simp only [sendTurn, Sending.encode] at hsend
      split at hsend
      · obtain rfl := Option.some.inj hsend
        rfl
      · cases hsend
    have hplaced := hs.placed
    simp only [Placed, hready] at hplaced
    obtain ⟨hdue, hbehind, hbegun⟩ := hplaced
    exact ⟨List.forall_mem_cons.mpr ⟨Int.le_refl _, hs.past⟩, ⟨hbehind.mono hdue, hs.spaced⟩,
      ⟨Int.le_trans hbegun hdue, hs.notAhead⟩, fun frame hframe => absurd (hloop.symm.trans hframe) (by simp),
      ⟨hbehind, hbegun⟩⟩
  | signal σ a =>
    simp only [Paced.follow] at hcut ⊢
    split_ifs with hnew
    · refine ⟨List.forall_mem_nil _, trivial, trivial, fun frame hframe => ?_, rfl⟩
      obtain ⟨impl, -, rfl⟩ := Sending.signal_eq hsend
      have hthread : (!s.sending.impl.sendThread && impl.sendThread) = true := hnew
      simp only [Sending.signalled, hthread, if_true] at hframe
      cases hframe
    · exact ⟨hs.past, hs.spaced, hs.notAhead, hcut, hs.placed⟩
  | _ => exact ⟨hs.past, hs.spaced, hs.notAhead, hcut, hs.placed⟩

theorem onPace_step (hs : OnPace s) (h : pacedTurn s a = some s') : OnPace s' := by
  have hplaced := hs.placed
  -- where the loop is not waiting for samples it has no frame in hand
  have hnoFrame {p : Pace} (hp : s.pace = p) (hne : p ≠ .ready) (frame : List Int16) :
      s.sending.loop ≠ .cut frame := fun hloop => hne (hp ▸ hs.cut frame hloop)
  cases a with
  | turn t => exact hs.turned h
  | wait ns =>
    obtain rfl := Option.some.inj h
    refine ⟨fun t ht => by have := hs.past t ht; simp only; omega, hs.spaced, hs.notAhead, hs.cut, ?_⟩
    revert hplaced
    simp only [Placed]
    cases s.pace with
    | starting => exact id
    | ready => exact fun ⟨hdue, hrest⟩ => ⟨by omega, hrest⟩
    | encoded => exact id
    | asleep => exact id
    | awake => exact fun ⟨hdue, hrest⟩ => ⟨by omega, hrest⟩
    | late => exact fun ⟨hlate, hrest⟩ => ⟨by omega, hrest⟩
  | begins =>
    obtain ⟨hpace, h⟩ := Option.ite_none_right_eq_some.mp h
    obtain rfl := Option.some.inj h
    simp only [Placed, hpace] at hplaced
    refine ⟨hs.past, hs.spaced, by simp only [hplaced]; trivial, fun _ _ => rfl, ?_⟩
    simp only [Placed, hplaced]
    exact ⟨Int.le_refl _, trivial, by simp⟩
  | sleep =>
    obtain ⟨hpace, h⟩ := Option.ite_none_right_eq_some.mp h
    obtain rfl := Option.some.inj h
    simp only [Placed, hpace] at hplaced
    obtain ⟨hbehind, hbegun⟩ := hplaced
    refine ⟨hs.past, hs.spaced, hs.notAhead,
      fun frame hloop => absurd hloop (hnoFrame hpace (by decide) frame), ?_⟩
    simp only [Placed]
    refine ⟨by simpa only [frameGap, Int.add_sub_cancel] using hbehind, ?_⟩
    have hlength : (s.times.length : ℤ) ≤ s.times.tail.length + 1 := by
      rw [List.length_tail]
      omega
    simp only [frameGap, millis] at hbegun ⊢
    omega
  | wake =>
    obtain ⟨⟨hpace, hdue⟩, h⟩ := Option.ite_none_right_eq_some.mp h
    obtain rfl := Option.some.inj h
    simp only [Placed, hpace] at hplaced
    exact ⟨hs.past, hs.spaced, hs.notAhead, fun frame hloop => absurd hloop (hnoFrame hpace (by decide) frame),
      hdue, hplaced⟩
  | check =>
    obtain ⟨hpace, h⟩ := Option.ite_none_right_eq_some.mp h
    obtain rfl := Option.some.inj h
    simp only [Placed, hpace] at hplaced
    refine ⟨hs.past, hs.spaced, hs.notAhead,
      fun frame hloop => absurd hloop (hnoFrame hpace (by decide) frame), ?_⟩
    obtain ⟨hdue, hbehind, hbegun⟩ := hplaced
    by_cases hlate : s.nextTime + millis 100 < s.now
    · simp only [Placed, if_pos hlate]
      exact ⟨hlate, hbehind, hbegun⟩
    · simp only [Placed, if_neg hlate]
      refine ⟨hdue, .of_tail (fun t ht => ?_) hbehind, hbegun⟩
      have hpast := hs.past t ht
      simp only [frameGap, frameSlack, millis] at hlate ⊢
      omega
  | startOver =>
    obtain ⟨hpace, h⟩ := Option.ite_none_right_eq_some.mp h
    obtain rfl := Option.some.inj h
    simp only [Placed, hpace] at hplaced
    obtain ⟨hlate, hbehind, hbegun⟩ := hplaced
    have hdue : s.nextTime ≤ s.now := by
      simp only [millis] at hlate
      omega
    refine ⟨hs.past, hs.spaced, hs.notAhead, fun _ _ => rfl, Int.le_refl _,
      .of_tail (fun t ht => ?_) (hbehind.mono (Int.sub_le_sub_right hdue _)), Int.le_trans hbegun hdue⟩
    have hpast := hs.past t ht
    simp only [frameGap, frameSlack, millis]
    omega

theorem onPace_start : OnPace {} := by
  refine ⟨List.forall_mem_nil _, trivial, trivial, fun _ _ => rfl, Int.le_refl _, trivial, ?_⟩
  exact Int.le_refl _

theorem onPace_run (h : runFrom pacedTurn {} turns = some s) : OnPace s :=
  run_invariant (C := fun _ _ => True) (fun _ _ _ hs _ hstep => onPace_step hs hstep) onPace_start
    (along_of_forall fun _ _ => trivial) h

/-- The send loop is never ahead of its clock, sends at most seven frames more than fit into any
window of time, and leaves the connection what it is without a clock. -/
theorem frames_paced (turns : List PacedTurn) (h : runFrom pacedTurn {} turns = some s) :
    (∀ (k : ℕ) t, s.times.reverse[k]? = some t → s.begun + millis 20 * k ≤ t) ∧
    (∀ a b, a ≤ b → millis 20 * (s.times.filter fun t => a ≤ t ∧ t ≤ b).length ≤ b - a + millis 140) ∧
    runFrom sendTurn {} (turns.filterMap PacedTurn.turn?) = some s.sending := by
  have hs := onPace_run h
  refine ⟨fun k t ht => hs.notAhead.le ht, fun a b hab => ?_, paced_sending h⟩
  have hwindow := hs.spaced.window (by decide) (by decide) hab
  rwa [Int.add_assoc] at hwindow


def frameTurns : List PacedTurn := [.turn .cut, .turn (.encode true), .sleep, .wake, .check]

/-- Samples that come 120 ms late are sent at once, seven frames of them. -/
def burst : List PacedTurn :=
  (reconnect ++ publish).map .turn ++
    [.begins, .wait 120000000, .turn (.writePcm (List.replicate (7 * frameSize) 1))] ++
    (List.replicate 6 frameTurns).flatten ++ [.turn .cut, .turn (.encode true)]

theorem burst_paced : ∃ s, runFrom pacedTurn {} burst = some s ∧ s.times = List.replicate 7 (millis 120) ∧
    millis 20 * (s.times.filter fun t => millis 120 ≤ t ∧ t ≤ millis 120).length ≤ millis 140 := by
  have hstart : (runFrom pacedTurn {} burst).map Paced.times = some (List.replicate 7 (millis 120)) := by
    decide +kernel
  obtain ⟨s, hs, htimes⟩ := Option.map_eq_some_iff.mp hstart
  have hwindow := (frames_paced burst hs).2.1 (millis 120) (millis 120) (Int.le_refl _)
  rw [Int.sub_self, Int.zero_add] at hwindow
  exact ⟨s, hs, htimes, hwindow⟩

end Stoatpp.Voice
