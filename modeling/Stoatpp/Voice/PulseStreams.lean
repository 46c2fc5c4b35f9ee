import Mathlib.Data.Finset.Option
import Stoatpp.Library.Handles

/-!
# The PulseAudio streams

`pulse_voice_client` opens its playback and its record stream when they are first needed and frees
them in `shutdown`, which the destructor calls. A move takes the implementation away: the destructor
of the client that is left follows a null pointer, and what the target of a move assignment had open
is never freed.
-/

namespace Stoatpp.Voice
open Stoatpp.Library

/-- What the sound server and the audio monitor see; streams are numbered as they are opened. -/
inductive PulseEvent where
  | heard (samples : List ℤ)
  | opened (stream : ℕ)
  | wrote (stream : ℕ) (samples : List ℤ)
  | drained (stream : ℕ)
  | readFrom (stream : ℕ)
  | freed (stream : ℕ)

def PulseEvent.handle? : PulseEvent → Option (HandleEvent ℕ)
  | .heard _ => none
  | .opened stream => some (.acquire stream)
  | .wrote stream _ => some (.use stream)
  | .drained stream => some (.use stream)
  | .readFrom stream => some (.use stream)
  | .freed stream => some (.release stream)

structure PulseImpl where
  initialized : Bool := false
  sPlay : Option ℕ := none
  sRec : Option ℕ := none
  monitored : Bool := false

structure PulseResult where
  ok : Bool
  impl : PulseImpl
  next : ℕ
  events : List PulseEvent

def PulseResult.andThen (r : PulseResult) (f : PulseImpl → ℕ → PulseResult) : PulseResult :=
  { f r.impl r.next with events := r.events ++ (f r.impl r.next).events }

/-- The samples of a tone and how the sound server takes them. -/
structure Tone where
  samples : List ℤ
  opens : Bool
  writes : Bool
  drains : Bool

namespace PulseImpl
variable (p : PulseImpl) (next : ℕ)

def init : PulseResult := ⟨true, { p with initialized := true }, next, []⟩

def shutdown : PulseResult :=
  ⟨true, { p with initialized := false, sPlay := none, sRec := none }, next,
    p.sPlay.toList.map .freed ++ p.sRec.toList.map .freed⟩

def setAudioMonitor (monitored : Bool) : PulseResult := ⟨true, { p with monitored }, next, []⟩

def writeAudio (samples : List ℤ) (opens writes : Bool) : PulseResult :=
  if p.initialized then
    -- the monitor hears the samples before anything can fail
    let heard := if p.monitored then [.heard samples] else []
    match p.sPlay with
    | some stream => ⟨writes, p, next, heard ++ [.wrote stream samples]⟩
    | none =>
      if opens then
        ⟨writes, { p with sPlay := some next }, next + 1, heard ++ [.opened next, .wrote next samples]⟩
      else ⟨false, p, next, heard⟩
  else ⟨false, p, next, []⟩

def drain (drains : Bool) : PulseResult :=
  match p.initialized, p.sPlay with
  | true, some stream => ⟨drains, p, next, [.drained stream]⟩
  | _, _ => ⟨false, p, next, []⟩

def recordMic (opens reads : Bool) : PulseResult :=
  if p.initialized then
    match p.sRec with
    | some stream => ⟨reads, p, next, [.readFrom stream]⟩
    | none =>
      if opens then ⟨reads, { p with sRec := some next }, next + 1, [.opened next, .readFrom next]⟩
      else ⟨false, p, next, []⟩
  else ⟨false, p, next, []⟩

def playTone (tone : Tone) : PulseResult :=
  if p.initialized then
    let written := p.writeAudio next tone.samples tone.opens tone.writes
    if written.ok then written.andThen fun p next => p.drain next tone.drains else written
  else ⟨false, p, next, []⟩

/-- Two tones, whatever becomes of them. -/
def playChime (first second : Tone) : PulseResult :=
  if p.initialized then
    { (p.playTone next first).andThen fun p next => p.playTone next second with ok := true }
  else ⟨false, p, next, []⟩

/-- The streams that are open. -/
def streams : Finset ℕ := p.sPlay.toFinset ∪ p.sRec.toFinset

/-- Two streams, opened before. -/
def Slots : Prop := (∀ stream ∈ p.streams, stream < next) ∧ Disjoint p.sPlay.toFinset p.sRec.toFinset

end PulseImpl

inductive PulseCall where
  | init
  | shutdown
  | setAudioMonitor (monitored : Bool)
  | writeAudio (samples : List ℤ) (opens writes : Bool)
  | drain (drains : Bool)
  | recordMic (opens reads : Bool)
  | playTone (tone : Tone)
  | playChime (first second : Tone)

def PulseImpl.perform (p : PulseImpl) (next : ℕ) : PulseCall → PulseResult
  | .init => p.init next
  | .shutdown => p.shutdown next
  | .setAudioMonitor monitored => p.setAudioMonitor next monitored
  | .writeAudio samples opens writes => p.writeAudio next samples opens writes
  | .drain drains => p.drain next drains
  | .recordMic opens reads => p.recordMic next opens reads
  | .playTone tone => p.playTone next tone
  | .playChime first second => p.playChime next first second

/-- The clients of a program: `none` where there is none, `some none` where one has been moved from. -/
structure PulseClients where
  clients : ℕ → Option (Option PulseImpl) := fun _ => none
  next : ℕ := 0
  history : List PulseEvent := []
  /-- streams that no client has any more -/
  lost : Finset ℕ := ∅
  crashed : Bool := false

inductive PulseTurn where
  | construct (c : ℕ)
  | call (c : ℕ) (x : PulseCall)
  | moveConstruct (c d : ℕ)
  | moveAssign (c d : ℕ)
  | destroy (c : ℕ)

def PulseTurn.isMove : PulseTurn → Bool
  | .moveConstruct _ _ => true
  | .moveAssign _ _ => true
  | _ => false

def streamsOf : Option (Option PulseImpl) → Finset ℕ
  | some (some p) => p.streams
  | _ => ∅

namespace PulseClients

def held (w : PulseClients) (c : ℕ) : Finset ℕ := streamsOf (w.clients c)

/-- Behind a call on client `c`, of which `o` is left. -/
def after (w : PulseClients) (c : ℕ) (o : Option (Option PulseImpl)) (r : PulseResult) : PulseClients :=
  { w with clients := Function.update w.clients c o, next := r.next, history := w.history ++ r.events }

/-- The implementation goes from client `d` to `c`. -/
def moved (w : PulseClients) (c d : ℕ) : PulseClients :=
  { w with
    clients := Function.update (Function.update w.clients c (w.clients d)) d (some none)
    lost := w.lost ∪ w.held c }

end PulseClients

def pulseTurn (w : PulseClients) (a : PulseTurn) : Option PulseClients :=
  if w.crashed then none
  else
    match a with
    | .construct c =>
      match w.clients c with
      | none => some { w with clients := Function.update w.clients c (some (some {})) }
      | some _ => none
    | .call c x =>
      match w.clients c with
      | none => none
      | some none => some { w with crashed := true }
      | some (some p) => some (w.after c (some (some (p.perform w.next x).impl)) (p.perform w.next x))
    | .moveConstruct c d => if w.clients c = none ∧ w.clients d ≠ none then some (w.moved c d) else none
    | .moveAssign c d =>
      if w.clients c ≠ none ∧ w.clients d ≠ none then
        -- `unique_ptr` can be assigned to itself
        if c = d then some w else some (w.moved c d)
      else none
    | .destroy c =>
      match w.clients c with
      | none => none
      | some none => some { w with crashed := true }
      | some (some p) => some (w.after c none (p.shutdown w.next))

def handles (events : List PulseEvent) : List (HandleEvent ℕ) := events.filterMap PulseEvent.handle?

/-- A call keeps to the client's own streams and new ones. -/
structure OwnStreams (p : PulseImpl) (next : ℕ) (r : PulseResult) : Prop where
  streams : runFrom handleStep p.streams (handles r.events) = some r.impl.streams
  slots : r.impl.Slots r.next
  next_le : next ≤ r.next
  fresh : ∀ stream, .acquire stream ∈ handles r.events → next ≤ stream ∧ stream < r.next

variable {p : PulseImpl} {next : ℕ} {r : PulseResult} {w w' : PulseClients} {a : PulseTurn} {live : Finset ℕ} {c : ℕ}

/-! ## One call -/

theorem handles_append (events events' : List PulseEvent) :
    handles (events ++ events') = handles events ++ handles events' := List.filterMap_append ..

theorem handles_heard (samples : List ℤ) (events : List PulseEvent) :
    handles ((if p.monitored then [.heard samples] else []) ++ events) = handles events := by
  cases p.monitored <;> rfl

theorem OwnStreams.andThen (h : OwnStreams p next r) (f : PulseImpl → ℕ → PulseResult)
    (hf : OwnStreams r.impl r.next (f r.impl r.next)) : OwnStreams p next (r.andThen f) where
  streams := by
    rw [PulseResult.andThen, handles_append]
    exact runFrom_append.mpr ⟨_, h.streams, hf.streams⟩
  slots := hf.slots
  next_le := h.next_le.trans hf.next_le
  fresh stream hstream := by
    rw [PulseResult.andThen, handles_append, List.mem_append] at hstream
    rcases hstream with hold | hnew
    · obtain ⟨hle, hlt⟩ := h.fresh stream hold
      exact ⟨hle, hlt.trans_le hf.next_le⟩
    · obtain ⟨hle, hlt⟩ := hf.fresh stream hnew
      exact ⟨h.next_le.trans hle, hlt⟩

/-- A call that opens nothing and has the same streams behind it. -/
theorem own_same (hp : p.Slots next) (hstreams : runFrom handleStep p.streams (handles r.events) = some p.streams)
    (hplay : r.impl.sPlay = p.sPlay) (hrec : r.impl.sRec = p.sRec) (hnext : r.next = next)
    (hnone : ∀ stream, .acquire stream ∉ handles r.events) : OwnStreams p next r := by
  have hsame : r.impl.streams = p.streams := by rw [PulseImpl.streams, hplay, hrec]; rfl
  refine ⟨by rw [hstreams, hsame], ?_, hnext.ge, fun stream hstream => absurd hstream (hnone stream)⟩
  rw [PulseImpl.Slots, hsame, hplay, hrec, hnext]
  exact hp

theorem use_stream {stream : ℕ} (h : stream ∈ live) : runFrom handleStep live [.use stream] = some live := by
  rw [runFrom_cons]
  exact ⟨live, if_pos h, rfl⟩

theorem open_stream (h : next ∉ live) :
    runFrom handleStep live [.acquire next, .use next] = some (insert next live) := by
  rw [runFrom_cons]
  exact ⟨_, if_neg h, use_stream (Finset.mem_insert_self _ _)⟩

theorem play_mem {stream : ℕ} (h : p.sPlay = some stream) : stream ∈ p.streams := by
  simp [PulseImpl.streams, h]

theorem rec_mem {stream : ℕ} (h : p.sRec = some stream) : stream ∈ p.streams := by
  simp [PulseImpl.streams, h]

theorem PulseImpl.Slots.fresh (hp : p.Slots next) : next ∉ p.streams := fun h => Nat.lt_irrefl _ (hp.1 next h)

theorem own_none (hp : p.Slots next) (hplay : r.impl.sPlay = p.sPlay) (hrec : r.impl.sRec = p.sRec)
    (hnext : r.next = next) (hevents : handles r.events = []) : OwnStreams p next r :=
  own_same hp (by rw [hevents]; rfl) hplay hrec hnext (by simp [hevents])

theorem own_use {stream : ℕ} (hp : p.Slots next) (hstream : stream ∈ p.streams) (hplay : r.impl.sPlay = p.sPlay)
    (hrec : r.impl.sRec = p.sRec) (hnext : r.next = next) (hevents : handles r.events = [.use stream]) :
    OwnStreams p next r :=
  own_same hp (by rw [hevents]; exact use_stream hstream) hplay hrec hnext (by simp [hevents])

/-- A call that opens a stream in an empty slot. -/
theorem own_open (hp : p.Slots next) (hevents : handles r.events = [.acquire next, .use next])
    (hstreams : r.impl.streams = insert next p.streams) (hapart : Disjoint r.impl.sPlay.toFinset r.impl.sRec.toFinset)
    (hnext : r.next = next + 1) : OwnStreams p next r where
  streams := by
    rw [hevents, hstreams]
    exact open_stream hp.fresh
  slots := by
    refine ⟨fun stream hstream => ?_, hapart⟩
    rw [hstreams, Finset.mem_insert] at hstream
    rw [hnext]
    rcases hstream with rfl | hold
    · exact Nat.lt_succ_self _
    · exact Nat.lt_succ_of_lt (hp.1 stream hold)
  next_le := by rw [hnext]; exact Nat.le_succ _
  fresh stream hstream := by
    obtain rfl : stream = next := by simpa [hevents] using hstream
    rw [hnext]
    exact ⟨Nat.le_refl _, Nat.lt_succ_self _⟩

theorem writeAudio_own (hp : p.Slots next) (samples : List ℤ) (opens writes : Bool) :
    OwnStreams p next (p.writeAudio next samples opens writes) := by
  unfold PulseImpl.writeAudio
  cases p.initialized with
  | false => exact own_none hp rfl rfl rfl rfl
  | true =>
    cases hplay : p.sPlay with
    | some stream => exact own_use hp (play_mem hplay) rfl rfl rfl (handles_heard samples _)
    | none =>
      cases opens with
      | false =>
        refine own_none hp rfl rfl rfl ?_
        exact (congrArg handles (List.append_nil _)).symm.trans (handles_heard samples [])
      | true =>
        have hrec : next ∉ p.sRec.toFinset := fun hmem => hp.fresh (Finset.mem_union_right _ hmem)
        refine own_open hp (handles_heard samples _) ?_ ?_ rfl
        · ext stream
          simp [PulseImpl.streams, hplay]
        · simpa using hrec

theorem drain_own (hp : p.Slots next) (drains : Bool) : OwnStreams p next (p.drain next drains) := by
  unfold PulseImpl.drain
  cases hi : p.initialized with
  | false => exact own_none hp rfl rfl rfl rfl
  | true =>
    cases hplay : p.sPlay with
    | none => exact own_none hp rfl rfl rfl rfl
    | some stream => exact own_use hp (play_mem hplay) rfl rfl rfl rfl

theorem recordMic_own (hp : p.Slots next) (opens reads : Bool) :
    OwnStreams p next (p.recordMic next opens reads) := by
  unfold PulseImpl.recordMic
  cases p.initialized with
  | false => exact own_none hp rfl rfl rfl rfl
  | true =>
    cases hrec : p.sRec with
    | some stream => exact own_use hp (rec_mem hrec) rfl rfl rfl rfl
    | none =>
      cases opens with
      | false => exact own_none hp rfl rfl rfl rfl
      | true =>
        have hplay : next ∉ p.sPlay.toFinset := fun hmem => hp.fresh (Finset.mem_union_left _ hmem)
        refine own_open hp rfl ?_ ?_ rfl
        · ext stream
          simp [PulseImpl.streams, hrec]
        · simpa using hplay

theorem shutdown_own (hp : p.Slots next) : OwnStreams p next (p.shutdown next) where
  streams := by
    have hapart := hp.2
    cases hplay : p.sPlay with
    | none => cases hrec : p.sRec <;> simp [PulseImpl.shutdown, PulseImpl.streams, hplay, hrec, handles,
        PulseEvent.handle?, runFrom, handleStep]
    | some i =>
      cases hrec : p.sRec with
      | none => simp [PulseImpl.shutdown, PulseImpl.streams, hplay, hrec, handles, PulseEvent.handle?, runFrom,
          handleStep]
      | some j =>
        have hne : i ≠ j := by
          rw [hplay, hrec] at hapart
          simpa using hapart
        simp [PulseImpl.shutdown, PulseImpl.streams, hplay, hrec, handles, PulseEvent.handle?, runFrom, handleStep,
          hne]
  slots := ⟨by simp [PulseImpl.shutdown, PulseImpl.streams], by simp [PulseImpl.shutdown]⟩
  next_le := Nat.le_refl _
  fresh stream hstream := by
    cases hplay : p.sPlay <;> cases hrec : p.sRec <;>
      simp [PulseImpl.shutdown, hplay, hrec, handles, PulseEvent.handle?] at hstream

theorem playTone_own (hp : p.Slots next) (tone : Tone) : OwnStreams p next (p.playTone next tone) := by
  unfold PulseImpl.playTone
  cases p.initialized with
  | false => exact own_none hp rfl rfl rfl rfl
  | true =>
    have hwritten := writeAudio_own hp tone.samples tone.opens tone.writes
    dsimp only
    cases hok : (p.writeAudio next tone.samples tone.opens tone.writes).ok with
    | false => exact hwritten
    | true => exact hwritten.andThen (fun p next => p.drain next tone.drains) (drain_own hwritten.slots tone.drains)

theorem playChime_own (hp : p.Slots next) (first second : Tone) :
    OwnStreams p next (p.playChime next first second) := by
  unfold PulseImpl.playChime
  cases p.initialized with
  | false => exact own_none hp rfl rfl rfl rfl
  | true =>
    have hfirst := playTone_own hp first
    obtain ⟨hstreams, hslots, hnext, hfresh⟩ := hfirst.andThen (fun p next => p.playTone next second)
      (playTone_own hfirst.slots second)
    exact ⟨hstreams, hslots, hnext, hfresh⟩

theorem perform_own (hp : p.Slots next) (x : PulseCall) : OwnStreams p next (p.perform next x) := by
  cases x with
  | init => exact own_none hp rfl rfl rfl rfl
  | shutdown => exact shutdown_own hp
  | setAudioMonitor monitored => exact own_none hp rfl rfl rfl rfl
  | writeAudio samples opens writes => exact writeAudio_own hp samples opens writes
  | drain drains => exact drain_own hp drains
  | recordMic opens reads => exact recordMic_own hp opens reads
  | playTone tone => exact playTone_own hp tone
  | playChime first second => exact playChime_own hp first second

/-! ## All clients -/

/-- What a turn can do. -/
inductive PulseChange (w : PulseClients) (a : PulseTurn) : PulseClients → Prop where
  | same : PulseChange w a w
  | crashes (c : ℕ) (hc : w.clients c = some none) : PulseChange w a { w with crashed := true }
  | constructs (c : ℕ) (hc : w.clients c = none) :
    PulseChange w a { w with clients := Function.update w.clients c (some (some {})) }
  | performs (c : ℕ) (p : PulseImpl) (x : PulseCall) (hc : w.clients c = some (some p)) :
    PulseChange w a (w.after c (some (some (p.perform w.next x).impl)) (p.perform w.next x))
  | destroys (c : ℕ) (p : PulseImpl) (hc : w.clients c = some (some p)) :
    PulseChange w a (w.after c none (p.shutdown w.next))
  | moves (c d : ℕ) (hne : c ≠ d) (ha : a.isMove = true) : PulseChange w a (w.moved c d)

theorem pulse_changes (hs : pulseTurn w a = some w') : PulseChange w a w' := by
  obtain ⟨-, hs⟩ := Option.ite_none_left_eq_some.mp hs
  cases a with
  | construct c =>
    cases hc : w.clients c with
    | some o => simp [hc] at hs
    | none =>
      simp only [hc, Option.some.injEq] at hs
      exact hs ▸ .constructs c hc
  | call c x =>
    cases hc : w.clients c with
    | none => simp [hc] at hs
    | some o =>
      cases o with
      | none =>
        simp only [hc, Option.some.injEq] at hs
        exact hs ▸ .crashes c hc
      | some p =>
        simp only [hc, Option.some.injEq] at hs
        exact hs ▸ .performs c p x hc
  | moveConstruct c d =>
    obtain ⟨⟨hc, hd⟩, hs⟩ := Option.ite_none_right_eq_some.mp hs
    exact Option.some.inj hs ▸ .moves c d (fun hcd => hd (hcd ▸ hc)) rfl
  | moveAssign c d =>
    obtain ⟨-, hs⟩ := Option.ite_none_right_eq_some.mp hs
    by_cases hcd : c = d
    · rw [if_pos hcd] at hs
      exact Option.some.inj hs ▸ .same
    · rw [if_neg hcd] at hs
      exact Option.some.inj hs ▸ .moves c d hcd rfl
  | destroy c =>
    cases hc : w.clients c with
    | none => simp [hc] at hs
    | some o =>
      cases o with
      | none =>
        simp only [hc, Option.some.injEq] at hs
        exact hs ▸ .crashes c hc
      | some p =>
        simp only [hc, Option.some.injEq] at hs
        exact hs ▸ .destroys c p hc

structure InHand (w : PulseClients) (live : Finset ℕ) : Prop where
  history : runFrom handleStep ∅ (handles w.history) = some live
  owners : Held w.held w.lost live
  below : ∀ stream ∈ live, stream < w.next
  slots : ∀ c p, w.clients c = some (some p) → p.Slots w.next

theorem held_update (w : PulseClients) (c : ℕ) (o : Option (Option PulseImpl)) :
    (fun d => streamsOf (Function.update w.clients c o d)) = Function.update w.held c (streamsOf o) := by
  funext d
  by_cases hd : d = c
  · rw [hd, Function.update_self, Function.update_self]
  · rw [Function.update_of_ne hd, Function.update_of_ne hd]
    rfl

/-- A call leaves all streams in hand, and so does the end of a client that has freed its own. -/
theorem InHand.after (h : InHand w live) (hc : w.clients c = some (some p)) (hr : OwnStreams p w.next r)
    {o : Option (Option PulseImpl)} (ho : streamsOf o = r.impl.streams)
    (hslots : ∀ q, o = some (some q) → q.Slots r.next) : ∃ live', InHand (w.after c o r) live' := by
  have hheld : w.held c = p.streams := by rw [PulseClients.held, hc]; rfl
  have hfresh : ∀ stream, .acquire stream ∈ handles r.events → stream ∉ live := fun stream hstream hlive =>
    absurd (h.below stream hlive) (Nat.not_lt.mpr (hr.fresh stream hstream).1)
  obtain ⟨live', hrun, howners⟩ := h.owners.replace c (hheld ▸ hr.streams) hfresh
  refine ⟨live', ?_, ?_, fun stream hstream => ?_, fun d q hd => ?_⟩
  · rw [PulseClients.after, handles_append]
    exact runFrom_append.mpr ⟨live, h.history, hrun⟩
  · rw [← ho, ← held_update w c o] at howners
    exact howners
  · rcases run_opened hrun hstream with hold | hnew
    · exact (h.below stream hold).trans_le hr.next_le
    · exact (hr.fresh stream hnew).2
  · change Function.update w.clients c o d = some (some q) at hd
    by_cases hdc : d = c
    · rw [hdc, Function.update_self] at hd
      exact hslots q hd
    · rw [Function.update_of_ne hdc] at hd
      have hq := h.slots d q hd
      exact ⟨fun stream hstream => (hq.1 stream hstream).trans_le hr.next_le, hq.2⟩

theorem InHand.moved (h : InHand w live) {d : ℕ} (hne : c ≠ d) : InHand (w.moved c d) live where
  history := h.history
  owners := by
    have hgive := h.owners.give hne
    have hheld : (w.moved c d).held = Function.update (Function.update w.held c (w.held d)) d ∅ := by
      funext e
      by_cases hed : e = d
      · simp [PulseClients.held, PulseClients.moved, hed, streamsOf]
      · by_cases hec : e = c
        · simp [PulseClients.held, PulseClients.moved, hec, hne]
        · simp [PulseClients.held, PulseClients.moved, hed, hec]
    rw [← hheld] at hgive
    exact hgive
  below := h.below
  slots e q he := by
    change Function.update (Function.update w.clients c (w.clients d)) d (some none) e = some (some q) at he
    by_cases hed : e = d
    · rw [hed, Function.update_self] at he
      cases he
    · rw [Function.update_of_ne hed] at he
      by_cases hec : e = c
      · rw [hec, Function.update_self] at he
        exact h.slots d q he
      · rw [Function.update_of_ne hec] at he
        exact h.slots e q he

theorem inHand_start : InHand {} ∅ where
  history := rfl
  owners := ⟨fun _ => by simp [PulseClients.held, streamsOf], fun _ _ _ h => absurd h (Finset.notMem_empty _),
    fun _ h => absurd h (Finset.notMem_empty _)⟩
  below _ h := absurd h (Finset.notMem_empty _)
  slots _ _ h := by cases h

theorem InHand.turn (h : InHand w live) (hs : pulseTurn w a = some w') : ∃ live', InHand w' live' := by
  cases pulse_changes hs with
  | same => exact ⟨live, h⟩
  | crashes => exact ⟨live, h.history, h.owners, h.below, h.slots⟩
  | constructs c hc =>
    have hempty : streamsOf (some (some {})) = w.held c := by
      rw [PulseClients.held, hc]
      rfl
    refine ⟨live, h.history, ?_, h.below, fun d q hd => ?_⟩
    · have howners := h.owners
      rw [← Function.update_eq_self c w.held, ← hempty, ← held_update] at howners
      exact howners
    · change Function.update w.clients c (some (some {})) d = some (some q) at hd
      by_cases hdc : d = c
      · rw [hdc, Function.update_self] at hd
        obtain rfl := Option.some.inj (Option.some.inj hd)
        exact ⟨by simp [PulseImpl.streams], by simp⟩
      · rw [Function.update_of_ne hdc] at hd
        exact h.slots d q hd
  | performs c p x hc =>
    have hown := perform_own (h.slots c p hc) x
    refine h.after hc hown rfl fun q hq => ?_
    obtain rfl := Option.some.inj (Option.some.inj hq)
    exact hown.slots
  | destroys c p hc =>
    exact h.after hc (shutdown_own (h.slots c p hc)) (by simp [streamsOf, PulseImpl.shutdown, PulseImpl.streams])
      fun q hq => by cases hq
  | moves c d hne => exact ⟨live, h.moved hne⟩

/-! ## Moves -/

/-- No client has been moved from, and no stream is lost. -/
structure Unmoved (w : PulseClients) : Prop where
  owned : ∀ c, w.clients c ≠ some none
  lost : w.lost = ∅
  running : w.crashed = false

theorem Unmoved.update (h : Unmoved w) {o : Option (Option PulseImpl)} (ho : o ≠ some none) (d : ℕ) :
    Function.update w.clients c o d ≠ some none := by
  by_cases hd : d = c
  · rwa [hd, Function.update_self]
  · rw [Function.update_of_ne hd]
    exact h.owned d

theorem Unmoved.turn (h : Unmoved w) (ha : a.isMove = false) (hs : pulseTurn w a = some w') : Unmoved w' := by
  cases pulse_changes hs with
  | same => exact h
  | crashes c hc => exact absurd hc (h.owned c)
  | constructs c => exact ⟨h.update (by simp), h.lost, h.running⟩
  | performs c p x => exact ⟨h.update (by simp), h.lost, h.running⟩
  | destroys c p => exact ⟨h.update (by simp), h.lost, h.running⟩
  | moves c d hne hmove => exact absurd hmove (Bool.eq_false_iff.mp ha)

theorem crash_of_moved (hc : w.clients c = some none) (hw : w.crashed = false) :
    pulseTurn w (.destroy c) = some { w with crashed := true } ∧
      ∀ x, pulseTurn w (.call c x) = some { w with crashed := true } := by
  simp [pulseTurn, hc, hw]

/-- In every run no stream is used or freed that is not open, and every open stream belongs to one
client or was dropped by a move assignment. Without moves nothing is dropped and all is freed when
the clients are gone; a client that has been moved from crashes at its next call or its end. -/
theorem streams_in_hand (turns : List PulseTurn) (w : PulseClients) (h : runFrom pulseTurn {} turns = some w) :
    ∃ live, runFrom handleStep ∅ (handles w.history) = some live ∧ Held w.held w.lost live ∧
      ((∀ a ∈ turns, a.isMove = false) → w.crashed = false ∧ w.lost = ∅ ∧
        ((∀ c, w.clients c = none) → live = ∅)) ∧
      ∀ c, w.clients c = some none → w.crashed = false →
        pulseTurn w (.destroy c) = some { w with crashed := true } ∧
        ∀ x, pulseTurn w (.call c x) = some { w with crashed := true } := by
  have hall : ∃ live, InHand w live := by
    refine run_invariant (C := fun _ _ => True) (P := fun w => ∃ live, InHand w live) ?_ ⟨∅, inHand_start⟩
      (along_of_forall fun _ _ => trivial) h
    rintro s a s' ⟨live, hlive⟩ - hstep
    exact hlive.turn hstep
  obtain ⟨live, hlive⟩ := hall
  refine ⟨live, hlive.history, hlive.owners, fun hmoves => ?_, fun c hc hw => crash_of_moved hc hw⟩
  have hunmoved : Unmoved w := by
    refine run_invariant (C := fun _ a => a.isMove = false) (fun s a s' hs ha hstep => hs.turn ha hstep) ?_
      (along_of_forall hmoves) h
    exact ⟨fun _ => nofun, rfl, rfl⟩
  refine ⟨hunmoved.running, hunmoved.lost, fun hgone => Finset.eq_empty_of_forall_notMem fun stream hstream => ?_⟩
  rcases (hlive.owners.mem stream).mp hstream with hlost | ⟨c, hc⟩
  · rw [hunmoved.lost] at hlost
    exact Finset.notMem_empty _ hlost
  · rw [PulseClients.held, hgone c] at hc
    exact Finset.notMem_empty _ hc

/-- Two clients with a stream each, of which the first is assigned the second. -/
def assignedOver : List PulseTurn :=
  [.construct 0, .call 0 .init, .call 0 (.writeAudio [1, -1] true true), .construct 1, .call 1 .init,
    .call 1 (.recordMic true true), .moveAssign 0 1, .destroy 0, .destroy 1]

theorem assigned_over_lost : ∃ w live, runFrom pulseTurn {} assignedOver = some w ∧ w.crashed = true ∧
    w.lost = {0} ∧ runFrom handleStep ∅ (handles w.history) = some live ∧ Held w.held w.lost live := by
  obtain ⟨live, hlive, howners, -⟩ := streams_in_hand assignedOver _ rfl
  exact ⟨_, live, rfl, rfl, rfl, hlive, howners⟩

end Stoatpp.Voice
