import Stoatpp.Voice.ParserWalk

/-!
# Where the parser reads and whether it ends

The nested readers take their size from the wire and no code compares it with the window
they are cut from, and the skips add a length to the offset without a check. Both are safe
exactly on the messages whose fields declare lengths that fit: `Framed` for the reads,
`NeverWrapsBack` for the loops.
-/

namespace Stoatpp.Voice
open Stoatpp.Library

variable {m : Memory} {s t c : Schema} {r p q : Reader}

theorem walks_window (h : Walks m s r p) : p.base = r.base ∧ p.size = r.size := by
  rw [walks_iff_reflTransGen] at h
  induction h with
  | refl => exact ⟨rfl, rfl⟩
  | tail _ hp ih =>
    have hq := passes_window hp
    exact ⟨hq.1.trans ih.1, hq.2.trans ih.2⟩

theorem childAt_within (h : (lengthEnd m p).offset + lengthAt m p ≤ p.size) :
    (childAt m p).Within p := by
  simp only [Reader.Within, childAt, lengthEnd_base]
  omega

/-! ## Reads -/

def InBounds (m : Memory) : Event → Prop
  | .read r i => r.Holds i ∧ i < m.message.length
  | .cut parent child => child.Within parent
  | .iteration _ _ => True
  | .signal _ => True

def FramedFrom (m : Memory) (s : Schema) (r : Reader) : Prop :=
  ∀ t p c, Visits m s r t p → kindAt m t p = .nested c →
    (lengthEnd m p).offset + lengthAt m p ≤ p.size

def Framed (m : Memory) : Prop := FramedFrom m .message m.root

theorem visits_within (h : Visits m s r t p) (hf : FramedFrom m s r) : p.Within r := by
  induction h with
  | here hw _ =>
    have hp := walks_window hw
    exact ⟨hp.1.ge, by rw [hp.1, hp.2]⟩
  | inside hw hm hk hv ih =>
    have hp := walks_window hw
    have hc := childAt_within (hf _ _ _ (.here hw hm) hk)
    have hq := ih fun t q c hq => hf t q c (.inside hw hm hk hq)
    apply hq.trans
    apply hc.trans
    exact ⟨hp.1.ge, by rw [hp.1, hp.2]⟩

theorem readVarint_trace {e : Event} (h : e ∈ (readVarint m r).trace) :
    ∃ i, e = .read r i ∧ r.Holds i := by
  obtain ⟨x, hx, rfl⟩ := List.mem_map.mp h
  exact ⟨x.1, rfl, varint_steps_holds m r hx⟩

theorem skipField_trace {e : Event} {wire : ℕ} (h : e ∈ (skipField m r wire).trace) :
    e ∈ (readVarint m r).trace := by
  unfold skipField at h
  split_ifs at h <;> simp [Outcome.andThen] at h <;> exact h

/-- The wrapped check of `read_string` is exact for a reader inside a real string. -/
theorem readString_trace {e : Event} (hs : r.size ≤ maxSize) (ho : r.offset ≤ r.size)
    (h : e ∈ (readString m r).trace) :
    ∃ q i, e = .read q i ∧ q.Holds i ∧ q.base = r.base ∧ q.size = r.size := by
  have ho' := varint_offset_le m r ho
  simp only [readString, Outcome.bind_eq_andThen, Outcome.andThen, readVarint_status] at h
  rcases List.mem_append.mp h with h | h
  · obtain ⟨i, rfl, hi⟩ := readVarint_trace h
    exact ⟨r, i, rfl, hi, rfl, rfl⟩
  · split_ifs at h with h1 h2
    · simp at h
    · simp at h
    · simp only [Outcome.emit_status, Outcome.emit_trace, Outcome.pure_eq_ret, Outcome.ret_trace,
        List.append_nil, List.map_map, List.mem_map, List.mem_range, Function.comp] at h
      obtain ⟨j, hj, rfl⟩ := h
      refine ⟨_, _, rfl, ?_, varint_base m r, varint_size m r⟩
      simp only [varint_size, sizeT, maxSize] at h1 h2 hs
      simp only [Reader.Holds, varint_size]
      omega

theorem headEvents_inBounds {e : Event} (hm : p.hasMore = true) (hp : p.Within m.root)
    (hc : ∀ c, kindAt m s p = .nested c → (lengthEnd m p).offset + lengthAt m p ≤ p.size)
    (h : e ∈ headEvents m s p) : InBounds m e := by
  have hl := m.message_le
  have hread : ∀ r : Reader, r.base = p.base → r.size = p.size → ∀ i, r.Holds i →
      InBounds m (.read r i) := by
    intro r hb hs i hi
    refine ⟨hi, ?_⟩
    simp only [Reader.Within, Reader.Holds, Memory.root] at hp hi
    omega
  have hvarint : ∀ r : Reader, r.base = p.base → r.size = p.size → e ∈ (readVarint m r).trace →
      InBounds m e := by
    intro r hb hs he
    obtain ⟨i, rfl, hi⟩ := readVarint_trace he
    exact hread r hb hs i hi
  rcases List.mem_append.mp h with h | h
  · exact hvarint p rfl rfl h
  · cases hk : kindAt m s p with
    | text =>
      rw [hk] at h
      have hsize : (keyEnd m p).size ≤ maxSize := by
        simp only [Reader.Within, Memory.root, keyEnd_size] at hp ⊢
        omega
      obtain ⟨q, i, rfl, hi, hb, hs⟩ := readString_trace hsize
        (by simpa using (keyEnd_offset (m := m) hm).2) h
      exact hread q (by simpa using hb) (by simpa using hs) i hi
    | nested c =>
      rw [hk] at h
      simp only [nested_keyEnd, List.mem_append, List.mem_singleton] at h
      rcases h with h | rfl
      · exact hvarint _ (keyEnd_base p) (keyEnd_size p) h
      · have hw := childAt_within (hc c hk)
        simpa only [InBounds, Reader.Within, lengthEnd_base, lengthEnd_size] using hw
    | other =>
      rw [hk] at h
      exact hvarint _ (keyEnd_base p) (keyEnd_size p) (skipField_trace h)

theorem cut_emitted (hv : Visits m .message m.root s p) (hk : kindAt m s p = .nested c) :
    (handleBinaryMessage m).Emits (.cut (lengthEnd m p) (childAt m p)) := by
  rw [handleBinaryMessage_emits _ (by simp)]
  refine ⟨s, p, hv, Or.inl ?_⟩
  simp [headEvents, hk, nested_keyEnd]

/-- The parser reads inside the message and cuts nested windows out of their own window
exactly on the messages whose sub-messages are framed. -/
theorem reads_inBounds_iff (m : Memory) :
    (∀ e, (handleBinaryMessage m).Emits e → InBounds m e) ↔ Framed m := by
  constructor
  · intro h t p c hv hk
    have hw : (childAt m p).Within (lengthEnd m p) := h _ (cut_emitted hv hk)
    have hb := hw.2
    simp only [childAt, lengthEnd_base, lengthEnd_size] at hb
    omega
  · intro hf e he
    by_cases hs : ∀ x, e ≠ .signal x
    · obtain ⟨t, p, hv, h | ⟨q, -, rfl⟩⟩ := (handleBinaryMessage_emits m hs).mp he
      · exact headEvents_inBounds hv.hasMore (visits_within hv hf) (fun c hk => hf t p c hv hk) h
      · trivial
    · push Not at hs
      obtain ⟨x, rfl⟩ := hs
      trivial

def Memory.ofBytes (bytes : List UInt8) (h : bytes.length ≤ maxSize) : Memory where
  message := bytes
  beyond _ := 0
  shl x n := x <<< UInt64.ofNat n
  message_le := h
  shl_eq _ _ _ := rfl

def overlong : Memory := .ofBytes [0x0A, 0x7F] (by decide)

theorem overlong_reads_outside :
    ¬ ∀ e, (handleBinaryMessage overlong).Emits e → InBounds overlong e := by
  intro h
  have hv : Visits overlong .message overlong.root .joinResponse (childAt overlong overlong.root) :=
    .inside (.refl _ _) (by decide) (by decide) (.here (.refl _ _) (by decide))
  have he : (handleBinaryMessage overlong).Emits (.read ⟨2, 127, 0⟩ 2) := by
    rw [handleBinaryMessage_emits _ (by simp)]
    exact ⟨_, _, hv, Or.inl (by decide)⟩
  exact absurd (h _ he).2 (by decide)

/-! ## Termination -/

theorem visits_size (h : Visits m s r t p) (hr : r.size < 2 ^ 64) : p.size < 2 ^ 64 := by
  induction h with
  | here hw _ => rw [(walks_window hw).2]; exact hr
  | inside _ _ _ _ ih => exact ih (UInt64.toNat_lt _)

theorem progress_iff (h : Passes m s p q) (hs : p.size < 2 ^ 64) :
    Progress p q ↔ ¬ WrapsBack m p := by
  have hm := h.hasMore
  have hlt := (Reader.hasMore_iff p).mp hm
  have hk := keyEnd_offset (m := m) hm
  have hl := lengthEnd_offset (m := m) hm
  have hq := (passes_window h).2
  rcases passes_cases h with ⟨hq', hn⟩ | ⟨e, n, he, rfl⟩
  · have hp : Progress p q := by
      apply Or.inl
      rcases hq' with rfl | rfl
      · exact hk.1
      · exact hl.1
    refine ⟨fun _ => ?_, fun _ => hp⟩
    rintro ⟨e, n, he, h1, h2⟩
    rcases hn with hn | ⟨e', n', he', h3⟩
    · rw [hn] at he
      cases he
    · rw [he'] at he
      cases he
      obtain ⟨-, h4, h5, h6⟩ := payloadAt_bounds hm he'
      simp only [sizeT] at h3
      omega
  · obtain ⟨h3, h4, h5, h6⟩ := payloadAt_bounds hm he
    have hw : WrapsBack m p ↔ 2 ^ 64 ≤ e.offset + n ∧ e.offset + n ≤ 2 ^ 64 + p.offset := by
      constructor
      · rintro ⟨e', n', he', hb⟩
        rw [he] at he'
        cases he'
        exact hb
      · intro hb
        exact ⟨e, n, he, hb⟩
    rw [hw]
    simp only [Progress, Reader.advance, sizeT]
    omega

def NeverWrapsBack (m : Memory) : Prop :=
  ∀ s p q, Visits m .message m.root s p → Passes m s p q → ¬ WrapsBack m p

theorem root_size_lt (m : Memory) : m.root.size < 2 ^ 64 := by
  have h := m.message_le
  simp only [maxSize] at h
  change m.message.length < 2 ^ 64
  omega

theorem headEvents_no_iteration : Event.iteration p q ∉ headEvents m s r := by
  intro h
  have hv : ∀ r : Reader, Event.iteration p q ∉ (readVarint m r).trace := by
    intro r h
    obtain ⟨i, hi, -⟩ := readVarint_trace h
    cases hi
  rcases List.mem_append.mp h with h | h
  · exact hv _ h
  · cases hk : kindAt m s r with
    | text =>
      rw [hk] at h
      simp only [readString, Outcome.bind_eq_andThen, Outcome.andThen, readVarint_status] at h
      rcases List.mem_append.mp h with h | h
      · exact hv _ h
      · split_ifs at h <;> simp at h
    | nested c =>
      rw [hk] at h
      simp only [nested_keyEnd, List.mem_append, List.mem_singleton, reduceCtorEq, or_false] at h
      exact hv _ h
    | other =>
      rw [hk] at h
      exact hv _ (skipField_trace h)

theorem iteration_emitted_iff : (handleBinaryMessage m).Emits (.iteration p q) ↔
    ∃ s, Visits m .message m.root s p ∧ Passes m s p q := by
  rw [handleBinaryMessage_emits _ (by simp)]
  constructor
  · rintro ⟨t, u, hv, h | ⟨q', hp, he⟩⟩
    · exact absurd h headEvents_no_iteration
    · cases he
      exact ⟨t, hv, hp⟩
  · rintro ⟨s, hv, hp⟩
    exact ⟨s, p, hv, Or.inr ⟨q, hp, rfl⟩⟩

/-- The loops end, each iteration making progress, exactly on the messages in which no
field that is passed wraps the offset back. -/
theorem loops_terminate_iff (m : Memory) :
    ((handleBinaryMessage m).Halts ∧
      ∀ p q, (handleBinaryMessage m).Emits (.iteration p q) → Progress p q) ↔
    NeverWrapsBack m := by
  constructor
  · rintro ⟨-, h⟩ s p q hv hp
    rw [← progress_iff hp (visits_size hv (root_size_lt m))]
    exact h p q (iteration_emitted_iff.mpr ⟨s, hv, hp⟩)
  · intro h
    have hprog : ∀ s p q, Visits m .message m.root s p → Passes m s p q → Progress p q := by
      intro s p q hv hp
      rw [progress_iff hp (visits_size hv (root_size_lt m))]
      exact h s p q hv hp
    refine ⟨(handleBinaryMessage_follows m).halts _ _ hprog, fun p q he => ?_⟩
    obtain ⟨s, hv, hp⟩ := iteration_emitted_iff.mp he
    exact hprog s p q hv hp

/-- An unknown field of declared length `2^64 - 11` behind a header of eleven bytes. -/
def pinned : Memory :=
  .ofBytes [0x7A, 0xF5, 0xFF, 0xFF, 0xFF, 0xFF, 0xFF, 0xFF, 0xFF, 0xFF, 0x01] (by decide)

theorem pinned_passes : Passes pinned .message pinned.root pinned.root :=
  .other (by decide) (by decide) (by rw [skipField_status]; exact congrArg _ (by decide))

theorem pinned_never_halts : ¬ (handleBinaryMessage pinned).Halts := by
  obtain ⟨b, hb⟩ := (fieldStep_yields () pinned_passes.hasMore
    fun f w => messageTable_agrees pinned f w).mpr pinned_passes
  intro h
  have hloop : (Process.whileLoop (fun x => x.1.hasMore)
      (fieldStep pinned (messageTable pinned)) (pinned.root, ())).Halts := Process.halts_of_bind h
  apply Process.not_halts_of_cycle _ hb hloop
  exact pinned_passes.hasMore

theorem pinned_loops :
    ¬ ((handleBinaryMessage pinned).Halts ∧
      ∀ p q, (handleBinaryMessage pinned).Emits (.iteration p q) → Progress p q) :=
  fun h => pinned_never_halts h.1

end Stoatpp.Voice
