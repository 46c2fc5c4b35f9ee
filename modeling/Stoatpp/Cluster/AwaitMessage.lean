import Stoatpp.Cluster.MessageListener
import Stoatpp.Library.Keyed

/-!
# Waiting for a message

`await_message` puts a watcher into the list and a thread to sleep; the message listener and
that thread race for the watcher. Each locks the list only to find and erase it and makes its
call afterwards. What has become of the list at any time is told by what happened under the
lock, and the calls are exactly those that each such moment asks for.
-/

namespace Stoatpp.Cluster
open Stoatpp.Library

/-- The number stands for the text of `watcher_id`, that of a counter of 64 bits. -/
structure Watcher extends MessageWatcher where
  watcherId : ℕ

inductive Call where
  | message (w : Watcher) (n : ℕ) (msg : Events.Message)
  /-- `callback(std::nullopt)` -/
  | nothing (w : Watcher)
  | command (n : ℕ) (msg : Events.Message)

/-- What happens while `message_watchers_mutex_` is held; the messages are counted. -/
inductive Moment where
  | registered (w : Watcher)
  | received (n : ℕ) (msg : Events.Message) (taken : Option Watcher)
  | timedOut (w : Watcher) (triggered : Bool)

/-- `if (cb) { cb(msg); return; } dispatch_command(msg);` -/
def answer (n : ℕ) (msg : Events.Message) (taken : Option Watcher) : Call :=
  match taken with
  | some w => if w.callback.isSome then .message w n msg else .command n msg
  | none => .command n msg

theorem answer_eq (n : ℕ) (msg : Events.Message) (taken : Option Watcher) : answer n msg taken =
    match taken.filter (·.callback.isSome) with
    | some w => .message w n msg
    | none => .command n msg := by
  cases taken with
  | none => rfl
  | some w =>
    simp only [answer, Option.filter_some]
    split_ifs <;> rfl

/-- What the thread calls once it has given the lock back. -/
def Moment.calls : Moment → List Call
  | .registered _ => []
  | .received n msg taken => [answer n msg taken]
  | .timedOut w triggered => if triggered && w.callback.isSome then [.nothing w] else []

/-- The counter, the calls of `await_message` before their `push_back`, the list, the threads that
sleep, the calls still to be made, and what has happened. -/
structure Watching where
  counter : ℕ := 0
  reserved : List Watcher := []
  watchers : List Watcher := []
  sleeping : List Watcher := []
  received : ℕ := 0
  due : List Call := []
  history : List Moment := []
  calls : List Call := []

namespace Watching

def record (s : Watching) (x : Moment) : Watching :=
  { s with history := s.history ++ [x], due := s.due ++ x.calls }

variable (s : Watching) (x : Moment)

@[simp] theorem record_sleeping : (s.record x).sleeping = s.sleeping := rfl
@[simp] theorem record_history : (s.record x).history = s.history ++ [x] := rfl
@[simp] theorem record_calls : (s.record x).calls = s.calls := rfl

end Watching

inductive WatchTurn where
  /-- `await_message` takes its number -/
  | await (w : MessageWatcher)
  | register (i : ℕ)
  | receive (msg : Events.Message)
  | timeout (i : ℕ)
  | call (i : ℕ)

def watchTurn (s : Watching) : WatchTurn → Option Watching
  | .await w =>
    some { s with counter := s.counter + 1, reserved := s.reserved ++ [⟨w, s.counter⟩] }
  | .register i => (s.reserved[i]?).map fun w =>
    { s with
      reserved := s.reserved.eraseIdx i
      watchers := s.watchers ++ [w]
      sleeping := s.sleeping ++ [w] }.record (.registered w)
  | .receive msg =>
    some ({ s with watchers := s.watchers.eraseP (·.wants msg), received := s.received + 1 }.record
      (.received s.received msg (s.watchers.find? (·.wants msg))))
  | .timeout i => (s.sleeping[i]?).map fun w =>
    { s with
      sleeping := s.sleeping.eraseIdx i
      watchers := s.watchers.eraseP (·.watcherId = w.watcherId) }.record
        (.timedOut w (s.watchers.any (·.watcherId = w.watcherId)))
  | .call i => (s.due[i]?).map fun c => { s with due := s.due.eraseIdx i, calls := s.calls ++ [c] }

namespace WatchTurn

def awaited? : WatchTurn → Option MessageWatcher
  | .await w => some w
  | _ => none

def message? : WatchTurn → Option Events.Message
  | .receive msg => some msg
  | _ => none

def locks : WatchTurn → Bool
  | .register _ | .receive _ | .timeout _ => true
  | _ => false

def isCall : WatchTurn → Bool
  | .call _ => true
  | _ => false

end WatchTurn

/-- The watchers asked for, in the order in which `await_message` was called, each with its number. -/
def awaited (turns : List WatchTurn) : List Watcher :=
  (turns.filterMap WatchTurn.awaited?).zipIdx.map fun (w, n) => ⟨w, n⟩

/-- What a turn under the lock leaves in the history. -/
inductive Records : WatchTurn → Moment → Prop
  | register (i : ℕ) (w : Watcher) : Records (.register i) (.registered w)
  | receive (msg : Events.Message) (n : ℕ) (taken : Option Watcher) : Records (.receive msg) (.received n msg taken)
  | timeout (i : ℕ) (w : Watcher) (triggered : Bool) : Records (.timeout i) (.timedOut w triggered)

/-! ## What a history leaves behind -/

namespace Moment

def registered? : Moment → Option Watcher
  | .registered w => some w
  | _ => none

def removed? : Moment → Option Watcher
  | .received _ _ taken => taken
  | .timedOut w true => some w
  | _ => none

def timedOut? : Moment → Option Watcher
  | .timedOut w _ => some w
  | _ => none

def number? : Moment → Option ℕ
  | .received n _ _ => some n
  | _ => none

end Moment

def registered (h : List Moment) : List Watcher := h.filterMap Moment.registered?

def removed (h : List Moment) : List Watcher := h.filterMap Moment.removed?

def timedOut (h : List Moment) : List Watcher := h.filterMap Moment.timedOut?

/-- The watchers that no message was delivered to and that have not timed out, in the order in
which they were registered. -/
def pending (h : List Moment) : List Watcher :=
  (registered h).filter fun w => w.watcherId ∉ (removed h).map Watcher.watcherId

def Call.invokes (id : ℕ) : Call → Bool
  | .message w _ _ => w.watcherId = id
  | .nothing w => w.watcherId = id
  | .command _ _ => false

def Call.about (n : ℕ) : Call → Bool
  | .message _ k _ => k = n
  | .nothing _ => false
  | .command k _ => k = n

/-- A message goes to the first pending watcher that wants it. -/
def Earliest (before : List Moment) (x : Moment) : Prop :=
  ∀ n msg taken, x = .received n msg taken → taken = (pending before).find? (·.wants msg)

/-- A thread that wakes up finds its watcher if and only if that is still pending. -/
def Punctual (before : List Moment) (x : Moment) : Prop :=
  ∀ w triggered, x = .timedOut w triggered → (triggered = true ↔ w ∈ pending before)

section
variable {h : List Moment} {w : Watcher}

/-! ## One moment more -/

theorem filterMap_concat {α β : Type} (f : α → Option β) (xs : List α) (x : α) :
    (xs ++ [x]).filterMap f = xs.filterMap f ++ (f x).toList := by
  rw [List.filterMap_append]
  cases hx : f x with
  | none => rw [List.filterMap_cons_none hx]; rfl
  | some y => rw [List.filterMap_cons_some hx]; rfl

theorem filterMap_unchanged {α β : Type} {f : α → Option β} {xs : List α} {x : α} (hx : f x = none) :
    (xs ++ [x]).filterMap f = xs.filterMap f := by
  rw [filterMap_concat, hx, Option.toList_none, List.append_nil]

theorem registered_concat (x : Moment) : registered (h ++ [x]) = registered h ++ x.registered?.toList :=
  filterMap_concat _ _ _

theorem removed_concat (x : Moment) : removed (h ++ [x]) = removed h ++ x.removed?.toList :=
  filterMap_concat _ _ _

theorem timedOut_concat (x : Moment) : timedOut (h ++ [x]) = timedOut h ++ x.timedOut?.toList :=
  filterMap_concat _ _ _

theorem pending_registered (hfresh : w.watcherId ∉ (removed h).map Watcher.watcherId) :
    pending (h ++ [.registered w]) = pending h ++ [w] := by
  have hremoved : removed (h ++ [.registered w]) = removed h :=
    filterMap_unchanged rfl
  have hregistered : registered (h ++ [.registered w]) = registered h ++ [w] := registered_concat _
  have hkeep : ([w].filter fun v => v.watcherId ∉ (removed h).map Watcher.watcherId) = [w] := by
    simpa using hfresh
  rw [pending, hremoved, hregistered, List.filter_append, hkeep]
  rfl

theorem pending_removed {x : Moment} (hx : x.registered? = none) (hw : x.removed? = some w) :
    pending (h ++ [x]) = (pending h).filter (·.watcherId ≠ w.watcherId) := by
  have hremoved : removed (h ++ [x]) = removed h ++ [w] := by rw [removed_concat, hw]; rfl
  have hregistered : registered (h ++ [x]) = registered h := filterMap_unchanged hx
  rw [pending, hremoved, hregistered, pending, List.filter_filter]
  refine List.filter_congr fun v _ => ?_
  rw [List.map_append, List.map_singleton, ← Bool.decide_and]
  refine decide_eq_decide.mpr ?_
  rw [List.mem_append, List.mem_singleton, not_or, and_comm]

theorem pending_unchanged {x : Moment} (hx : x.registered? = none) (hx' : x.removed? = none) :
    pending (h ++ [x]) = pending h := by
  rw [pending, removed, registered, filterMap_unchanged hx, filterMap_unchanged hx', pending, removed, registered]

end

structure Kept (s : Watching) : Prop where
  ids : ((s.reserved ++ registered s.history).map Watcher.watcherId).Nodup
  below : ∀ w ∈ s.reserved ++ registered s.history, w.watcherId < s.counter
  list : s.watchers = pending s.history
  onceRemoved : ((removed s.history).map Watcher.watcherId).Nodup
  known : ∀ w ∈ removed s.history, w.watcherId ∈ (registered s.history).map Watcher.watcherId
  numbers : s.history.filterMap Moment.number? = List.range s.received
  earliest : EachAfter Earliest s.history
  made : (s.due ++ s.calls).Perm (s.history.flatMap Moment.calls)

variable {s t : Watching} {x : Moment} {v w : Watcher} {p : Watcher → Bool}

theorem Kept.record_calls (h : Kept s) (x : Moment) :
    (s.due ++ x.calls ++ s.calls).Perm ((s.history ++ [x]).flatMap Moment.calls) := by
  have hlast : (s.due ++ x.calls ++ s.calls).Perm (s.due ++ s.calls ++ x.calls) := by
    rw [List.append_assoc, List.append_assoc]
    exact List.perm_append_comm.append_left s.due
  rw [List.flatMap_append, List.flatMap_singleton]
  exact hlast.trans (h.made.append_right x.calls)

theorem Kept.registered_nodup (h : Kept s) : ((registered s.history).map Watcher.watcherId).Nodup := by
  have hids := h.ids
  rw [List.map_append] at hids
  exact (List.nodup_append.mp hids).2.1

theorem Kept.watchers_nodup (h : Kept s) : (s.watchers.map Watcher.watcherId).Nodup := by
  rw [h.list]
  exact (List.filter_sublist.map Watcher.watcherId).nodup h.registered_nodup

/-- A watcher that is found and erased is no longer pending, and was not removed before. -/
theorem Kept.erase (h : Kept s) (hfind : s.watchers.find? p = some v) (hx : x.registered? = none)
    (hremoved : x.removed? = some w) (hid : v.watcherId = w.watcherId) :
    s.watchers.eraseP p = pending (s.history ++ [x]) ∧
      ((removed (s.history ++ [x])).map Watcher.watcherId).Nodup ∧
      ∀ u ∈ removed (s.history ++ [x]), u.watcherId ∈ (registered s.history).map Watcher.watcherId := by
  have hv : v ∈ pending s.history := h.list ▸ List.mem_of_find?_eq_some hfind
  obtain ⟨hregistered, hfresh⟩ := List.mem_filter.mp hv
  rw [hid] at hfresh
  have herase := Keyed.eraseP_eq_filter h.watchers_nodup hfind
  rw [hid] at herase
  rw [herase, pending_removed hx hremoved, h.list, removed_concat, hremoved, Option.toList_some]
  refine ⟨rfl, ?_, fun u hu => ?_⟩
  · rw [List.map_append]
    exact List.nodup_append.mpr ⟨h.onceRemoved, List.nodup_singleton _, by
      intro a ha b hb heq
      rw [List.map_singleton, List.mem_singleton] at hb
      exact of_decide_eq_true hfresh (hb ▸ heq ▸ ha)⟩
  · obtain hu | hu := List.mem_append.mp hu
    · exact h.known u hu
    · rw [List.mem_singleton.mp hu, ← hid]
      exact List.mem_map_of_mem hregistered

theorem Kept.leave (h : Kept s) (hfind : s.watchers.find? p = none) (hx : x.registered? = none)
    (hremoved : x.removed? = none) :
    s.watchers.eraseP p = pending (s.history ++ [x]) ∧
      ((removed (s.history ++ [x])).map Watcher.watcherId).Nodup ∧
      ∀ u ∈ removed (s.history ++ [x]), u.watcherId ∈ (registered s.history).map Watcher.watcherId := by
  rw [List.eraseP_of_forall_not (List.find?_eq_none.mp hfind), pending_unchanged hx hremoved, removed_concat,
    hremoved, Option.toList_none, List.append_nil]
  exact ⟨h.list, h.onceRemoved, h.known⟩

/-- What holds after a message or a time-out. -/
theorem Kept.moment (h : Kept s) (hx : x.registered? = none) {ws qs : List Watcher} {n : ℕ}
    (hws : ws = pending (s.history ++ [x]) ∧ ((removed (s.history ++ [x])).map Watcher.watcherId).Nodup ∧
      ∀ u ∈ removed (s.history ++ [x]), u.watcherId ∈ (registered s.history).map Watcher.watcherId)
    (hnumbers : (s.history ++ [x]).filterMap Moment.number? = List.range n) (hearliest : Earliest s.history x) :
    Kept ({ s with watchers := ws, sleeping := qs, received := n }.record x) := by
  obtain ⟨hlist, hremoved, hknown⟩ := hws
  have hregistered : registered (s.history ++ [x]) = registered s.history := filterMap_unchanged hx
  rw [← hregistered] at hknown
  exact {
    ids := hregistered ▸ h.ids
    below := hregistered ▸ h.below
    list := hlist
    onceRemoved := hremoved
    known := hknown
    numbers := hnumbers
    earliest := eachAfter_concat.mpr ⟨h.earliest, hearliest⟩
    made := h.record_calls x }

theorem moved_perm {α : Type} {xs : List α} {i : ℕ} (hi : i < xs.length) (ys : List α) :
    (xs.eraseIdx i ++ (ys ++ [xs[i]])).Perm (xs ++ ys) := by
  rw [← List.append_assoc]
  refine List.perm_append_comm.trans ?_
  exact (List.getElem_cons_eraseIdx_perm hi).append_right ys

theorem Kept.await (h : Kept s) (w : MessageWatcher) :
    Kept { s with counter := s.counter + 1, reserved := s.reserved ++ [⟨w, s.counter⟩] } := by
  have hperm : (s.reserved ++ [(⟨w, s.counter⟩ : Watcher)] ++ registered s.history).Perm
      ((⟨w, s.counter⟩ : Watcher) :: (s.reserved ++ registered s.history)) := by
    rw [List.append_assoc]
    exact List.perm_middle
  have hfresh : s.counter ∉ (s.reserved ++ registered s.history).map Watcher.watcherId := by
    intro hmem
    obtain ⟨u, hu, heq⟩ := List.mem_map.mp hmem
    have hlt := h.below u hu
    omega
  refine { h with ids := ?_, below := fun u hu => ?_ }
  · exact (hperm.map Watcher.watcherId).nodup_iff.mpr (List.nodup_cons.mpr ⟨hfresh, h.ids⟩)
  · obtain rfl | hu := List.mem_cons.mp (hperm.mem_iff.mp hu)
    · exact Nat.lt_succ_self _
    · exact Nat.lt_succ_of_lt (h.below u hu)

theorem Kept.register (h : Kept s) {i : ℕ} (hw : s.reserved[i]? = some w) {qs : List Watcher} :
    Kept ({ s with
      reserved := s.reserved.eraseIdx i
      watchers := s.watchers ++ [w]
      sleeping := qs }.record (.registered w)) := by
  obtain ⟨hi, rfl⟩ := List.getElem?_eq_some_iff.mp hw
  have hregistered : registered (s.history ++ [.registered s.reserved[i]]) =
      registered s.history ++ [s.reserved[i]] := registered_concat _
  have hremoved : removed (s.history ++ [.registered s.reserved[i]]) = removed s.history :=
    filterMap_unchanged rfl
  have hperm : (s.reserved.eraseIdx i ++ registered (s.history ++ [.registered s.reserved[i]])).Perm
      (s.reserved ++ registered s.history) := by
    rw [hregistered]
    exact moved_perm hi _
  -- its number is not that of a registered watcher, let alone of one that was removed
  have hfresh : s.reserved[i].watcherId ∉ (registered s.history).map Watcher.watcherId := by
    have hids := h.ids
    rw [List.map_append] at hids
    intro hmem
    exact (List.nodup_append.mp hids).2.2 _ (List.mem_map_of_mem (List.getElem_mem hi)) _ hmem rfl
  have hkept : s.reserved[i].watcherId ∉ (removed s.history).map Watcher.watcherId := by
    intro hmem
    obtain ⟨u, hu, heq⟩ := List.mem_map.mp hmem
    exact hfresh (heq ▸ h.known u hu)
  exact {
    ids := (hperm.map Watcher.watcherId).nodup_iff.mpr h.ids
    below := fun u hu => h.below u (hperm.mem_iff.mp hu)
    list := by
      rw [Watching.record, pending_registered hkept, h.list]
    onceRemoved := hremoved ▸ h.onceRemoved
    known := fun u hu => by
      rw [Watching.record, hregistered, List.map_append]
      exact List.mem_append_left _ (h.known u (hremoved ▸ hu))
    numbers := by
      rw [Watching.record, List.filterMap_append, h.numbers]
      exact List.append_nil _
    earliest := eachAfter_concat.mpr ⟨h.earliest, fun _ _ _ heq => by cases heq⟩
    made := h.record_calls _ }

theorem watchTurn_kept {a : WatchTurn} (h : Kept s) (ht : watchTurn s a = some t) : Kept t := by
  cases a with
  | await w =>
    obtain rfl := Option.some.inj ht
    exact h.await w
  | register i =>
    obtain ⟨w, hw, rfl⟩ := Option.map_eq_some_iff.mp ht
    exact h.register hw
  | receive msg =>
    obtain rfl := Option.some.inj ht
    have hnumbers (taken : Option Watcher) : (s.history ++ [Moment.received s.received msg taken]).filterMap
        Moment.number? = List.range (s.received + 1) := by
      rw [List.filterMap_append, h.numbers, List.range_succ]
      rfl
    refine h.moment rfl ?_ (hnumbers _) fun n msg' taken heq => ?_
    · cases hfind : s.watchers.find? (·.wants msg) with
      | none => exact h.leave hfind rfl rfl
      | some v => exact h.erase hfind rfl rfl rfl
    · cases heq
      rw [h.list]
  | timeout i =>
    obtain ⟨w, hw, rfl⟩ := Option.map_eq_some_iff.mp ht
    have hnumbers (triggered : Bool) : (s.history ++ [Moment.timedOut w triggered]).filterMap Moment.number? =
        List.range s.received := by
      rw [List.filterMap_append, h.numbers]
      exact List.append_nil _
    refine h.moment rfl ?_ (hnumbers _) fun n msg' taken heq => ?_
    · rw [← List.isSome_find?]
      cases hfind : s.watchers.find? (·.watcherId = w.watcherId) with
      | none => exact h.leave hfind rfl rfl
      | some v =>
        have hid := List.find?_some hfind
        exact h.erase hfind rfl rfl (of_decide_eq_true hid)
    · cases heq
  | call i =>
    obtain ⟨c, hc, rfl⟩ := Option.map_eq_some_iff.mp ht
    obtain ⟨hi, rfl⟩ := List.getElem?_eq_some_iff.mp hc
    exact { h with made := (moved_perm hi s.calls).trans h.made }

theorem kept_start : Kept {} where
  ids := List.nodup_nil
  below := fun _ hw => absurd hw List.not_mem_nil
  list := rfl
  onceRemoved := List.nodup_nil
  known := fun _ hw => absurd hw List.not_mem_nil
  numbers := rfl
  earliest := eachAfter_nil _
  made := List.Perm.refl _

/-! ## What the turns tell -/

/-- The history, the list of those asleep and the calls, by the turns taken so far. -/
structure Told (turns : List WatchTurn) (s : Watching) : Prop where
  kept : Kept s
  moments : List.Forall₂ Records (turns.filter WatchTurn.locks) s.history
  counted : s.received = (turns.filterMap WatchTurn.message?).length
  numbered : s.counter = (turns.filterMap WatchTurn.awaited?).length
  awaited : (registered s.history ++ s.reserved).Perm (awaited turns)
  asleep : (timedOut s.history ++ s.sleeping).Perm (registered s.history)
  punctual : EachAfter Punctual s.history
  called : s.calls.length = turns.countP WatchTurn.isCall

theorem awaited_concat (turns : List WatchTurn) (w : MessageWatcher) :
    awaited (turns ++ [.await w]) = awaited turns ++ [⟨w, (turns.filterMap WatchTurn.awaited?).length⟩] := by
  simp [awaited, WatchTurn.awaited?, List.zipIdx_append]

theorem awaited_unchanged {turns : List WatchTurn} {a : WatchTurn} (ha : a.awaited? = none) :
    awaited (turns ++ [a]) = awaited turns := by
  rw [awaited, filterMap_unchanged ha, awaited]

variable {turns : List WatchTurn}

theorem told_start : Told [] {} where
  kept := kept_start
  moments := List.Forall₂.nil
  counted := rfl
  numbered := rfl
  awaited := List.Perm.refl _
  asleep := List.Perm.refl _
  punctual := eachAfter_nil _
  called := rfl

namespace Told

theorem recorded (hs : Told turns s) {a : WatchTurn} (ha : a.locks = true) (hx : Records a x) :
    List.Forall₂ Records ((turns ++ [a]).filter WatchTurn.locks) (s.history ++ [x]) := by
  rw [List.filter_append, List.filter_cons_of_pos ha]
  exact List.rel_append hs.moments (.cons hx .nil)

/-- Numbers are not given twice: the watcher found under the number of one asleep is that one. -/
theorem found_iff (hs : Told turns s) (hw : w ∈ s.sleeping) :
    s.watchers.any (·.watcherId = w.watcherId) = true ↔ w ∈ pending s.history := by
  rw [← hs.kept.list, List.any_eq_true]
  constructor
  · rintro ⟨v, hv, hid⟩
    have hregistered : w ∈ registered s.history :=
      hs.asleep.mem_iff.mp (List.mem_append_right _ hw)
    have hv' : v ∈ registered s.history := by
      rw [hs.kept.list] at hv
      exact List.mem_of_mem_filter hv
    have heq : v = w := List.inj_on_of_nodup_map hs.kept.registered_nodup hv' hregistered (of_decide_eq_true hid)
    exact heq ▸ hv
  · exact fun hmem => ⟨w, hmem, decide_eq_true rfl⟩

theorem await (hs : Told turns s) (w : MessageWatcher) (ht : watchTurn s (.await w) = some t) :
    Told (turns ++ [.await w]) t := by
  have hkept := watchTurn_kept hs.kept ht
  obtain rfl := Option.some.inj ht
  refine ⟨hkept, ?_, ?_, ?_, ?_, hs.asleep, hs.punctual, ?_⟩
  · simpa [WatchTurn.locks] using hs.moments
  · rw [filterMap_unchanged rfl]
    exact hs.counted
  · rw [filterMap_concat, List.length_append, ← hs.numbered]
    rfl
  · rw [awaited_concat, ← hs.numbered, ← List.append_assoc]
    exact hs.awaited.append_right _
  · simpa [WatchTurn.isCall] using hs.called

theorem register (hs : Told turns s) {i : ℕ} (ht : watchTurn s (.register i) = some t) :
    Told (turns ++ [.register i]) t := by
  have hkept := watchTurn_kept hs.kept ht
  obtain ⟨w, hw, rfl⟩ := Option.map_eq_some_iff.mp ht
  obtain ⟨hi, rfl⟩ := List.getElem?_eq_some_iff.mp hw
  have hregistered : registered (s.history ++ [.registered s.reserved[i]]) =
      registered s.history ++ [s.reserved[i]] := registered_concat _
  have htimed : timedOut (s.history ++ [.registered s.reserved[i]]) = timedOut s.history :=
    filterMap_unchanged rfl
  refine ⟨hkept, hs.recorded rfl (.register i _), ?_, ?_, ?_, ?_, ?_, ?_⟩
  · rw [filterMap_unchanged rfl]
    exact hs.counted
  · rw [filterMap_unchanged rfl]
    exact hs.numbered
  · rw [awaited_unchanged rfl, Watching.record_history, hregistered]
    have hmoved := moved_perm hi (registered s.history)
    exact (List.perm_append_comm.trans (hmoved.trans List.perm_append_comm)).trans hs.awaited
  · rw [Watching.record_history, hregistered, htimed, Watching.record_sleeping, ← List.append_assoc]
    exact hs.asleep.append_right _
  · exact eachAfter_concat.mpr ⟨hs.punctual, fun _ _ heq => by cases heq⟩
  · simpa [WatchTurn.isCall] using hs.called

theorem receive (hs : Told turns s) {msg : Events.Message} (ht : watchTurn s (.receive msg) = some t) :
    Told (turns ++ [.receive msg]) t := by
  have hkept := watchTurn_kept hs.kept ht
  obtain rfl := Option.some.inj ht
  have hregistered (taken : Option Watcher) :
      registered (s.history ++ [.received s.received msg taken]) = registered s.history :=
    filterMap_unchanged rfl
  have htimed (taken : Option Watcher) :
      timedOut (s.history ++ [.received s.received msg taken]) = timedOut s.history :=
    filterMap_unchanged rfl
  refine ⟨hkept, hs.recorded rfl (.receive msg _ _), ?_, ?_, ?_, ?_, ?_, ?_⟩
  · rw [filterMap_concat, List.length_append, ← hs.counted]
    rfl
  · rw [filterMap_unchanged rfl]
    exact hs.numbered
  · rw [awaited_unchanged rfl, Watching.record_history, hregistered]
    exact hs.awaited
  · rw [Watching.record_history, hregistered, htimed]
    exact hs.asleep
  · exact eachAfter_concat.mpr ⟨hs.punctual, fun _ _ heq => by cases heq⟩
  · simpa [WatchTurn.isCall] using hs.called

theorem timeout (hs : Told turns s) {i : ℕ} (ht : watchTurn s (.timeout i) = some t) :
    Told (turns ++ [.timeout i]) t := by
  have hkept := watchTurn_kept hs.kept ht
  obtain ⟨w, hw, rfl⟩ := Option.map_eq_some_iff.mp ht
  obtain ⟨hi, rfl⟩ := List.getElem?_eq_some_iff.mp hw
  have hregistered (triggered : Bool) :
      registered (s.history ++ [.timedOut s.sleeping[i] triggered]) = registered s.history :=
    filterMap_unchanged rfl
  have htimed (triggered : Bool) :
      timedOut (s.history ++ [.timedOut s.sleeping[i] triggered]) = timedOut s.history ++ [s.sleeping[i]] :=
    timedOut_concat _
  refine ⟨hkept, hs.recorded rfl (.timeout i _ _), ?_, ?_, ?_, ?_, ?_, ?_⟩
  · rw [filterMap_unchanged rfl]
    exact hs.counted
  · rw [filterMap_unchanged rfl]
    exact hs.numbered
  · rw [awaited_unchanged rfl, Watching.record_history, hregistered]
    exact hs.awaited
  · rw [Watching.record_history, hregistered, htimed]
    have hmoved := moved_perm hi (timedOut s.history)
    exact (List.perm_append_comm.trans (hmoved.trans List.perm_append_comm)).trans hs.asleep
  · refine eachAfter_concat.mpr ⟨hs.punctual, fun w triggered heq => ?_⟩
    cases heq
    exact hs.found_iff (List.getElem_mem hi)
  · simpa [WatchTurn.isCall] using hs.called

theorem call (hs : Told turns s) {i : ℕ} (ht : watchTurn s (.call i) = some t) :
    Told (turns ++ [.call i]) t := by
  have hkept := watchTurn_kept hs.kept ht
  obtain ⟨c, hc, rfl⟩ := Option.map_eq_some_iff.mp ht
  refine ⟨hkept, ?_, ?_, ?_, ?_, hs.asleep, hs.punctual, ?_⟩
  · simpa [WatchTurn.locks] using hs.moments
  · rw [filterMap_unchanged rfl]
    exact hs.counted
  · rw [filterMap_unchanged rfl]
    exact hs.numbered
  · rw [awaited_unchanged rfl]
    exact hs.awaited
  · simpa [WatchTurn.isCall] using hs.called

end Told

theorem watchTurn_told {a : WatchTurn} (hs : Told turns s) (ht : watchTurn s a = some t) : Told (turns ++ [a]) t := by
  cases a with
  | await w => exact hs.await w ht
  | register i => exact hs.register ht
  | receive msg => exact hs.receive ht
  | timeout i => exact hs.timeout ht
  | call i => exact hs.call ht

theorem run_told (hrun : runFrom watchTurn {} turns = some s) : Told turns s :=
  run_history (fun _ _ _ _ hs ht => watchTurn_told hs ht) told_start hrun

/-! ## The calls of a history -/

theorem removed_cons (x : Moment) (rest : List Moment) :
    removed (x :: rest) = x.removed?.toList ++ removed rest := by
  cases hx : x.removed? with
  | none => exact List.filterMap_cons_none hx
  | some w => exact List.filterMap_cons_some hx

theorem invoked_le_one {c : Call} {id : ℕ} (hc : c.invokes id = true → w.watcherId = id) :
    ([c].filter (·.invokes id)).length ≤ ([w].map Watcher.watcherId).count id := by
  cases hinvoked : c.invokes id with
  | false =>
    rw [List.filter_cons_of_neg (by simp [hinvoked])]
    exact Nat.zero_le _
  | true =>
    have hcount : ([w].map Watcher.watcherId).count id = 1 := by
      rw [List.map_singleton, hc hinvoked]
      exact List.count_singleton_self
    rw [hcount]
    exact List.length_filter_le _ _

theorem invoked_le_removed (h : List Moment) (id : ℕ) :
    ((h.flatMap Moment.calls).filter (·.invokes id)).length ≤ ((removed h).map Watcher.watcherId).count id := by
  induction h with
  | nil => exact le_rfl
  | cons x rest ih =>
    have hmoment : (x.calls.filter (·.invokes id)).length ≤ (x.removed?.toList.map Watcher.watcherId).count id := by
      cases x with
      | registered w => exact le_rfl
      | received n msg taken =>
        cases taken with
        | none => exact le_rfl
        | some w =>
          refine invoked_le_one fun hinvoked => ?_
          rw [answer] at hinvoked
          split_ifs at hinvoked
          · exact of_decide_eq_true hinvoked
          · cases hinvoked
      | timedOut w triggered =>
        cases triggered with
        | false => exact le_rfl
        | true =>
          rw [Moment.calls]
          split_ifs
          · exact invoked_le_one of_decide_eq_true
          · exact Nat.zero_le _
    rw [List.flatMap_cons, List.filter_append, List.length_append, removed_cons, List.map_append, List.count_append]
    exact Nat.add_le_add hmoment ih

theorem answer_about (n k : ℕ) (msg : Events.Message) (taken : Option Watcher) :
    (answer k msg taken).about n = decide (k = n) := by
  cases taken with
  | none => rfl
  | some w =>
    rw [answer]
    split_ifs <;> rfl

theorem calls_elsewhere {x : Moment} {n : ℕ} (hne : x.number? ≠ some n) :
    x.calls.filter (·.about n) = [] := by
  cases x with
  | registered w => rfl
  | received k msg taken =>
    have hk : ¬ k = n := fun heq => hne (congrArg some heq)
    rw [Moment.calls, List.filter_cons_of_neg (by rw [answer_about]; simpa using hk)]
    rfl
  | timedOut w triggered =>
    rw [Moment.calls]
    split_ifs <;> rfl

theorem calls_about {h : List Moment} {n : ℕ} {msg : Events.Message} {taken : Option Watcher}
    (hnumbers : (h.filterMap Moment.number?).Nodup) (hx : .received n msg taken ∈ h) :
    (h.flatMap Moment.calls).filter (·.about n) = [answer n msg taken] := by
  induction h with
  | nil => cases hx
  | cons x rest ih =>
    rw [List.flatMap_cons, List.filter_append]
    obtain rfl | hx := List.mem_cons.mp hx
    · have hfresh : n ∉ rest.filterMap Moment.number? := (List.nodup_cons.mp hnumbers).1
      have hrest : (rest.flatMap Moment.calls).filter (·.about n) = [] := by
        rw [List.filter_flatMap]
        refine List.flatMap_eq_nil_iff.mpr fun y hy => calls_elsewhere fun hn => ?_
        exact hfresh (List.mem_filterMap.mpr ⟨y, hy, hn⟩)
      rw [hrest, Moment.calls, List.filter_cons_of_pos (by rw [answer_about]; exact decide_eq_true rfl)]
      rfl
    · have hn : n ∈ rest.filterMap Moment.number? := List.mem_filterMap.mpr ⟨_, hx, rfl⟩
      cases hnumber : x.number? with
      | none =>
        rw [List.filterMap_cons_none hnumber] at hnumbers
        rw [calls_elsewhere (by simp [hnumber]), ih hnumbers hx]
        rfl
      | some k =>
        rw [List.filterMap_cons_some hnumber] at hnumbers
        obtain ⟨hk, hrest⟩ := List.nodup_cons.mp hnumbers
        have hne : k ≠ n := fun heq => hk (heq ▸ hn)
        rw [calls_elsewhere (by simpa [hnumber] using hne), ih hrest hx]
        rfl

theorem timedOut_of_nothing {h : List Moment} (hw : Call.nothing w ∈ h.flatMap Moment.calls) :
    .timedOut w true ∈ h := by
  obtain ⟨x, hx, hcall⟩ := List.mem_flatMap.mp hw
  cases x with
  | registered v => cases hcall
  | received n msg taken =>
    have habout := congrArg (Call.about n) (List.mem_singleton.mp hcall)
    rw [answer_about] at habout
    simp [Call.about] at habout
  | timedOut v triggered =>
    rw [Moment.calls] at hcall
    split_ifs at hcall with htriggered
    · obtain rfl := Call.nothing.inj (List.mem_singleton.mp hcall)
      rw [(Bool.and_eq_true_iff.mp htriggered).1] at hx
      exact hx
    · cases hcall

theorem removed_once {h : List Moment} (hnodup : ((removed h).map Watcher.watcherId).Nodup) {x y : Moment}
    (hx : x ∈ h) (hy : y ∈ h) (hv : x.removed? = some v) (hw : y.removed? = some w)
    (hid : v.watcherId = w.watcherId) : x = y := by
  by_contra hne
  have hpairs := List.pairwise_filterMap.mp (List.pairwise_map.mp hnodup)
  have : Std.Symm fun x y : Moment => ∀ a, x.removed? = some a → ∀ b, y.removed? = some b →
      a.watcherId ≠ b.watcherId := ⟨fun _ _ h a ha b hb heq => h b hb a ha heq.symm⟩
  exact hpairs.forall hx hy hne v hv w hw hid

/-- The listener as one step of a handler thread leaves the same list behind. -/
theorem onMessage_watchers {u : Setup} {env : Surroundings} {b : Bot} {msg : Events.Message}
    (hb : b.watchers = s.watchers.map Watcher.toMessageWatcher) (ht : watchTurn s (.receive msg) = some t) :
    (onMessage u env msg b).1.watchers = t.watchers.map Watcher.toMessageWatcher := by
  obtain rfl := Option.some.inj ht
  have herase : (s.watchers.eraseP (·.wants msg)).map Watcher.toMessageWatcher = b.watchers.eraseP (·.wants msg) := by
    rw [hb, List.eraseP_map]
    rfl
  refine Eq.trans ?_ herase.symm
  rw [onMessage]
  cases hfind : b.watchers.find? (·.wants msg) with
  | none => exact (List.eraseP_of_forall_not (List.find?_eq_none.mp hfind)).symm
  | some w =>
    simp only
    cases w.callback <;> rfl

/-- In any order of registrations, messages and time-outs. -/
theorem await_message_once (turns : List WatchTurn) (s : Watching)
    (hrun : runFrom watchTurn {} turns = some s) :
    ((registered s.history).map Watcher.watcherId).Nodup ∧
    (∀ id, (s.calls.filter (·.invokes id)).length ≤ 1) ∧
    (∀ w, Call.nothing w ∈ s.calls → ∀ n msg w', Moment.received n msg (some w') ∈ s.history →
      w'.watcherId ≠ w.watcherId) ∧
    (∀ before n msg taken after, s.history = before ++ .received n msg taken :: after →
      taken = (pending before).find? fun w =>
        w.channelId = msg.channelId && (w.userId = "" || w.userId = msg.author.id)) ∧
    (∀ n msg taken, Moment.received n msg taken ∈ s.history →
      (s.due ++ s.calls).filter (·.about n) =
        [match taken.filter (·.callback.isSome) with
          | some w => .message w n msg
          | none => .command n msg]) ∧
    -- each turn under the lock is one moment of the history, the messages numbered as they come in
    List.Forall₂ Records (turns.filter WatchTurn.locks) s.history ∧
    s.history.filterMap Moment.number? = List.range (turns.filterMap WatchTurn.message?).length ∧
    -- each watcher asked for is registered or will be, and each one registered times out or will
    (registered s.history ++ s.reserved).Perm (awaited turns) ∧
    (timedOut s.history ++ s.sleeping).Perm (registered s.history) ∧
    (∀ before w triggered after, s.history = before ++ .timedOut w triggered :: after →
      (triggered = true ↔ w ∈ pending before)) ∧
    -- each call that a moment asks for has been made or will be
    (s.due ++ s.calls).Perm (s.history.flatMap Moment.calls) ∧
    s.calls.length = turns.countP WatchTurn.isCall ∧
    (∀ w ∈ s.reserved, ∃ i t, watchTurn s (.register i) = some t ∧ t.history = s.history ++ [.registered w]) ∧
    (∀ w ∈ s.sleeping, ∃ i t triggered, watchTurn s (.timeout i) = some t ∧
      t.history = s.history ++ [.timedOut w triggered]) ∧
    (∀ c ∈ s.due, ∃ i t, watchTurn s (.call i) = some t ∧ t.calls = s.calls ++ [c]) := by
  have htold := run_told hrun
  have hs := htold.kept
  have hnumbers : s.history.filterMap Moment.number? = List.range (turns.filterMap WatchTurn.message?).length :=
    hs.numbers.trans (congrArg List.range htold.counted)
  refine ⟨hs.registered_nodup, fun id => ?_, fun w hw n msg w' hreceived hid => ?_, ?_, fun n msg taken hx => ?_,
    htold.moments, hnumbers, htold.awaited, htold.asleep, ?_, hs.made, htold.called, fun w hw => ?_, fun w hw => ?_,
    fun c hc => ?_⟩
  · have hcalls : (s.calls.filter (·.invokes id)).length ≤ ((s.due ++ s.calls).filter (·.invokes id)).length :=
      (List.Sublist.filter _ (List.sublist_append_right _ _)).length_le
    have hmade := (hs.made.filter (·.invokes id)).length_eq
    have hremoved := invoked_le_removed s.history id
    have hone := List.nodup_iff_count_le_one.mp hs.onceRemoved id
    omega
  · have hmade := hs.made.mem_iff.mp (List.mem_append_right s.due hw)
    have htimed := timedOut_of_nothing hmade
    cases removed_once hs.onceRemoved hreceived htimed rfl rfl hid
  · intro before n msg taken after heq
    exact hs.earliest before _ after heq n msg taken rfl
  · have hnodup : (s.history.filterMap Moment.number?).Nodup := by
      rw [hs.numbers]
      exact List.nodup_range
    have hmade := hs.made.filter (·.about n)
    rw [calls_about hnodup hx, answer_eq] at hmade
    exact List.perm_singleton.mp hmade
  · intro before w triggered after heq
    exact htold.punctual before _ after heq w triggered rfl
  · obtain ⟨i, hi⟩ := List.getElem?_of_mem hw
    exact ⟨i, _, congrArg (Option.map _) hi, rfl⟩
  · obtain ⟨i, hi⟩ := List.getElem?_of_mem hw
    exact ⟨i, _, _, congrArg (Option.map _) hi, rfl⟩
  · obtain ⟨i, hi⟩ := List.getElem?_of_mem hc
    exact ⟨i, _, congrArg (Option.map _) hi, rfl⟩

def inChannel : Events.Message := Events.Message.fromJson (.obj [("channel", .str "c")])

/-- Two watchers for one channel, registered the other way around: the message goes to the one
registered first, the other's time is up, and the next message is a command. -/
def raced : List WatchTurn :=
  [.await ⟨"c", "", some fun _ => true⟩, .await ⟨"c", "", some fun _ => false⟩, .register 1, .register 0,
    .receive inChannel, .timeout 1, .timeout 0, .receive inChannel, .call 0, .call 0, .call 0]

theorem raced_called : ∃ s, runFrom watchTurn {} raced = some s ∧
    s.calls = [.message ⟨⟨"c", "", some fun _ => false⟩, 1⟩ 0 inChannel,
      .nothing ⟨⟨"c", "", some fun _ => true⟩, 0⟩, .command 1 inChannel] ∧
    (s.due ++ s.calls).Perm (s.history.flatMap Moment.calls) ∧
    (∀ id, (s.calls.filter (·.invokes id)).length ≤ 1) := by
  obtain ⟨-, honce, -, -, -, -, -, -, -, -, hmade, -⟩ := await_message_once raced _ rfl
  exact ⟨_, rfl, rfl, hmade, honce⟩

end Stoatpp.Cluster
