import Numaflow.Reduce.Unaligned.Session
import Numaflow.Reduce.Wal.Segment

/-!
# The session path of the reduce task

The task receives the responses of the SDK.  The window of an EOF response is
tracked until the next tick of the batch timer, which writes a GC event for every
tracked window and deletes it from the manager.  The tracked windows are a hash
map from the key vector to the window, so the EOF of a second window of a key
replaces the first one, which is then neither collected nor deleted.

The manager is shared with the reducer, which assigns messages and closes
windows between the responses.

Main results: `Tracked.step`, `tick_collects`.
-/

namespace Numaflow.Unaligned

open Lib SessionWindowManager Wal HashMap List AList

/-- The GC event of a window. -/
def Window.gcEvent (window : Window) : GcEvent :=
  ⟨some (prostTimestampFromUtc window.startTime), some (prostTimestampFromUtc window.endTime),
    window.keys⟩

/-- Different windows have different GC events. -/
theorem Window.gcEvent_injective {v w : Window} (h : v.gcEvent = w.gcEvent) : v = w := by
  have hentry := congrArg GcEvent.toEntry h
  cases v
  cases w
  simpa [gcEvent, GcEvent.toEntry] using hentry

/-- The part of the reduce task that survives between two responses. -/
structure ReduceTask where
  hasGcWal : Bool
  trackedWindows : HashMap (List String) Window

namespace ReduceTask

/-- A task that has received nothing. -/
def new (hasGcWal : Bool) : ReduceTask :=
  ⟨hasGcWal, ∅⟩

/-- Track the window of an EOF response. -/
def track (task : ReduceTask) (window : Window) : ReduceTask :=
  { task with trackedWindows := task.trackedWindows.insert window.keys window }

/-- The GC events of the tracked windows, when a GC WAL is configured. -/
def writeGcEvents (task : ReduceTask) (order : List (List String)) : List GcEvent :=
  if task.hasGcWal then
    (HashMap.iterIn order task.trackedWindows).map fun e => Window.gcEvent e.2
  else []

/-- The tracked windows in the order in which they are drained. -/
def drained (task : ReduceTask) (order : List (List String)) : List Window :=
  (HashMap.iterIn order task.trackedWindows).map fun e => e.2

/-- Delete all tracked windows from the manager `m`. -/
def deleteTrackedWindows {μ : Type} (task : ReduceTask) (deleteWindow : μ → Window → μ) (m : μ)
    (order : List (List String)) : ReduceTask × μ :=
  ({ task with trackedWindows := ∅ }, (task.drained order).foldl deleteWindow m)

end ReduceTask

/-- What happens to the task and to the manager that it shares with the reducer.
The final flush is a tick after which no response arrives. -/
inductive SessionEvent where
  | assign (msg : Message)
  | close (order : List String) (watermark : Int)
  | eof (window : Window)
  | result (msg : Message)
  | tick (gcOrder drainOrder : List (List String))
deriving DecidableEq, Repr

/-- The task and the manager, with everything the task has done: the results and
the GC events it wrote and the windows it deleted.  The windows whose EOF was
received are in `received`, and in `answered` as long as they are not
closed again. -/
structure SessionTaskRun where
  task : ReduceTask
  manager : SessionWindowManager
  results : List Message
  gcEvents : List GcEvent
  deletes : List Window
  received : List Window
  answered : List Window

namespace SessionTaskRun

/-- A new task next to a manager without windows. -/
def init (timeout : Nat) (hasGcWal : Bool) : SessionTaskRun :=
  ⟨ReduceTask.new hasGcWal, SessionWindowManager.new timeout, [], [], [], [], []⟩

/-- Perform one event. -/
def step (s : SessionTaskRun) : SessionEvent → SessionTaskRun
  | .assign msg => { s with manager := (s.manager.assignWindows msg).1 }
  | .close order watermark =>
    let closed := s.manager.closeWindows order watermark
    { s with
      manager := closed.1
      answered := s.answered.filter fun w => decide (w ∉ closedBy closed.2) }
  | .eof window =>
    { s with
      task := s.task.track window
      received := s.received ++ [window]
      answered := s.answered ++ [window] }
  | .result msg => { s with results := s.results ++ [msg] }
  | .tick gcOrder drainOrder =>
    let deleted := s.task.deleteTrackedWindows deleteWindow s.manager drainOrder
    { s with
      task := deleted.1
      manager := deleted.2
      gcEvents := s.gcEvents ++ s.task.writeGcEvents gcOrder
      deletes := s.deletes ++ s.task.drained drainOrder }

/-- No other window of the key vector is tracked when an EOF arrives, and the
window was not deleted before. -/
def Clear (s : SessionTaskRun) : SessionEvent → Prop
  | .eof window =>
    (∀ w ∈ s.task.trackedWindows.lookup window.keys, w = window) ∧ window ∉ s.deletes
  | _ => True

instance (s : SessionTaskRun) : (e : SessionEvent) → Decidable (s.Clear e) := fun _ => by
  unfold Clear
  split <;> infer_instance

/-- Every received window was deleted once and collected once, and none of them
is left among the closed windows. -/
def Collected (s : SessionTaskRun) : Prop :=
  (∀ w ∈ s.received, s.deletes.count w = 1 ∧
    (s.task.hasGcWal = true → s.gcEvents.count w.gcEvent = 1)) ∧
  ∀ w ∈ s.answered, w ∉ s.manager.closedWindows

end SessionTaskRun

/-! ## Deleting windows -/

variable {w window : Window}

namespace SessionWindowManager

variable {m : SessionWindowManager}

/-- Deleting windows leaves the closed windows whose end time is not deleted. -/
theorem mem_closedWindows_delete {windows : List Window} :
    w ∈ (windows.foldl deleteWindow m).closedWindows ↔
      w ∈ m.closedWindows ∧ ∀ v ∈ windows, w.endTime ≠ v.endTime := by
  induction windows generalizing m with
  | nil => simp
  | cons v _ ih =>
    rw [foldl_cons, ih, deleteWindow]
    simp [and_assoc]

end SessionWindowManager

namespace ReduceTask

variable {task : ReduceTask}

/-- The tracked windows are filed under their own keys. -/
def Keyed (task : ReduceTask) : Prop :=
  ∀ e ∈ task.trackedWindows.entries, e.2.keys = e.1

theorem mem_drained (hkeyed : task.Keyed) (order : List (List String)) :
    w ∈ task.drained order ↔ task.trackedWindows.lookup w.keys = some w := by
  unfold drained
  rw [mem_map]
  constructor
  · intro h
    rcases h with ⟨e, he, rfl⟩
    have he := mem_iterIn.mp he
    apply mem_lookup_iff.mpr
    rw [hkeyed e he]
    exact he
  · intro h
    exact ⟨⟨w.keys, w⟩, mem_iterIn.mpr (mem_lookup_iff.mp h), rfl⟩

theorem nodup_drained (hkeyed : task.Keyed) (order : List (List String)) :
    (task.drained order).Nodup := by
  refine (nodup_iterIn order task.trackedWindows).map_on ?_
  intro e he e' he' heq
  have hkey := hkeyed e (mem_iterIn.mp he)
  have hkey' := hkeyed e' (mem_iterIn.mp he')
  refine Sigma.ext ?_ (heq_of_eq heq)
  rw [← hkey, ← hkey', heq]

/-- The GC events of a tick are those of the windows that it deletes. -/
theorem writeGcEvents_perm (hgc : task.hasGcWal = true) (gcOrder drainOrder : List (List String)) :
    (task.writeGcEvents gcOrder).Perm ((task.drained drainOrder).map Window.gcEvent) := by
  have hperm : (iterIn gcOrder task.trackedWindows).Perm (iterIn drainOrder task.trackedWindows) :=
    (iterIn_perm gcOrder _).trans (iterIn_perm drainOrder _).symm
  unfold writeGcEvents drained
  rw [if_pos hgc, map_map]
  exact hperm.map _

variable {e : (_ : List String) × Window} {order : List (List String)} {event : GcEvent}

/-- Tracking a window adds only that window. -/
theorem mem_track (he : e ∈ (task.track window).trackedWindows.entries) :
    e = ⟨window.keys, window⟩ ∨ e ∈ task.trackedWindows.entries := by
  have hlook : (task.trackedWindows.insert window.keys window).lookup e.1 = some e.2 :=
    mem_lookup_iff.mpr he
  by_cases hkey : e.1 = window.keys
  · rw [hkey, lookup_insert, Option.some.injEq] at hlook
    exact .inl (Sigma.ext hkey (heq_of_eq hlook.symm))
  · rw [lookup_insert_ne hkey] at hlook
    exact .inr (mem_lookup_iff.mp hlook)

theorem keyed_track (hkeyed : task.Keyed) (window : Window) : (task.track window).Keyed := by
  intro e he
  rcases mem_track he with rfl | he
  · rfl
  · exact hkeyed e he

/-- GC events are written for tracked windows only. -/
theorem mem_writeGcEvents (h : event ∈ task.writeGcEvents order) :
    ∃ e ∈ task.trackedWindows.entries, event = Window.gcEvent e.2 := by
  unfold writeGcEvents at h
  split_ifs at h
  · rcases mem_map.mp h with ⟨e, he, rfl⟩
    exact ⟨e, mem_iterIn.mp he, rfl⟩
  · exact absurd h not_mem_nil

end ReduceTask

/-! ## Runs -/

open ReduceTask

namespace SessionTaskRun

/-- What is known between the ticks: a received window is tracked or was deleted,
no window is deleted twice, and the GC events are those of the deleted windows. -/
structure Tracked (s : SessionTaskRun) : Prop where
  keyed : s.task.Keyed
  received : ∀ w ∈ s.received, s.task.trackedWindows.lookup w.keys = some w ∨ w ∈ s.deletes
  nodup : s.deletes.Nodup
  fresh : ∀ e ∈ s.task.trackedWindows.entries, e.2 ∉ s.deletes
  gc : s.task.hasGcWal = true → s.gcEvents.Perm (s.deletes.map Window.gcEvent)
  answered : ∀ w ∈ s.answered,
    s.task.trackedWindows.lookup w.keys = some w ∨ w ∉ s.manager.closedWindows

namespace Tracked

variable {s : SessionTaskRun}

theorem init (timeout : Nat) (hasGcWal : Bool) : (init timeout hasGcWal).Tracked := by
  constructor <;> simp [SessionTaskRun.init, ReduceTask.new, ReduceTask.Keyed]

/-- An EOF whose key vector has no other tracked window. -/
theorem eof (h : s.Tracked) (hclear : (∀ w ∈ s.task.trackedWindows.lookup window.keys, w = window) ∧
      window ∉ s.deletes) : (s.step (.eof window)).Tracked := by
  have hself : (s.task.track window).trackedWindows.lookup window.keys = some window :=
    lookup_insert _
  -- a window that is tracked stays tracked, because only the same window replaces it
  have hkeep : ∀ w : Window, s.task.trackedWindows.lookup w.keys = some w →
      (s.task.track window).trackedWindows.lookup w.keys = some w := by
    intro w hw
    by_cases hkey : w.keys = window.keys
    · rw [hkey] at hw
      rw [hclear.1 w hw]
      exact hself
    · rw [track, lookup_insert_ne hkey]
      exact hw
  refine ⟨keyed_track h.keyed window, ?_, h.nodup, ?_, h.gc, ?_⟩
  · intro w hw
    rcases mem_append.mp hw with hw | hw
    · rcases h.received w hw with hlook | hdel
      · exact .inl (hkeep w hlook)
      · exact .inr hdel
    · rw [mem_singleton] at hw
      rw [hw]
      exact .inl hself
  · intro e he
    have hlook : (s.task.track window).trackedWindows.lookup e.1 = some e.2 := mem_lookup_iff.mpr he
    by_cases hkey : e.1 = window.keys
    · rw [hkey, hself, Option.some.injEq] at hlook
      rw [← hlook]
      exact hclear.2
    · rw [track, lookup_insert_ne hkey] at hlook
      exact h.fresh e (mem_lookup_iff.mp hlook)
  · intro w hw
    rcases mem_append.mp hw with hw | hw
    · rcases h.answered w hw with hlook | hgone
      · exact .inl (hkeep w hlook)
      · exact .inr hgone
    · rw [mem_singleton] at hw
      rw [hw]
      exact .inl hself

/-- A tick deletes and collects what is tracked. -/
theorem tick (h : s.Tracked) (gcOrder drainOrder : List (List String)) :
    (s.step (.tick gcOrder drainOrder)).Tracked := by
  have hdrained := fun w => mem_drained (w := w) h.keyed drainOrder
  refine ⟨?_, ?_, ?_, ?_, ?_, ?_⟩
  · intro e he
    exact absurd he not_mem_nil
  · intro w hw
    refine .inr (mem_append.mpr ?_)
    rcases h.received w hw with hlook | hdel
    · exact .inr ((hdrained w).mpr hlook)
    · exact .inl hdel
  · refine nodup_append.mpr ⟨h.nodup, nodup_drained h.keyed drainOrder, ?_⟩
    intro w hw v hv heq
    rw [← heq] at hv
    exact h.fresh ⟨w.keys, w⟩ (mem_lookup_iff.mp ((hdrained w).mp hv)) hw
  · intro e he
    exact absurd he not_mem_nil
  · intro hgc
    have hgc : s.task.hasGcWal = true := hgc
    have hevents := (h.gc hgc).append (writeGcEvents_perm hgc gcOrder drainOrder)
    rw [← map_append] at hevents
    exact hevents
  · intro w hw
    refine .inr ?_
    intro hmem
    rcases mem_closedWindows_delete.mp hmem with ⟨hmem, hends⟩
    rcases h.answered w hw with hlook | hgone
    · exact hends w ((hdrained w).mpr hlook) rfl
    · exact hgone hmem

/-- Every admitted event keeps what is known. -/
theorem step (e : SessionEvent) (h : s.Tracked) (hclear : s.Clear e) : (s.step e).Tracked := by
  cases e with
  | assign =>
    refine ⟨h.keyed, h.received, h.nodup, h.fresh, h.gc, ?_⟩
    intro w hw
    rcases h.answered w hw with hlook | hgone
    · exact .inl hlook
    · refine .inr ?_
      simpa [SessionTaskRun.step] using hgone
  | close =>
    refine ⟨h.keyed, h.received, h.nodup, h.fresh, h.gc, ?_⟩
    intro w hw
    rcases mem_filter.mp hw with ⟨hw, hopen⟩
    rcases h.answered w hw with hlook | hgone
    · exact .inl hlook
    · refine .inr ?_
      intro hmem
      rcases mem_closedWindows_closeWindows hmem with hold | hnew
      · exact hgone hold
      · exact of_decide_eq_true hopen hnew
  | eof => exact h.eof hclear
  | result => exact ⟨h.keyed, h.received, h.nodup, h.fresh, h.gc, h.answered⟩
  | tick gcOrder drainOrder => exact h.tick gcOrder drainOrder

/-- When nothing is tracked, everything received was collected. -/
theorem collected (h : s.Tracked) (hempty : s.task.trackedWindows = ∅) : s.Collected := by
  constructor
  · intro w hw
    have hdel : w ∈ s.deletes := by
      rcases h.received w hw with hlook | hdel
      · rw [hempty] at hlook
        simp at hlook
      · exact hdel
    have hcount := count_eq_one_of_mem h.nodup hdel
    refine ⟨hcount, ?_⟩
    intro hgc
    rw [(h.gc hgc).count_eq, count_map_of_injective _ _ (fun _ _ => Window.gcEvent_injective),
      hcount]
  · intro w hw
    rcases h.answered w hw with hlook | hgone
    · rw [hempty] at hlook
      simp at hlook
    · exact hgone

end Tracked

/-- After a tick every window whose EOF was received was collected once and
deleted once, in every run in which no EOF replaces a tracked window. -/
theorem tick_collects {timeout : Nat} {hasGcWal : Bool} {events : List SessionEvent}
    {gcOrder drainOrder : List (List String)}
    (hrun : Along Clear step (init timeout hasGcWal) (events ++ [.tick gcOrder drainOrder])) :
    (exec step (init timeout hasGcWal) (events ++ [.tick gcOrder drainOrder])).Collected := by
  have htracked := exec_invariant (fun _ e h hclear => Tracked.step e h hclear)
    (Tracked.init timeout hasGcWal) hrun
  apply htracked.collected
  rw [exec_append]
  rfl

/-- Windows of two keys and a second window of the first key after a tick. -/
def orderlyEvents : List SessionEvent :=
  [.assign { keys := ["a"], eventTime := 0 },
    .assign { keys := ["b"], eventTime := 1000000 },
    .close [] 20000000,
    .eof ⟨1000000, 11000000, ["b"]⟩,
    .eof ⟨0, 10000000, ["a"]⟩,
    .tick [] [["b"]],
    .assign { keys := ["a"], eventTime := 30000000 },
    .close [] 50000000,
    .eof ⟨30000000, 40000000, ["a"]⟩]

theorem orderlyEvents_collected :
    (exec step (init 10000000 true) (orderlyEvents ++ [.tick [] []])).Collected :=
  tick_collects (by decide)

/-- Two windows of one key end between two ticks. -/
def sameKeyEvents : List SessionEvent :=
  [.assign { keys := ["a"], eventTime := 0 },
    .assign { keys := ["a"], eventTime := 20000000 },
    .close [] 50000000,
    .eof ⟨0, 10000000, ["a"]⟩,
    .eof ⟨20000000, 30000000, ["a"]⟩]

/-- The first window is never deleted and stays among the closed windows. -/
theorem sameKeyEvents_not_collected :
    ¬ (exec step (init 10000000 true) (sameKeyEvents ++ [.tick [] []])).Collected := by
  intro h
  have hreceived : (⟨0, 10000000, ["a"]⟩ : Window) ∈
      (exec step (init 10000000 true) (sameKeyEvents ++ [.tick [] []])).received := by
    decide
  have hcount := (h.1 _ hreceived).1
  exact absurd hcount (by decide)

end SessionTaskRun

end Numaflow.Unaligned
